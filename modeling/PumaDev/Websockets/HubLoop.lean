import PumaDev.Websockets.HubSafety

/-!
# The hub in any environment

`hubMachine` moves the goroutines that the program has.  `Hub.Run` relies on less than
they do, and `hubLoop` keeps only that: connections appear, and a client is registered
at most once; anybody may unregister anybody, registered or not, as often as he likes;
and the record of a client may change in any way that neither closes nor opens its
channels.  The last covers every pace at which `send` is drained, every answer that is
put there by others, and every change of the subscriptions.

A step of the program that does not panic is a run of `hubLoop` (`exec_of_step`), so that
what holds in all runs of `hubLoop` holds in the program.

The result is about the hub's set of clients: it is the set of the registered clients
whose `send` is open (`membership`), up to and including a stop.
-/

namespace PumaDev

namespace Websockets

/-! ## The machine -/

/-- A step of the hub, or something that happens around it. -/
inductive LoopLabel where
  /-- There is a connection, with its client. -/
  | serve (onMessage : Bool) (subscriptions : List GoString)
  /-- The hub receives a client from `register`, for the first time. -/
  | register (c : ClientId)
  /-- The hub receives a client from `unregister`. -/
  | unregister (c : ClientId)
  /-- The hub receives a message from `send`. -/
  | broadcast (message : Message)
  /-- The hub receives from `stop`. -/
  | stop
  /-- The hub's next step on its own; where it ranges over clients, with `pick`. -/
  | hub (pick : ClientId)
  /-- Anything else that happens to a client. -/
  | change (c : ClientId) (k : Client)

namespace Client

instance (k k' : Client) : Decidable (k.Alike k') :=
  decidable_of_iff ((k'.reader = .unborn ↔ k.reader = .unborn) ∧
      (k.listener = .unborn → k'.listener = .unborn) ∧
      k'.recv.map Chan.closed = k.recv.map Chan.closed ∧ k'.send.closed = k.send.closed)
    ⟨fun ⟨reader, listener, recv, send⟩ => ⟨reader, listener, recv, send⟩,
      fun alike => ⟨alike.reader, alike.listener, alike.recv, alike.send⟩⟩

end Client

namespace State

/-- The hub receives in its select, and goes on from there. -/
def receives (s t : State) : Option State := if s.pc = .run .select then some t else none

/-- One step; `none` when it is not enabled. -/
def loopStep (s : State) : LoopLabel → Option State
  | .serve onMessage subscriptions =>
      some { s with conns := s.conns ++ [.new onMessage subscriptions] }
  | .register c =>
      s.conns[c]?.bind fun k =>
        if k.reader = .unborn then s.receives ({ s with pc := .insert c }.setClient c k.started)
        else none
  | .unregister c => s.receives { s with pc := .check c }
  | .broadcast message => s.receives { s with pc := .run (.broadcast message s.members) }
  | .stop => s.receives { s with pc := .closeShared [.register, .unregister, .send, .stop] }
  | .hub pick => s.hubStep pick
  | .change c k' =>
      s.conns[c]?.bind fun k => if k.Alike k' then some (s.setClient c k') else none

end State

/-- A hub whose `Run` has just been entered, in any environment. -/
def hubLoop : Machine State LoopLabel where
  init := ⟨[], .run .select, [], [], none⟩
  step := State.loopStep

/-- **What one step does**, in an orderly state. -/
inductive LoopMove (s : State) : LoopLabel → State → Prop
  | served (onMessage : Bool) (subscriptions : List GoString) :
      LoopMove s (.serve onMessage subscriptions)
        { s with conns := s.conns ++ [.new onMessage subscriptions] }
  | registered {c : ClientId} {k : Client} (ready : s.pc = .run .select)
      (hk : s.conns[c]? = some k) (start : k.reader = .unborn) :
      LoopMove s (.register c) ({ s with pc := .insert c }.setClient c k.started)
  | unregistered (c : ClientId) (ready : s.pc = .run .select) :
      LoopMove s (.unregister c) { s with pc := .check c }
  | broadcast (message : Message) (ready : s.pc = .run .select) :
      LoopMove s (.broadcast message) { s with pc := .run (.broadcast message s.members) }
  | stopped (ready : s.pc = .run .select) :
      LoopMove s .stop { s with pc := .closeShared [.register, .unregister, .send, .stop] }
  | hub {pick : ClientId} {t : State} (move : HubMove s pick t) : LoopMove s (.hub pick) t
  | changed {c : ClientId} {k k' : Client} (hk : s.conns[c]? = some k) (alike : k.Alike k') :
      LoopMove s (.change c k') (s.setClient c k')

namespace State

variable {s t : State} {l : LoopLabel} {c : ClientId}

theorem receives_eq_some_iff {next : State} :
    s.receives next = some t ↔ s.pc = .run .select ∧ next = t := by
  simp [receives]

theorem loop_cases (h : s.Orderly) (step : hubLoop.step s l = some t) : LoopMove s l t := by
  cases l with
  | serve onMessage subscriptions =>
      cases step
      exact .served onMessage subscriptions
  | register c =>
      obtain ⟨k, hk, rest⟩ := Option.bind_eq_some_iff.mp step
      split at rest
      · next start =>
          obtain ⟨ready, rfl⟩ := receives_eq_some_iff.mp rest
          exact .registered ready hk start
      · cases rest
  | unregister c =>
      obtain ⟨ready, rfl⟩ := receives_eq_some_iff.mp step
      exact .unregistered c ready
  | broadcast message =>
      obtain ⟨ready, rfl⟩ := receives_eq_some_iff.mp step
      exact .broadcast message ready
  | stop =>
      obtain ⟨ready, rfl⟩ := receives_eq_some_iff.mp step
      exact .stopped ready
  | hub pick => exact .hub (hubMove_of_step h step)
  | change c k' =>
      obtain ⟨k, hk, rest⟩ := Option.bind_eq_some_iff.mp step
      split at rest
      · next alike =>
          cases rest
          exact .changed hk alike
      · cases rest

/-- **A step** keeps the invariant. -/
theorem Orderly.of_loopMove (h : s.Orderly) (move : LoopMove s l t) : t.Orderly := by
  cases move with
  | served onMessage subscriptions => exact h.serve onMessage subscriptions
  | registered ready hk start => exact h.of_clientMove (.registered ready hk start)
  | unregistered c ready => exact h.turns ready trivial fun _ => by simp
  | broadcast message ready => exact h.turns ready (fun _ mem => mem) fun _ => by simp
  | stopped ready => exact h.turns ready trivial fun _ => by simp
  | hub move => exact h.of_hubMove move
  | changed hk alike => exact h.setClient hk alike

theorem fault_of_loopMove (move : LoopMove s l t) : t.fault = s.fault := by
  cases move with
  | hub move => exact fault_of_hubMove move
  | _ => rfl

/-! ## The program's hub -/

/-- **A step of the program** that does not panic is a run of the hub in its
environment. -/
theorem exec_of_step {l : Label} (h : s.Orderly) (step : s.step l = some t)
    (safe : t.fault = none) : ∃ ls, hubLoop.exec s ls = some t := by
  have one : ∀ l, hubLoop.step s l = some t → ∃ ls, hubLoop.exec s ls = some t :=
    fun l step => ⟨[l], by rw [hubLoop.exec_of_step step, Machine.exec_nil]⟩
  obtain ⟨alive, ⟨pick, rfl, -⟩ | ⟨-, ⟨fault, -, rfl⟩ | ⟨-, move⟩⟩⟩ := step_cases h step
  · have moves : s.hubStep pick = some t := by simpa [State.step, alive] using step
    exact one (.hub pick) moves
  · cases safe
  · cases move with
    | served onMessage subscriptions => exact one (.serve onMessage subscriptions) rfl
    | @changed l c k k' silent hk alike =>
        exact one (.change c k') (by simp [hubLoop, loopStep, hk, alike])
    | @registered c k ready hk start =>
        exact one (.register c) (by simp [hubLoop, loopStep, hk, start, receives, ready])
    | @unregistered l c k k' ready hk alike =>
        -- what the goroutine does to its client, and what the hub receives, are two steps here
        have first : hubLoop.step s (.change c k') = some (s.setClient c k') := by
          simp [hubLoop, loopStep, hk, alike]
        have second : hubLoop.step (s.setClient c k') (.unregister c) =
            some ({ s with pc := .check c }.setClient c k') := if_pos ready
        refine ⟨[.change c k', .unregister c], ?_⟩
        rw [hubLoop.exec_of_step first, hubLoop.exec_of_step second, Machine.exec_nil]
    | broadcast data tags ready => exact one (.broadcast ⟨oneLine data, tags⟩) (if_pos ready)
    | stopped ready => exact one .stop (if_pos ready)

/-- **The program's hub is a hub in some environment**: a state of the program that no
panic has led to is a state of a run of `hubLoop`. -/
theorem exec_of_visited (ls : List Label) :
    ∀ t ∈ hubMachine.visited hubMachine.init ls, t.fault = none →
      ∃ ls', hubLoop.exec hubLoop.init ls' = some t := by
  have reached : ∀ t ∈ hubMachine.visited hubMachine.init ls, t.Orderly ∧
      (t.fault = none → ∃ ls', hubLoop.exec hubLoop.init ls' = some t) := by
    refine hubMachine.inv_of_step (fun s l t inv step => ⟨(inv.1.of_step step).1, fun safe => ?_⟩)
      ls ⟨orderly_init, fun _ => ⟨[], rfl⟩⟩
    obtain ⟨before, first⟩ := inv.2 (step_cases inv.1 step).1
    obtain ⟨after, rest⟩ := exec_of_step inv.1 step safe
    exact ⟨before ++ after, by rw [hubLoop.exec_append, first, Option.bind_some, rest]⟩
  exact fun t mem => (reached t mem).2

/-! ## The hub's set of clients -/

/-- The client has been sent to `register`. -/
def Registered (s : State) (c : ClientId) : Prop :=
  ∃ k ∈ s.conns[c]?, k.reader ≠ .unborn

/-- The client's `send` is not closed. -/
def SendOpen (s : State) (c : ClientId) : Prop :=
  ∃ k ∈ s.conns[c]?, k.send.closed = false

/-- The client's channels are closed. -/
def Closed (s : State) (c : ClientId) : Prop :=
  ∃ k ∈ s.conns[c]?, k.send.closed = true ∧ ∀ recv ∈ k.recv, recv.closed = true

/-- A registered client is open exactly as long as the hub has its closing before it. -/
theorem Orderly.open_iff (h : s.Orderly) :
    s.SendDue c ↔ s.Registered c ∧ s.SendOpen c := by
  constructor
  · intro due
    have present := h.known c due
    have hk := List.getElem?_eq_getElem present
    exact ⟨⟨_, hk, (h.clients c _ hk).born due⟩, ⟨_, hk, h.send_open hk due⟩⟩
  · rintro ⟨⟨k, hk, born⟩, ⟨k', hk', isOpen⟩⟩
    have same : k = k' := Option.some.inj (hk.symm.trans hk')
    subst same
    exact ((h.clients c k hk).send.mp isOpen).resolve_left born

/-- A registered client that the hub has not before it any more is closed. -/
theorem Orderly.closed (h : s.Orderly) (registered : s.Registered c) (past : ¬s.SendDue c) :
    s.Closed c := by
  obtain ⟨k, hk, born⟩ := registered
  have fits := h.clients c k hk
  refine ⟨k, hk, ?_, fun recv hrecv => ?_⟩
  · simpa [born, past] using fits.send
  · have pastRecv : ¬s.RecvDue c := fun due => past due.sendDue
    simpa [born, pastRecv] using fits.recv recv hrecv

/-! ## The end of `shutdown` -/

/-- How many steps `shutdown` has left, once the hub has been stopped. -/
def shutdownLeft (s : State) : ℕ :=
  match s.pc with
  | .closeShared left => left.length + 4 * s.members.length + 2
  | .run (.shutdown todo) => 4 * todo.length + 1
  | .close .delete _ (.shutdown todo) => 4 * todo.length + 4
  | .close .recv _ (.shutdown todo) => 4 * todo.length + 3
  | .close .send _ (.shutdown todo) => 4 * todo.length + 2
  | _ => 0

/-- **A step of `shutdown`**: whichever client the hub picks, there is less to do. -/
theorem shutdownLeft_lt {pick : ClientId} (move : HubMove s pick t)
    (stopping : s.pc.stopping = true) : t.shutdownLeft < s.shutdownLeft := by
  cases move with
  | inserted at_ | found at_ | unknown at_ | finished at_ | passed at_ | enqueued at_
  | overflowed at_ => cases at_ ▸ stopping
  | @deleted c next at_ | @recvClosed c next k at_ hk | @sendClosed c next k at_ hk =>
      cases next with
      | select | broadcast => cases at_ ▸ stopping
      | shutdown todo => simp [shutdownLeft, at_]
  | sharedClosed at_ => simp [shutdownLeft, at_]
  | allClosed at_ => simp [shutdownLeft, at_]
  | @evicted todo at_ picked =>
      have fewer : (todo.filter (· ≠ pick)).length < todo.length :=
        List.length_filter_lt_length_iff_exists.mpr ⟨pick, picked, by simp⟩
      simp only [shutdownLeft, at_]
      omega
  | returned at_ => simp [shutdownLeft, at_]

/-- `shutdown` can go on until it returns. -/
theorem Orderly.shutdown_goes (h : s.Orderly) (stopping : s.pc.stopping = true)
    (running : s.pc ≠ .stopped) : ∃ pick t, s.hubStep pick = some t := by
  cases at_ : s.pc with
  | insert c | check c => cases at_ ▸ stopping
  | stopped => exact absurd at_ running
  | closeShared left => cases left with
    | nil => exact ⟨0, _, by rw [hubStep, at_]⟩
    | cons channel left => exact ⟨0, _, by rw [hubStep, at_]⟩
  | run next =>
      cases next with
      | select | broadcast => cases at_ ▸ stopping
      | shutdown todo =>
          cases todo with
          | nil => exact ⟨0, _, by rw [hubStep, at_]⟩
          | cons first rest =>
              exact ⟨first, _, by simp only [hubStep, at_]; exact if_pos List.mem_cons_self⟩
  | close stage c next =>
      have present : c < s.conns.length := h.known c (.inr (by simp [at_]))
      have hk := List.getElem?_eq_getElem present
      refine ⟨0, Option.isSome_iff_exists.mp ?_⟩
      cases stage with
      | delete => rw [hubStep, at_, Option.isSome_some]
      | recv =>
          simp only [hubStep, at_, hk]
          repeat' split
          all_goals rfl
      | send =>
          simp only [hubStep, at_, hk]
          split <;> rfl

/-- **`shutdown` returns**, after at most as many steps as it has left. -/
theorem Orderly.shutdown_returns (h : s.Orderly) (stopping : s.pc.stopping = true) :
    ∃ (picks : List ClientId) (t : State), hubLoop.exec s (picks.map .hub) = some t ∧
      t.pc = .stopped := by
  -- on the number of steps left
  induction left : s.shutdownLeft using Nat.strong_induction_on generalizing s with
  | _ n ih =>
      by_cases done : s.pc = .stopped
      · exact ⟨[], s, rfl, done⟩
      · obtain ⟨pick, u, step⟩ := h.shutdown_goes stopping done
        have first : hubLoop.step s (.hub pick) = some u := step
        have move := hubMove_of_step h step
        have fewer : u.shutdownLeft < n := left ▸ shutdownLeft_lt move stopping
        obtain ⟨picks, t, rest, ends⟩ := ih _ fewer (h.of_hubMove move)
          ((stopping_of_hubMove move).trans stopping) rfl
        refine ⟨pick :: picks, t, ?_, ends⟩
        rw [List.map_cons, hubLoop.exec_of_step first, rest]

/-- **Membership means open.** -/
structure Membership (s : State) : Prop where
  /-- The hub has not closed a channel twice, and has not sent to a closed one. -/
  alive : s.fault = none
  /-- The members are the registered clients whose `send` is open; only the client that the
  hub is adding or closing at the moment is left out. -/
  members : ∀ c, s.pc.owesSend c = false → (c ∈ s.members ↔ s.Registered c ∧ s.SendOpen c)
  /-- Once the hub has been stopped, `shutdown` gets to its end. -/
  ends : s.pc.stopping = true →
    ∃ (picks : List ClientId) (t : State), hubLoop.exec s (picks.map .hub) = some t ∧
      t.pc = .stopped
  /-- After `shutdown` every client that was ever registered is closed. -/
  closed : s.pc = .stopped → ∀ c, s.Registered c → s.Closed c

theorem Orderly.membership (h : s.Orderly) (alive : s.fault = none) : s.Membership where
  alive := alive
  members := fun c settled => by
    rw [← h.open_iff]
    simp [SendDue, settled]
  ends := h.shutdown_returns
  closed := fun stopped c registered => by
    have none_ : s.members = [] := by
      have ranges := h.ranges
      rwa [stopped] at ranges
    exact h.closed registered (by simp [SendDue, none_, stopped])

end State

/-- **A run of the hub** stays orderly, and never panics. -/
theorem orderly_visited (ls : List LoopLabel) :
    ∀ s ∈ hubLoop.visited hubLoop.init ls, s.Orderly ∧ s.fault = none := by
  refine hubLoop.inv_of_step (fun s l t inv step => ?_) ls ⟨State.orderly_init, rfl⟩
  have move := State.loop_cases inv.1 step
  exact ⟨inv.1.of_loopMove move, (State.fault_of_loopMove move).trans inv.2⟩

/-- **The hub's clients are those that are open**, in every run of the hub in any
environment. -/
theorem members_are_open (ls : List LoopLabel) :
    ∀ s ∈ hubLoop.visited hubLoop.init ls, s.Membership := by
  intro s mem
  obtain ⟨orderly, alive⟩ := orderly_visited ls s mem
  exact orderly.membership alive

/-- A client that is registered when the hub is stopped, and what `shutdown` does. -/
def stoppedRun : List LoopLabel :=
  [.serve true [], .register 0, .hub 0, .unregister 7, .hub 0, .stop] ++
    List.replicate 10 (.hub 0)

/-- It is closed when `shutdown` returns. -/
theorem closed_stoppedRun : ∃ s, hubLoop.exec hubLoop.init stoppedRun = some s ∧
    s.pc = .stopped ∧ s.Membership := by
  have facts : (hubLoop.exec hubLoop.init stoppedRun).map State.pc = some .stopped := by decide
  obtain ⟨s, reached, stopped⟩ := Option.map_eq_some_iff.mp facts
  exact ⟨s, reached, stopped,
    members_are_open stoppedRun s (hubLoop.mem_visited_of_exec reached)⟩

end Websockets

end PumaDev
