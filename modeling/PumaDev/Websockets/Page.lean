import Mathlib.Data.List.ReduceOption
import PumaDev.Websockets.HubDelivery
import PumaDev.Websockets.WritePump

/-!
# What a page reads

The hub's machine puts messages into the `send` of its clients, and the machine of
`writePump` makes frames of what is in such a channel.  Here both move together: the whole
program, with the frames of one client.  The page at the other end cuts the frames at their
newlines.

The books are kept along the run (`bookedMachine`).  A run of the two is a run of the hub with
these books and, for the client, a run of the pump (`Follows`), each of which is well
understood.  So what the page has read, with what is still queued behind it, is what the books
say was enqueued for it (`page_reads`): the broadcasts of its time that it wanted, as they were
given to `Broadcast`, in order, none twice and none left out.
-/

namespace PumaDev

namespace Websockets

/-! ## The machine -/

/-- The program, and the frames of one of its clients. -/
structure Page where
  hub : State
  /-- Where the client's `writePump` is. -/
  pc : PumpPc
  wire : List Frame

/-- A step of the program, or of the `writePump` of the client. -/
inductive PageLabel where
  | program (l : Label)
  | pump (p : PumpStep)
  deriving DecidableEq

/-- The write of the step, if it is one of the pump and has one, succeeds. -/
def PageLabel.Succeeds : PageLabel → Prop
  | .program _ => True
  | .pump p => p.Succeeds

instance : DecidablePred PageLabel.Succeeds
  | .program _ => .isTrue trivial
  | .pump p => inferInstanceAs (Decidable p.Succeeds)

/-- The client's channel, on bytes. -/
def Client.sendBytes (k : Client) : Chan Bytes := k.send.map Utf8.encode

/-- The client after a step of its `writePump`: what has been received is gone. -/
def Client.afterPump (k : Client) (t : Pump) : Client :=
  { k with
    send := k.send.keep t.send.buf.length
    writer := if t.pc = .returned then .done else k.writer }

namespace Page

/-- The pump of the client. -/
def pump (s : Page) (k : Client) : Pump := ⟨k.sendBytes, s.pc, s.wire⟩

/-- One step, where `c` is the client whose frames are looked at: what `hubMachine` says of its
`writePump` is left to the steps of the pump. -/
def step (c : ClientId) (s : Page) : PageLabel → Option Page
  | .program l =>
      if l = .drain c ∨ l = .writerStops c then none
      else (s.hub.step l).map fun hub => { s with hub := hub }
  | .pump p =>
      match p with
      | .broadcast _ | .close => none
      | p =>
          if s.hub.fault.isSome then none
          else
            match s.hub.conns[c]? with
            | none => none
            | some k =>
                if k.writer = .running then
                  ((s.pump k).step p).map fun t =>
                    ⟨s.hub.setClient c (k.afterPump t), t.pc, t.wire⟩
                else none

/-- What the page has read, and what it is being sent. -/
def read (s : Page) : List Bytes :=
  Framing.decode newline (texts s.wire) ++
    match s.pc with
    | .opened frame | .batch frame _ => frame.splitOn newline
    | .select | .returned => []

/-- What is queued for the page. -/
def queued (s : Page) (c : ClientId) : List Bytes := (s.hub.outbox c).map Utf8.encode

end Page

/-- The program from its start, with the frames of the client `c`. -/
def pageMachine (c : ClientId) : Machine Page PageLabel where
  init := ⟨hubMachine.init, .select, []⟩
  step := Page.step c

/-- The message that a step hands to the hub. -/
def Label.message : Label → Option Message
  | .broadcast data tags => some ⟨oneLine data, tags⟩
  | _ => none

/-- The messages that the steps hand to the hub. -/
def broadcasts (ls : List PageLabel) : List Message :=
  ls.filterMap fun
    | .program l => l.message
    | .pump _ => none

/-! ## What a step does to one channel -/

/-- What becomes of the `send` of the client `c` when nobody receives from it. -/
inductive SendMove (s : State) (c : ClientId) (k : Client) : Label → Chan GoString → Prop
  | same {l : Label} : SendMove s c k l k.send
  | enqueued {pick : ClientId} {message : Message} {todo : List ClientId} {send : Chan GoString}
      (at_ : s.pc = .run (.broadcast message todo)) (picked : c ∈ todo)
      (sent : k.send.offer message.payload = .sent send) : SendMove s c k (.hub pick) send
  | replied {send : Chan GoString} (sent : k.send.offer replyText = .sent send) :
      SendMove s c k (.reply c) send
  | closed {l : Label} {send : Chan GoString} (closes : k.send.close = some send) :
      SendMove s c k l send

variable {s t : State} {c : ClientId} {k : Client} {l : Label}

/-- A client whose record another one's replaces nothing of. -/
theorem State.getElem?_setClient_ne {d : ClientId} {k' : Client} (other : c ≠ d) :
    (s.setClient d k').conns[c]? = s.conns[c]? := List.getElem?_set_ne (Ne.symm other)

theorem State.getElem?_setClient_self {k' : Client} (hk : s.conns[c]? = some k) :
    (s.setClient c k').conns[c]? = some k' :=
  List.getElem?_set_self (List.getElem?_eq_some_iff.mp hk).1

/-- **A step of the hub**, for one channel. -/
theorem sendMove_of_hubMove {pick : ClientId} (h : s.Orderly) (move : HubMove s pick t)
    (hk : s.conns[c]? = some k) :
    ∃ k', t.conns[c]? = some k' ∧ SendMove s c k (.hub pick) k'.send := by
  have keeps : ∀ {d : ClientId} {k₀ k' : Client} {u : State}, u.conns = s.conns →
      s.conns[d]? = some k₀ → (d = c → SendMove s c k₀ (.hub pick) k'.send) →
      ∃ k'', (u.setClient d k').conns[c]? = some k'' ∧ SendMove s c k (.hub pick) k''.send := by
    intro d k₀ k' u conns hd own
    by_cases mine : d = c
    · subst mine
      cases hk.symm.trans hd
      exact ⟨k', State.getElem?_setClient_self (conns ▸ hk), own rfl⟩
    · exact ⟨k, by rw [State.getElem?_setClient_ne (Ne.symm mine), conns, hk], .same⟩
  cases move with
  | enqueued at_ picked hd _ sent =>
      refine keeps rfl hd fun mine => ?_
      subst mine
      exact .enqueued at_ picked sent
  | recvClosed at_ hd => exact keeps rfl hd fun _ => .same
  | sendClosed at_ hd =>
      refine keeps rfl hd fun _ => .closed ?_
      exact Chan.close_of_open (h.send_open hd (.inr (by simp [at_])))
  | _ => exact ⟨k, hk, .same⟩

/-- A rendezvous without a panic. -/
theorem State.of_rendezvous {channel : Shared} {u : State}
    (step : s.rendezvous channel u = some t) (safe : t.fault = none) :
    s.pc = .run .select ∧ u = t := by
  unfold State.rendezvous at step
  split_ifs at step with _ ready
  · cases step
    cases safe
  · cases step
    exact ⟨ready, rfl⟩

/-- A step of the clients' goroutines, for one channel. -/
theorem sendMove_of_clientStep {d : ClientId} {kd : Client} (hd : s.conns[d]? = some kd)
    (about : l.client = some d) (step : s.clientStep kd l = some t) (safe : t.fault = none)
    (hk : s.conns[c]? = some k) (notDrain : l ≠ .drain c) :
    ∃ k', t.conns[c]? = some k' ∧ SendMove s c k l k'.send := by
  have changes : ∀ {k' : Client} {u : State}, u.conns = s.conns →
      (d = c → SendMove s c kd l k'.send) →
      ∃ k'', (u.setClient d k').conns[c]? = some k'' ∧ SendMove s c k l k''.send := by
    intro k' u conns own
    by_cases mine : d = c
    · subst mine
      cases hk.symm.trans hd
      exact ⟨k', State.getElem?_setClient_self (conns ▸ hk), own rfl⟩
    · exact ⟨k, by rw [State.getElem?_setClient_ne (Ne.symm mine), conns, hk], .same⟩
  have keeps : ∀ {k' : Client} {u : State}, u.conns = s.conns → (d = c → k'.send = kd.send) →
      ∃ k'', (u.setClient d k').conns[c]? = some k'' ∧ SendMove s c k l k''.send :=
    fun conns own => changes conns fun mine => own mine ▸ .same
  cases l with
  | serve | broadcast | stop | hub => cases about
  | register e =>
      cases about
      simp only [State.clientStep] at step
      split_ifs at step
      obtain ⟨-, rfl⟩ := State.of_rendezvous step safe
      exact keeps rfl fun _ => rfl
  | unregister e =>
      cases about
      simp only [State.clientStep] at step
      split_ifs at step
      obtain ⟨-, rfl⟩ := State.of_rendezvous step safe
      exact keeps rfl fun _ => rfl
  | purge e =>
      cases about
      simp only [State.clientStep] at step
      split_ifs at step
      obtain ⟨-, rfl⟩ := State.of_rendezvous step safe
      exact ⟨k, hk, .same⟩
  | peer e raw =>
      cases about
      simp only [State.clientStep] at step
      split_ifs at step
      split at step
      · cases step
        exact keeps rfl fun _ => rfl
      · cases step
        exact ⟨k, hk, .same⟩
  | peerGone e | writerStops e =>
      cases about
      simp only [State.clientStep] at step
      split_ifs at step
      cases step
      exact keeps rfl fun _ => rfl
  | forward e =>
      cases about
      simp only [State.clientStep] at step
      split at step
      · split at step
        · cases step
          exact keeps rfl fun _ => rfl
        · cases step
        · cases step
          cases safe
      · cases step
  | listen e =>
      cases about
      simp only [State.clientStep] at step
      split at step
      · split at step
        · cases step
          exact keeps rfl fun _ => rfl
        · cases step
        · cases step
          exact keeps rfl fun _ => rfl
      · cases step
  | reply e =>
      cases about
      simp only [State.clientStep] at step
      split_ifs at step
      split at step
      · next sent =>
          cases step
          refine changes rfl fun mine => ?_
          subst mine
          exact .replied sent
      · cases step
        exact keeps rfl fun _ => rfl
      · cases step
        cases safe
  | drain e =>
      cases about
      simp only [State.clientStep] at step
      split_ifs at step
      split at step
      · cases step
        exact keeps rfl fun mine => absurd (congrArg Label.drain mine) notDrain
      · cases step
      · cases step
        exact keeps rfl fun _ => rfl

/-- **A step of the program**, for the channel of a client that is there. -/
theorem sendMove_of_step (h : s.Orderly) (step : s.step l = some t) (safe : t.fault = none)
    (hk : s.conns[c]? = some k) (notDrain : l ≠ .drain c) :
    ∃ k', t.conns[c]? = some k' ∧ SendMove s c k l k'.send := by
  unfold State.step at step
  split at step
  · cases step
  split at step
  · cases step
    have present : c < s.conns.length := (List.getElem?_eq_some_iff.mp hk).1
    exact ⟨k, (List.getElem?_append_left present).trans hk, .same⟩
  · obtain ⟨-, rfl⟩ := State.of_rendezvous step safe
    exact ⟨k, hk, .same⟩
  · obtain ⟨-, rfl⟩ := State.of_rendezvous step safe
    exact ⟨k, hk, .same⟩
  · exact sendMove_of_hubMove h (State.hubMove_of_step h step) hk
  · obtain ⟨d, about, rest⟩ := Option.bind_eq_some_iff.mp step
    obtain ⟨kd, hd, moves⟩ := Option.bind_eq_some_iff.mp rest
    exact sendMove_of_clientStep hd about moves safe hk notDrain

/-- A client that is not there yet is new when it comes. -/
theorem new_of_step (h : s.Orderly) (step : s.step l = some t) (missing : s.conns[c]? = none) :
    t.conns[c]? = none ∨ ∃ onMessage subscriptions,
      t.conns[c]? = some (.new onMessage subscriptions) := by
  have outside : s.conns.length ≤ c := List.getElem?_eq_none_iff.mp missing
  have sameLength : t.conns.length = s.conns.length → t.conns[c]? = none := fun same =>
    List.getElem?_eq_none_iff.mpr (same ▸ outside)
  obtain ⟨-, ⟨pick, -, move⟩ | ⟨-, ⟨fault, -, rfl⟩ | ⟨-, move⟩⟩⟩ := State.step_cases h step
  · refine Or.inl (sameLength ?_)
    cases move <;> simp [State.setClient]
  · exact Or.inl missing
  · cases move with
    | served onMessage subscriptions =>
        by_cases here : c = s.conns.length
        · exact Or.inr ⟨onMessage, subscriptions, by simp [here]⟩
        · refine Or.inl (List.getElem?_eq_none_iff.mpr ?_)
          show (s.conns ++ [Client.new onMessage subscriptions]).length ≤ c
          rw [List.length_append, List.length_singleton]
          exact Nat.lt_of_le_of_ne outside (Ne.symm here)
    | _ => exact Or.inl (sameLength (by simp [State.setClient]))

/-! ## What the clients are subscribed to -/

/-- Every client takes every message. -/
def State.Starred (s : State) : Prop := ∀ k ∈ s.conns, "*".toList ∈ k.subscriptions

theorem State.Starred.setClient (starred : s.Starred) {d : ClientId} {k' : Client} {u : State}
    (conns : u.conns = s.conns) (hd : s.conns[d]? = some k)
    (same : k'.subscriptions = k.subscriptions) : (u.setClient d k').Starred := by
  intro k'' mem
  rcases List.mem_or_eq_of_mem_set mem with old | rfl
  · exact starred k'' (conns ▸ old)
  · rw [same]
    exact starred k (List.mem_of_getElem? hd)

/-- A rendezvous with the hub. -/
theorem State.Starred.of_rendezvous (starred : s.Starred) {channel : Shared} {u : State}
    (step : s.rendezvous channel u = some t) (after : u.Starred) : t.Starred := by
  unfold State.rendezvous at step
  split_ifs at step <;> cases step
  · exact starred
  · exact after

/-- A step of the clients' goroutines. -/
theorem State.Starred.of_clientStep (starred : s.Starred) {d : ClientId}
    (hd : s.conns[d]? = some k) (about : l.client = some d) (step : s.clientStep k l = some t) :
    t.Starred := by
  cases l with
  | serve | broadcast | stop | hub => cases about
  | register e | unregister e =>
      cases about
      simp only [State.clientStep] at step
      split_ifs at step
      exact starred.of_rendezvous step (starred.setClient rfl hd rfl)
  | purge e =>
      simp only [State.clientStep] at step
      split_ifs at step
      exact starred.of_rendezvous step starred
  | peer e raw | peerGone e | forward e | listen e | reply e | drain e | writerStops e =>
      cases about
      simp only [State.clientStep] at step
      repeat' split at step
      all_goals cases step
      all_goals first | exact starred | exact starred.setClient rfl hd rfl

/-- **Nobody unsubscribes**: a client takes every message if it was served so. -/
theorem State.Starred.of_step (starred : s.Starred) (h : s.Orderly) (step : s.step l = some t)
    (served : ∀ onMessage subscriptions, l = .serve onMessage subscriptions →
      "*".toList ∈ subscriptions) : t.Starred := by
  unfold State.step at step
  split at step
  · cases step
  split at step
  · next onMessage subscriptions =>
      cases step
      intro k mem
      rcases List.mem_append.mp mem with old | new
      · exact starred k old
      · rw [List.mem_singleton.mp new]
        exact List.mem_append_right _ (served _ _ rfl)
  · exact starred.of_rendezvous step starred
  · exact starred.of_rendezvous step starred
  · cases State.hubMove_of_step h step with
    | enqueued _ _ hk | recvClosed _ hk | sendClosed _ hk => exact starred.setClient rfl hk rfl
    | _ => exact starred
  · obtain ⟨d, about, rest⟩ := Option.bind_eq_some_iff.mp step
    obtain ⟨k, hd, moves⟩ := Option.bind_eq_some_iff.mp rest
    exact starred.of_clientStep hd about moves

/-- The turn of a client that takes every message. -/
theorem State.Starred.wanted (starred : s.Starred) {pick : ClientId} {turn : Turn}
    (here : s.turn pick c = some turn) : turn.Wanted := by
  unfold State.turn at here
  split at here
  · next k _ hk =>
      split_ifs at here
      cases here
      exact Or.inl (starred _ (List.mem_of_getElem? hk))
  · cases here

/-! ## The books of a run -/

/-- What a step of the program does to the books. -/
def Ledger.after (s : Ledger) (t : State) : Label → ClientId → Account
  | .hub pick, c => (s.account c).note s.hub t pick c s.received.length
  | _, c => s.account c

/-- The books after a step of the program, or of the pump, that leads to `t`. -/
def Ledger.follow (s : Ledger) (t : State) : PageLabel → Ledger
  | .program l => ⟨t, s.received ++ l.message.toList, s.after t l⟩
  | .pump _ => { s with hub := t }

/-- The program with the frames of the client `c`, and with its books. -/
def bookedMachine (c : ClientId) : Machine (Page × Ledger) PageLabel where
  init := ((pageMachine c).init, ledgerMachine.init)
  step s l := (s.1.step c l).map fun t => (t, s.2.follow t.hub l)

/-- The books do not hold anything up: each run has its books. -/
theorem exec_booked (c : ClientId) (ls : List PageLabel) (s : Page × Ledger) :
    ((bookedMachine c).exec s ls).map Prod.fst = (pageMachine c).exec s.1 ls := by
  induction ls generalizing s with
  | nil => rfl
  | cons l rest ih =>
      cases step : s.1.step c l with
      | none =>
          have stuck : (pageMachine c).step s.1 l = none := step
          simp [Machine.exec, bookedMachine, stuck, step]
      | some t =>
          have booked : (bookedMachine c).step s l = some (t, s.2.follow t.hub l) := by
            simp [bookedMachine, step]
          rw [(bookedMachine c).exec_of_step booked, (pageMachine c).exec_of_step step, ih]

/-- Nothing but the hub's own steps and the broadcasts is entered in the books. -/
theorem Ledger.exec_silent {s : Ledger} {l' : LoopLabel} {u : State} {rest : List LoopLabel}
    (step : hubLoop.step s.hub l' = some u) (silent : s.note u l' = { s with hub := u }) :
    ledgerMachine.exec s (l' :: rest) = ledgerMachine.exec { s with hub := u } rest := by
  have noted : ledgerMachine.step s l' = some { s with hub := u } := by
    simp [ledgerMachine, step, silent]
  exact ledgerMachine.exec_of_step noted rest

/-- **The program's step, with the books**, is one or two of the hub's. -/
theorem ledger_of_step {s : Ledger} (h : s.hub.Orderly) (step : s.hub.step l = some t)
    (safe : t.fault = none) :
    ∃ ls, ledgerMachine.exec s ls = some (s.follow t (.program l)) := by
  obtain ⟨alive, ⟨pick, rfl, -⟩ | ⟨notHub, ⟨fault, -, rfl⟩ | ⟨-, move⟩⟩⟩ := State.step_cases h step
  · have moves : hubLoop.step s.hub (.hub pick) = some t := by
      show s.hub.hubStep pick = some t
      simpa [State.step, alive] using step
    have noted : ledgerMachine.step s (.hub pick) = some (s.note t (.hub pick)) := by
      simp [ledgerMachine, moves]
    have followed : s.note t (.hub pick) = s.follow t (.program (.hub pick)) := by
      show _ = Ledger.mk t (s.received ++ []) _
      rw [List.append_nil]
      rfl
    exact ⟨[.hub pick], followed ▸ ledgerMachine.exec_of_step noted []⟩
  · cases safe
  · by_cases broadcast : ∃ data tags, l = .broadcast data tags
    · obtain ⟨data, tags, rfl⟩ := broadcast
      rw [State.step, if_neg (by simp [alive])] at step
      obtain ⟨ready, rfl⟩ := State.of_rendezvous step safe
      have moves : hubLoop.step s.hub (.broadcast ⟨oneLine data, tags⟩) =
          some { s.hub with pc := .run (.broadcast ⟨oneLine data, tags⟩ s.hub.members) } :=
        if_pos ready
      have noted : ledgerMachine.step s (.broadcast ⟨oneLine data, tags⟩) = _ :=
        congrArg (Option.map _) moves
      exact ⟨[.broadcast ⟨oneLine data, tags⟩], ledgerMachine.exec_of_step noted []⟩
    · have account : s.after t l = s.account := by
        cases l with
        | hub pick => exact absurd rfl (notHub pick)
        | _ => rfl
      have nothing : l.message = none := by
        cases l with
        | broadcast data tags => exact absurd ⟨data, tags, rfl⟩ broadcast
        | _ => rfl
      have followed : s.follow t (.program l) = { s with hub := t } := by
        rw [Ledger.follow, account, nothing, Option.toList_none, List.append_nil]
      rw [followed]
      cases move with
      | served onMessage subscriptions =>
          exact ⟨[.serve onMessage subscriptions], Ledger.exec_silent rfl rfl⟩
      | @changed l c k k' quiet hk alike =>
          refine ⟨[.change c k'], Ledger.exec_silent ?_ rfl⟩
          simp [hubLoop, State.loopStep, hk, alike]
      | @registered c k ready hk start =>
          refine ⟨[.register c], Ledger.exec_silent ?_ rfl⟩
          simp [hubLoop, State.loopStep, hk, start, State.receives, ready]
      | @unregistered l c k k' ready hk alike =>
          -- what the goroutine does to its client, and what the hub receives, are two steps here
          refine ⟨[.change c k', .unregister c], ?_⟩
          have first : hubLoop.step s.hub (.change c k') = some (s.hub.setClient c k') := by
            simp [hubLoop, State.loopStep, hk, alike]
          rw [Ledger.exec_silent first rfl]
          exact Ledger.exec_silent (if_pos ready) rfl
      | broadcast data tags => exact absurd ⟨data, tags, rfl⟩ broadcast
      | stopped ready => exact ⟨[.stop], Ledger.exec_silent (if_pos ready) rfl⟩

/-! ## One run as two -/

/-- The channel of the client, on bytes; a client that is still to come has a new one. -/
def State.channel (s : State) (c : ClientId) : Chan Bytes :=
  match s.conns[c]? with
  | some k => k.sendBytes
  | none => .make (maxMessageSize * 4)

/-- What is put into a client's `send`, as it is written: a payload of the hub's, or an answer
of its `listen`. -/
def sentBytes (sent : Option GoString) : Bytes := Utf8.encode (sent.getD replyText)

/-- **The two runs.**  The hub and its books, and the pump of the client, are where their own
machines get to; and what the pump was given is what the books say was enqueued, with the
answers in between. -/
structure Follows (c : ClientId) (past : List PageLabel) (s : Page) (books : Ledger)
    (steps : List PumpStep) (sent : List (Option GoString)) : Prop where
  booked : ∃ ls, ledgerMachine.exec ledgerMachine.init ls = some books
  hub : books.hub = s.hub
  received : books.received = broadcasts past
  pumped : (pump (maxMessageSize * 4)).exec (.start (maxMessageSize * 4)) steps =
    some ⟨s.hub.channel c, s.pc, s.wire⟩
  succeeds : ∀ p ∈ steps, p.Succeeds
  given : payloads steps = sent.map sentBytes
  enqueued : (books.account c).enqueued = sent.reduceOption
  starred : (∀ onMessage subscriptions, .program (.serve onMessage subscriptions) ∈ past →
    "*".toList ∈ subscriptions) → s.hub.Starred ∧ ∀ turn ∈ (books.account c).turns, turn.Wanted

/-- What the pump does to the channel: it takes from the front. -/
theorem send_of_pumpStep {P Q : Pump} {p : PumpStep} (mine : p.ByPump) (step : P.step p = some Q) :
    Q.send.capacity = P.send.capacity ∧ Q.send.closed = P.send.closed ∧
      ∃ n, Q.send.buf = P.send.buf.drop n := by
  have taken : ∀ {v : Bytes} {send : Chan Bytes}, P.send.take = .got v send →
      send.capacity = P.send.capacity ∧ send.closed = P.send.closed ∧
        ∃ n, send.buf = P.send.buf.drop n := fun got =>
    ⟨Chan.capacity_of_got got, Chan.closed_of_got got, 1, by rw [Chan.buf_of_got got]; rfl⟩
  have same : P.send.capacity = P.send.capacity ∧ P.send.closed = P.send.closed ∧
      ∃ n, P.send.buf = P.send.buf.drop n := ⟨rfl, rfl, 0, rfl⟩
  cases p with
  | broadcast | close => cases mine
  | receive ok =>
      simp only [Pump.step] at step
      split_ifs at step
      all_goals
        split at step
        · next got =>
            cases step
            exact taken got
        · cases step
          exact same
        · cases step
  | count =>
      simp only [Pump.step] at step
      split at step
      · cases step
        exact same
      · cases step
  | turn =>
      simp only [Pump.step] at step
      split at step
      · split at step
        · next got =>
            cases step
            exact taken got
        · cases step
          exact same
        · cases step
      · cases step
  | flush ok | tick ok =>
      simp only [Pump.step] at step
      split at step
      · split_ifs at step
        all_goals
          cases step
          exact same
      · cases step

/-- What is left in the client's channel is what the pump has left there. -/
theorem sendBytes_afterPump {P Q : Pump} {k : Client} {p : PumpStep} (mine : p.ByPump)
    (channel : P.send = k.sendBytes) (step : P.step p = some Q) :
    (k.afterPump Q).sendBytes = Q.send := by
  obtain ⟨capacity, closed, n, buf⟩ := send_of_pumpStep mine step
  rw [channel] at capacity closed buf
  refine Chan.eq_of capacity.symm ?_ closed.symm
  have held : k.sendBytes.buf = k.send.buf.map Utf8.encode := rfl
  show (k.send.buf.drop (k.send.buf.length - Q.send.buf.length)).map Utf8.encode = Q.send.buf
  rw [buf, held, List.map_drop, List.length_drop, List.length_map]
  by_cases within : n ≤ k.send.buf.length
  · rw [Nat.sub_sub_self within]
  · have all : k.send.buf.length - n = 0 := by omega
    rw [all, Nat.sub_zero, List.drop_of_length_le (by simp),
      List.drop_of_length_le (by simp; omega)]

/-- A step of the pump. -/
theorem Follows.pumped_step {past : List PageLabel} {s t : Page} {books : Ledger}
    {steps : List PumpStep} {sent : List (Option GoString)} {p : PumpStep}
    (follows : Follows c past s books steps sent)
    (step : s.step c (.pump p) = some t) (succeeds : p.Succeeds) :
    ∃ steps', Follows c (past ++ [.pump p]) t (books.follow t.hub (.pump p)) steps' sent := by
  have mine : p.ByPump := by
    cases p with
    | broadcast | close => cases step
    | _ => trivial
  have moves : ∃ k Q, s.hub.conns[c]? = some k ∧ (s.pump k).step p = some Q ∧
      t = ⟨s.hub.setClient c (k.afterPump Q), Q.pc, Q.wire⟩ := by
    simp only [Page.step] at step
    split at step
    · cases step
    · cases step
    · split_ifs at step
      split at step
      · cases step
      · next k hk =>
          split_ifs at step
          obtain ⟨Q, stepped, rfl⟩ := Option.map_eq_some_iff.mp step
          exact ⟨k, Q, hk, stepped, rfl⟩
  obtain ⟨k, Q, hk, stepped, rfl⟩ := moves
  obtain ⟨⟨ls, booked⟩, hub, received, pumped, succeeded, given, enqueued, starred⟩ := follows
  have channel : s.hub.channel c = k.sendBytes := by rw [State.channel, hk]
  have changes : hubLoop.step books.hub (.change c (k.afterPump Q)) =
      some (s.hub.setClient c (k.afterPump Q)) := by
    have alike : k.Alike (k.afterPump Q) := ⟨Iff.rfl, id, rfl, rfl⟩
    rw [hub]
    simp [hubLoop, State.loopStep, hk, alike]
  refine ⟨steps ++ [p], ⟨ls ++ [.change c (k.afterPump Q)], ?_⟩, rfl, ?_, ?_, ?_, ?_, enqueued,
    fun served => ?_⟩
  · rw [Machine.exec_append, booked, Option.bind_some, Ledger.exec_silent changes rfl]
    rfl
  · simpa [broadcasts, Ledger.follow] using received
  · have left : (s.hub.setClient c (k.afterPump Q)).channel c = Q.send := by
      rw [State.channel, State.getElem?_setClient_self hk]
      exact sendBytes_afterPump (P := s.pump k) mine rfl stepped
    rw [Machine.exec_append, pumped, Option.bind_some, channel, left]
    exact (pump _).exec_of_step stepped []
  · intro q mem
    rcases List.mem_append.mp mem with before | last
    · exact succeeded q before
    · rw [List.mem_singleton.mp last]
      exact succeeds
  · have silent : p.payload = none := by
      cases p with
      | broadcast => cases mine
      | _ => rfl
    rw [payloads, List.filterMap_append, ← payloads, given]
    simp [silent]
  · have before := starred fun onMessage subscriptions mem =>
      served onMessage subscriptions (List.mem_append_left _ mem)
    exact ⟨before.1.setClient rfl hk rfl, before.2⟩

/-- A message that the hub is still going through was given to `Broadcast`. -/
theorem mem_received {books : Ledger} {message : Message} {todo : List ClientId}
    (kept : Kept books.hub books.received c (books.account c))
    (at_ : books.hub.pc = .run (.broadcast message todo)) (picked : c ∈ todo) :
    message ∈ books.received := by
  have turns := kept.turns
  rw [at_, HubPc.ahead, Resume.ahead, if_pos picked] at turns
  have mine : message ∈ (books.account c).standing.share books.received := by
    rw [← turns]
    exact List.mem_append_right _ List.mem_cons_self
  cases standing : (books.account c).standing with
  | outside =>
      rw [standing] at mine
      cases mine
  | member since =>
      rw [standing] at mine
      exact List.mem_of_mem_drop mine
  | gone since till =>
      rw [standing] at mine
      exact List.mem_of_mem_take (List.mem_of_mem_drop mine)

/-- What was given to `Broadcast` is one line. -/
theorem oneLine_of_mem {past : List PageLabel} {message : Message}
    (mem : message ∈ broadcasts past) : ∃ data, message.payload = oneLine data := by
  obtain ⟨l, -, made⟩ := List.mem_filterMap.mp mem
  cases l with
  | pump p => cases made
  | program l =>
      cases l with
      | broadcast data tags =>
          cases made
          exact ⟨data, rfl⟩
      | _ => cases made

/-- What a step of the program does to the channel, the pump's machine does too. -/
theorem SendMove.pumped {capacity : ℕ} {send : Chan GoString} (move : SendMove s c k l send)
    {pc : PumpPc} {wire : List Frame}
    (oneLine_ : ∀ message todo, s.pc = .run (.broadcast message todo) → c ∈ todo →
      ∃ data, message.payload = oneLine data) :
    ∃ (moved : List PumpStep) (put : List (Option GoString)), (∀ p ∈ moved, p.Succeeds) ∧
      payloads moved = put.map sentBytes ∧
      (pump capacity).exec ⟨k.sendBytes, pc, wire⟩ moved = some ⟨send.map Utf8.encode, pc, wire⟩ ∧
      ((∃ pick, l = .hub pick) → send.buf.drop k.send.buf.length = put.reduceOption) ∧
      ((∀ pick, l ≠ .hub pick) → put.reduceOption = []) := by
  have one : ∀ {data : GoString}, k.send.offer (oneLine data) = .sent send →
      (pump capacity).exec ⟨k.sendBytes, pc, wire⟩ [.broadcast (Utf8.encode data)] =
        some ⟨send.map Utf8.encode, pc, wire⟩ := by
    intro data sent
    refine (pump capacity).exec_of_step ?_ []
    have offered := Chan.offer_map (f := Utf8.encode) sent
    rw [← oneLineBytes_encode] at offered
    show Pump.step _ (.broadcast (Utf8.encode data)) = _
    simp only [Pump.step, Client.sendBytes, offered]
  cases move with
  | same => exact ⟨[], [], by simp, rfl, rfl, fun _ => List.drop_length, fun _ => rfl⟩
  | enqueued at_ picked sent =>
      obtain ⟨data, payload⟩ := oneLine_ _ _ at_ picked
      have buf := (Chan.buf_of_sent sent).2
      rw [payload] at sent buf
      refine ⟨[.broadcast (Utf8.encode data)], [some (oneLine data)], by simp [PumpStep.Succeeds],
        ?_, one sent, fun _ => by simp [buf, List.reduceOption],
        fun notHub => absurd rfl (notHub _)⟩
      simp [payloads, PumpStep.payload, oneLineBytes_encode, sentBytes]
  | replied sent =>
      have line : oneLine replyText = replyText := by decide
      rw [← line] at sent
      refine ⟨[.broadcast (Utf8.encode replyText)], [none], by simp [PumpStep.Succeeds], ?_,
        one sent, fun hub => ?_, fun _ => rfl⟩
      · simp [payloads, PumpStep.payload, oneLineBytes_encode, sentBytes, line]
      · obtain ⟨pick, same⟩ := hub
        cases same
  | closed closes =>
      have buf := (Chan.of_close closes).2.2
      refine ⟨[.close], [], by simp [PumpStep.Succeeds], rfl, ?_,
        fun _ => by simp [buf, List.reduceOption], fun _ => rfl⟩
      refine (pump capacity).exec_of_step ?_ []
      show Option.map _ _ = _
      rw [Client.sendBytes, Chan.close_map closes, Option.map_some]

/-- What the hub has put there is entered as enqueued. -/
theorem Ledger.enqueued_after {books : Ledger} {put : List GoString}
    (hub : (∃ pick, l = .hub pick) → (t.outbox c).drop (books.hub.outbox c).length = put)
    (others : (∀ pick, l ≠ .hub pick) → put = []) :
    (books.after t l c).enqueued = (books.account c).enqueued ++ put := by
  by_cases mine : ∃ pick, l = .hub pick
  · have put_ := hub mine
    obtain ⟨pick, rfl⟩ := mine
    rw [← put_]
    rfl
  · have none_ := others fun pick here => mine ⟨pick, here⟩
    rw [none_, List.append_nil]
    cases l with
    | hub pick => exact absurd ⟨pick, rfl⟩ mine
    | _ => rfl

/-- A step of the program, as the pump's machine sees it. -/
theorem pumped_of_step {s t : State} (h : s.Orderly) (step : s.step l = some t)
    (safe : t.fault = none) (notDrain : l ≠ .drain c) (capacity : ℕ) (pc : PumpPc)
    (wire : List Frame)
    (oneLine_ : ∀ message todo, s.pc = .run (.broadcast message todo) → c ∈ todo →
      ∃ data, message.payload = oneLine data) :
    ∃ (moved : List PumpStep) (put : List (Option GoString)), (∀ p ∈ moved, p.Succeeds) ∧
      payloads moved = put.map sentBytes ∧
      (pump capacity).exec ⟨s.channel c, pc, wire⟩ moved = some ⟨t.channel c, pc, wire⟩ ∧
      ((∃ pick, l = .hub pick) → (t.outbox c).drop (s.outbox c).length = put.reduceOption) ∧
      ((∀ pick, l ≠ .hub pick) → put.reduceOption = []) := by
  cases hk : s.conns[c]? with
  | some k =>
      obtain ⟨k', hk', move⟩ := sendMove_of_step h step safe hk notDrain
      have before : s.channel c = k.sendBytes := by rw [State.channel, hk]
      have after : t.channel c = k'.sendBytes := by rw [State.channel, hk']
      rw [before, after, State.outbox_of_getElem? hk, State.outbox_of_getElem? hk']
      exact move.pumped oneLine_
  | none =>
      have before : s.channel c = .make (maxMessageSize * 4) := by rw [State.channel, hk]
      have still : t.channel c = .make (maxMessageSize * 4) ∧ t.outbox c = [] := by
        rcases new_of_step h step hk with missing | ⟨onMessage, subscriptions, new⟩
        · exact ⟨by rw [State.channel, missing], by rw [State.outbox, missing]; rfl⟩
        · refine ⟨?_, by rw [State.outbox_of_getElem? new]; rfl⟩
          rw [State.channel, new]
          exact Chan.map_make _ _
      rw [before, still.1, still.2]
      exact ⟨[], [], by simp, rfl, rfl, fun _ => List.drop_nil, fun _ => rfl⟩

/-- A step of the program. -/
theorem Follows.program_step {past : List PageLabel} {s t : Page} {books : Ledger}
    {steps : List PumpStep} {sent : List (Option GoString)}
    (follows : Follows c past s books steps sent)
    (step : s.step c (.program l) = some t) (safe : t.hub.fault = none) :
    ∃ steps' sent',
      Follows c (past ++ [.program l]) t (books.follow t.hub (.program l)) steps' sent' := by
  simp only [Page.step] at step
  split_ifs at step with notMine
  obtain ⟨hub', moves, rfl⟩ := Option.map_eq_some_iff.mp step
  obtain ⟨notDrain, -⟩ := not_or.mp notMine
  obtain ⟨⟨ls, booked⟩, hub, received, pumped, succeeded, given, enqueued, starred⟩ := follows
  obtain ⟨orderly, kept⟩ := kept_visited ls books (ledgerMachine.mem_visited_of_exec booked)
  rw [← hub] at moves
  have oneLine_ : ∀ message todo, books.hub.pc = .run (.broadcast message todo) → c ∈ todo →
      ∃ data, message.payload = oneLine data := fun message todo at_ picked =>
    oneLine_of_mem (received ▸ mem_received (kept c) at_ picked)
  obtain ⟨ls', booked'⟩ := ledger_of_step orderly moves safe
  obtain ⟨moved, put, fine, given', pumped', byHub, byOthers⟩ :=
    pumped_of_step orderly moves safe notDrain (maxMessageSize * 4) s.pc s.wire oneLine_
  refine ⟨steps ++ moved, sent ++ put, ⟨ls ++ ls', ?_⟩, rfl, ?_, ?_, ?_, ?_, ?_,
    fun served => ?_⟩
  · rw [Machine.exec_append, booked, Option.bind_some, booked']
  · show books.received ++ l.message.toList = _
    rw [received]
    cases message : l.message <;> simp [broadcasts, message]
  · rw [Machine.exec_append, pumped, Option.bind_some, ← hub]
    exact pumped'
  · intro p mem
    exact (List.mem_append.mp mem).elim (succeeded p) (fine p)
  · rw [payloads, List.filterMap_append, ← payloads, ← payloads, given, given', List.map_append]
  · show (books.after hub' l c).enqueued = _
    rw [Ledger.enqueued_after byHub byOthers, enqueued, List.reduceOption_append]
  · obtain ⟨all, wanted⟩ := starred fun onMessage subscriptions mem =>
      served onMessage subscriptions (List.mem_append_left _ mem)
    rw [← hub] at all
    refine ⟨all.of_step orderly moves fun onMessage subscriptions same =>
      served onMessage subscriptions (by simp [same]), ?_⟩
    cases l with
    | hub pick =>
        intro turn mem
        rcases List.mem_append.mp mem with old | new
        · exact wanted turn old
        · exact all.wanted (Option.mem_toList.mp new)
    | _ => exact wanted

/-- Nothing happens after a panic. -/
theorem Page.alive_of_step {s t : Page} {l : PageLabel} (step : s.step c l = some t) :
    s.hub.fault = none := by
  cases l with
  | program l =>
      simp only [Page.step] at step
      split_ifs at step
      obtain ⟨hub', moves, -⟩ := Option.map_eq_some_iff.mp step
      by_contra fault
      unfold State.step at moves
      rw [if_pos (Option.isSome_iff_ne_none.mpr fault)] at moves
      cases moves
  | pump p =>
      by_contra fault
      simp only [Page.step] at step
      split at step
      · cases step
      · cases step
      · rw [if_pos (Option.isSome_iff_ne_none.mpr fault)] at step
        cases step

theorem follows_init (c : ClientId) :
    Follows c [] (pageMachine c).init ledgerMachine.init [] [] where
  booked := ⟨[], rfl⟩
  hub := rfl
  received := rfl
  pumped := rfl
  succeeds := nofun
  given := rfl
  enqueued := rfl
  starred _ := ⟨fun k mem => (by cases mem), fun turn mem => (by cases mem)⟩

/-- The run lemma. -/
theorem follows_of_exec {ls : List PageLabel} {s : Page}
    (run : (pageMachine c).exec (pageMachine c).init ls = some s) (alive : s.hub.fault = none)
    (succeeds : ∀ l ∈ ls, l.Succeeds) :
    ∃ books steps sent, (bookedMachine c).exec (bookedMachine c).init ls = some (s, books) ∧
      Follows c ls s books steps sent := by
  obtain ⟨⟨s', books⟩, booked, rfl⟩ :=
    Option.map_eq_some_iff.mp ((exec_booked c ls (bookedMachine c).init).trans run)
  suffices follows : ∃ steps sent, Follows c ls s' books steps sent by
    obtain ⟨steps, sent, follows⟩ := follows
    exact ⟨books, steps, sent, booked, follows⟩
  refine (bookedMachine c).exec_induction
    (P := fun past u => u.1.hub.fault = none → (∀ l ∈ past, l.Succeeds) →
      ∃ steps sent, Follows c past u.1 u.2 steps sent)
    (fun _ _ => ⟨_, _, follows_init c⟩) ?_ booked alive succeeds
  intro past u l v before booked safe fine
  obtain ⟨t, step, rfl⟩ := Option.map_eq_some_iff.mp booked
  obtain ⟨steps, sent, follows⟩ := before (Page.alive_of_step step) fun l mem =>
    fine l (List.mem_append_left _ mem)
  cases l with
  | program l => exact follows.program_step step safe
  | pump p =>
      obtain ⟨steps', after⟩ := follows.pumped_step step
        (fine (.pump p) (List.mem_append_right _ List.mem_cons_self))
      exact ⟨steps', sent, after⟩

/-! ## What a page reads -/

/-- The page has read, or has still to read, what was given to the pump. -/
theorem Follows.reads {past : List PageLabel} {s : Page} {books : Ledger} {steps : List PumpStep}
    {sent : List (Option GoString)} (follows : Follows c past s books steps sent) :
    s.read ++ s.queued c = sent.map sentBytes := by
  have fifo := (tracks_of_exec follows.succeeds follows.pumped).fifo
  have queued : (s.hub.channel c).buf = s.queued c := by
    rw [State.channel, Page.queued, State.outbox]
    cases s.hub.conns[c]? <;> rfl
  rw [queued, follows.given] at fifo
  exact fifo

theorem Follows.gapFree {past : List PageLabel} {s : Page} {books : Ledger}
    {steps : List PumpStep} {sent : List (Option GoString)}
    (follows : Follows c past s books steps sent) : books.GapFree c := by
  obtain ⟨ls, booked⟩ := follows.booked
  obtain ⟨orderly, kept⟩ := kept_visited ls books (ledgerMachine.mem_visited_of_exec booked)
  exact (kept c).gapFree orderly

/-- What was received while the client was there is a stretch of what was received; to the end
of it, if the client still is. -/
theorem Standing.exists_share (standing : Standing) (received : List Message) :
    ∃ before after, received = before ++ standing.share received ++ after ∧
      ((∃ since, standing = .member since) → after = []) := by
  cases standing with
  | outside => exact ⟨[], received, rfl, fun member => by obtain ⟨_, same⟩ := member; cases same⟩
  | member since =>
      exact ⟨received.take since, [], by simp [Standing.share], fun _ => rfl⟩
  | gone since till =>
      refine ⟨(received.take till).take since, received.drop till, ?_, fun member => ?_⟩
      · rw [Standing.share, List.take_append_drop, List.take_append_drop]
      · obtain ⟨_, same⟩ := member
        cases same

/-- **No gap in what a client takes that takes everything.** -/
theorem Ledger.GapFree.exists_stretch {books : Ledger} {c : ClientId} (gapFree : books.GapFree c)
    (wanted : ∀ turn ∈ (books.account c).turns, turn.Wanted) :
    ∃ before after, books.received.map Message.payload =
        before ++ (books.account c).enqueued ++ after ∧
      (c ∈ books.hub.members → books.hub.pc = .run .select → after = []) := by
  obtain ⟨front, behind, split, member⟩ :=
    Standing.exists_share (books.account c).standing books.received
  have taken : (books.account c).turns.map (fun turn => turn.message.payload) =
      (books.account c).enqueued ++ (books.account c).overflow.toList.map Message.payload := by
    rw [gapFree.enqueued, List.filter_eq_self.mpr fun turn mem => by simpa using wanted turn mem]
  have share : ((books.account c).standing.share books.received).map Message.payload =
      (books.account c).enqueued ++ ((books.account c).overflow.toList.map Message.payload ++
        (books.hub.pc.ahead c).map Message.payload) := by
    rw [← gapFree.turns, List.map_append, List.map_map, ← List.append_assoc, ← taken]
    rfl
  refine ⟨front.map Message.payload, ((books.account c).overflow.toList.map Message.payload ++
    (books.hub.pc.ahead c).map Message.payload) ++ behind.map Message.payload, ?_,
    fun here select => ?_⟩
  · conv_lhs => rw [split]
    rw [List.map_append, List.map_append, share]
    simp only [List.append_assoc]
  · have fits : (books.account c).overflow = none := by
      by_contra overflows
      rcases gapFree.overflow overflows with ⟨stage, next, closing⟩ | ⟨gone, -⟩
      · rw [select] at closing
        cases closing
      · exact gone here
    rw [fits, select, member (gapFree.member.mp here)]
    rfl

/-- **From `Broadcast` to the page.**  In every interleaving of the program with the
`writePump` of a client, as long as nothing panics and no write of this client fails: what the
page has read, with what is still queued for it, is what the hub has put into the client's
`send`, in order and once, with the answers to its own messages in between; and by the books
of the run that is what it was subscribed to, when its turn came, of the broadcasts of its
time as a member.  With the subscription `*`, which `rpcEventsConnectWS` gives to everyone, it
is a stretch of the broadcasts, and there is nothing behind it while the client is registered
and the hub is in its select.  No newline inside a broadcast cuts it in two, and none between
two is lost. -/
theorem page_reads {c : ClientId} {ls : List PageLabel} {s : Page}
    (run : (pageMachine c).exec (pageMachine c).init ls = some s) (alive : s.hub.fault = none)
    (succeeds : ∀ l ∈ ls, l.Succeeds) :
    ∃ (books : Ledger) (sent : List (Option GoString)),
      (bookedMachine c).exec (bookedMachine c).init ls = some (s, books) ∧
      books.hub = s.hub ∧ books.received = broadcasts ls ∧ books.GapFree c ∧
      sent.reduceOption = (books.account c).enqueued ∧
      s.read ++ s.queued c = sent.map sentBytes ∧
      ((∀ onMessage subscriptions, .program (.serve onMessage subscriptions) ∈ ls →
          "*".toList ∈ subscriptions) →
        ∃ before after, (broadcasts ls).map Message.payload =
            before ++ sent.reduceOption ++ after ∧
          (c ∈ s.hub.members → s.hub.pc = .run .select → after = [])) := by
  obtain ⟨books, steps, sent, booked, follows⟩ := follows_of_exec run alive succeeds
  refine ⟨books, sent, booked, follows.hub, follows.received, follows.gapFree,
    follows.enqueued.symm, follows.reads, fun served => ?_⟩
  rw [← follows.received, ← follows.enqueued, ← follows.hub]
  exact follows.gapFree.exists_stretch (follows.starred served).2

/-- Two broadcasts, one of two lines, and a message of the page, answered while the frame is
being written. -/
def twoReads : List PageLabel :=
  [.program (.serve true ["*".toList]), .program (.register 0), .program (.hub 0),
    .program (.broadcast "up\nagain".toList ["blog".toList]), .program (.hub 0),
    .program (.hub 0), .pump (.receive true), .program (.peer 0 "hi".toList),
    .program (.forward 0), .program (.listen 0), .program (.reply 0),
    .program (.broadcast "down".toList ["errors".toList]), .program (.hub 0), .pump .count,
    .pump .turn, .pump .turn, .pump (.flush true)]

/-- The page has read them all. -/
theorem page_reads_twoReads : ∃ (s : Page) (books : Ledger) (sent : List (Option GoString)),
    (bookedMachine 0).exec (bookedMachine 0).init twoReads = some (s, books) ∧ books.GapFree 0 ∧
      sent.reduceOption = (books.account 0).enqueued ∧ s.read = sent.map sentBytes ∧
      s.read = [Utf8.encode "up again".toList, Utf8.encode replyText,
        Utf8.encode "down".toList] := by
  have facts : ((pageMachine 0).exec (pageMachine 0).init twoReads).map
      (fun s => (s.hub.fault, s.read, s.queued 0)) = some (none, [Utf8.encode "up again".toList,
        Utf8.encode replyText, Utf8.encode "down".toList], []) := by decide +kernel
  obtain ⟨s, run, seen⟩ := Option.map_eq_some_iff.mp facts
  obtain ⟨alive, rest⟩ := Prod.mk.inj seen
  obtain ⟨read, queued⟩ := Prod.mk.inj rest
  obtain ⟨books, sent, booked, -, -, gapFree, enqueued, reads, -⟩ :=
    page_reads run alive (by decide)
  rw [queued, List.append_nil] at reads
  exact ⟨s, books, sent, booked, gapFree, enqueued, reads, read⟩

end Websockets

end PumaDev
