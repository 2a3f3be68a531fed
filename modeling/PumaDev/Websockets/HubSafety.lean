import PumaDev.Websockets.HubClosing

/-!
# When the hub's clients are safe

The hub is the only one to close the channels of a client, but it is not the only
one to use them: `readPump` sends to `recv` and the callback of `listen` to `send`
without asking whether the hub still has the client.

`step_cases` lists what the other goroutines and the peers can do, and says exactly when
it is a panic.  In the runs without `Stop` the hub's own channels stay open; the hub's
own sends and closes are safe in any interleaving.  The sends of `readPump` and `listen`
are safe exactly when they come in time (`safe_iff_inTime`), and nothing makes them come
in time.
-/

namespace PumaDev

namespace Websockets

/-! ## The steps of the others -/

/-- The channel of the hub that a step sends to. -/
def Label.channel : Label → Option Shared
  | .register _ => some .register
  | .unregister _ | .purge _ => some .unregister
  | .broadcast .. => some .send
  | .stop => some .stop
  | _ => none

/-- **What the others can do**: the goroutines of the clients, the peers, and the callers
of `Serve`, `Broadcast`, `UnregisterAll` and `Stop`, as far as nobody panics. -/
inductive ClientMove (s : State) : Label → State → Prop
  | served (onMessage : Bool) (subscriptions : List GoString) :
      ClientMove s (.serve onMessage subscriptions)
        { s with conns := s.conns ++ [.new onMessage subscriptions] }
  | changed {l : Label} {c : ClientId} {k k' : Client} (silent : l.channel = none)
      (hk : s.conns[c]? = some k) (alike : k.Alike k') : ClientMove s l (s.setClient c k')
  | registered {c : ClientId} {k : Client} (ready : s.pc = .run .select)
      (hk : s.conns[c]? = some k) (start : k.reader = .unborn) :
      ClientMove s (.register c) ({ s with pc := .insert c }.setClient c k.started)
  | unregistered {l : Label} {c : ClientId} {k k' : Client} (ready : s.pc = .run .select)
      (hk : s.conns[c]? = some k) (alike : k.Alike k') :
      ClientMove s l ({ s with pc := .check c }.setClient c k')
  | broadcast (data : GoString) (tags : List GoString) (ready : s.pc = .run .select) :
      ClientMove s (.broadcast data tags)
        { s with pc := .run (.broadcast ⟨oneLine data, tags⟩ s.members) }
  | stopped (ready : s.pc = .run .select) :
      ClientMove s .stop { s with pc := .closeShared [.register, .unregister, .send, .stop] }

namespace State

/-- **In time**: `readPump` forwards, and `listen` answers, before the hub has
closed the channel. -/
def InTime (s : State) : Label → Prop
  | .forward c => s.RecvDue c
  | .reply c => s.SendDue c
  | _ => True

instance (s : State) : ∀ l : Label, Decidable (s.InTime l)
  | .forward c => inferInstanceAs (Decidable (s.RecvDue c))
  | .reply c => inferInstanceAs (Decidable (s.SendDue c))
  | .serve .. | .register _ | .broadcast .. | .stop | .unregister _ | .purge _ | .hub _
  | .peer .. | .peerGone _ | .listen _ | .drain _ | .writerStops _ => .isTrue trivial

/-- The panic that a step of the others ends in, if it ends in one. -/
def hazard (s : State) : Label → Option Fault
  | .forward c => if s.RecvDue c then none else some .sendToRecv
  | .reply c => if s.SendDue c then none else some .sendToSend
  | l => l.channel.bind fun channel =>
      if channel ∈ s.shut then some (.sendToHub channel) else none

/-- A step of the others either panics or is one of their moves; `hazard` says which. -/
def Outcome (s : State) (l : Label) (t : State) : Prop :=
  (∃ fault, s.hazard l = some fault ∧ t = s.panics fault) ∨ (s.hazard l = none ∧ ClientMove s l t)

variable {s t : State} {c : ClientId} {k k' : Client} {l : Label}

/-- Setting a client to what it is changes nothing. -/
theorem setClient_self (hk : s.conns[c]? = some k) : s.setClient c k = s := by
  obtain ⟨present, rfl⟩ := List.getElem?_eq_some_iff.mp hk
  rw [setClient, List.set_getElem_self present]

/-- A step that nobody but the client sees. -/
theorem Outcome.changed (safe : s.hazard l = none) (silent : l.channel = none)
    (hk : s.conns[c]? = some k) (alike : k.Alike k') : s.Outcome l (s.setClient c k') :=
  .inr ⟨safe, .changed silent hk alike⟩

/-- A send to a channel of the hub. -/
theorem Outcome.of_rendezvous {channel : Shared} {next : State}
    (sends : s.hazard l = if channel ∈ s.shut then some (.sendToHub channel) else none)
    (move : s.pc = .run .select → ClientMove s l next)
    (step : s.rendezvous channel next = some t) : s.Outcome l t := by
  unfold rendezvous at step
  split at step
  · next closed =>
      cases step
      exact .inl ⟨_, sends.trans (if_pos closed), rfl⟩
  · next isOpen =>
      split at step
      · next ready =>
          cases step
          exact .inr ⟨sends.trans (if_neg isOpen), move ready⟩
      · cases step

/-- `readPump` sends to `recv`. -/
theorem outcome_forward (h : s.Orderly) (hk : s.conns[c]? = some k)
    (step : s.clientStep k (.forward c) = some t) : s.Outcome (.forward c) t := by
  simp only [clientStep] at step
  split at step
  · next message recv reader hrecv =>
      have due : recv.closed = false ↔ s.RecvDue c := by
        rw [(h.clients c k hk).recv recv hrecv, reader]
        simp
      split at step
      · next recv' sent =>
          cases step
          have inTime := due.mp (Chan.open_of_offer message (by simp [sent]))
          refine .changed (if_pos inTime) rfl hk ⟨by simp [reader], id, ?_, rfl⟩
          simp [hrecv, Chan.closed_of_sent sent]
      · cases step
      · next fault =>
          cases step
          have late : ¬s.RecvDue c := by simp [← due, Chan.offer_eq_fault_iff.mp fault]
          exact .inl ⟨_, if_neg late, rfl⟩
  · cases step

/-- The callback of `listen` answers. -/
theorem outcome_reply (h : s.Orderly) (hk : s.conns[c]? = some k)
    (step : s.clientStep k (.reply c) = some t) : s.Outcome (.reply c) t := by
  simp only [clientStep] at step
  split at step
  · next replying =>
      have fits := h.clients c k hk
      have born : k.reader ≠ .unborn := fun start => by
        rw [(fits.unborn start).1] at replying
        cases replying
      have due : k.send.closed = false ↔ s.SendDue c := by simp [fits.send, born]
      split at step
      · next send sent =>
          cases step
          have inTime := due.mp (Chan.open_of_offer replyText (by simp [sent]))
          exact .changed (if_pos inTime) rfl hk
            ⟨Iff.rfl, by simp [replying], rfl, Chan.closed_of_sent sent⟩
      · next full =>
          cases step
          have inTime := due.mp (Chan.open_of_offer replyText (by simp [full]))
          exact .changed (if_pos inTime) rfl hk ⟨Iff.rfl, by simp [replying], rfl, rfl⟩
      · next fault =>
          cases step
          have late : ¬s.SendDue c := by simp [← due, Chan.offer_eq_fault_iff.mp fault]
          exact .inl ⟨_, if_neg late, rfl⟩
  · cases step

/-- **A step of a client's goroutine**, or of its peer. -/
theorem outcome_clientStep (h : s.Orderly) (hc : l.client = some c) (hk : s.conns[c]? = some k)
    (step : s.clientStep k l = some t) : s.Outcome l t := by
  cases l with
  | serve | broadcast | stop | hub => cases hc
  | forward d =>
      cases hc
      exact outcome_forward h hk step
  | reply d =>
      cases hc
      exact outcome_reply h hk step
  | register d =>
      cases hc
      simp only [clientStep] at step
      split at step
      · next start => exact .of_rendezvous rfl (fun ready => .registered ready hk start) step
      · cases step
  | unregister d =>
      cases hc
      simp only [clientStep] at step
      split at step
      · next leaving =>
          have alike : k.Alike { k with reader := .done } := ⟨by simp [leaving], id, rfl, rfl⟩
          exact .of_rendezvous rfl (fun ready => .unregistered ready hk alike) step
      · cases step
  | purge d =>
      cases hc
      simp only [clientStep] at step
      split at step
      · have here : s.conns.set c k = s.conns := congrArg conns (setClient_self hk)
        refine .of_rendezvous rfl (fun ready => ?_) step
        have move := ClientMove.unregistered (l := .purge c) ready hk ⟨Iff.rfl, id, rfl, rfl⟩
        rwa [setClient, here] at move
      · cases step
  | peer d raw =>
      cases hc
      simp only [clientStep] at step
      split at step
      · next reading =>
          split at step
          · cases step
            exact .changed rfl rfl hk ⟨by simp [reading], id, rfl, rfl⟩
          · cases step
            have same := Outcome.changed (l := .peer c raw) rfl rfl hk ⟨Iff.rfl, id, rfl, rfl⟩
            rwa [setClient_self hk] at same
      · cases step
  | peerGone d =>
      cases hc
      simp only [clientStep] at step
      split at step
      · next reading =>
          cases step
          exact .changed rfl rfl hk ⟨by simp [reading], id, rfl, rfl⟩
      · cases step
  | listen d =>
      cases hc
      simp only [clientStep] at step
      split at step
      · next recv waiting hrecv =>
          split at step
          · next got =>
              cases step
              refine .changed rfl rfl hk ⟨Iff.rfl, by simp [waiting], ?_, rfl⟩
              simp [hrecv, Chan.closed_of_got got]
          · cases step
          · cases step
            exact .changed rfl rfl hk ⟨Iff.rfl, by simp [waiting], rfl, rfl⟩
      · cases step
  | drain d =>
      cases hc
      simp only [clientStep] at step
      split at step
      · split at step
        · next got =>
            cases step
            exact .changed rfl rfl hk ⟨Iff.rfl, id, rfl, Chan.closed_of_got got⟩
        · cases step
        · cases step
          exact .changed rfl rfl hk ⟨Iff.rfl, id, rfl, rfl⟩
      · cases step
  | writerStops d =>
      cases hc
      simp only [clientStep] at step
      split at step
      · cases step
        exact .changed rfl rfl hk ⟨Iff.rfl, id, rfl, rfl⟩
      · cases step

/-- **What a step can do**, in an orderly state. -/
theorem step_cases (h : s.Orderly) (step : s.step l = some t) : s.fault = none ∧
    ((∃ pick, l = .hub pick ∧ HubMove s pick t) ∨ ((∀ pick, l ≠ .hub pick) ∧ s.Outcome l t)) := by
  unfold State.step at step
  split at step
  · cases step
  · next running =>
      refine ⟨by simpa using running, ?_⟩
      split at step
      · next onMessage subscriptions =>
          cases step
          exact .inr ⟨nofun, .inr ⟨rfl, .served onMessage subscriptions⟩⟩
      · next data tags =>
          exact .inr ⟨nofun, .of_rendezvous rfl (fun ready => .broadcast data tags ready) step⟩
      · exact .inr ⟨nofun, .of_rendezvous rfl (fun ready => .stopped ready) step⟩
      · next pick => exact .inl ⟨pick, rfl, hubMove_of_step h step⟩
      · next notHub =>
          obtain ⟨c, hc, rest⟩ := Option.bind_eq_some_iff.mp step
          obtain ⟨k, hk, moves⟩ := Option.bind_eq_some_iff.mp rest
          exact .inr ⟨notHub, outcome_clientStep h hc hk moves⟩

/-- A move of the others keeps the invariant. -/
theorem Orderly.of_clientMove (h : s.Orderly) (move : ClientMove s l t) : t.Orderly := by
  cases move with
  | served onMessage subscriptions => exact h.serve onMessage subscriptions
  | changed silent hk alike => exact h.setClient hk alike
  | @registered c k ready hk start =>
      refine h.of_set hk rfl trivial (fun d other => ?_)
        ((h.clients c k hk).started start ?_ ?_)
      · simp [RecvDue, SendDue, ready, Ne.symm other]
      · simp [RecvDue]
      · simp [SendDue]
  | @unregistered l c k k' ready hk alike =>
      have turned : ({ s with pc := .check c } : State).Orderly :=
        h.turns ready trivial fun _ => by simp
      exact turned.setClient (k := k) hk alike
  | broadcast data tags ready => exact h.turns ready (fun _ mem => mem) fun _ => by simp
  | stopped ready => exact h.turns ready trivial fun _ => by simp

/-- Who sends to the hub is received in its select. -/
theorem ready_of_clientMove (move : ClientMove s l t) (sends : l.channel ≠ none) :
    s.pc = .run .select := by
  cases move with
  | served => exact absurd rfl sends
  | changed silent => exact absurd silent sends
  | registered ready | unregistered ready | broadcast _ _ ready | stopped ready => exact ready

/-- A move of the others closes none of the hub's channels. -/
theorem shut_of_clientMove (move : ClientMove s l t) : t.shut = s.shut := by
  cases move <;> rfl

/-- Only `Stop` stops the hub. -/
theorem stopping_of_clientMove (move : ClientMove s l t) (served : l ≠ .stop) :
    t.pc.stopping = s.pc.stopping := by
  cases move with
  | served | changed => rfl
  | registered ready | unregistered ready | broadcast _ _ ready =>
      simp [ready, HubPc.stopping, Resume.stopping]
  | stopped => exact absurd rfl served

theorem fault_of_clientMove (move : ClientMove s l t) : t.fault = s.fault := by
  cases move <;> rfl

/-- **A step** keeps the invariant, and panics as `hazard` says. -/
theorem Orderly.of_step (h : s.Orderly) (step : s.step l = some t) :
    t.Orderly ∧ t.fault = s.hazard l := by
  obtain ⟨alive, ⟨pick, rfl, move⟩ | ⟨-, ⟨fault, panics, rfl⟩ | ⟨safe, move⟩⟩⟩ := step_cases h step
  · exact ⟨h.of_hubMove move, (fault_of_hubMove move).trans alive⟩
  · exact ⟨h.panics fault, panics.symm⟩
  · exact ⟨h.of_clientMove move, (fault_of_clientMove move).trans (alive.trans safe.symm)⟩

theorem orderly_init : hubMachine.init.Orderly where
  ranges := trivial
  known := fun c due => by simp [SendDue, hubMachine] at due
  clients := nofun

end State

/-! ## Runs without `Stop` -/

/-- The hub is where it can get without `Stop`, and ranges over its own clients. -/
def Resume.Serves (members : List ClientId) : Resume → Prop
  | .select => True
  | .broadcast _ todo => ∀ d ∈ todo, d ∈ members
  | .shutdown _ => False

/-- The same of the hub's program counter; while a client is being closed, the loop
that goes on afterwards does not come back to it. -/
def HubPc.Serves (members : List ClientId) : HubPc → Prop
  | .run next => next.Serves members
  | .insert _ | .check _ => True
  | .close stage c next =>
      (c ∈ members ↔ stage = .delete) ∧ next.Serves members ∧ c ∉ next.todo
  | .closeShared _ | .stopped => False

/-- **The invariant** of the runs without `Stop`. -/
structure State.Coherent (s : State) : Prop where
  shut : s.shut = []
  serves : s.pc.Serves s.members
  known : ∀ c, s.SendDue c → c < s.conns.length
  clients : ∀ c (k : Client), s.conns[c]? = some k → k.Fits (s.RecvDue c) (s.SendDue c)

/-- The hub serves where it ranges over its own clients and is not stopping. -/
theorem HubPc.serves_iff {pc : HubPc} {members : List ClientId} :
    pc.Serves members ↔ pc.Ranges members ∧ pc.stopping = false := by
  cases pc with
  | run next => cases next <;> simp [Serves, Resume.Serves, Ranges, Resume.Ranges, stopping,
      Resume.stopping]
  | insert c | check c | closeShared left | stopped => simp [Serves, Ranges, stopping]
  | close stage c next =>
      cases next with
      | select | shutdown todo =>
          simp [Serves, Resume.Serves, Ranges, Resume.Ranges, stopping, Resume.stopping,
            Resume.todo]
      | broadcast message todo =>
          have others : (∀ d ∈ todo, d ∈ members) ∧ c ∉ todo ↔
              ∀ d ∈ todo, d ∈ members.filter (· ≠ c) := by
            constructor
            · rintro ⟨all, elsewhere⟩ d mem
              refine List.mem_filter.mpr ⟨all d mem, decide_eq_true fun same => ?_⟩
              exact elsewhere (same ▸ mem)
            · intro all
              refine ⟨fun d mem => List.mem_of_mem_filter (all d mem), fun mem => ?_⟩
              simpa using (List.mem_filter.mp (all c mem)).2
          simp only [Serves, Resume.Serves, Ranges, Resume.Ranges, Resume.todo, others, stopping,
            Resume.stopping, and_true]

namespace State

variable {s t : State} {l : Label}

theorem coherent_iff : s.Coherent ↔ s.Orderly ∧ s.shut = [] ∧ s.pc.stopping = false := by
  constructor
  · intro h
    obtain ⟨ranges, serving⟩ := HubPc.serves_iff.mp h.serves
    exact ⟨⟨ranges, h.known, h.clients⟩, h.shut, serving⟩
  · rintro ⟨h, shut, serving⟩
    exact ⟨shut, HubPc.serves_iff.mpr ⟨h.ranges, serving⟩, h.known, h.clients⟩

theorem coherent_init : hubMachine.init.Coherent :=
  coherent_iff.mpr ⟨orderly_init, rfl, rfl⟩

/-- While the hub's channels are open, only `readPump` and `listen` can panic. -/
theorem hazard_eq_none_iff (shut : s.shut = []) : s.hazard l = none ↔ s.InTime l := by
  cases l <;> simp [hazard, InTime, Label.channel, shut]

/-- **A step without `Stop`** keeps the invariant, and panics exactly when it does
not come in time. -/
theorem kept_step (h : s.Coherent) (served : l ≠ .stop) (step : s.step l = some t) :
    t.Coherent ∧ (t.fault = none ↔ s.InTime l) := by
  obtain ⟨orderly, shut, serving⟩ := coherent_iff.mp h
  obtain ⟨next, fault⟩ := orderly.of_step step
  refine ⟨coherent_iff.mpr ⟨next, ?_⟩, by rw [fault, hazard_eq_none_iff shut]⟩
  obtain ⟨-, ⟨pick, rfl, move⟩ | ⟨-, ⟨fault, -, rfl⟩ | ⟨-, move⟩⟩⟩ := step_cases orderly step
  · exact ⟨(shut_of_hubMove move serving).trans shut, (stopping_of_hubMove move).trans serving⟩
  · exact ⟨shut, serving⟩
  · exact ⟨(shut_of_clientMove move).trans shut,
      (stopping_of_clientMove move served).trans serving⟩

end State

/-- **When the clients are safe.**  In the runs in which `Stop` is never called,
nobody sends to a closed channel of a client or closes one twice exactly when every
`readPump` forwards, and every `listen` answers, before the hub has closed the
channel it sends to. -/
theorem safe_iff_inTime (ls : List Label) (noStop : ∀ l ∈ ls, l ≠ .stop) :
    (∀ t ∈ hubMachine.visited hubMachine.init ls, t.fault = none) ↔
      hubMachine.Guarded State.InTime hubMachine.init ls :=
  hubMachine.visited_iff_guarded_of_labels
    (fun _ _ _ served inv step => (State.kept_step inv served step).1)
    (fun _ _ _ served inv _ step => (State.kept_step inv served step).2)
    ls noStop State.coherent_init rfl

/-- A connection that sends one message and goes away; `answers` is what its `listen`
does in between, `rest` what happens after the hub has closed the channels. -/
def briefVisit (answers rest : List Label) : List Label :=
  [.serve true ["*".toList], .register 0, .hub 0, .peer 0 "hello".toList, .forward 0] ++
    answers ++ [.peerGone 0, .unregister 0, .hub 0, .hub 0, .hub 0, .hub 0] ++ rest

/-- The message is answered while the client is connected. -/
theorem safe_promptAnswer :
    (hubMachine.exec hubMachine.init
      (briefVisit [.listen 0, .reply 0] [.listen 0, .drain 0, .drain 0])).isSome = true ∧
    ∀ t ∈ hubMachine.visited hubMachine.init
      (briefVisit [.listen 0, .reply 0] [.listen 0, .drain 0, .drain 0]), t.fault = none :=
  ⟨by decide, (safe_iff_inTime _ (by decide)).mpr (by decide)⟩

/-- **A message that outlives its client.**  It was buffered in `recv` when the peer
left; the hub closes both channels, `listen` still receives it, and its answer is a
send to a closed channel. -/
theorem panics_lateAnswer :
    ∃ ls : List Label, (∀ l ∈ ls, l ≠ .stop) ∧
      ∃ t ∈ hubMachine.visited hubMachine.init ls, t.fault = some .sendToSend := by
  have run : (hubMachine.exec hubMachine.init (briefVisit [] [.listen 0, .reply 0])).map
      State.fault = some (some .sendToSend) := by decide
  obtain ⟨t, ends, fault⟩ := Option.map_eq_some_iff.mp run
  exact ⟨_, by decide, t, hubMachine.mem_visited_of_exec ends, fault⟩

end Websockets

end PumaDev
