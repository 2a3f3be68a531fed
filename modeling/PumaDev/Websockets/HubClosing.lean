import PumaDev.Websockets.Hub

/-!
# What the hub has still to close

The hub is the only one to close the channels of a client, but it is not the only
one to use them.  Whether a channel is open is decided by two things that the other
goroutines cannot see, the hub's set of clients and the point the hub is at.
`RecvDue` and `SendDue` say it in these terms: the hub has the closing of the channel
still before it.

`Orderly` is the invariant of all runs, with and without `Stop`: a channel of a
registered client is open exactly as long as its closing is due, and the hub ranges over
clients it has.  `hubMove_of_step` lists what the hub can do in an orderly state; none
of it is a send to a closed channel or a second close.
-/

namespace PumaDev

namespace Websockets

/-! ## What is due -/

/-- The hub is about to add the client, or to close its `recv`. -/
def HubPc.owesRecv : HubPc → ClientId → Bool
  | .insert d, c => d = c
  | .close .delete d _, c => d = c
  | .close .recv d _, c => d = c
  | _, _ => false

/-- The hub is about to add the client, or to close its `send`. -/
def HubPc.owesSend : HubPc → ClientId → Bool
  | .insert d, c => d = c
  | .close _ d _, c => d = c
  | _, _ => false

@[simp] theorem HubPc.owesRecv_run (next : Resume) (c : ClientId) :
    (HubPc.run next).owesRecv c = false := rfl

@[simp] theorem HubPc.owesSend_run (next : Resume) (c : ClientId) :
    (HubPc.run next).owesSend c = false := rfl

@[simp] theorem HubPc.owesRecv_insert (d c : ClientId) :
    (HubPc.insert d).owesRecv c = decide (d = c) := rfl

@[simp] theorem HubPc.owesSend_insert (d c : ClientId) :
    (HubPc.insert d).owesSend c = decide (d = c) := rfl

@[simp] theorem HubPc.owesRecv_check (d c : ClientId) :
    (HubPc.check d).owesRecv c = false := rfl

@[simp] theorem HubPc.owesSend_check (d c : ClientId) :
    (HubPc.check d).owesSend c = false := rfl

@[simp] theorem HubPc.owesRecv_close_delete (d c : ClientId) (next : Resume) :
    (HubPc.close .delete d next).owesRecv c = decide (d = c) := rfl

@[simp] theorem HubPc.owesRecv_close_recv (d c : ClientId) (next : Resume) :
    (HubPc.close .recv d next).owesRecv c = decide (d = c) := rfl

@[simp] theorem HubPc.owesRecv_close_send (d c : ClientId) (next : Resume) :
    (HubPc.close .send d next).owesRecv c = false := rfl

@[simp] theorem HubPc.owesRecv_closeShared (left : List Shared) (c : ClientId) :
    (HubPc.closeShared left).owesRecv c = false := rfl

@[simp] theorem HubPc.owesSend_closeShared (left : List Shared) (c : ClientId) :
    (HubPc.closeShared left).owesSend c = false := rfl

@[simp] theorem HubPc.owesRecv_stopped (c : ClientId) :
    HubPc.stopped.owesRecv c = false := rfl

@[simp] theorem HubPc.owesSend_stopped (c : ClientId) :
    HubPc.stopped.owesSend c = false := rfl

@[simp] theorem HubPc.owesSend_close (stage : CloseStage) (d c : ClientId) (next : Resume) :
    (HubPc.close stage d next).owesSend c = decide (d = c) := rfl

/-- The clients that a loop of the hub has still to visit. -/
def Resume.todo : Resume → List ClientId
  | .select => []
  | .broadcast _ todo => todo
  | .shutdown todo => todo

namespace State

/-- The closing of the client's `recv` is still before the hub. -/
def RecvDue (s : State) (c : ClientId) : Prop := c ∈ s.members ∨ s.pc.owesRecv c

/-- The closing of the client's `send` is still before the hub. -/
def SendDue (s : State) (c : ClientId) : Prop := c ∈ s.members ∨ s.pc.owesSend c

instance (s : State) (c : ClientId) : Decidable (s.RecvDue c) :=
  inferInstanceAs (Decidable (_ ∨ _))

instance (s : State) (c : ClientId) : Decidable (s.SendDue c) :=
  inferInstanceAs (Decidable (_ ∨ _))

/-- The hub closes `recv` before `send`. -/
theorem RecvDue.sendDue {s : State} {c : ClientId} (due : s.RecvDue c) : s.SendDue c := by
  refine due.imp_right fun owed => ?_
  cases at_ : s.pc with
  | close stage d next =>
      rw [at_] at owed
      cases stage with
      | delete | recv => exact owed
      | send => cases owed
  | insert d =>
      rw [at_] at owed
      exact owed
  | run | check | closeShared | stopped =>
      rw [at_] at owed
      cases owed

end State

namespace Client

/-- The channels of a client are open exactly as long as they should be. -/
structure Fits (k : Client) (recvDue sendDue : Prop) : Prop where
  unborn : k.reader = .unborn → k.listener = .unborn ∧ ¬sendDue
  recv : ∀ ch, k.recv = some ch → (ch.closed = false ↔ k.reader = .unborn ∨ recvDue)
  send : k.send.closed = false ↔ k.reader = .unborn ∨ sendDue

/-- Two states of a client that the invariant does not tell apart. -/
structure Alike (k k' : Client) : Prop where
  reader : k'.reader = .unborn ↔ k.reader = .unborn
  listener : k.listener = .unborn → k'.listener = .unborn
  recv : k'.recv.map Chan.closed = k.recv.map Chan.closed
  send : k'.send.closed = k.send.closed

variable {k k' : Client} {recvDue sendDue recvDue' sendDue' : Prop}

theorem Fits.of_iff (h : k.Fits recvDue sendDue) (recv : recvDue' ↔ recvDue)
    (send : sendDue' ↔ sendDue) : k.Fits recvDue' sendDue' := by
  rwa [propext recv, propext send]

theorem Fits.of_alike (h : k.Fits recvDue sendDue) (alike : k.Alike k') :
    k'.Fits recvDue sendDue where
  unborn := fun start =>
    have ⟨listener, due⟩ := h.unborn (alike.reader.mp start)
    ⟨alike.listener listener, due⟩
  recv := by
    intro ch hch
    have same := alike.recv
    rw [hch] at same
    obtain ⟨old, hold, closed⟩ := Option.map_eq_some_iff.mp same.symm
    rw [← closed, alike.reader]
    exact h.recv old hold
  send := by
    rw [alike.send, alike.reader]
    exact h.send

/-- A client whose closing is due has been registered. -/
theorem Fits.born (h : k.Fits recvDue sendDue) (due : sendDue) : k.reader ≠ .unborn :=
  fun start => (h.unborn start).2 due

/-- Its `recv` is closed now, if it has one, and its `send` is next. -/
theorem Fits.recv_closed (h : k.Fits recvDue sendDue) (due : sendDue)
    {recv : Option (Chan GoString)} (closed : ∀ ch, recv = some ch → ch.closed = true)
    (gone : ¬recvDue') (next : sendDue') :
    ({ k with recv := recv } : Client).Fits recvDue' sendDue' where
  unborn := fun start => absurd start (h.born due)
  recv := fun ch hch => by simp [closed ch hch, h.born due, gone]
  send := by simp [h.send.mpr (.inr due), next]

/-- Both of its channels are closed now. -/
theorem Fits.send_closed (h : k.Fits recvDue sendDue) (due : sendDue)
    {send : Chan GoString} (closed : send.closed = true) (past : ¬recvDue)
    (recvGone : ¬recvDue') (sendGone : ¬sendDue') :
    ({ k with send := send } : Client).Fits recvDue' sendDue' where
  unborn := fun start => absurd start (h.born due)
  recv := fun ch hch => by simp [h.recv ch hch, past, recvGone]
  send := by simp [closed, h.born due, sendGone]

/-- Its goroutines start, once the hub is about to add it. -/
theorem Fits.started (h : k.Fits recvDue sendDue) (start : k.reader = .unborn)
    (recv : recvDue') (send : sendDue') : k.started.Fits recvDue' sendDue' where
  unborn := fun unborn => by cases unborn
  recv := fun ch hch => by simp [(h.recv ch hch).mpr (.inl start), recv]
  send := by simp [Client.started, h.send.mpr (.inl start), send]

/-- A new client. -/
theorem fits_new (onMessage : Bool) (subscriptions : List GoString)
    (send : ¬sendDue) : (new onMessage subscriptions).Fits recvDue sendDue where
  unborn := fun _ => ⟨rfl, send⟩
  recv := by
    intro ch hch
    cases onMessage with
    | false => cases hch
    | true =>
        cases hch
        simp [new]
  send := by simp [new]

end Client

/-! ## The invariant -/

/-- The loop is the one of `shutdown`. -/
def Resume.stopping : Resume → Bool
  | .shutdown _ => true
  | .select | .broadcast .. => false

/-- The hub has received a stop. -/
def HubPc.stopping : HubPc → Bool
  | .run next | .close _ _ next => next.stopping
  | .closeShared _ | .stopped => true
  | .insert _ | .check _ => false

/-- A loop of the hub ranges over clients that it has, and the loop of `shutdown` over
all of them. -/
def Resume.Ranges (members : List ClientId) : Resume → Prop
  | .select => True
  | .broadcast _ todo => ∀ d ∈ todo, d ∈ members
  | .shutdown todo => ∀ d, d ∈ todo ↔ d ∈ members

/-- The same of the hub's program counter; while a client is being closed, the loop
that goes on afterwards ranges over the others. -/
def HubPc.Ranges (members : List ClientId) : HubPc → Prop
  | .run next => next.Ranges members
  | .close stage c next =>
      (c ∈ members ↔ stage = .delete) ∧ next.Ranges (members.filter (· ≠ c))
  | .stopped => members = []
  | .insert _ | .check _ | .closeShared _ => True

/-- The loop goes on after a client that it has visited. -/
theorem Resume.Ranges.visited {members todo : List ClientId} {message : Message}
    {c : ClientId} (h : (Resume.broadcast message todo).Ranges members) :
    (Resume.broadcast message (todo.filter (· ≠ c))).Ranges members :=
  fun d mem => h d (List.mem_of_mem_filter mem)

/-- The loop goes on after a client that it has to close. -/
theorem Resume.Ranges.overflowed {members todo : List ClientId} {message : Message}
    {c : ClientId} (h : (Resume.broadcast message todo).Ranges members) :
    (Resume.broadcast message (todo.filter (· ≠ c))).Ranges (members.filter (· ≠ c)) := by
  intro d mem
  obtain ⟨old, other⟩ := List.mem_filter.mp mem
  exact List.mem_filter.mpr ⟨h d old, other⟩

/-- **The invariant** of all runs. -/
structure State.Orderly (s : State) : Prop where
  ranges : s.pc.Ranges s.members
  known : ∀ c, s.SendDue c → c < s.conns.length
  clients : ∀ c (k : Client), s.conns[c]? = some k → k.Fits (s.RecvDue c) (s.SendDue c)

namespace State

variable {s t : State} {c : ClientId} {k k' : Client}

/-! ## What the steps keep -/

/-- No client is touched, and what is due stays due. -/
theorem Orderly.of_conns (h : s.Orderly) (conns : t.conns = s.conns)
    (ranges : t.pc.Ranges t.members)
    (dues : ∀ d, (t.RecvDue d ↔ s.RecvDue d) ∧ (t.SendDue d ↔ s.SendDue d)) :
    t.Orderly where
  ranges := ranges
  known := fun d due => by
    rw [conns]
    exact h.known d ((dues d).2.mp due)
  clients := by
    intro d kd hd
    rw [conns] at hd
    exact (h.clients d kd hd).of_iff (dues d).1 (dues d).2

/-- One client changes, and what is due for the others stays due. -/
theorem Orderly.of_set (h : s.Orderly) (hk : s.conns[c]? = some k)
    (conns : t.conns = s.conns.set c k') (ranges : t.pc.Ranges t.members)
    (others : ∀ d, d ≠ c → (t.RecvDue d ↔ s.RecvDue d) ∧ (t.SendDue d ↔ s.SendDue d))
    (fits : k'.Fits (t.RecvDue c) (t.SendDue c)) : t.Orderly where
  ranges := ranges
  known := by
    intro d due
    rw [conns, List.length_set]
    by_cases same : d = c
    · exact same ▸ (List.getElem?_eq_some_iff.mp hk).1
    · exact h.known d ((others d same).2.mp due)
  clients := by
    intro d kd hd
    rw [conns, List.getElem?_set] at hd
    split at hd
    · next same =>
        subst same
        split at hd
        · cases hd
          exact fits
        · cases hd
    · next other =>
        have dues := others d (Ne.symm other)
        exact (h.clients d kd hd).of_iff dues.1 dues.2

/-- The hub stands still, and a client moves as the invariant does not see. -/
theorem Orderly.setClient (h : s.Orderly) (hk : s.conns[c]? = some k)
    (alike : k.Alike k') : (s.setClient c k').Orderly :=
  h.of_set hk rfl h.ranges (fun _ _ => ⟨Iff.rfl, Iff.rfl⟩)
    ((h.clients c k hk).of_alike alike)

/-- A new connection: nothing is due for its client yet. -/
theorem Orderly.serve (h : s.Orderly) (onMessage : Bool) (subscriptions : List GoString) :
    ({ s with conns := s.conns ++ [.new onMessage subscriptions] } : State).Orderly where
  ranges := h.ranges
  known := fun d due => by
    rw [List.length_append]
    exact Nat.lt_add_right _ (h.known d due)
  clients := by
    intro d kd hd
    rw [List.getElem?_append] at hd
    split at hd
    · exact h.clients d kd hd
    · next beyond =>
        have new := List.mem_singleton.mp (List.mem_of_getElem? hd)
        rw [new]
        exact Client.fits_new _ _ fun due => beyond (h.known d due)

/-- A panic changes nothing that the invariant speaks of. -/
theorem Orderly.panics (h : s.Orderly) (fault : Fault) : (s.panics fault).Orderly :=
  ⟨h.ranges, h.known, h.clients⟩

/-- A client that the hub still has to close can be sent to. -/
theorem Orderly.send_open (h : s.Orderly) (hk : s.conns[c]? = some k)
    (due : s.SendDue c) : k.send.closed = false :=
  (h.clients c k hk).send.mpr (.inr due)

/-- The hub, in its select, turns to something that touches no client. -/
theorem Orderly.turns (h : s.Orderly) (ready : s.pc = .run .select) {pc : HubPc}
    (ranges : pc.Ranges s.members) (idle : ∀ d, pc.owesRecv d = false ∧ pc.owesSend d = false) :
    ({ s with pc := pc } : State).Orderly :=
  h.of_conns rfl ranges fun d => by simp [RecvDue, SendDue, ready, idle d]

end State

/-! ## The steps of the hub -/

/-- **What the hub can do next**, in an orderly state. -/
inductive HubMove (s : State) (pick : ClientId) : State → Prop
  | inserted {c : ClientId} (at_ : s.pc = .insert c) :
      HubMove s pick { s with members := c :: s.members.filter (· ≠ c), pc := .run .select }
  | found {c : ClientId} (at_ : s.pc = .check c) (member : c ∈ s.members) :
      HubMove s pick { s with pc := .close .delete c .select }
  | unknown {c : ClientId} (at_ : s.pc = .check c) (stranger : c ∉ s.members) :
      HubMove s pick { s with pc := .run .select }
  | finished {message : Message} (at_ : s.pc = .run (.broadcast message [])) :
      HubMove s pick { s with pc := .run .select }
  | passed {message : Message} {todo : List ClientId} {k : Client}
      (at_ : s.pc = .run (.broadcast message todo)) (picked : pick ∈ todo)
      (hk : s.conns[pick]? = some k) (other : k.isSubscribed message.tags = false) :
      HubMove s pick { s with pc := .run (.broadcast message (todo.filter (· ≠ pick))) }
  | enqueued {message : Message} {todo : List ClientId} {k : Client} {send : Chan GoString}
      (at_ : s.pc = .run (.broadcast message todo)) (picked : pick ∈ todo)
      (hk : s.conns[pick]? = some k) (subscribed : k.isSubscribed message.tags = true)
      (sent : k.send.offer message.payload = .sent send) :
      HubMove s pick ({ s with pc := .run (.broadcast message (todo.filter (· ≠ pick))) }.setClient
        pick { k with send := send })
  | overflowed {message : Message} {todo : List ClientId} {k : Client}
      (at_ : s.pc = .run (.broadcast message todo)) (picked : pick ∈ todo)
      (hk : s.conns[pick]? = some k) (subscribed : k.isSubscribed message.tags = true)
      (full : k.send.offer message.payload = .full) :
      HubMove s pick
        { s with pc := .close .delete pick (.broadcast message (todo.filter (· ≠ pick))) }
  | deleted {c : ClientId} {next : Resume} (at_ : s.pc = .close .delete c next) :
      HubMove s pick { s with members := s.members.filter (· ≠ c), pc := .close .recv c next }
  | recvClosed {c : ClientId} {next : Resume} {k : Client} (at_ : s.pc = .close .recv c next)
      (hk : s.conns[c]? = some k) :
      HubMove s pick ({ s with pc := .close .send c next }.setClient c
        { k with recv := k.recv.map fun ch : Chan GoString => { ch with closed := true } })
  | sendClosed {c : ClientId} {next : Resume} {k : Client} (at_ : s.pc = .close .send c next)
      (hk : s.conns[c]? = some k) :
      HubMove s pick ({ s with pc := .run next }.setClient c
        { k with send := { k.send with closed := true } })
  | sharedClosed {channel : Shared} {left : List Shared}
      (at_ : s.pc = .closeShared (channel :: left)) :
      HubMove s pick { s with shut := channel :: s.shut, pc := .closeShared left }
  | allClosed (at_ : s.pc = .closeShared []) :
      HubMove s pick { s with pc := .run (.shutdown s.members) }
  | evicted {todo : List ClientId} (at_ : s.pc = .run (.shutdown todo)) (picked : pick ∈ todo) :
      HubMove s pick
        { s with pc := .close .delete pick (.shutdown (todo.filter (· ≠ pick))) }
  | returned (at_ : s.pc = .run (.shutdown [])) : HubMove s pick { s with pc := .stopped }

namespace State

variable {s t : State} {pick : ClientId}

/-- A turn of the loop of `broadcast`. -/
theorem hubMove_of_broadcast {message : Message} {todo : List ClientId} (h : s.Orderly)
    (at_ : s.pc = .run (.broadcast message todo)) (step : s.hubStep pick = some t) :
    HubMove s pick t := by
  have visits : ∀ d ∈ todo, d ∈ s.members := by
    have ranges := h.ranges
    rwa [at_] at ranges
  cases todo with
  | nil =>
      rw [hubStep, at_] at step
      cases step
      exact .finished at_
  | cons first rest =>
      simp only [hubStep, at_] at step
      split at step
      case isFalse => cases step
      case isTrue picked =>
        split at step
        · cases step
        · next k hk =>
            split at step
            · next subscribed =>
                split at step
                · next send sent =>
                    cases step
                    exact .enqueued at_ picked hk subscribed sent
                · next full =>
                    cases step
                    exact .overflowed at_ picked hk subscribed full
                · next fault =>
                    -- the client is a member, so that its `send` is open
                    have closed := Chan.offer_eq_fault_iff.mp fault
                    rw [h.send_open hk (.inl (visits pick picked))] at closed
                    cases closed
            · next other =>
                cases step
                exact .passed at_ picked hk (by simpa using other)

/-- A step of `Client.close`. -/
theorem hubMove_of_close {stage : CloseStage} {c : ClientId} {next : Resume} (h : s.Orderly)
    (at_ : s.pc = .close stage c next) (step : s.hubStep pick = some t) : HubMove s pick t := by
  cases stage with
  | delete =>
      rw [hubStep, at_] at step
      cases step
      exact .deleted at_
  | recv =>
      simp only [hubStep, at_] at step
      split at step
      · cases step
      · next k hk =>
          have move : HubMove s pick _ := .recvClosed at_ hk
          split at step
          · next without =>
              cases step
              have same : s.conns.set c { k with recv := none } = s.conns := by
                obtain ⟨present, rfl⟩ := List.getElem?_eq_some_iff.mp hk
                rw [← without]
                exact List.set_getElem_self present
              simpa [without, setClient, same] using move
          · next recv hrecv =>
              have due : s.RecvDue c := .inr (by simp [at_])
              have isOpen := ((h.clients c k hk).recv recv hrecv).mpr (.inr due)
              rw [Chan.close_of_open isOpen] at step
              cases step
              simpa [hrecv] using move
  | send =>
      simp only [hubStep, at_] at step
      split at step
      · cases step
      · next k hk =>
          rw [Chan.close_of_open (h.send_open hk (.inr (by simp [at_])))] at step
          cases step
          exact .sendClosed at_ hk

/-- **A step of the hub**, in an orderly state: it never panics. -/
theorem hubMove_of_step (h : s.Orderly) (step : s.hubStep pick = some t) : HubMove s pick t := by
  cases at_ : s.pc with
  | insert c =>
      rw [hubStep, at_] at step
      cases step
      exact .inserted at_
  | check c =>
      rw [hubStep, at_] at step
      cases step
      by_cases member : c ∈ s.members
      · rw [if_pos member]
        exact .found at_ member
      · rw [if_neg member]
        exact .unknown at_ member
  | close stage c next => exact hubMove_of_close h at_ step
  | closeShared left =>
      cases left with
      | nil =>
          rw [hubStep, at_] at step
          cases step
          exact .allClosed at_
      | cons channel left =>
          rw [hubStep, at_] at step
          cases step
          exact .sharedClosed at_
  | stopped =>
      rw [hubStep, at_] at step
      cases step
  | run next =>
      cases next with
      | select =>
          rw [hubStep, at_] at step
          cases step
      | broadcast message todo => exact hubMove_of_broadcast h at_ step
      | shutdown todo =>
          cases todo with
          | nil =>
              rw [hubStep, at_] at step
              cases step
              exact .returned at_
          | cons first rest =>
              simp only [hubStep, at_] at step
              split at step
              · next picked =>
                  cases step
                  exact .evicted at_ picked
              · cases step

/-- The hub panics at none of its steps. -/
theorem fault_of_hubMove (move : HubMove s pick t) : t.fault = s.fault := by
  cases move <;> rfl

/-- A step of the hub on its own is not what stops it. -/
theorem stopping_of_hubMove (move : HubMove s pick t) : t.pc.stopping = s.pc.stopping := by
  cases move with
  | inserted at_ | found at_ member | unknown at_ stranger | finished at_
  | passed at_ picked hk other | enqueued at_ picked hk subscribed sent
  | overflowed at_ picked hk subscribed full | deleted at_ | recvClosed at_ hk | sendClosed at_ hk
  | sharedClosed at_ | allClosed at_ | evicted at_ picked | returned at_ =>
      simp [at_, HubPc.stopping, Resume.stopping]

/-- The hub closes its own channels once it has been stopped. -/
theorem shut_of_hubMove (move : HubMove s pick t) (serving : s.pc.stopping = false) :
    t.shut = s.shut := by
  cases move with
  | sharedClosed at_ => cases at_ ▸ serving
  | _ => rfl

/-- The hub turns from a client that is a member to the closing of that client. -/
theorem Orderly.closes (h : s.Orderly) {c : ClientId} {next : Resume} (member : c ∈ s.members)
    (idle : ∀ d, s.pc.owesRecv d = false ∧ s.pc.owesSend d = false)
    (ranges : next.Ranges (s.members.filter (· ≠ c))) :
    ({ s with pc := .close .delete c next } : State).Orderly := by
  refine h.of_conns rfl ⟨iff_of_true member rfl, ranges⟩ fun d => ?_
  have stays : d ∈ s.members ∨ c = d ↔ d ∈ s.members :=
    or_iff_left_of_imp fun same => same ▸ member
  simpa [RecvDue, SendDue, idle d] using stays

/-- A client that is being closed is a member until it is deleted. -/
theorem Orderly.closing (h : s.Orderly) {stage : CloseStage} {c : ClientId} {next : Resume}
    (at_ : s.pc = .close stage c next) :
    (c ∈ s.members ↔ stage = .delete) ∧ next.Ranges (s.members.filter (· ≠ c)) := by
  have ranges := h.ranges
  rwa [at_] at ranges

/-- What a loop of the hub ranges over. -/
theorem Orderly.running (h : s.Orderly) {next : Resume} (at_ : s.pc = .run next) :
    next.Ranges s.members := by
  have ranges := h.ranges
  rwa [at_] at ranges

/-- A client that has been deleted is not among the others either. -/
theorem filter_of_notMem {members : List ClientId} {c : ClientId} (gone : c ∉ members) :
    members.filter (· ≠ c) = members :=
  List.filter_eq_self.mpr fun _ mem => decide_eq_true fun same => gone (same ▸ mem)

/-- **A step of the hub** keeps the invariant. -/
theorem Orderly.of_hubMove (h : s.Orderly) (move : HubMove s pick t) : t.Orderly := by
  cases move with
  | @inserted c at_ =>
      refine h.of_conns rfl trivial fun d => ?_
      by_cases same : d = c
      · simp [RecvDue, SendDue, at_, same]
      · simp [RecvDue, SendDue, at_, same, Ne.symm same]
  | found at_ member => exact h.closes member (fun _ => by simp [at_]) trivial
  | unknown at_ | finished at_ =>
      exact h.of_conns rfl trivial fun d => by simp [RecvDue, SendDue, at_]
  | passed at_ picked hk other =>
      exact h.of_conns rfl (h.running at_).visited fun d => by simp [RecvDue, SendDue, at_]
  | @enqueued message todo k send at_ picked hk subscribed sent =>
      have goesOn : ({ s with pc := .run (.broadcast message
          (todo.filter (· ≠ pick))) } : State).Orderly :=
        h.of_conns rfl (h.running at_).visited fun d => by simp [RecvDue, SendDue, at_]
      exact goesOn.setClient (k := k) hk ⟨Iff.rfl, id, rfl, Chan.closed_of_sent sent⟩
  | overflowed at_ picked hk subscribed full =>
      exact h.closes (h.running at_ _ picked) (fun _ => by simp [at_]) (h.running at_).overflowed
  | @deleted c next at_ =>
      have gone : c ∉ s.members.filter (· ≠ c) := by simp
      refine h.of_conns rfl ⟨iff_of_false gone nofun, ?_⟩ fun d => ?_
      · show next.Ranges ((s.members.filter (· ≠ c)).filter (· ≠ c))
        rw [filter_of_notMem gone]
        exact (h.closing at_).2
      · have member : c ∈ s.members := (h.closing at_).1.mpr rfl
        by_cases same : d = c
        · subst same
          simp [RecvDue, SendDue, at_]
        · simp [RecvDue, SendDue, at_, same]
  | @recvClosed c next k at_ hk =>
      have gone : c ∉ s.members := fun mem => by cases (h.closing at_).1.mp mem
      have due : s.SendDue c := .inr (by simp [at_])
      refine h.of_set hk rfl ⟨iff_of_false gone nofun, (h.closing at_).2⟩ (fun d other => ?_)
        ((h.clients c k hk).recv_closed due ?_ ?_ ?_)
      · simp [RecvDue, SendDue, at_, Ne.symm other]
      · intro ch hch
        obtain ⟨old, -, rfl⟩ := Option.map_eq_some_iff.mp hch
        rfl
      · simp [RecvDue, gone]
      · simp [SendDue]
  | @sendClosed c next k at_ hk =>
      have gone : c ∉ s.members := fun mem => by cases (h.closing at_).1.mp mem
      have due : s.SendDue c := .inr (by simp [at_])
      have ranges : next.Ranges s.members := by
        have others := (h.closing at_).2
        rwa [filter_of_notMem gone] at others
      refine h.of_set hk rfl ranges (fun d other => ?_)
        ((h.clients c k hk).send_closed due rfl ?_ ?_ ?_)
      · simp [RecvDue, SendDue, at_, Ne.symm other]
      · simp [RecvDue, gone, at_]
      · simp [RecvDue, gone]
      · simp [SendDue, gone]
  | sharedClosed at_ => exact h.of_conns rfl trivial fun d => by simp [RecvDue, SendDue, at_]
  | allClosed at_ =>
      exact h.of_conns rfl (fun _ => Iff.rfl) fun d => by simp [RecvDue, SendDue, at_]
  | @evicted todo at_ picked =>
      have all := h.running at_
      refine h.closes ((all pick).mp picked) (fun _ => by simp [at_]) fun d => ?_
      simp only [List.mem_filter, all d]
  | returned at_ =>
      have all := h.running at_
      have none_ : s.members = [] :=
        List.eq_nil_iff_forall_not_mem.mpr fun d mem => List.not_mem_nil ((all d).mpr mem)
      exact h.of_conns rfl none_ fun d => by simp [RecvDue, SendDue, at_]

end State

end Websockets

end PumaDev
