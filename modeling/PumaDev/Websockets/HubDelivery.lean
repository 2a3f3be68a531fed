import PumaDev.Websockets.HubLoop

/-!
# What the hub delivers

The hub is watched from outside.  A `Ledger` keeps beside its state the broadcasts that
it has received, and for each client an `Account`: when the client appeared among the
members and when it went, the turns it has had in the loop of `broadcast` with what it was
subscribed to at the time, and the payloads that have appeared in its `send`.

`GapFree` compares the two sides.  A client has had its turn in each broadcast that was
received while it was a member, in order, and what was put into its `send` is what it was
subscribed to.  The one message that may be missing is the last: a message that did not
fit, and then the client is closed.
-/

namespace PumaDev

namespace Websockets

/-! ## The books -/

/-- A turn of a client in the loop of `broadcast`. -/
structure Turn where
  message : Message
  /-- What the client was subscribed to when its turn came. -/
  subscriptions : List GoString

/-- The client wanted the message. -/
def Turn.Wanted (turn : Turn) : Prop :=
  "*".toList ∈ turn.subscriptions ∨ ∃ tag ∈ turn.message.tags, tag ∈ turn.subscriptions

instance : DecidablePred Turn.Wanted :=
  fun _ => inferInstanceAs (Decidable (_ ∨ _))

/-- Where a client stands; the numbers count the broadcasts that the hub had received. -/
inductive Standing where
  | outside
  | member (since : ℕ)
  | gone (since till : ℕ)

/-- What there is to say about a client. -/
structure Account where
  standing : Standing
  turns : List Turn
  /-- What the hub has put into `send`. -/
  enqueued : List GoString
  /-- The message that the client wanted and that did not fit. -/
  overflow : Option Message

/-- A hub, with its books. -/
structure Ledger where
  hub : State
  /-- The broadcasts that the hub has received. -/
  received : List Message
  account : ClientId → Account

namespace State

/-- What a client's `send` holds. -/
def outbox (s : State) (c : ClientId) : List GoString :=
  (s.conns[c]?.map fun k => k.send.buf).getD []

/-- A client's `send` has no room. -/
def isFull (s : State) (c : ClientId) : Bool :=
  s.conns[c]?.any fun k => k.send.capacity ≤ k.send.buf.length

/-- The turn that a client has in the next step of the hub. -/
def turn (s : State) (pick c : ClientId) : Option Turn :=
  match s.pc, s.conns[c]? with
  | .run (.broadcast message todo), some k =>
      if c = pick ∧ c ∈ todo then some ⟨message, k.subscriptions⟩ else none
  | _, _ => none

end State

/-- A client goes, if it is there. -/
def Standing.leave (received : ℕ) : Standing → Standing
  | .member since => .gone since received
  | standing => standing

/-- The client after a step of the hub that leads from `s` to `t`. -/
def Account.note (a : Account) (s t : State) (pick c : ClientId) (received : ℕ) : Account where
  standing :=
    if c ∈ s.members then if c ∈ t.members then a.standing else a.standing.leave received
    else if c ∈ t.members then .member received else a.standing
  turns := a.turns ++ (s.turn pick c).toList
  enqueued := a.enqueued ++ (t.outbox c).drop (s.outbox c).length
  overflow :=
    match s.turn pick c with
    | some turn => if turn.Wanted ∧ s.isFull c then some turn.message else a.overflow
    | none => a.overflow

/-- The books after a step. -/
def Ledger.note (s : Ledger) (t : State) : LoopLabel → Ledger
  | .broadcast message => { s with hub := t, received := s.received ++ [message] }
  | .hub pick =>
      { s with
        hub := t
        account := fun c => (s.account c).note s.hub t pick c s.received.length }
  | _ => { s with hub := t }

/-- The hub in any environment, with its books. -/
def ledgerMachine : Machine Ledger LoopLabel where
  init := ⟨hubLoop.init, [], fun _ => ⟨.outside, [], [], none⟩⟩
  step := fun s l => (hubLoop.step s.hub l).map fun t => s.note t l

/-- The books do not hold the hub up: it makes the same runs with and without them. -/
theorem exec_hub (ls : List LoopLabel) (s : Ledger) :
    (ledgerMachine.exec s ls).map Ledger.hub = hubLoop.exec s.hub ls := by
  induction ls generalizing s with
  | nil => rfl
  | cons l rest ih =>
      cases step : hubLoop.step s.hub l with
      | none => simp [Machine.exec, ledgerMachine, step]
      | some t =>
          have noted : ledgerMachine.step s l = some (s.note t l) := by simp [ledgerMachine, step]
          have same : (s.note t l).hub = t := by cases l <;> rfl
          rw [ledgerMachine.exec_of_step noted, hubLoop.exec_of_step step, ih, same]

/-! ## What the books should say -/

/-- The broadcasts that were received while the client was a member. -/
def Standing.share (received : List Message) : Standing → List Message
  | .outside => []
  | .member since => received.drop since
  | .gone since till => (received.take till).drop since

/-- The broadcast in which the client has its turn still before it. -/
def Resume.ahead (c : ClientId) : Resume → List Message
  | .broadcast message todo => if c ∈ todo then [message] else []
  | .select | .shutdown _ => []

/-- The same of the hub's program counter. -/
def HubPc.ahead (c : ClientId) : HubPc → List Message
  | .run next | .close _ _ next => next.ahead c
  | .insert _ | .check _ | .closeShared _ | .stopped => []

/-- **No gap**, for one client. -/
structure Ledger.GapFree (s : Ledger) (c : ClientId) : Prop where
  member : c ∈ s.hub.members ↔ ∃ since, (s.account c).standing = .member since
  /-- It has had, or is about to have, its turn in each broadcast of its time. -/
  turns : (s.account c).turns.map Turn.message ++ s.hub.pc.ahead c =
    (s.account c).standing.share s.received
  /-- What was put into `send`, and what did not fit, is what it wanted. -/
  enqueued : (s.account c).enqueued ++ (s.account c).overflow.toList.map Message.payload =
    ((s.account c).turns.filter Turn.Wanted).map fun turn => turn.message.payload
  /-- A client that something did not fit for is being closed, or has been removed and
  closed. -/
  overflow : (s.account c).overflow ≠ none →
    (∃ stage next, s.hub.pc = .close stage c next) ∨ c ∉ s.hub.members ∧ s.hub.Closed c

/-! ## The invariant -/

/-- The hub is about to forget the client. -/
def HubPc.deletes (c : ClientId) : HubPc → Bool
  | .close .delete d _ => d = c
  | _ => false

theorem HubPc.owesSend_of_deletes {pc : HubPc} {c : ClientId} (going : pc.deletes c = true) :
    pc.owesSend c = true := by
  unfold HubPc.deletes at going
  split at going
  · exact going
  · cases going

/-- The hub is closing the client, if it is not adding it. -/
theorem HubPc.closes_of_owesSend {pc : HubPc} {c : ClientId} (owed : pc.owesSend c = true)
    (notNew : pc ≠ .insert c) : ∃ stage next, pc = .close stage c next := by
  cases pc with
  | insert d => exact absurd (congrArg HubPc.insert (of_decide_eq_true owed)) notNew
  | close stage d next =>
      have same : d = c := of_decide_eq_true owed
      exact ⟨stage, next, by rw [same]⟩
  | run | check | closeShared | stopped => cases owed

/-- What the books of one client keep to. -/
structure Kept (s : State) (received : List Message) (c : ClientId) (a : Account) : Prop where
  member : c ∈ s.members ↔ ∃ since, a.standing = .member since
  turns : a.turns.map Turn.message ++ s.pc.ahead c = a.standing.share received
  enqueued : a.enqueued ++ a.overflow.toList.map Message.payload =
    (a.turns.filter Turn.Wanted).map fun turn => turn.message.payload
  /-- No number is beyond the broadcasts received. -/
  since : ∀ n, a.standing = .member n → n ≤ received.length
  till : ∀ n m, a.standing = .gone n m → m ≤ received.length
  born : a.standing ≠ .outside → s.Registered c
  inserting : s.pc = .insert c → a.standing = .outside
  overflow : a.overflow ≠ none → s.pc.deletes c = true ∨ ∃ n m, a.standing = .gone n m

variable {s t : State} {received : List Message} {pick c d : ClientId} {a : Account}
  {k k' : Client} {l : LoopLabel}

namespace State

/-- A client that has been registered stays so when another record, or the rest of its own,
changes. -/
theorem registered_setClient (hk : s.conns[d]? = some k)
    (reader : k.reader ≠ .unborn → k'.reader ≠ .unborn) (registered : s.Registered c) :
    (s.setClient d k').Registered c := by
  obtain ⟨k₀, hk₀, born⟩ := registered
  by_cases same : c = d
  · subst same
    have here : k₀ = k := Option.some.inj (hk₀.symm.trans hk)
    refine ⟨k', ?_, reader (here ▸ born)⟩
    exact List.getElem?_set_self (List.getElem?_eq_some_iff.mp hk).1
  · exact ⟨k₀, (List.getElem?_set_ne (Ne.symm same)).trans hk₀, born⟩

/-- A step takes no registration back. -/
theorem registered_of_loopMove (move : LoopMove s l t) (registered : s.Registered c) :
    t.Registered c := by
  cases move with
  | served onMessage subscriptions =>
      obtain ⟨k, hk, born⟩ := registered
      have present : c < s.conns.length := (List.getElem?_eq_some_iff.mp hk).1
      exact ⟨k, (List.getElem?_append_left present).trans hk, born⟩
  | registered ready hk start =>
      exact registered_setClient hk (fun _ => nofun) registered
  | unregistered c ready | broadcast message ready | stopped ready => exact registered
  | changed hk alike =>
      exact registered_setClient hk (fun born start => born (alike.reader.mp start)) registered
  | hub move =>
      cases move with
      | enqueued _ _ hk _ _ | recvClosed _ hk | sendClosed _ hk =>
          exact registered_setClient hk id registered
      | _ => exact registered

/-- What a client's `send` holds changes with the client alone. -/
theorem outbox_setClient_ne (other : c ≠ d) : (s.setClient d k').outbox c = s.outbox c := by
  simp only [outbox, setClient, List.getElem?_set_ne (Ne.symm other)]

theorem outbox_setClient_self (hk : s.conns[c]? = some k) :
    (s.setClient c k').outbox c = k'.send.buf := by
  have present : c < s.conns.length := (List.getElem?_eq_some_iff.mp hk).1
  simp [outbox, setClient, List.getElem?_set_self present]

theorem outbox_of_getElem? (hk : s.conns[c]? = some k) : s.outbox c = k.send.buf := by
  simp [outbox, hk]

/-- Closing takes nothing out of `send`. -/
theorem outbox_setClient_same (hk : s.conns[d]? = some k) (buf : k'.send.buf = k.send.buf) :
    (s.setClient d k').outbox c = s.outbox c := by
  by_cases same : c = d
  · subst same
    rw [outbox_setClient_self hk, outbox_of_getElem? hk, buf]
  · exact outbox_setClient_ne same

theorem outbox_of_conns (conns : t.conns = s.conns) : t.outbox c = s.outbox c := by
  rw [outbox, conns, outbox]

/-- A client that is picked in the loop of `broadcast` has its turn. -/
theorem turn_eq_some {message : Message} {todo : List ClientId}
    (at_ : s.pc = .run (.broadcast message todo)) (picked : c ∈ todo)
    (hk : s.conns[c]? = some k) : s.turn c c = some ⟨message, k.subscriptions⟩ := by
  simp [turn, at_, hk, picked]

/-- Only a client that is in the loop of `broadcast` has a turn. -/
theorem turn_eq_none (notThere : ∀ message todo, s.pc = .run (.broadcast message todo) →
    c = pick → c ∉ todo) : s.turn pick c = none := by
  unfold turn
  split
  · next message todo k at_ hk =>
      exact if_neg fun ⟨same, mem⟩ => notThere message todo at_ same mem
  · rfl

end State

/-- Whether a client wants a message is what `IsSubscribed` answers. -/
theorem wanted_iff {message : Message} :
    (Turn.mk message k.subscriptions).Wanted ↔ k.isSubscribed message.tags = true := by
  simp [Turn.Wanted, Client.isSubscribed]

/-- Without a turn, only the standing of a client can change. -/
theorem Account.note_of_noTurn (turn : s.turn pick c = none) (outbox : t.outbox c = s.outbox c)
    (received : ℕ) : a.note s t pick c received =
      { a with standing :=
          if c ∈ s.members then if c ∈ t.members then a.standing else a.standing.leave received
          else if c ∈ t.members then .member received else a.standing } := by
  simp [note, turn, outbox]

/-- A step of the hub that has nothing to do with the client leaves its account as it
is. -/
theorem Account.note_of_idle (turn : s.turn pick c = none) (outbox : t.outbox c = s.outbox c)
    (members : c ∈ t.members ↔ c ∈ s.members) (received : ℕ) :
    a.note s t pick c received = a := by
  rw [note_of_noTurn turn outbox]
  by_cases here : c ∈ s.members <;> simp [members, here]

/-- With a turn, a member stays one. -/
theorem Account.note_of_turn {turn : Turn} {put : List GoString} (here : s.turn pick c = some turn)
    (member : c ∈ s.members) (members : t.members = s.members)
    (outbox : t.outbox c = s.outbox c ++ put) (received : ℕ) : a.note s t pick c received =
      { standing := a.standing
        turns := a.turns ++ [turn]
        enqueued := a.enqueued ++ put
        overflow := if turn.Wanted ∧ s.isFull c then some turn.message else a.overflow } := by
  simp [note, here, members, member, outbox]

namespace Kept

/-- The hub moves on, and the client is where it was. -/
theorem moves_on (kept : Kept s received c a) (members : c ∈ t.members ↔ c ∈ s.members)
    (ahead : t.pc.ahead c = s.pc.ahead c) (registered : s.Registered c → t.Registered c)
    (inserting : t.pc = .insert c → a.standing = .outside)
    (deletes : s.pc.deletes c = true → t.pc.deletes c = true) : Kept t received c a where
  member := members.trans kept.member
  turns := by
    rw [ahead]
    exact kept.turns
  enqueued := kept.enqueued
  since := kept.since
  till := kept.till
  born := fun standing => registered (kept.born standing)
  inserting := inserting
  overflow := fun full => (kept.overflow full).imp_left deletes

/-- A client that stands elsewhere is no member. -/
theorem notMem (kept : Kept s received c a) (elsewhere : ∀ n, a.standing ≠ .member n) :
    c ∉ s.members := fun mem =>
  have ⟨n, here⟩ := kept.member.mp mem
  elsewhere n here

/-- A member has missed nothing yet. -/
theorem overflow_eq_none (kept : Kept s received c a) (member : c ∈ s.members)
    (staying : s.pc.deletes c = false) : a.overflow = none := by
  by_contra full
  obtain ⟨since, here⟩ := kept.member.mp member
  rcases kept.overflow full with going | ⟨n, m, gone⟩
  · rw [staying] at going
    cases going
  · rw [here] at gone
    cases gone

/-- A broadcast that the hub receives is one more for its members, and for nobody else. -/
theorem share_append (kept : Kept s received c a) (message : Message) :
    a.standing.share (received ++ [message]) =
      a.standing.share received ++ if c ∈ s.members then [message] else [] := by
  cases standing : a.standing with
  | outside =>
      have stranger : c ∉ s.members := kept.notMem (by simp [standing])
      simp [Standing.share, stranger]
  | member since =>
      have member : c ∈ s.members := kept.member.mpr ⟨since, standing⟩
      simp [Standing.share, member, List.drop_append_of_le_length (kept.since since standing)]
  | gone since till =>
      have stranger : c ∉ s.members := kept.notMem (by simp [standing])
      simp [Standing.share, stranger, List.take_append_of_le_length (kept.till since till standing)]

/-- The hub receives a broadcast. -/
theorem broadcast (kept : Kept s received c a) (message : Message)
    (ready : s.pc = .run .select) :
    Kept { s with pc := .run (.broadcast message s.members) } (received ++ [message]) c a where
  member := kept.member
  turns := by
    have turns : a.turns.map Turn.message ++ [] = a.standing.share received := by
      have turns := kept.turns
      rwa [ready] at turns
    rw [kept.share_append, ← turns, List.append_nil]
    rfl
  enqueued := kept.enqueued
  since := fun n here => by
    have bound := kept.since n here
    rw [List.length_append]
    omega
  till := fun n m gone => by
    have bound := kept.till n m gone
    rw [List.length_append]
    omega
  born := kept.born
  inserting := nofun
  overflow := fun full => by
    refine .inr ((kept.overflow full).resolve_left ?_)
    simp [ready, HubPc.deletes]

/-- A client that has not been added has an empty account. -/
theorem empty (kept : Kept s received c a) (outside : a.standing = .outside) :
    a.turns = [] ∧ a.enqueued = [] ∧ a.overflow = none := by
  have turns : a.turns = [] := by
    have share := kept.turns
    rw [outside] at share
    exact List.map_eq_nil_iff.mp (List.append_eq_nil_iff.mp share).1
  have enqueued := kept.enqueued
  rw [turns] at enqueued
  obtain ⟨nothing, full⟩ := List.append_eq_nil_iff.mp enqueued
  exact ⟨turns, nothing, by simpa using full⟩

/-- The hub adds the client. -/
theorem insert (kept : Kept s received c a) (at_ : s.pc = .insert c) (conns : t.conns = s.conns)
    (added : c ∈ t.members) (done : t.pc = .run .select) (registered : t.Registered c) :
    Kept t received c (a.note s t pick c received.length) := by
  have outside := kept.inserting at_
  have stranger : c ∉ s.members := kept.notMem (by simp [outside])
  have noTurn : s.turn pick c = none := State.turn_eq_none (by simp [at_])
  obtain ⟨turns, enqueued, overflow⟩ := kept.empty outside
  rw [Account.note_of_noTurn noTurn (State.outbox_of_conns conns), if_neg stranger, if_pos added]
  exact {
    member := iff_of_true added ⟨_, rfl⟩
    turns := by simp [turns, done, HubPc.ahead, Resume.ahead, Standing.share]
    enqueued := by simp [turns, enqueued, overflow]
    since := fun n here => by cases here; exact le_rfl
    till := nofun
    born := fun _ => registered
    inserting := by simp [done]
    overflow := fun full => absurd overflow full }

/-- The hub forgets the client. -/
theorem delete (kept : Kept s received c a) {next : Resume} (at_ : s.pc = .close .delete c next)
    (conns : t.conns = s.conns) (member : c ∈ s.members) (gone : c ∉ t.members)
    (done : t.pc = .close .recv c next) (elsewhere : next.ahead c = [])
    (registered : t.Registered c) : Kept t received c (a.note s t pick c received.length) := by
  have noTurn : s.turn pick c = none := State.turn_eq_none (by simp [at_])
  obtain ⟨since, here⟩ := kept.member.mp member
  have turns : a.turns.map Turn.message ++ [] = received.drop since := by
    have turns := kept.turns
    simp only [at_, here] at turns
    rwa [HubPc.ahead, elsewhere] at turns
  rw [Account.note_of_noTurn noTurn (State.outbox_of_conns conns), if_pos member, if_neg gone, here]
  exact {
    member := iff_of_false gone (by simp [Standing.leave])
    turns := by
      rw [done]
      show a.turns.map Turn.message ++ next.ahead c = (received.take received.length).drop since
      rw [elsewhere, turns, List.take_length]
    enqueued := kept.enqueued
    since := nofun
    till := fun n m left => by cases left; exact le_rfl
    born := fun _ => registered
    inserting := by simp [done]
    overflow := fun _ => .inr ⟨_, _, rfl⟩ }

/-- The client has its turn in the loop of `broadcast`: `put` is what goes into its
`send`. -/
theorem turn (kept : Kept s received c a) {message : Message} {todo : List ClientId}
    (at_ : s.pc = .run (.broadcast message todo)) (picked : c ∈ todo) (member : c ∈ s.members)
    (hk : s.conns[c]? = some k) (members : t.members = s.members) (ahead : t.pc.ahead c = [])
    (inserting : t.pc ≠ .insert c) (registered : t.Registered c) {put : List GoString}
    (outbox : t.outbox c = s.outbox c ++ put)
    (sent : k.isSubscribed message.tags = true → s.isFull c = false → put = [message.payload])
    (notSent : k.isSubscribed message.tags = false ∨ s.isFull c = true → put = [])
    (closes : k.isSubscribed message.tags = true → s.isFull c = true → t.pc.deletes c = true) :
    Kept t received c (a.note s t c c received.length) := by
  have nothingLost := kept.overflow_eq_none member (by simp [at_, HubPc.deletes])
  have turns : a.turns.map Turn.message ++ [message] = a.standing.share received := by
    have turns := kept.turns
    rwa [at_, HubPc.ahead, Resume.ahead, if_pos picked] at turns
  have enqueued : a.enqueued = (a.turns.filter Turn.Wanted).map fun turn => turn.message.payload := by
    simpa [nothingLost] using kept.enqueued
  rw [Account.note_of_turn (State.turn_eq_some at_ picked hk) member members outbox]
  exact {
    member := by rw [members]; exact kept.member
    turns := by rw [ahead, List.append_nil, List.map_append]; exact turns
    enqueued := by
      rw [enqueued, nothingLost, List.filter_append, List.map_append, List.append_assoc]
      congr 1
      by_cases subscribed : k.isSubscribed message.tags = true
      · by_cases full : s.isFull c = true
        · simp [wanted_iff, subscribed, full, notSent (.inr full)]
        · rw [Bool.not_eq_true] at full
          simp [wanted_iff, subscribed, full, sent subscribed full]
      · rw [Bool.not_eq_true] at subscribed
        simp [wanted_iff, subscribed, notSent (.inl subscribed)]
    since := kept.since
    till := kept.till
    born := fun _ => registered
    inserting := fun at_ => absurd at_ inserting
    overflow := by
      intro lost
      by_cases both : k.isSubscribed message.tags = true ∧ s.isFull c = true
      · exact .inl (closes both.1 both.2)
      · exact absurd ((if_neg (by rwa [wanted_iff])).trans nothingLost) lost }

end Kept

/-- A loop has nothing ahead for a client that it does not range over. -/
theorem Resume.ahead_eq_nil {next : Resume} {members : List ClientId}
    (ranges : next.Ranges members) (gone : c ∉ members) : next.ahead c = [] := by
  cases next with
  | select | shutdown => rfl
  | broadcast message todo => exact if_neg fun mem => gone (ranges c mem)

/-- The turn of one client in the loop of `broadcast` leaves the others where they are. -/
theorem Resume.ahead_visited {message : Message} {todo : List ClientId} (other : c ≠ pick) :
    (Resume.broadcast message (todo.filter (· ≠ pick))).ahead c =
      (Resume.broadcast message todo).ahead c := by
  simp [Resume.ahead, other]

/-- **A step of the hub**, for one client. -/
theorem Kept.of_hubMove (h : s.Orderly) (kept : Kept s received c a) (move : HubMove s pick t)
    (registered : s.Registered c → t.Registered c) :
    Kept t received c (a.note s t pick c received.length) := by
  -- most steps have nothing to do with the client
  have idle : (c ∈ t.members ↔ c ∈ s.members) → s.turn pick c = none → t.outbox c = s.outbox c →
      t.pc.ahead c = s.pc.ahead c → t.pc ≠ .insert c →
      (s.pc.deletes c = true → t.pc.deletes c = true) →
      Kept t received c (a.note s t pick c received.length) := by
    intro members turn outbox ahead inserting deletes
    rw [Account.note_of_idle turn outbox members]
    exact kept.moves_on members ahead registered (fun at_ => absurd at_ inserting) deletes
  have due : s.SendDue c → t.Registered c := fun due => registered (h.open_iff.mp due).1
  cases move with
  | @inserted d at_ =>
      by_cases same : c = d
      · subst same
        have owed : s.SendDue c := .inr (by simp [at_])
        exact kept.insert at_ rfl List.mem_cons_self rfl (due owed)
      · exact idle (by simp [same]) (State.turn_eq_none (by simp [at_])) rfl
          (by simp [at_, HubPc.ahead, Resume.ahead]) (by simp) (by simp [at_, HubPc.deletes])
  | found at_ member | unknown at_ stranger | finished at_ | sharedClosed at_ | allClosed at_
  | evicted at_ picked | returned at_ =>
      exact idle Iff.rfl (State.turn_eq_none (by simp [at_])) rfl
        (by simp [at_, HubPc.ahead, Resume.ahead]) (by simp) (by simp [at_, HubPc.deletes])
  | @passed message todo k at_ picked hk other =>
      by_cases same : c = pick
      · subst same
        -- its own turn, in a message that it does not want
        have member : c ∈ s.members := h.running at_ c picked
        exact kept.turn at_ picked member hk rfl (by simp [HubPc.ahead, Resume.ahead]) (by simp)
          (due (.inl member)) (List.append_nil _).symm (by simp [other]) (fun _ => rfl)
          (by simp [other])
      · exact idle Iff.rfl (State.turn_eq_none (by simp [same])) rfl
          (by rw [at_]; exact Resume.ahead_visited same) (by simp) (by simp [at_, HubPc.deletes])
  | @enqueued message todo k send at_ picked hk subscribed sent =>
      by_cases same : c = pick
      · subst same
        have member : c ∈ s.members := h.running at_ c picked
        obtain ⟨room, buf⟩ := Chan.buf_of_sent sent
        have notFull : s.isFull c = false := by simpa [State.isFull, hk] using room
        exact kept.turn at_ picked member hk rfl (by simp [HubPc.ahead, Resume.ahead]) (by simp)
          (due (.inl member))
          ((State.outbox_setClient_self hk).trans (by rw [State.outbox_of_getElem? hk, buf]))
          (fun _ _ => rfl) (by simp [subscribed, notFull]) (by simp [notFull])
      · exact idle Iff.rfl (State.turn_eq_none (by simp [same])) (State.outbox_setClient_ne same)
          (by rw [at_]; exact Resume.ahead_visited same) (by simp) (by simp [at_, HubPc.deletes])
  | @overflowed message todo k at_ picked hk subscribed full =>
      by_cases same : c = pick
      · subst same
        -- the message does not fit: the closing of the client begins
        have member : c ∈ s.members := h.running at_ c picked
        have isFull : s.isFull c = true := by
          simpa [State.isFull, hk] using Chan.capacity_le_of_full full
        exact kept.turn at_ picked member hk rfl (by simp [HubPc.ahead, Resume.ahead]) (by simp)
          (due (.inl member)) (List.append_nil _).symm (by simp [isFull]) (fun _ => rfl)
          (by simp [HubPc.deletes])
      · exact idle Iff.rfl (State.turn_eq_none (by simp [same])) rfl
          (by rw [at_]; exact Resume.ahead_visited same) (by simp) (by simp [at_, HubPc.deletes])
  | @deleted d next at_ =>
      by_cases same : c = d
      · subst same
        have member : c ∈ s.members := (h.closing at_).1.mpr rfl
        have elsewhere : next.ahead c = [] := Resume.ahead_eq_nil (h.closing at_).2 (by simp)
        exact kept.delete at_ rfl member (by simp) rfl elsewhere (due (.inl member))
      · exact idle (by simp [same]) (State.turn_eq_none (by simp [at_])) rfl
          (by simp [at_, HubPc.ahead]) (by simp) (by simp [at_, HubPc.deletes, Ne.symm same])
  | recvClosed at_ hk | sendClosed at_ hk =>
      exact idle Iff.rfl (State.turn_eq_none (by simp [at_])) (State.outbox_setClient_same hk rfl)
        (by simp [at_, HubPc.ahead]) (by simp) (by simp [at_, HubPc.deletes])

/-- **A step**, for one client. -/
theorem Kept.of_loopMove {s : Ledger} (h : s.hub.Orderly)
    (kept : Kept s.hub s.received c (s.account c)) (move : LoopMove s.hub l t) :
    Kept t (s.note t l).received c ((s.note t l).account c) := by
  have registered := State.registered_of_loopMove (c := c) move
  cases move with
  | served | changed =>
      exact kept.moves_on Iff.rfl rfl registered kept.inserting id
  | @registered d k ready hk start =>
      refine kept.moves_on Iff.rfl (by rw [ready]; rfl) registered (fun at_ => ?_)
        (by simp [ready, HubPc.deletes])
      -- a client that is registered only now has been outside
      by_contra inside
      obtain ⟨k', hk', born⟩ := kept.born inside
      cases at_
      cases hk.symm.trans hk'
      exact born start
  | unregistered d ready | stopped ready =>
      exact kept.moves_on Iff.rfl (by rw [ready]; rfl) registered nofun
        (by simp [ready, HubPc.deletes])
  | broadcast message ready => exact kept.broadcast message ready
  | hub move => exact kept.of_hubMove h move registered

/-- What the books keep to leaves no gap. -/
theorem Kept.gapFree {s : Ledger} (h : s.hub.Orderly)
    (kept : Kept s.hub s.received c (s.account c)) : s.GapFree c where
  member := kept.member
  turns := kept.turns
  enqueued := kept.enqueued
  overflow := by
    intro full
    rcases kept.overflow full with deleting | ⟨n, m, gone⟩
    · refine .inl (HubPc.closes_of_owesSend (HubPc.owesSend_of_deletes deleting) fun at_ => ?_)
      rw [at_] at deleting
      cases deleting
    · have stranger : c ∉ s.hub.members := kept.notMem (by simp [gone])
      by_cases owed : s.hub.pc.owesSend c = true
      · refine .inl (HubPc.closes_of_owesSend owed fun at_ => ?_)
        rw [kept.inserting at_] at gone
        cases gone
      · have past : ¬s.hub.SendDue c := fun due => due.elim stranger owed
        exact .inr ⟨stranger, h.closed (kept.born (by simp [gone])) past⟩

/-- A step of the machine with its books. -/
theorem Kept.of_step {s t : Ledger} {l : LoopLabel}
    (inv : s.hub.Orderly ∧ ∀ c, Kept s.hub s.received c (s.account c))
    (step : ledgerMachine.step s l = some t) :
    t.hub.Orderly ∧ ∀ c, Kept t.hub t.received c (t.account c) := by
  obtain ⟨orderly, kept⟩ := inv
  obtain ⟨hub, moves, rfl⟩ := Option.map_eq_some_iff.mp step
  have move := State.loop_cases orderly moves
  have same : (s.note hub l).hub = hub := by cases l <;> rfl
  rw [same]
  exact ⟨orderly.of_loopMove move, fun c => (kept c).of_loopMove orderly move⟩

theorem kept_init (c : ClientId) : Kept hubLoop.init [] c ⟨.outside, [], [], none⟩ where
  member := by simp [hubLoop]
  turns := rfl
  enqueued := rfl
  since := nofun
  till := nofun
  born := fun inside => absurd rfl inside
  inserting := fun _ => rfl
  overflow := fun full => absurd rfl full

/-- **A run of the hub** keeps its books. -/
theorem kept_visited (ls : List LoopLabel) :
    ∀ s ∈ ledgerMachine.visited ledgerMachine.init ls,
      s.hub.Orderly ∧ ∀ c, Kept s.hub s.received c (s.account c) :=
  ledgerMachine.inv_of_step (fun _ _ _ inv step => Kept.of_step inv step) ls
    ⟨State.orderly_init, kept_init⟩

/-- **Gap-free delivery.**  In every run of the hub, in any environment, and for every
client: what the hub has put into its `send` is what it wanted of the broadcasts that were
received while it was a member, in order; a message that did not fit is the last, and the
client is closed for it. -/
theorem delivery_gapFree (ls : List LoopLabel) :
    ∀ s ∈ ledgerMachine.visited ledgerMachine.init ls, ∀ c, s.GapFree c := by
  intro s mem c
  obtain ⟨orderly, kept⟩ := kept_visited ls s mem
  exact (kept c).gapFree orderly

/-- Two clients, of which one wants everything, and two broadcasts. -/
def twoBroadcasts : List LoopLabel :=
  [.serve false ["*".toList], .serve false [], .register 0, .hub 0, .register 1, .hub 0,
    .broadcast ⟨"up".toList, ["blog".toList]⟩, .hub 1, .hub 0, .hub 0,
    .broadcast ⟨"down".toList, ["errors".toList]⟩, .hub 0, .hub 1, .hub 0]

/-- Each has been sent what it wanted. -/
theorem gapFree_twoBroadcasts : ∃ s, ledgerMachine.exec ledgerMachine.init twoBroadcasts = some s ∧
    (∀ c, s.GapFree c) ∧ (s.account 0).enqueued = ["up".toList, "down".toList] ∧
      (s.account 1).enqueued = ["down".toList] := by
  have facts : (ledgerMachine.exec ledgerMachine.init twoBroadcasts).map
      (fun s => ((s.account 0).enqueued, (s.account 1).enqueued)) =
        some (["up".toList, "down".toList], ["down".toList]) := by decide
  obtain ⟨s, reached, enqueued⟩ := Option.map_eq_some_iff.mp facts
  obtain ⟨first, second⟩ := Prod.mk.inj enqueued
  have mem := ledgerMachine.mem_visited_of_exec reached
  exact ⟨s, reached, delivery_gapFree twoBroadcasts s mem, first, second⟩

/-- **The program's hub** knows its clients and leaves no gap: a state that no panic has led
to is the state of a hub with such books. -/
theorem gapFree_of_visited (ls : List Label) :
    ∀ t ∈ hubMachine.visited hubMachine.init ls, t.fault = none → t.Membership ∧
      ∃ ls' s, ledgerMachine.exec ledgerMachine.init ls' = some s ∧ s.hub = t ∧
        ∀ c, s.GapFree c := by
  intro t mem alive
  obtain ⟨ls', reached⟩ := State.exec_of_visited ls t mem alive
  obtain ⟨s, kept, rfl⟩ := Option.map_eq_some_iff.mp
    ((exec_hub ls' ledgerMachine.init).trans reached)
  have inv := kept_visited ls' s (ledgerMachine.mem_visited_of_exec kept)
  exact ⟨inv.1.membership alive, ls', s, kept, rfl, fun c => (inv.2 c).gapFree inv.1⟩

end Websockets

end PumaDev
