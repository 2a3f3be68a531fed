import PumaDev.Lib.Progress
import PumaDev.Websockets.HubLoop

/-!
# The hub comes back

Everything that concerns the websockets goes through one goroutine: while `Hub.Run` is not in
its select, nobody can register, nobody can leave, and `Events.Add`, which broadcasts, waits.
So no client may hold it up.

None can.  Outside its select the hub sends to no channel that it would have to wait for: a
`send` that is full makes it close the client and go on.  `State.hubLeft` counts the steps
that it has left until it is back, four for each client that it has to go through and a few
more, and `hub_attends` says for every interleaving that it can always make the next of them
by itself, and has made them all after that many steps, whatever the clients, their peers and
everybody else do meanwhile.
-/

namespace PumaDev

namespace Websockets

/-- The step is the hub's own. -/
def Label.ofHub : Label → Bool
  | .hub _ => true
  | _ => false

/-- How many steps the loop has left. -/
def Resume.left : Resume → ℕ
  | .select => 0
  | .broadcast _ todo | .shutdown todo => 4 * todo.length + 1

/-- How many steps the hub has left until it is in its select, or has stopped. -/
def State.hubLeft (s : State) : ℕ :=
  match s.pc with
  | .run next => next.left
  | .insert _ => 1
  | .check _ => 4
  | .close .delete _ next => next.left + 3
  | .close .recv _ next => next.left + 2
  | .close .send _ next => next.left + 1
  | .closeShared left => left.length + 4 * s.members.length + 2
  | .stopped => 0

namespace State

variable {s t : State} {l : Label}

/-- The loop without a client that it has just visited. -/
theorem length_filter_lt {todo : List ClientId} {pick : ClientId} (picked : pick ∈ todo) :
    (todo.filter (· ≠ pick)).length < todo.length :=
  List.length_filter_lt_length_iff_exists.mpr ⟨pick, picked, by simp⟩

/-- **A step of the hub**: one less is left. -/
theorem hubLeft_of_hubMove {pick : ClientId} (move : HubMove s pick t) :
    t.hubLeft + 1 ≤ s.hubLeft := by
  cases move with
  | inserted at_ | found at_ | unknown at_ | finished at_ | deleted at_ | recvClosed at_
  | sendClosed at_ | returned at_ => simp [hubLeft, at_, Resume.left]
  | allClosed at_ =>
      simp only [hubLeft, at_, Resume.left, List.length_nil]
      omega
  | sharedClosed at_ =>
      simp only [hubLeft, at_, List.length_cons]
      omega
  | passed at_ picked | enqueued at_ picked | overflowed at_ picked | evicted at_ picked =>
      have fewer := length_filter_lt picked
      simp only [hubLeft, pc_setClient, at_, Resume.left]
      omega

/-- **A step of the others**, while the hub is not in its select: as much is left as before. -/
theorem hubLeft_of_step (h : s.Orderly) (step : s.step l = some t) (busy : s.pc ≠ .run .select) :
    t.hubLeft + (if l.ofHub then 1 else 0) ≤ s.hubLeft := by
  obtain ⟨-, ⟨pick, rfl, move⟩ | ⟨notHub, ⟨fault, -, rfl⟩ | ⟨-, move⟩⟩⟩ := step_cases h step
  · exact hubLeft_of_hubMove move
  · have others : l.ofHub = false := by
      cases l with
      | hub pick => exact absurd rfl (notHub pick)
      | _ => rfl
    rw [others]
    exact le_rfl
  · cases move with
    | served => exact le_rfl
    | changed =>
        have others : l.ofHub = false := by
          cases l with
          | hub pick => exact absurd rfl (notHub pick)
          | _ => rfl
        rw [others]
        exact le_rfl
    | registered ready | unregistered ready | broadcast _ _ ready | stopped ready =>
        exact absurd ready busy

/-- Outside its select, the hub can always go on. -/
theorem Orderly.hub_goes (h : s.Orderly) (busy : s.pc ≠ .run .select)
    (running : s.pc ≠ .stopped) : ∃ pick t, s.hubStep pick = some t := by
  cases stopping : s.pc.stopping with
  | true => exact h.shutdown_goes stopping running
  | false =>
      cases at_ : s.pc with
      | stopped => exact absurd at_ running
      | closeShared left => cases at_ ▸ stopping
      | insert c | check c => exact ⟨0, _, by rw [hubStep, at_]⟩
      | run next =>
          cases next with
          | select => exact absurd at_ busy
          | shutdown todo => cases at_ ▸ stopping
          | broadcast message todo =>
              cases todo with
              | nil => exact ⟨0, _, by rw [hubStep, at_]⟩
              | cons first rest =>
                  have member : first ∈ s.members :=
                    h.running at_ first List.mem_cons_self
                  have present : first < s.conns.length := h.known first (.inl member)
                  have hk := List.getElem?_eq_getElem present
                  refine ⟨first, Option.isSome_iff_exists.mp ?_⟩
                  simp only [hubStep, at_, List.mem_cons_self, if_true, hk]
                  repeat' split
                  all_goals rfl
      | close stage c next =>
          have present : c < s.conns.length := h.known c (.inr (by simp [at_]))
          have hk := List.getElem?_eq_getElem present
          refine ⟨0, Option.isSome_iff_exists.mp ?_⟩
          cases stage with
          | delete => rw [hubStep, at_, Option.isSome_some]
          | recv =>
              simp only [hubStep, at_, hk]
              repeat' split
              all_goals rfl
          | send =>
              simp only [hubStep, at_, hk]
              split <;> rfl

end State

/-- A schedule of the hub's own steps is one of picks. -/
theorem picks_of_guarded {s t : State} {ls : List Label} (run : hubMachine.exec s ls = some t)
    (guarded : hubMachine.Guarded (fun _ l => l.ofHub = true) s ls) :
    ∃ picks : List ClientId, ls = picks.map .hub := by
  induction ls generalizing s with
  | nil => exact ⟨[], rfl⟩
  | cons l rest ih =>
      obtain ⟨u, step, later⟩ := Option.bind_eq_some_iff.mp run
      obtain ⟨own, after⟩ := (hubMachine.guarded_of_step step rest).mp guarded
      obtain ⟨picks, rfl⟩ := ih later after
      cases l with
      | hub pick => exact ⟨pick :: picks, rfl⟩
      | _ => cases own

/-- **The hub comes back.**  In every state of every run of the program that has not panicked:

* outside its select, and unless it has stopped, the hub can make its next step by itself;
* by such steps alone it comes to its select, or to its end;
* and it has come there after `hubLeft` of its steps at the latest, in every interleaving with
  the steps of all others. -/
theorem hub_attends (ls : List Label) :
    ∀ s ∈ hubMachine.visited hubMachine.init ls, s.fault = none →
      (s.pc ≠ .run .select → s.pc ≠ .stopped →
        ∃ pick t, s.step (.hub pick) = some t ∧ t.fault = none) ∧
      (∃ (picks : List ClientId) (t : State), hubMachine.exec s (picks.map .hub) = some t ∧
        (t.pc = .run .select ∨ t.pc = .stopped)) ∧
      ∀ ls' t, hubMachine.exec s ls' = some t →
        hubMachine.Guarded (fun u _ => u.pc ≠ .run .select) s ls' →
          ls'.countP Label.ofHub ≤ s.hubLeft := by
  intro s visited alive
  have orderly : s.Orderly := hubMachine.inv_of_step
    (fun _ _ _ h step => (State.Orderly.of_step h step).1) ls State.orderly_init s visited
  have goes : ∀ s : State, (s.Orderly ∧ s.fault = none) → s.pc ≠ .run .select →
      s.pc ≠ .stopped → ∃ pick t, s.step (.hub pick) = some t ∧ (t.Orderly ∧ t.fault = none) ∧
        t.hubLeft < s.hubLeft := by
    rintro s ⟨orderly, alive⟩ busy running
    obtain ⟨pick, t, moves⟩ := orderly.hub_goes busy running
    have move := State.hubMove_of_step orderly moves
    have step : s.step (.hub pick) = some t := by simpa [State.step, alive] using moves
    exact ⟨pick, t, step, ⟨orderly.of_hubMove move, (State.fault_of_hubMove move).trans alive⟩,
      State.hubLeft_of_hubMove move⟩
  refine ⟨fun busy running => ?_, ?_, fun ls' t run guarded => ?_⟩
  · obtain ⟨pick, t, step, ⟨-, alive'⟩, -⟩ := goes s ⟨orderly, alive⟩ busy running
    exact ⟨pick, t, step, alive'⟩
  · have comes := hubMachine.reaches (J := fun s => s.Orderly ∧ s.fault = none)
      (fun t => t.pc = .run .select ∨ t.pc = .stopped) (fun _ l => l.ofHub = true)
      State.hubLeft (fun s inv away => ?_) ⟨orderly, alive⟩
    · obtain ⟨own, t, run, guarded, -, there⟩ := comes
      obtain ⟨picks, rfl⟩ := picks_of_guarded run guarded
      exact ⟨picks, t, run, there⟩
    · obtain ⟨busy, running⟩ := not_or.mp away
      obtain ⟨pick, t, step, inv', fewer⟩ := goes s inv busy running
      exact ⟨.hub pick, t, step, rfl, inv', fewer⟩
  · have bound := hubMachine.countP_le Label.ofHub State.hubLeft
      (fun s l t h busy step => ⟨(State.Orderly.of_step h step).1,
        State.hubLeft_of_step h step busy⟩) orderly guarded run
    exact (Nat.le_add_right _ _).trans bound

/-- Two clients are registered, and a broadcast begins. -/
def begunBroadcast : List Label :=
  [.serve true [], .register 0, .hub 0, .serve false [], .register 1, .hub 0,
    .broadcast "hello".toList []]

/-- The hub comes back from it. -/
theorem attends_begunBroadcast : ∃ s, hubMachine.exec hubMachine.init begunBroadcast = some s ∧
    s.hubLeft = 9 ∧ ∃ (picks : List ClientId) (t : State),
      hubMachine.exec s (picks.map .hub) = some t ∧ (t.pc = .run .select ∨ t.pc = .stopped) := by
  have facts : (hubMachine.exec hubMachine.init begunBroadcast).map
      (fun s => (s.hubLeft, s.fault)) = some (9, none) := by decide
  obtain ⟨s, reached, found⟩ := Option.map_eq_some_iff.mp facts
  simp only [Prod.mk.injEq] at found
  have attends := hub_attends begunBroadcast s (hubMachine.mem_visited_of_exec reached) found.2
  exact ⟨s, reached, found.1, attends.2.1⟩

end Websockets

end PumaDev
