import Mathlib.Data.List.Nodup
import PumaDev.Websockets.HubSafety

/-!
# When `Stop` is safe

`shutdown` closes the hub's own channels from the receiving side.  Nothing tells the
senders: a client that is still connected sends itself to `unregister` when its peer goes,
and `shutdown` itself makes it go by closing its `send`; `Serve`, `Broadcast` and another
`Stop` send to the other three.

`quiet_iff_beforeStop` is exact: a run is free of sends to closed channels of the hub, and
of second closes, if and only if nobody sends to the hub after it has received a stop.
-/

namespace PumaDev

namespace Websockets

/-- The channels of the hub, in the order in which `shutdown` closes them. -/
def Shared.all : List Shared := [.register, .unregister, .send, .stop]

/-- The channels of the hub that are open while it goes on like this. -/
def Resume.openChannels : Resume → List Shared
  | .select | .broadcast .. => Shared.all
  | .shutdown _ => []

/-- The channels of the hub that are open where the hub is. -/
def HubPc.openChannels : HubPc → List Shared
  | .run next | .close _ _ next => next.openChannels
  | .insert _ | .check _ => Shared.all
  | .closeShared left => left
  | .stopped => []

/-- A hub that has not been stopped has its channels open. -/
theorem HubPc.openChannels_of_serving {pc : HubPc} (serving : pc.stopping = false) :
    pc.openChannels = Shared.all := by
  cases pc with
  | run next | close _ _ next =>
      cases next with
      | select | broadcast => rfl
      | shutdown => cases serving
  | insert | check => rfl
  | closeShared | stopped => cases serving

namespace State

variable {s t : State} {l : Label}

/-- Nobody has sent to a closed channel of the hub, and no channel has been closed twice. -/
structure Quiet (s : State) : Prop where
  sends : ∀ channel, s.fault ≠ some (.sendToHub channel)
  closeRecv : s.fault ≠ some .closeRecv
  closeSend : s.fault ≠ some .closeSend
  shut : s.shut.Nodup

/-- A step that sends to the hub comes before the hub has received a stop. -/
def BeforeStop (s : State) (l : Label) : Prop :=
  l.channel ≠ none → s.pc.stopping = false

@[simp] theorem shut_setClient (s : State) (c : ClientId) (k : Client) :
    (s.setClient c k).shut = s.shut := rfl

/-- The hub's channels are closed in their order, and are open until then. -/
def Shuts (s : State) : Prop := s.shut.reverse ++ s.pc.openChannels = Shared.all

theorem Shuts.nodup (shuts : s.Shuts) : s.shut.Nodup := by
  have all : (s.shut.reverse ++ s.pc.openChannels).Nodup := by
    rw [shuts]
    decide
  exact List.nodup_reverse.mp (List.Nodup.of_append_left all)

/-- Until the hub is stopped, its channels are open. -/
theorem Shuts.shut_eq_nil (shuts : s.Shuts) (serving : s.pc.stopping = false) : s.shut = [] := by
  unfold Shuts at shuts
  rw [HubPc.openChannels_of_serving serving, List.append_left_eq_self] at shuts
  exact List.reverse_eq_nil_iff.mp shuts

/-- **A step of the hub** closes the next of its channels, or none. -/
theorem Shuts.of_hubMove {pick : ClientId} (shuts : s.Shuts) (move : HubMove s pick t) :
    t.Shuts := by
  unfold Shuts at shuts ⊢
  cases move with
  | inserted at_ | found at_ | unknown at_ | finished at_ | passed at_ | enqueued at_
  | overflowed at_ | deleted at_ | recvClosed at_ | sendClosed at_ | sharedClosed at_
  | allClosed at_ | evicted at_ | returned at_ =>
      simpa [at_, HubPc.openChannels, Resume.openChannels] using shuts

/-- **A move of the others** closes none of the hub's channels. -/
theorem Shuts.of_clientMove (shuts : s.Shuts) (move : ClientMove s l t) : t.Shuts := by
  unfold Shuts at shuts ⊢
  cases move with
  | served | changed => exact shuts
  | registered ready | unregistered ready | broadcast _ _ ready =>
      simpa [ready, HubPc.openChannels, Resume.openChannels] using shuts
  | stopped ready =>
      rw [ready] at shuts
      exact shuts

/-- A step that sends nothing to the hub ends in none of the panics in question. -/
theorem quiet_of_silent (silent : l.channel = none) (shut : t.shut.Nodup)
    (fault : t.fault = s.hazard l) : t.Quiet := by
  have harmless : s.hazard l = none ∨ s.hazard l = some .sendToRecv ∨
      s.hazard l = some .sendToSend := by
    cases l with
    | forward c => simp only [hazard]; split <;> simp
    | reply c => simp only [hazard]; split <;> simp
    | serve | hub | peer | peerGone | listen | drain | writerStops => exact .inl rfl
    | register | unregister | purge | broadcast | stop => cases silent
  rw [← fault] at harmless
  rcases harmless with none_ | toRecv | toSend
  · exact ⟨by simp [none_], by simp [none_], by simp [none_], shut⟩
  · exact ⟨by simp [toRecv], by simp [toRecv], by simp [toRecv], shut⟩
  · exact ⟨by simp [toSend], by simp [toSend], by simp [toSend], shut⟩

/-- A step that sends to the hub panics when its channel is closed. -/
theorem hazard_of_channel {channel : Shared} (sends : l.channel = some channel) :
    s.hazard l = if channel ∈ s.shut then some (.sendToHub channel) else none := by
  cases l with
  | register | unregister | purge | broadcast | stop =>
      cases sends
      rfl
  | serve | hub | peer | peerGone | forward | listen | reply | drain | writerStops => cases sends

/-- **One step.**  It is a send to a closed channel of the hub exactly when it sends to the
hub after a stop. -/
theorem quiet_step (inv : s.Orderly ∧ s.Shuts) (step : s.step l = some t) :
    (t.Orderly ∧ t.Shuts) ∧ (t.Quiet ↔ s.BeforeStop l) := by
  obtain ⟨orderly, shuts⟩ := inv
  obtain ⟨next, fault⟩ := orderly.of_step step
  have cases_ := step_cases orderly step
  have shuts' : t.Shuts := by
    obtain ⟨-, ⟨pick, rfl, move⟩ | ⟨-, ⟨fault, -, rfl⟩ | ⟨-, move⟩⟩⟩ := cases_
    · exact shuts.of_hubMove move
    · exact shuts
    · exact shuts.of_clientMove move
  refine ⟨⟨next, shuts'⟩, ?_⟩
  cases sends : l.channel with
  | none =>
      exact iff_of_true (quiet_of_silent sends shuts'.nodup fault) fun talks => absurd sends talks
  | some channel =>
      have hazard := hazard_of_channel (s := s) sends
      cases stopping : s.pc.stopping with
      | false =>
          -- the channel is open
          rw [shuts.shut_eq_nil stopping, if_neg List.not_mem_nil] at hazard
          rw [hazard] at fault
          exact iff_of_true ⟨by simp [fault], by simp [fault], by simp [fault], shuts'.nodup⟩
            fun _ => stopping
      | true =>
          -- the hub is not in its select any more: what is sent goes to a closed channel
          refine iff_of_false (fun quiet => ?_) fun before => ?_
          · obtain ⟨-, ⟨pick, rfl, -⟩ | ⟨-, ⟨panic, panics, -⟩ | ⟨-, move⟩⟩⟩ := cases_
            · cases sends
            · by_cases closed : channel ∈ s.shut
              · exact quiet.sends channel (fault.trans (hazard.trans (if_pos closed)))
              · rw [hazard, if_neg closed] at panics
                cases panics
            · have ready := ready_of_clientMove move (by simp [sends])
              rw [ready] at stopping
              cases stopping
          · have serving := before (by simp [sends])
            rw [stopping] at serving
            cases serving

end State

/-- **When `Stop` is safe.**  In every state of a run nobody has sent to a closed channel of
the hub, and no channel has been closed twice, if and only if nobody sends to the hub once
it has received a stop. -/
theorem quiet_iff_beforeStop (ls : List Label) :
    (∀ t ∈ hubMachine.visited hubMachine.init ls, t.Quiet) ↔
      hubMachine.Guarded State.BeforeStop hubMachine.init ls :=
  hubMachine.visited_iff_guarded
    (fun _ _ _ inv step => (State.quiet_step inv step).1)
    (fun _ _ _ inv _ step => (State.quiet_step inv step).2)
    ls ⟨State.orderly_init, rfl⟩ ⟨nofun, nofun, nofun, List.nodup_nil⟩

/-- A connection that is open when the hub is stopped; the hub closes the client's `send`,
`writePump` ends, and the connection with it. -/
def stoppedVisit : List Label :=
  [.serve false [], .register 0, .hub 0, .stop] ++ List.replicate 10 (.hub 0) ++
    [.drain 0, .peerGone 0, .unregister 0]

/-- **A connection that outlives the hub.**  Its `readPump` sends the client to
`unregister`, which has been closed. -/
theorem panics_afterStop : ∃ t ∈ hubMachine.visited hubMachine.init stoppedVisit, ¬t.Quiet := by
  have run : (hubMachine.exec hubMachine.init stoppedVisit).map State.fault =
      some (some (.sendToHub .unregister)) := by decide
  obtain ⟨t, ends, fault⟩ := Option.map_eq_some_iff.mp run
  exact ⟨t, hubMachine.mem_visited_of_exec ends, fun quiet => quiet.sends _ fault⟩

end Websockets

end PumaDev
