import PumaDev.Go.Bytes
import PumaDev.Lib.Channel
import PumaDev.Lib.Framing
import PumaDev.Lib.Machine
import PumaDev.Websockets.Hub

/-!
# The frames of `writePump`

`writePump` takes the messages of a client from its `send` channel and writes
them to the connection.  The first message it finds opens a text frame; whatever
is queued behind it at that moment goes into the same frame, with newlines in
between.  The page that reads the frames cuts each at its newlines.

How the messages fall into frames depends on when the goroutine is scheduled.
Here the writer and the hub are one machine: `broadcast` is the hub queueing a
payload, `close` the hub closing the channel, and every other label a step of
`writePump`, with the outcome of its write where the code looks at it.

`Tracks` is the invariant: what is read from the frames, then from the frame
that is being written, then from the channel, is what was broadcast, in order.
It holds because `Broadcast` leaves no newline inside a payload
(`newline_not_mem_oneLine`) and because the batch loop takes no more than was
queued when it counted.  `pump_roundTrip` says that in every schedule the page gets
the payloads broadcast, each on a line, in order, up to those still queued.
-/

namespace PumaDev

namespace Websockets

/-- What `Broadcast` makes of its data, on bytes. -/
def oneLineBytes (data : Bytes) : Bytes :=
  Bytes.trimSpace (Bytes.replaceByte data newline 0x20)

/-- On a text it is what `oneLine` makes of it. -/
theorem oneLineBytes_encode (data : GoString) :
    oneLineBytes (Utf8.encode data) = Utf8.encode (oneLine data) := by
  rw [oneLineBytes, Bytes.replaceByte_encode, Bytes.trimSpace_encode, oneLine]

/-- **A payload is one line**, whatever was broadcast. -/
theorem newline_not_mem_oneLine (data : Bytes) : newline ∉ oneLineBytes data := fun mem =>
  Bytes.newline_not_mem_replaceByte (by decide) data ((Bytes.infix_trimSpace _).mem mem)

end Websockets

open Websockets

/-- What `writePump` writes to the connection. -/
inductive Frame where
  | text (payload : Bytes)
  | ping
  | close
  deriving DecidableEq

/-- The points of `writePump`. -/
inductive PumpPc where
  /-- The select. -/
  | select
  /-- A message has been received and its frame opened. -/
  | opened (frame : Bytes)
  /-- The batch loop, with the turns it has left. -/
  | batch (frame : Bytes) (left : ℕ)
  | returned
  deriving DecidableEq

/-- A client's `send` channel, its `writePump` and its connection. -/
structure Pump where
  send : Chan Bytes
  pc : PumpPc
  /-- The frames written, oldest first. -/
  wire : List Frame

/-- The steps of the hub and of the pump; `ok` is whether the write succeeds. -/
inductive PumpStep where
  /-- The hub queues the payload of `Broadcast(data)`. -/
  | broadcast (data : Bytes)
  /-- The hub closes the client. -/
  | close
  /-- The select takes from `send`; `NextWriter` or the close message. -/
  | receive (ok : Bool)
  /-- `n := len(c.send)`. -/
  | count
  /-- A turn of the batch loop. -/
  | turn
  /-- `w.Close()`. -/
  | flush (ok : Bool)
  /-- The select takes a tick; the ping message. -/
  | tick (ok : Bool)
  deriving DecidableEq

namespace PumpStep

/-- The write of the step, if it has one, succeeds. -/
def Succeeds : PumpStep → Prop
  | receive ok | flush ok | tick ok => ok = true
  | _ => True

instance : DecidablePred Succeeds
  | receive ok | flush ok | tick ok => inferInstanceAs (Decidable (ok = true))
  | broadcast _ | close | count | turn => .isTrue trivial

/-- The step is `writePump`'s. -/
def ByPump : PumpStep → Prop
  | broadcast _ | close => False
  | _ => True

/-- The payload the step queues. -/
def payload : PumpStep → Option Bytes
  | broadcast data => some (oneLineBytes data)
  | _ => none

end PumpStep

namespace Pump

/-- What a failed write leaves: `writePump` returns. -/
def abort (s : Pump) : Pump := { s with pc := .returned }

/-- One step. -/
def step (s : Pump) : PumpStep → Option Pump
  | .broadcast data =>
      match s.send.offer (oneLineBytes data) with
      | .sent send => some { s with send := send }
      -- a full channel is closed instead, and a closed one is sent nothing
      | .full | .fault => none
  | .close => s.send.close.map fun send => { s with send := send }
  | .receive ok =>
      if s.pc = .select then
        match s.send.take with
        | .got message send =>
            if ok then some { s with send := send, pc := .opened message }
            else some { s with send := send, pc := .returned }
        -- the outcome of the last write is not looked at
        | .closed =>
            some { s with pc := .returned, wire := s.wire ++ if ok then [.close] else [] }
        | .empty => none
      else none
  | .count =>
      match s.pc with
      | .opened frame => some { s with pc := .batch frame s.send.buf.length }
      | _ => none
  | .turn =>
      match s.pc with
      | .batch frame (left + 1) =>
          match s.send.take with
          | .got message send =>
              some { s with send := send, pc := .batch (frame ++ newline :: message) left }
          -- a closed channel would hand out empty messages
          | .closed => some { s with pc := .batch (frame ++ [newline]) left }
          | .empty => none
      | _ => none
  | .flush ok =>
      match s.pc with
      | .batch frame 0 =>
          if ok then some { s with pc := .select, wire := s.wire ++ [.text frame] }
          else some s.abort
      | _ => none
  | .tick ok =>
      if s.pc = .select then
        if ok then some { s with wire := s.wire ++ [.ping] } else some s.abort
      else none

/-- The client before anything is sent to it. -/
def start (capacity : ℕ) : Pump := ⟨.make capacity, .select, []⟩

end Pump

/-- A client with room for `capacity` messages. -/
def pump (capacity : ℕ) : Machine Pump PumpStep := ⟨.start capacity, Pump.step⟩

/-! ## The invariant -/

/-- The payload of a text frame. -/
def Frame.payload : Frame → Option Bytes
  | .text payload => some payload
  | _ => none

/-- The text frames among `wire`. -/
def texts (wire : List Frame) : List Bytes := wire.filterMap Frame.payload

@[simp] theorem texts_concat_text (wire : List Frame) (payload : Bytes) :
    texts (wire ++ [.text payload]) = texts wire ++ [payload] := by
  simp [texts, Frame.payload]

@[simp] theorem texts_concat_ping (wire : List Frame) :
    texts (wire ++ [.ping]) = texts wire := by
  simp [texts, Frame.payload]

@[simp] theorem texts_concat_close (wire : List Frame) :
    texts (wire ++ [.close]) = texts wire := by
  simp [texts, Frame.payload]

/-- What is read from the frames written and from the one being written. -/
def Pump.read (s : Pump) : List Bytes :=
  Framing.decode newline (texts s.wire) ++
    match s.pc with
    | .opened frame | .batch frame _ => frame.splitOn newline
    | .select | .returned => []

/-- The client has been sent `sent`. -/
structure Tracks (sent : List Bytes) (s : Pump) : Prop where
  /-- What was sent is read, or still queued, in order. -/
  fifo : s.read ++ s.send.buf = sent
  /-- No queued message has a newline. -/
  free : ∀ message ∈ s.send.buf, newline ∉ message
  /-- The batch loop takes no more than is queued. -/
  counted : ∀ frame left, s.pc = .batch frame left → left ≤ s.send.buf.length
  /-- `writePump` returns behind a close frame, once nothing more can come. -/
  returned : s.pc = .returned → s.send.closed = true ∧ s.send.buf = [] ∧
    ∃ front, .close ∉ front ∧ s.wire = front ++ [.close]
  /-- Until then there is no close frame. -/
  running : s.pc ≠ .returned → .close ∉ s.wire

namespace Tracks

variable {sent : List Bytes} {s t : Pump}

theorem start (capacity : ℕ) : Tracks [] (.start capacity) where
  fifo := rfl
  free := by simp [Pump.start, Chan.make]
  counted := by simp [Pump.start]
  returned := by simp [Pump.start]
  running := by simp [Pump.start]

theorem broadcast (h : Tracks sent s) {data : Bytes}
    (step : s.step (.broadcast data) = some t) : Tracks (sent ++ [oneLineBytes data]) t := by
  simp only [Pump.step] at step
  split at step
  · next send offered =>
      cases step
      have buf := (Chan.buf_of_sent offered).2
      have isOpen : s.send.closed = false :=
        Chan.open_of_offer (oneLineBytes data) (by rw [offered]; simp)
      refine ⟨?_, ?_, ?_, ?_, h.running⟩
      · show s.read ++ send.buf = _
        rw [buf, ← List.append_assoc, h.fifo]
      · show ∀ message ∈ send.buf, newline ∉ message
        rw [buf]
        intro message mem
        rcases List.mem_append.mp mem with earlier | last
        · exact h.free message earlier
        · rw [List.mem_singleton.mp last]
          exact newline_not_mem_oneLine data
      · intro frame left pc
        have bound := h.counted frame left pc
        show left ≤ send.buf.length
        rw [buf, List.length_append]
        omega
      · intro pc
        have closed := (h.returned pc).1
        simp [isOpen] at closed
  · cases step
  · cases step

theorem close (h : Tracks sent s) (step : s.step .close = some t) : Tracks sent t := by
  obtain ⟨send, closed, rfl⟩ := Option.map_eq_some_iff.mp step
  obtain ⟨isOpen, -, buf⟩ := Chan.of_close closed
  refine ⟨?_, ?_, ?_, ?_, h.running⟩
  · show s.read ++ send.buf = sent
    rw [buf, h.fifo]
  · show ∀ message ∈ send.buf, newline ∉ message
    rw [buf]
    exact h.free
  · show ∀ frame left, s.pc = .batch frame left → left ≤ send.buf.length
    rw [buf]
    exact h.counted
  · intro pc
    have before := (h.returned pc).1
    simp [isOpen] at before

theorem receive (h : Tracks sent s) (step : s.step (.receive true) = some t) :
    Tracks sent t := by
  simp only [Pump.step, if_true] at step
  split at step
  · next pc =>
      have read : s.read = Framing.decode newline (texts s.wire) := by
        rw [Pump.read, pc, List.append_nil]
      split at step
      · next message send got =>
          cases step
          have buf := Chan.buf_of_got got
          have free := h.free
          rw [buf] at free
          refine ⟨?_, fun m mem => free m (List.mem_cons_of_mem _ mem), by simp, by simp,
            fun _ => h.running (by simp [pc])⟩
          have single : message.splitOn newline = [message] :=
            List.splitOn_eq_singleton (free message List.mem_cons_self)
          show Framing.decode newline (texts s.wire) ++ message.splitOn newline ++ send.buf = sent
          rw [single, List.append_assoc, List.singleton_append, ← buf, ← read, h.fifo]
      · next closed =>
          cases step
          obtain ⟨closed, none_⟩ := Chan.of_take_closed closed
          refine ⟨?_, h.free, by simp, fun _ => ⟨closed, none_, s.wire, h.running (by simp [pc]),
            rfl⟩, by simp⟩
          show Framing.decode newline (texts (s.wire ++ [.close])) ++ [] ++ s.send.buf = sent
          rw [texts_concat_close, List.append_nil, ← read, h.fifo]
      · cases step
  · cases step

theorem count (h : Tracks sent s) (step : s.step .count = some t) : Tracks sent t := by
  simp only [Pump.step] at step
  split at step
  · next frame pc =>
      cases step
      refine ⟨?_, h.free, ?_, by simp, fun _ => h.running (by simp [pc])⟩
      · have fifo := h.fifo
        rwa [Pump.read, pc] at fifo
      · rintro frame' left eq
        cases eq
        exact le_rfl
  · cases step

theorem turn (h : Tracks sent s) (step : s.step .turn = some t) : Tracks sent t := by
  simp only [Pump.step] at step
  split at step
  · next frame left pc =>
      have bound := h.counted frame (left + 1) pc
      have fifo := h.fifo
      rw [Pump.read, pc] at fifo
      split at step
      · next message send got =>
          cases step
          have buf := Chan.buf_of_got got
          have free := h.free
          rw [buf] at free
          refine ⟨?_, fun m mem => free m (List.mem_cons_of_mem _ mem), ?_, by simp,
            fun _ => h.running (by simp [pc])⟩
          · show Framing.decode newline (texts s.wire) ++
              (frame ++ newline :: message).splitOn newline ++ send.buf = sent
            rw [Framing.splitOn_snoc (free message List.mem_cons_self), ← fifo, buf]
            simp
          · rintro frame' left' eq
            cases eq
            rw [buf, List.length_cons] at bound
            exact Nat.le_of_succ_le_succ bound
      · next closed =>
          -- the loop was promised a message
          have none_ := (Chan.of_take_closed closed).2
          rw [none_] at bound
          exact absurd bound (Nat.not_succ_le_zero left)
      · cases step
  · cases step

theorem flush (h : Tracks sent s) (step : s.step (.flush true) = some t) : Tracks sent t := by
  simp only [Pump.step, if_true] at step
  split at step
  · next frame pc =>
      cases step
      have fifo := h.fifo
      rw [Pump.read, pc] at fifo
      refine ⟨?_, h.free, by simp, by simp, fun _ => ?_⟩
      · show Framing.decode newline (texts (s.wire ++ [.text frame])) ++ [] ++ s.send.buf = sent
        rw [texts_concat_text, Framing.decode_concat, List.append_nil, fifo]
      · have running := h.running (by simp [pc])
        simp [running]
  · cases step

theorem tick (h : Tracks sent s) (step : s.step (.tick true) = some t) : Tracks sent t := by
  simp only [Pump.step, if_true] at step
  split at step
  · next pc =>
      cases step
      have running := h.running (by simp [pc])
      refine ⟨?_, h.free, h.counted, by simp [pc], fun _ => by simp [running]⟩
      have fifo := h.fifo
      rw [Pump.read] at fifo
      show Framing.decode newline (texts (s.wire ++ [.ping])) ++ _ ++ s.send.buf = sent
      rw [texts_concat_ping, fifo]
  · cases step

/-- **Every step keeps track**, as long as no write fails. -/
theorem next (h : Tracks sent s) {label : PumpStep} (succeeds : label.Succeeds)
    (step : s.step label = some t) : Tracks (sent ++ label.payload.toList) t := by
  cases label with
  | broadcast data => exact h.broadcast step
  | close => exact (List.append_nil sent).symm ▸ h.close step
  | count => exact (List.append_nil sent).symm ▸ h.count step
  | turn => exact (List.append_nil sent).symm ▸ h.turn step
  | receive ok =>
      cases succeeds
      exact (List.append_nil sent).symm ▸ h.receive step
  | flush ok =>
      cases succeeds
      exact (List.append_nil sent).symm ▸ h.flush step
  | tick ok =>
      cases succeeds
      exact (List.append_nil sent).symm ▸ h.tick step

end Tracks

/-- The payloads of the messages that a schedule queues. -/
def payloads (ls : List PumpStep) : List Bytes := ls.filterMap PumpStep.payload

/-- The run lemma. -/
theorem tracks_of_exec {capacity : ℕ} {ls : List PumpStep} {s : Pump}
    (succeeds : ∀ label ∈ ls, label.Succeeds)
    (run : (pump capacity).exec (.start capacity) ls = some s) : Tracks (payloads ls) s := by
  have induction_ : (∀ label ∈ ls, label.Succeeds) → Tracks (payloads ls) s := by
    refine (pump capacity).exec_induction
      (P := fun past u => (∀ label ∈ past, label.Succeeds) → Tracks (payloads past) u)
      (fun _ => .start capacity) ?_ run
    intro past u label t before step fine
    have earlier := before fun l mem => fine l (List.mem_append_left _ mem)
    have queued : payloads (past ++ [label]) = payloads past ++ label.payload.toList := by
      rw [payloads, List.filterMap_append, payloads]
      cases queues : label.payload <;> simp [queues]
    rw [queued]
    exact earlier.next (fine label (by simp)) step
  exact induction_ succeeds

/-! ## The pump gets through -/

/-- A schedule of successful steps of the pump takes `s` to `t`. -/
def Pumps (s t : Pump) : Prop :=
  ∃ ls : List PumpStep, (∀ label ∈ ls, label.ByPump ∧ label.Succeeds) ∧
    ∀ capacity, (pump capacity).exec s ls = some t

namespace Pumps

theorem refl (s : Pump) : Pumps s s := ⟨[], by simp, fun _ => rfl⟩

theorem trans {s t u : Pump} (first : Pumps s t) (second : Pumps t u) : Pumps s u := by
  obtain ⟨ls, mine, run⟩ := first
  obtain ⟨ls', mine', run'⟩ := second
  refine ⟨ls ++ ls', ?_, fun capacity => ?_⟩
  · intro label mem
    rcases List.mem_append.mp mem with here | there
    · exact mine label here
    · exact mine' label there
  · rw [Machine.exec_append, run capacity, Option.bind_some, run' capacity]

theorem of_step {s t : Pump} (label : PumpStep) (mine : label.ByPump)
    (succeeds : label.Succeeds) (step : s.step label = some t) : Pumps s t := by
  refine ⟨[label], by simp [mine, succeeds], fun capacity => ?_⟩
  exact (pump capacity).exec_of_step step []

/-- The batch loop ends, and its frame is written. -/
theorem batch (left : ℕ) : ∀ {s : Pump} {frame : Bytes}, s.pc = .batch frame left →
    left ≤ s.send.buf.length →
    ∃ t, Pumps s t ∧ t.pc = .select ∧ t.send.buf = s.send.buf.drop left ∧
      t.send.closed = s.send.closed := by
  induction left with
  | zero =>
      intro s frame pc _
      have step : s.step (.flush true) =
          some { s with pc := .select, wire := s.wire ++ [.text frame] } := by
        simp [Pump.step, pc]
      exact ⟨_, of_step (.flush true) trivial rfl step, rfl, rfl, rfl⟩
  | succ left ih =>
      intro s frame pc queued
      obtain ⟨message, rest, held⟩ :=
        List.exists_cons_of_length_pos (Nat.lt_of_lt_of_le (Nat.succ_pos left) queued)
      obtain ⟨send, got, buf, closed⟩ := Chan.take_of_cons held
      have step : s.step .turn =
          some { s with send := send, pc := .batch (frame ++ newline :: message) left } := by
        simp [Pump.step, pc, got]
      have enough : left ≤ send.buf.length := by
        rw [held, List.length_cons] at queued
        rw [buf]
        omega
      obtain ⟨t, more, select, left_, closed'⟩ :=
        ih (s := { s with send := send, pc := .batch (frame ++ newline :: message) left }) rfl
          enough
      refine ⟨t, (of_step .turn trivial trivial step).trans more, select, ?_,
        closed'.trans closed⟩
      rw [left_, held, List.drop_succ_cons]
      exact congrArg (List.drop left) buf

/-- A message that has been taken is written, with all that is queued behind it. -/
theorem opened {s : Pump} {frame : Bytes} (pc : s.pc = .opened frame) :
    ∃ t, Pumps s t ∧ t.pc = .select ∧ t.send.buf = [] ∧ t.send.closed = s.send.closed := by
  have step : s.step .count = some { s with pc := .batch frame s.send.buf.length } := by
    simp [Pump.step, pc]
  obtain ⟨t, more, select, left, closed⟩ :=
    batch s.send.buf.length (s := { s with pc := .batch frame s.send.buf.length }) rfl le_rfl
  exact ⟨t, (of_step .count trivial trivial step).trans more, select, by simpa using left, closed⟩

/-- The select empties the channel. -/
theorem select {s : Pump} (pc : s.pc = .select) :
    ∃ t, Pumps s t ∧ t.pc = .select ∧ t.send.buf = [] ∧ t.send.closed = s.send.closed := by
  cases held : s.send.buf with
  | nil => exact ⟨s, refl s, pc, held, rfl⟩
  | cons message rest =>
      obtain ⟨send, got, -, closed⟩ := Chan.take_of_cons held
      have step : s.step (.receive true) =
          some { s with send := send, pc := .opened message } := by
        simp [Pump.step, pc, got]
      obtain ⟨t, more, select, none_, closed'⟩ :=
        opened (s := { s with send := send, pc := .opened message }) rfl
      exact ⟨t, (of_step (.receive true) trivial rfl step).trans more, select, none_,
        closed'.trans closed⟩

/-- **The pump gets through**: from every point of it, to a state in which
nothing is queued. -/
theorem drain {sent : List Bytes} {s : Pump} (h : Tracks sent s) (going : s.pc ≠ .returned) :
    ∃ t, Pumps s t ∧ t.pc = .select ∧ t.send.buf = [] ∧ t.send.closed = s.send.closed := by
  cases pc : s.pc with
  | select => exact select pc
  | opened frame => exact opened pc
  | batch frame left =>
      obtain ⟨u, first, at_, -, closed⟩ := batch left pc (h.counted frame left pc)
      obtain ⟨t, second, select, none_, closed'⟩ := Pumps.select at_
      exact ⟨t, first.trans second, select, none_, closed'.trans closed⟩
  | returned => exact absurd pc going

/-- The pump adds nothing to what was sent. -/
theorem tracks {capacity : ℕ} {ls : List PumpStep} {s t : Pump}
    (succeeds : ∀ label ∈ ls, label.Succeeds)
    (run : (pump capacity).exec (.start capacity) ls = some s) (more : Pumps s t) :
    Tracks (payloads ls) t := by
  obtain ⟨ls', mine, run'⟩ := more
  have silent : payloads ls' = [] := by
    refine List.filterMap_eq_nil_iff.mpr fun label mem => ?_
    have byPump := (mine label mem).1
    cases label <;> first | rfl | cases byPump
  have whole : payloads (ls ++ ls') = payloads ls := by
    rw [payloads, List.filterMap_append, ← payloads, ← payloads, silent, List.append_nil]
  rw [← whole]
  refine @tracks_of_exec capacity (ls ++ ls') t ?_ ?_
  · intro label mem
    rcases List.mem_append.mp mem with here | there
    · exact succeeds label here
    · exact (mine label there).2
  · rw [Machine.exec_append, run, Option.bind_some, run' capacity]

end Pumps

/-! ## The round trip -/

/-- **Framing round trip.**  However the messages fall into frames, and whenever
the channel is closed, if no write fails then

* what is read from the frames, with what is still queued behind, is every
  payload broadcast to the client, in order and once;
* in front of a close frame are the frames of all payloads;
* the pump gets through: by its own steps everything queued is written, and the
  close frame too if the channel has been closed. -/
theorem pump_roundTrip {capacity : ℕ} {ls : List PumpStep} {s : Pump}
    (succeeds : ∀ label ∈ ls, label.Succeeds)
    (run : (pump capacity).exec (.start capacity) ls = some s) :
    s.read ++ s.send.buf = payloads ls ∧
      (∀ front back, s.wire = front ++ .close :: back →
        Framing.decode newline (texts front) = payloads ls) ∧
      ∃ t, Pumps s t ∧ Framing.decode newline (texts t.wire) = payloads ls ∧
        (s.send.closed = true → .close ∈ t.wire) := by
  have tracks := tracks_of_exec succeeds run
  refine ⟨tracks.fifo, ?_, ?_⟩
  · intro front back wire
    have returned : s.pc = .returned := by
      by_contra going
      exact tracks.running going (by simp [wire])
    obtain ⟨-, none_, front', before, wire'⟩ := tracks.returned returned
    -- nothing but the last frame is a close frame
    have same : front' = front :=
      ((List.append_cons_inj_of_notMem before List.not_mem_nil).mp (wire'.symm.trans wire)).1
    have fifo := tracks.fifo
    rw [Pump.read, returned, none_, wire', texts_concat_close, same] at fifo
    simpa using fifo
  · by_cases returned : s.pc = .returned
    · obtain ⟨-, none_, front, -, wire⟩ := tracks.returned returned
      have fifo := tracks.fifo
      rw [Pump.read, returned, none_] at fifo
      exact ⟨s, .refl s, by simpa using fifo, fun _ => by simp [wire]⟩
    · obtain ⟨t, more, select, none_, closed⟩ := Pumps.drain tracks returned
      have fifo := (Pumps.tracks succeeds run more).fifo
      rw [Pump.read, select, none_] at fifo
      have through : Framing.decode newline (texts t.wire) = payloads ls := by simpa using fifo
      by_cases open_ : s.send.closed = true
      · have step : t.step (.receive true) =
            some { t with pc := .returned, wire := t.wire ++ [.close] } := by
          simp [Pump.step, select, Chan.take_of_closed (closed.trans open_) none_]
        refine ⟨_, more.trans (.of_step (.receive true) trivial rfl step), ?_, fun _ => by simp⟩
        rw [texts_concat_close, through]
      · exact ⟨t, more, through, fun closed => absurd closed open_⟩

/-- Three payloads, one of them empty, in one frame; the channel is closed in the
middle of the batch. -/
def someBatch : List PumpStep :=
  [.broadcast (Utf8.encode "a\nb ".toList), .receive true, .broadcast [newline],
    .broadcast (Utf8.encode "c".toList), .count, .close, .turn, .turn, .flush true, .receive true]

theorem pump_roundTrip_someBatch :
    ∃ s, (pump 4).exec (.start 4) someBatch = some s ∧
      s.wire = [.text (Utf8.encode "a b\n\nc".toList), .close] ∧
      Framing.decode newline (texts [.text (Utf8.encode "a b\n\nc".toList)]) =
        payloads someBatch := by
  have through : ((pump 4).exec (.start 4) someBatch).isSome = true := by decide +kernel
  have wire : ((pump 4).exec (.start 4) someBatch).map Pump.wire =
      some [.text (Utf8.encode "a b\n\nc".toList), .close] := by decide +kernel
  obtain ⟨s, run⟩ := Option.isSome_iff_exists.mp through
  rw [run, Option.map_some, Option.some.injEq] at wire
  exact ⟨s, run, wire, (pump_roundTrip (by decide) run).2.1 _ [] wire⟩

end PumaDev
