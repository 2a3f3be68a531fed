import PumaDev.Go.Bytes
import PumaDev.Lib.History

/-!
# The bounded line history

`LineBuffer` keeps the last lines that were appended to it, in a slice that
grows up to a capacity and is overwritten in a circle from then on.  The zero
value is a usable buffer: the first `append` gives it the default size.  What a
line is plays no part in that, and is left open: a text, its bytes, or an entry
that remembers who wrote it.

The index `append` writes at is never checked by the code.  Here the record
carries what makes it safe, so a buffer whose next `append` would panic cannot
be written down: `cur_lt_length` says that a full buffer is overwritten inside
its slice.

`contents` is what `Do` hands out, and `contents_append` the specification the
buffer meets: it is the bounded history of what was appended.
-/

namespace PumaDev

universe u v

/-- `linebuffer.DefaultSize`. -/
def defaultSize : ℕ := 1024

/-- The capacity an append works with: a size of `0` asks for the default. -/
def capacityOf (size : ℕ) : ℕ := if size = 0 then defaultSize else size

theorem capacityOf_pos (size : ℕ) : 0 < capacityOf size := by
  unfold capacityOf
  split
  · decide
  · omega

/-- The first append fixes the capacity. -/
@[simp] theorem capacityOf_capacityOf (size : ℕ) :
    capacityOf (capacityOf size) = capacityOf size :=
  if_neg (Nat.ne_of_gt (capacityOf_pos size))

/-- `linebuffer.LineBuffer`, without its lock. -/
structure LineBuffer (α : Type u) where
  /-- The capacity that was asked for. -/
  size : ℕ
  /-- Where the next line goes once the slice is full. -/
  cur : ℕ
  /-- The slice. -/
  lines : List α
  /-- The slice never outgrows the capacity. -/
  bounded : lines.length ≤ capacityOf size
  /-- A buffer that is still growing has not been overwritten. -/
  growing : lines.length < capacityOf size → cur = 0
  /-- The next line goes inside the capacity. -/
  cur_lt : cur < capacityOf size
  /-- Only the first append sets a size that was not asked for. -/
  unset : size = 0 → lines = []

namespace LineBuffer

variable {α : Type u}

/-- The zero value of the type. -/
def zero : LineBuffer α where
  size := 0
  cur := 0
  lines := []
  bounded := Nat.zero_le _
  growing _ := rfl
  cur_lt := capacityOf_pos 0
  unset _ := rfl

instance : Inhabited (LineBuffer α) := ⟨zero⟩

/-- A full buffer overwrites a line inside its slice. -/
theorem cur_lt_length {lb : LineBuffer α}
    (full : ¬ lb.lines.length < capacityOf lb.size) : lb.cur < lb.lines.length :=
  Nat.lt_of_lt_of_le lb.cur_lt (Nat.le_of_not_lt full)

/-- `LineBuffer.Append`. -/
def append (lb : LineBuffer α) (line : α) : LineBuffer α :=
  if room : lb.lines.length < capacityOf lb.size then
    { size := capacityOf lb.size
      cur := lb.cur
      lines := lb.lines ++ [line]
      bounded := by simpa using Nat.succ_le_of_lt room
      growing := fun _ => lb.growing room
      cur_lt := by simpa using lb.cur_lt
      unset := fun zero => absurd zero (Nat.ne_of_gt (capacityOf_pos lb.size)) }
  else
    { size := capacityOf lb.size
      cur := if lb.cur + 1 = lb.lines.length then 0 else lb.cur + 1
      lines := lb.lines.set lb.cur line
      bounded := by simpa using lb.bounded
      growing := fun more => absurd (by simpa using more) room
      cur_lt := by
        have inside := cur_lt_length room
        have bound := lb.bounded
        rw [capacityOf_capacityOf]
        split <;> omega
      unset := fun zero => absurd zero (Nat.ne_of_gt (capacityOf_pos lb.size)) }

/-! ## Reading -/

/-- One of the loops of `Do`: the first error of the callback ends it. -/
def each {σ ε : Type v} (x : σ → α → σ × Option ε) : List α → σ → σ × Option ε
  | [], s => (s, none)
  | line :: rest, s =>
      match x s line with
      | (s', none) => each x rest s'
      | (s', some err) => (s', some err)

/-- `LineBuffer.Do`, with the callback's variables as a state. -/
def forEach {σ ε : Type v} (lb : LineBuffer α) (x : σ → α → σ × Option ε) (s : σ) :
    σ × Option ε :=
  if lb.lines.length < lb.size then
    each x lb.lines s
  else
    match each x ((lb.lines.take lb.size).drop lb.cur) s with
    | (s', none) => each x (lb.lines.take lb.cur) s'
    | (s', some err) => (s', some err)

/-- An `io.Writer` in the state `ω`: what a `Write` leaves, and the number of
bytes it took or its error. -/
abbrev Writer (ω ε : Type v) := ω → Bytes → ω × Except ε ℕ

/-- The callback of `WriteTo`, over the writer and the bytes counted. -/
def writeLine {ω ε : Type} (w : Writer ω ε) (s : ω × ℕ) (line : Bytes) : (ω × ℕ) × Option ε :=
  match w s.1 line with
  | (w', .ok n) => ((w', s.2 + n), none)
  | (w', .error err) => ((w', s.2), some err)

/-- `LineBuffer.WriteTo`. -/
def writeTo {ω ε : Type} (lb : LineBuffer Bytes) (w : Writer ω ε) (start : ω) :
    (ω × ℕ) × Option ε :=
  lb.forEach (writeLine w) (start, 0)

/-- The lines, oldest first. -/
def contents (lb : LineBuffer α) : List α := lb.lines.drop lb.cur ++ lb.lines.take lb.cur

@[simp] theorem contents_zero : (zero : LineBuffer α).contents = [] := rfl

/-- **Appending is pushing onto a bounded history.** -/
theorem contents_append (lb : LineBuffer α) (line : α) :
    (lb.append line).contents = History.push (capacityOf lb.size) lb.contents line := by
  have length : lb.contents.length = lb.lines.length := by
    rw [contents, List.length_append, List.length_drop, List.length_take]
    omega
  unfold append
  split
  · next room =>
      -- nothing has been overwritten, and nothing has to go
      have start := lb.growing room
      have fits : (lb.contents ++ [line]).length ≤ capacityOf lb.size := by
        rw [List.length_append, length]
        exact Nat.succ_le_of_lt room
      rw [History.push, History.rtake_eq_self fits]
      simp [contents, start]
  · next full =>
      have inside := cur_lt_length full
      have bound := lb.bounded
      have full_ : lb.lines.length = capacityOf lb.size := by omega
      -- the line at `cur` is the oldest, and the one that is overwritten
      have oldest : lb.lines.drop lb.cur = lb.lines[lb.cur] :: lb.lines.drop (lb.cur + 1) :=
        List.drop_eq_getElem_cons inside
      have pushed : History.push (capacityOf lb.size) lb.contents line =
          lb.lines.drop (lb.cur + 1) ++ (lb.lines.take lb.cur ++ [line]) := by
        rw [History.push, List.rtake, List.length_append, length, full_, List.length_singleton,
          Nat.add_sub_cancel_left, contents, oldest, List.append_assoc, List.cons_append,
          List.drop_succ_cons, List.drop_zero]
      have front : (lb.lines.set lb.cur line).take (lb.cur + 1) =
          lb.lines.take lb.cur ++ [line] := by
        rw [List.take_succ_eq_append_getElem (by simpa using inside), List.getElem_set_self,
          List.take_set_of_le le_rfl]
      have back : (lb.lines.set lb.cur line).drop (lb.cur + 1) =
          lb.lines.drop (lb.cur + 1) := List.drop_set_of_lt (Nat.lt_succ_self _)
      rw [pushed, contents]
      dsimp only
      split
      · next wraps =>
          have whole : lb.lines.set lb.cur line = lb.lines.take lb.cur ++ [line] := by
            rw [← front, wraps, ← List.length_set, List.take_length]
          rw [List.drop_zero, List.take_zero, List.append_nil, wraps, List.drop_length,
            List.nil_append, whole]
      · rw [front, back]

/-- An append leaves the capacity it worked with. -/
theorem size_append (lb : LineBuffer α) (line : α) :
    (lb.append line).size = capacityOf lb.size := by
  unfold append
  split <;> rfl

/-- A run of appends pushes its lines, and leaves the capacity. -/
theorem foldl_append (lb : LineBuffer α) (lines : List α) :
    (lines.foldl append lb).contents =
        lines.foldl (History.push (capacityOf lb.size)) lb.contents ∧
      capacityOf (lines.foldl append lb).size = capacityOf lb.size := by
  induction lines generalizing lb with
  | nil => exact ⟨rfl, rfl⟩
  | cons line rest ih =>
      obtain ⟨held, capacity⟩ := ih (lb.append line)
      rw [size_append, capacityOf_capacityOf] at held capacity
      refine ⟨?_, capacity⟩
      rw [List.foldl_cons, List.foldl_cons, held, contents_append]

/-- **What a run of appends leaves**, from the zero value on. -/
theorem contents_foldl (lines : List α) :
    (lines.foldl append zero).contents = lines.rtake defaultSize := by
  rw [(foldl_append zero lines).1, contents_zero]
  exact History.foldl_push _ lines

/-- The buffer with its lines replaced. -/
def map {β : Type v} (f : α → β) (lb : LineBuffer α) : LineBuffer β where
  size := lb.size
  cur := lb.cur
  lines := lb.lines.map f
  bounded := by simpa using lb.bounded
  growing room := lb.growing (by simpa using room)
  cur_lt := lb.cur_lt
  unset zero := by simp [lb.unset zero]

/-- A buffer works the same whatever its lines carry. -/
theorem map_append {β : Type v} (f : α → β) (lb : LineBuffer α) (line : α) :
    (lb.append line).map f = (lb.map f).append (f line) := by
  by_cases room : lb.lines.length < capacityOf lb.size
  · simp [append, map, room]
  · simp [append, map, room, List.map_set]

theorem contents_map {β : Type v} (f : α → β) (lb : LineBuffer α) :
    (lb.map f).contents = lb.contents.map f := by
  simp [contents, map]

theorem each_append {σ ε : Type v} (x : σ → α → σ × Option ε) (front back : List α) (s : σ) :
    each x (front ++ back) s =
      match each x front s with
      | (s', none) => each x back s'
      | (s', some err) => (s', some err) := by
  induction front generalizing s with
  | nil => rfl
  | cons line rest ih =>
      rw [List.cons_append, each, each]
      split
      · exact ih _
      · rfl

/-- **`Do` hands out the contents**, oldest line first, until an error. -/
theorem forEach_eq {σ ε : Type v} (lb : LineBuffer α) (x : σ → α → σ × Option ε) (s : σ) :
    lb.forEach x s = each x lb.contents s := by
  by_cases zero : lb.size = 0
  · have none_ := lb.unset zero
    simp [forEach, contents, zero, none_, each]
  · have capacity : capacityOf lb.size = lb.size := if_neg zero
    unfold forEach
    split
    · next room =>
        have start : lb.cur = 0 := lb.growing (by rwa [capacity])
        rw [contents, start, List.drop_zero, List.take_zero, List.append_nil]
    · next full =>
        have bound := lb.bounded
        have whole : lb.lines.take lb.size = lb.lines :=
          List.take_of_length_le (by omega)
        rw [whole, contents, each_append]

/-- A writer that takes everything and never fails. -/
def accepting (ε : Type) : Writer Bytes ε := fun held p => (held ++ p, .ok p.length)

/-- **What `WriteTo` writes** to a writer that never fails. -/
theorem writeTo_accepting {ε : Type} (lb : LineBuffer Bytes) (start : Bytes) :
    lb.writeTo (accepting ε) start =
      ((start ++ lb.contents.flatten, lb.contents.flatten.length), none) := by
  have all : ∀ (lines : List Bytes) (held : Bytes) (tot : ℕ),
      each (writeLine (accepting ε)) lines (held, tot) =
        ((held ++ lines.flatten, tot + lines.flatten.length), none) := by
    intro lines
    induction lines with
    | nil => intro held tot; simp [each]
    | cons line rest ih =>
        intro held tot
        have one : writeLine (accepting ε) (held, tot) line =
            ((held ++ line, tot + line.length), none) := rfl
        rw [each, one]
        refine (ih (held ++ line) (tot + line.length)).trans ?_
        rw [List.flatten_cons, List.append_assoc, List.length_append, Nat.add_assoc]
  rw [writeTo, forEach_eq, all, Nat.zero_add]

end LineBuffer

end PumaDev
