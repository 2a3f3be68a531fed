import PumaDev.LineBuffer

/-!
# The line history, index by index

`LineSlice` is the `LineBuffer` of the code as its fields are, without anything that rules
out an index out of range: `append` and the loops of `Do` check every index they use, and
come to nothing where one is outside the slice.

A buffer that is well formed never gets there (`append_ofBuffer`, `forEach_ofBuffer`), so the
abstract history of `PumaDev.LineBuffer` speaks for the code: `bounded_history`.  What
`WriteTo` counts is compared with what the writer has accepted: `accounts_iff`.
-/

namespace PumaDev

universe u v

/-- `linebuffer.LineBuffer`, field by field. -/
structure LineSlice (α : Type u) where
  size : ℕ
  cur : ℕ
  lines : List α

namespace LineSlice

variable {α : Type u}

/-- A buffer whose `Size` has been set before its first use. -/
def ofSize (size : ℕ) : LineSlice α := ⟨size, 0, []⟩

/-- `LineBuffer.Append`; `none` is an index out of range. -/
def append (lb : LineSlice α) (line : α) : Option (LineSlice α) :=
  let size := if lb.size = 0 then defaultSize else lb.size
  if lb.lines.length < size then
    some ⟨size, lb.cur, lb.lines ++ [line]⟩
  else if lb.cur < lb.lines.length then
    let cur := lb.cur + 1
    some ⟨size, if cur = lb.lines.length then 0 else cur, lb.lines.set lb.cur line⟩
  else none

/-- One call after the other. -/
def appendAll (lb : LineSlice α) : List α → Option (LineSlice α)
  | [] => some lb
  | line :: rest => (lb.append line).bind fun lb => lb.appendAll rest

variable {σ ε : Type v}

/-- The loops of `Do` over `n` indices from `i` on; `none` is an index out of range. -/
def visitFrom (x : σ → α → σ × Option ε) (lines : List α) :
    (n i : ℕ) → σ → Option (σ × Option ε)
  | 0, _, s => some (s, none)
  | n + 1, i, s =>
      match lines[i]? with
      | none => none
      | some line =>
          match x s line with
          | (s', some err) => some (s', some err)
          | (s', none) => visitFrom x lines n (i + 1) s'

/-- `LineBuffer.Do`, with the variables of the callback as a state. -/
def forEach (lb : LineSlice α) (x : σ → α → σ × Option ε) (s : σ) : Option (σ × Option ε) :=
  if lb.lines.length < lb.size then
    some (LineBuffer.each x lb.lines s)
  else
    match visitFrom x lb.lines (lb.size - lb.cur) lb.cur s with
    | none => none
    | some (s', some err) => some (s', some err)
    | some (s', none) => visitFrom x lb.lines lb.cur 0 s'

/-! ## Buffers that are well formed -/

/-- The fields of a buffer. -/
def ofBuffer (lb : LineBuffer α) : LineSlice α := ⟨lb.size, lb.cur, lb.lines⟩

/-- An empty buffer, with the size that is asked for. -/
def emptyBuffer (size : ℕ) : LineBuffer α where
  size := size
  cur := 0
  lines := []
  bounded := Nat.zero_le _
  growing _ := rfl
  cur_lt := capacityOf_pos size
  unset _ := rfl

/-- **An append** to a well formed buffer stays inside the slice. -/
theorem append_ofBuffer (lb : LineBuffer α) (line : α) :
    (ofBuffer lb).append line = some (ofBuffer (lb.append line)) := by
  by_cases room : lb.lines.length < capacityOf lb.size
  · simp only [append, ofBuffer, LineBuffer.append, dif_pos room]
    exact if_pos room
  · have inside := LineBuffer.cur_lt_length room
    simp only [append, ofBuffer, LineBuffer.append, dif_neg room]
    exact (if_neg room).trans (if_pos inside)

theorem appendAll_ofBuffer (lb : LineBuffer α) (lines : List α) :
    (ofBuffer lb).appendAll lines = some (ofBuffer (lines.foldl LineBuffer.append lb)) := by
  induction lines generalizing lb with
  | nil => rfl
  | cons line rest ih =>
      rw [appendAll, append_ofBuffer, Option.bind_some, ih, List.foldl_cons]

/-- A loop whose indices are in range goes through a piece of the slice. -/
theorem visitFrom_eq (x : σ → α → σ × Option ε) {lines : List α} {n i : ℕ}
    (inside : i + n ≤ lines.length) (s : σ) :
    visitFrom x lines n i s = some (LineBuffer.each x ((lines.drop i).take n) s) := by
  induction n generalizing i s with
  | zero => rw [List.take_zero, visitFrom, LineBuffer.each]
  | succ n ih =>
      have first : lines.drop i = lines[i] :: lines.drop (i + 1) :=
        List.drop_eq_getElem_cons (by omega)
      rw [visitFrom, List.getElem?_eq_getElem (by omega : i < lines.length), first,
        List.take_succ_cons, LineBuffer.each]
      dsimp only
      rcases x s lines[i] with ⟨s', _ | err⟩
      · exact ih (by omega) s'
      · rfl

/-- **`Do`** on a well formed buffer stays inside the slice. -/
theorem forEach_ofBuffer (lb : LineBuffer α) (x : σ → α → σ × Option ε) (s : σ) :
    (ofBuffer lb).forEach x s = some (lb.forEach x s) := by
  have within : ¬ lb.lines.length < lb.size → lb.cur + (lb.size - lb.cur) ≤ lb.lines.length := by
    intro full
    by_cases zero : lb.size = 0
    · have start : lb.cur = 0 := by
        apply lb.growing
        rw [lb.unset zero]
        exact capacityOf_pos lb.size
      omega
    · have inside := lb.cur_lt
      rw [capacityOf, if_neg zero] at inside
      omega
  show (if lb.lines.length < lb.size then _ else _) = _
  unfold LineBuffer.forEach
  by_cases room : lb.lines.length < lb.size
  · rw [if_pos room, if_pos room]
    rfl
  · have inside := within room
    rw [if_neg room, if_neg room]
    show (match visitFrom x lb.lines (lb.size - lb.cur) lb.cur s with
      | none => none
      | some (s', some err) => some (s', some err)
      | some (s', none) => visitFrom x lb.lines lb.cur 0 s') = _
    rw [visitFrom_eq x inside, ← List.drop_take]
    rcases LineBuffer.each x ((lb.lines.take lb.size).drop lb.cur) s with ⟨s', _ | err⟩
    · exact visitFrom_eq x (by omega) s'
    · rfl

/-! ## The history -/

/-- The callback has been called with these lines, one after the other, and has not failed. -/
inductive Visits (x : σ → α → σ × Option ε) : List α → σ → σ → Prop
  | nil (s : σ) : Visits x [] s s
  | cons {line : α} {rest : List α} {s t u : σ} (here : x s line = (t, none))
      (later : Visits x rest t u) : Visits x (line :: rest) s u

/-- `Do` goes through the lines: it visits all of them, or fails with the error of the callback
at one of them, having visited those in front of it. -/
def GoesThrough (x : σ → α → σ × Option ε) (lines : List α) (s s' : σ) : Option ε → Prop
  | none => Visits x lines s s'
  | some err => ∃ before line after t, lines = before ++ line :: after ∧
      Visits x before s t ∧ x t line = (s', some err)

theorem goesThrough_each (x : σ → α → σ × Option ε) (lines : List α) (s : σ) :
    GoesThrough x lines s (LineBuffer.each x lines s).1 (LineBuffer.each x lines s).2 := by
  induction lines generalizing s with
  | nil => exact .nil s
  | cons line rest ih =>
      rw [LineBuffer.each]
      rcases here : x s line with ⟨t, _ | err⟩
      · have later := ih t
        dsimp only
        revert later
        generalize LineBuffer.each x rest t = result
        obtain ⟨s', _ | err⟩ := result
        · exact fun later => .cons here later
        · rintro ⟨before, line', after, u, rfl, visits, fails⟩
          exact ⟨line :: before, line', after, u, rfl, .cons here visits, fails⟩
      · exact ⟨[], line, rest, s, rfl, .nil s, here⟩

/-- What a buffer has after any number of appends. -/
theorem appendAll_ofSize (size : ℕ) (lines : List α) :
    ∃ lb : LineBuffer α, (ofSize size).appendAll lines = some (ofBuffer lb) ∧
      capacityOf lb.size = capacityOf size ∧ lb.contents = lines.rtake (capacityOf size) := by
  obtain ⟨held, capacity⟩ := LineBuffer.foldl_append (emptyBuffer size) lines
  refine ⟨_, appendAll_ofBuffer (emptyBuffer size) lines, capacity, ?_⟩
  rw [held]
  exact History.foldl_push _ lines

/-- **The buffer is a bounded history.**  For every size that is set before the first use, 0
for the default, and every sequence of appends: no index is out of range, the buffer holds
no more lines than its size, and `Do` goes through the last of them, oldest first, and up to
the first one at which its callback fails. -/
theorem bounded_history (size : ℕ) (lines : List α) :
    ∃ lb : LineSlice α, (ofSize size).appendAll lines = some lb ∧
      lb.lines.length ≤ capacityOf size ∧
      ∀ (σ ε : Type v) (x : σ → α → σ × Option ε) (s : σ), ∃ s' err,
        lb.forEach x s = some (s', err) ∧
          GoesThrough x (lines.rtake (capacityOf size)) s s' err := by
  obtain ⟨lb, appended, capacity, contents⟩ := appendAll_ofSize size lines
  refine ⟨_, appended, capacity ▸ lb.bounded, fun σ ε x s => ?_⟩
  refine ⟨_, _, by rw [forEach_ofBuffer, LineBuffer.forEach_eq], ?_⟩
  rw [contents]
  exact goesThrough_each x _ s

/-! ## What `WriteTo` counts -/

/-- An `io.Writer` in the state `ω`: what a `Write` leaves, how many bytes it has accepted, and
its error. -/
abbrev IoWriter (ω ε : Type) := ω → Bytes → ω × ℕ × Option ε

/-- The contract of `io.Writer`: it accepts no more than it is given, and fails where it accepts
less. -/
def IoWriter.Obeys {ω ε : Type} (w : IoWriter ω ε) : Prop :=
  ∀ s p s' n err, w s p = (s', n, err) → n ≤ p.length ∧ (n < p.length → err ≠ none)

section WriteTo

variable {ω ε : Type}

/-- The callback of `WriteTo`, over the writer and the bytes counted: what a failing `Write` has
accepted is not counted. -/
def writeLine (w : IoWriter ω ε) (s : ω × ℕ) (line : Bytes) : (ω × ℕ) × Option ε :=
  match w s.1 line with
  | (s', _, some err) => ((s', s.2), some err)
  | (s', n, none) => ((s', s.2 + n), none)

/-- `LineBuffer.WriteTo`; `none` is an index out of range. -/
def writeTo (lb : LineSlice Bytes) (w : IoWriter ω ε) (start : ω) :
    Option ((ω × ℕ) × Option ε) :=
  lb.forEach (writeLine w) (start, 0)

/-- The writer, as those see it who do not ask what a failing `Write` has accepted. -/
def IoWriter.forget (w : IoWriter ω ε) : LineBuffer.Writer ω ε := fun s p =>
  match w s p with
  | (s', _, some err) => (s', .error err)
  | (s', n, none) => (s', .ok n)

/-- On a well formed buffer, `WriteTo` is that of `PumaDev.LineBuffer`. -/
theorem writeTo_ofBuffer (lb : LineBuffer Bytes) (w : IoWriter ω ε) (start : ω) :
    (ofBuffer lb).writeTo w start = some (lb.writeTo w.forget start) := by
  have same : writeLine w = LineBuffer.writeLine w.forget := by
    funext s line
    rw [writeLine, LineBuffer.writeLine, IoWriter.forget]
    rcases w s.1 line with ⟨s', n, _ | err⟩ <;> rfl
  rw [writeTo, same]
  exact forEach_ofBuffer lb _ _

/-- The writer has been given these lines up to the first that fails, and has accepted these
bytes in all. -/
inductive Writes (w : IoWriter ω ε) : List Bytes → ω → ω → Bytes → Option ε → Prop
  | nil (s : ω) : Writes w [] s s [] none
  | fails {line : Bytes} {rest : List Bytes} {s s' : ω} {n : ℕ} {err : ε}
      (here : w s line = (s', n, some err)) :
      Writes w (line :: rest) s s' (line.take n) (some err)
  | cons {line : Bytes} {rest : List Bytes} {s t u : ω} {n : ℕ} {accepted : Bytes}
      {err : Option ε} (here : w s line = (t, n, none)) (later : Writes w rest t u accepted err) :
      Writes w (line :: rest) s u (line.take n ++ accepted) err

/-- How many bytes the first `Write` that fails accepts; none, if no `Write` fails. -/
def lostBytes (w : IoWriter ω ε) : List Bytes → ω → ℕ
  | [], _ => 0
  | line :: rest, s =>
      match w s line with
      | (_, n, some _) => n
      | (s', _, none) => lostBytes w rest s'

/-- After any number of appends, `WriteTo` gives its writer the lines of the history up to the
first `Write` that fails, returns its error and the number of bytes accepted in all, and
without an error all lines have been written. -/
def Accounts (size : ℕ) (lines : List Bytes) (w : IoWriter ω ε) (start : ω) : Prop :=
  ∃ final accepted err,
    ((ofSize size).appendAll lines).bind (fun lb => lb.writeTo w start) =
        some ((final, accepted.length), err) ∧
      Writes w (lines.rtake (capacityOf size)) start final accepted err ∧
      (err = none → accepted = (lines.rtake (capacityOf size)).flatten)

/-- What a writer does with the lines is determined. -/
theorem Writes.unique {w : IoWriter ω ε} {lines : List Bytes} {s t t' : ω} {a a' : Bytes}
    {err err' : Option ε} (first : Writes w lines s t a err) (second : Writes w lines s t' a' err') :
    a = a' := by
  induction first generalizing t' a' err' with
  | nil s =>
      cases second
      rfl
  | fails here =>
      cases second with
      | fails here' =>
          rw [here] at here'
          cases here'
          rfl
      | cons here' later =>
          rw [here] at here'
          cases here'
  | cons here later ih =>
      cases second with
      | fails here' =>
          rw [here] at here'
          cases here'
      | cons here' later' =>
          rw [here] at here'
          cases here'
          rw [ih later']

/-- **A run of writes**: it ends as the writer does, and the count lacks what the `Write` that
fails has accepted. -/
theorem each_writeLine {w : IoWriter ω ε} (obeys : w.Obeys) (lines : List Bytes) (s : ω)
    (tot : ℕ) :
    ∃ t accepted err, Writes w lines s t accepted err ∧
      (err = none → accepted = lines.flatten) ∧ ∃ counted,
        LineBuffer.each (writeLine w) lines (s, tot) = ((t, tot + counted), err) ∧
          counted + lostBytes w lines s = accepted.length := by
  induction lines generalizing s tot with
  | nil => exact ⟨s, [], none, .nil s, fun _ => rfl, 0, rfl, rfl⟩
  | cons line rest ih =>
      rcases here : w s line with ⟨t, n, _ | err⟩
      · obtain ⟨bound, short⟩ := obeys _ _ _ _ _ here
        have whole : line.take n = line := List.take_of_length_le (by
          by_contra less
          exact short (by omega) rfl)
        obtain ⟨u, accepted, err, writes, all, counted, ends, sum⟩ := ih t (tot + n)
        refine ⟨u, _, err, .cons here writes, fun none_ => ?_, n + counted, ?_, ?_⟩
        · rw [whole, all none_, List.flatten_cons]
        · rw [LineBuffer.each, writeLine, here]
          dsimp only
          rw [ends, Nat.add_assoc]
        · rw [lostBytes, here, List.length_append, List.length_take]
          dsimp only
          omega
      · obtain ⟨bound, -⟩ := obeys _ _ _ _ _ here
        refine ⟨t, _, some err, .fails here, (fun none_ => by cases none_), 0, ?_, ?_⟩
        · rw [LineBuffer.each, writeLine, here]
          rfl
        · rw [lostBytes, here, List.length_take]
          dsimp only
          omega

/-- **When `WriteTo` accounts for every byte.**  For every buffer that appends can lead to and
every writer that obeys the contract: `WriteTo` stops at the first `Write` that fails, returns
its error, and as count the number of bytes that the writer has accepted in all, and without an
error all lines have been written in order, if and only if the `Write` that fails, if one does,
accepts no byte. -/
theorem accounts_iff {w : IoWriter ω ε} (obeys : w.Obeys) (size : ℕ) (lines : List Bytes)
    (start : ω) :
    Accounts size lines w start ↔ lostBytes w (lines.rtake (capacityOf size)) start = 0 := by
  obtain ⟨lb, appended, -, contents⟩ := appendAll_ofSize size lines
  obtain ⟨t, accepted, err, writes, all, counted, ends, sum⟩ :=
    each_writeLine obeys (lines.rtake (capacityOf size)) start 0
  have result : ((ofSize size).appendAll lines).bind (fun lb => lb.writeTo w start) =
      some ((t, counted), err) := by
    rw [appended, Option.bind_some, writeTo, forEach_ofBuffer, LineBuffer.forEach_eq, contents,
      ends, Nat.zero_add]
  constructor
  · rintro ⟨final, accepted', err', returned, writes', -⟩
    rw [result] at returned
    cases returned
    have same := writes.unique writes'
    rw [same] at sum
    omega
  · intro nothing
    refine ⟨t, accepted, err, ?_, writes, all⟩
    rw [result, ← sum, nothing, Nat.add_zero]

/-- A writer that has room for so many bytes. -/
def limitedWriter : IoWriter ℕ Unit := fun room p =>
  if p.length ≤ room then (room - p.length, p.length, none) else (0, room, some ())

theorem obeys_limitedWriter : limitedWriter.Obeys := by
  intro room p s' n err wrote
  unfold limitedWriter at wrote
  split at wrote
  · cases wrote
    exact ⟨le_rfl, fun less => absurd less (lt_irrefl _)⟩
  · cases wrote
    exact ⟨by omega, fun _ => nofun⟩

/-- Two lines of two bytes are left, and there is room for one: the other is refused as a
whole. -/
theorem accounts_two :
    Accounts 2 [[104, 10], [105, 10], [106, 10]] limitedWriter 2 :=
  (accounts_iff obeys_limitedWriter 2 _ 2).mpr (by decide)

/-- With room for three bytes, the other line is accepted in part: the count is 2. -/
theorem not_accounts_three :
    ¬ Accounts 2 [[104, 10], [105, 10], [106, 10]] limitedWriter 3 := by
  rintro ⟨final, accepted, err, returned, writes, -⟩
  have partly : Writes limitedWriter [[105, 10], [106, 10]] 3 0 _ (some ()) :=
    .cons (n := 2) rfl (.fails (n := 1) rfl)
  have bytes := writes.unique partly
  subst bytes
  have counts : 2 = 3 := congrArg Prod.snd (congrArg Prod.fst (Option.some.inj returned))
  exact absurd counts (by decide)

end WriteTo

end LineSlice

end PumaDev
