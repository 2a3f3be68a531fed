import Mathlib.Algebra.Order.BigOperators.Group.List
import Mathlib.Algebra.Order.Ring.Nat
import Mathlib.Data.List.Nodup
import Mathlib.Data.List.Range
import Mathlib.Data.Option.Basic
import PumaDev.Lib.Machine

/-!
# Goroutines over a shared loop variable

A loop starts one goroutine per element, and its variable is a single cell that
all iterations share.  A goroutine gets at its element through the cell, when it
comes to it: by then the loop may have gone on, or be over.

The loop and its goroutines are one machine.  `eachOnce_iff` compares what the
author wants with what the schedule does: every element is read by exactly one
goroutine if and only if the elements are distinct and every goroutine reads in
its own iteration.  The argument is a sum: a goroutine never reads an element
before its own, so if the elements read are all different none of them can be a
later one.
-/

namespace PumaDev

universe u

/-- A goroutine's read of the loop variable. -/
structure SharedRead (α : Type u) where
  /-- The goroutine, by the iteration that started it. -/
  goroutine : ℕ
  /-- The iteration the loop was in. -/
  iteration : ℕ
  value : α

/-- A loop, and the goroutines it has started. -/
structure SharedLoop (α : Type u) where
  /-- The elements the loop has not come to. -/
  todo : List α
  /-- The loop variable, once the loop has come to an element. -/
  cell : Option α
  /-- The iterations begun. -/
  begun : ℕ
  /-- The goroutines started. -/
  started : ℕ
  /-- The reads of the goroutines, in order. -/
  reads : List (SharedRead α)

namespace SharedLoop

/-- The steps. -/
inductive Label where
  /-- The loop goes on to the next element. -/
  | advance
  /-- The loop starts the goroutine of its iteration. -/
  | go
  /-- A goroutine reads the variable. -/
  | read (goroutine : ℕ)
  deriving DecidableEq

variable {α : Type u}

/-- Before the loop. -/
def start (elems : List α) : SharedLoop α := ⟨elems, none, 0, 0, []⟩

/-- One step. -/
def step (s : SharedLoop α) : Label → Option (SharedLoop α)
  | .advance =>
      if s.started = s.begun then
        match s.todo with
        | x :: rest => some { s with todo := rest, cell := some x, begun := s.begun + 1 }
        | [] => none
      else none
  | .go => if s.started < s.begun then some { s with started := s.started + 1 } else none
  | .read g =>
      if g < s.started ∧ g ∉ s.reads.map SharedRead.goroutine then
        s.cell.map fun x => { s with reads := s.reads ++ [⟨g, s.begun - 1, x⟩] }
      else none

/-- The loop is over, and every goroutine has read. -/
def Complete (s : SharedLoop α) : Prop :=
  s.todo = [] ∧ s.started = s.begun ∧ s.reads.length = s.started

/-- The goroutine `g` has read the element `x`. -/
def Reads (s : SharedLoop α) (g : ℕ) (x : α) : Prop :=
  ∃ r ∈ s.reads, r.goroutine = g ∧ r.value = x

/-- A goroutine that reads in this step does so in its own iteration. -/
def InTime (s : SharedLoop α) : Label → Prop
  | .read g => s.begun = g + 1
  | .advance | .go => True

instance : DecidableRel (InTime (α := α))
  | s, .read g => inferInstanceAs (Decidable (s.begun = g + 1))
  | _, .advance | _, .go => .isTrue trivial

end SharedLoop

/-- The loop over `elems`. -/
def sharedLoop {α : Type u} (elems : List α) : Machine (SharedLoop α) SharedLoop.Label :=
  ⟨.start elems, SharedLoop.step⟩

namespace SharedLoop

variable {α : Type u} {elems : List α} {s t : SharedLoop α}

/-- Where the loop over `elems` and its goroutines stand. -/
structure Tracks (elems : List α) (s : SharedLoop α) : Prop where
  todo : s.todo = elems.drop s.begun
  begun_le : s.begun ≤ elems.length
  started_le : s.started ≤ s.begun
  cell : ∀ x ∈ s.cell, 0 < s.begun ∧ elems[s.begun - 1]? = some x
  nodup : (s.reads.map SharedRead.goroutine).Nodup
  /-- A goroutine reads an element that is not before its own. -/
  reads : ∀ r ∈ s.reads, r.goroutine < s.started ∧ r.goroutine ≤ r.iteration ∧
    elems[r.iteration]? = some r.value

namespace Tracks

theorem start (elems : List α) : Tracks elems (.start elems) where
  todo := rfl
  begun_le := Nat.zero_le _
  started_le := le_rfl
  cell := by simp [SharedLoop.start]
  nodup := .nil
  reads := by simp [SharedLoop.start]

theorem next (h : Tracks elems s) {label : Label} (step : s.step label = some t) :
    Tracks elems t := by
  cases label with
  | advance =>
      simp only [SharedLoop.step] at step
      split at step
      · split at step
        · next x rest todo =>
            cases step
            have drop : elems.drop s.begun = x :: rest := h.todo.symm.trans todo
            have here : elems[s.begun]? = some x := by
              rw [← List.head?_drop, drop, List.head?_cons]
            have inside : s.begun < elems.length := (List.getElem?_eq_some_iff.mp here).1
            refine ⟨?_, inside, Nat.le_succ_of_le h.started_le, ?_, h.nodup, h.reads⟩
            · show rest = elems.drop (s.begun + 1)
              rw [← List.tail_drop, drop, List.tail_cons]
            · rintro y ⟨⟩
              exact ⟨Nat.succ_pos _, here⟩
        · cases step
      · cases step
  | go =>
      obtain ⟨more, result⟩ := Option.ite_none_right_eq_some.mp step
      cases result
      refine ⟨h.todo, h.begun_le, more, h.cell, h.nodup, fun r mem => ?_⟩
      obtain ⟨before, rest⟩ := h.reads r mem
      exact ⟨Nat.lt_succ_of_lt before, rest⟩
  | read g =>
      obtain ⟨⟨born, fresh⟩, result⟩ := Option.ite_none_right_eq_some.mp step
      obtain ⟨x, cell, rfl⟩ := Option.map_eq_some_iff.mp result
      obtain ⟨pos, here⟩ := h.cell x cell
      refine ⟨h.todo, h.begun_le, h.started_le, h.cell, ?_, ?_⟩
      · show ((s.reads ++ [_]).map SharedRead.goroutine).Nodup
        rw [List.map_append, List.map_singleton]
        exact h.nodup.append (List.nodup_singleton g) (by simpa using fresh)
      · intro r mem
        rcases List.mem_append.mp mem with earlier | last
        · exact h.reads r earlier
        · rw [List.mem_singleton.mp last]
          have bound := h.started_le
          exact ⟨born, by show g ≤ s.begun - 1; omega, here⟩

end Tracks

/-! ## The schedule and its reads -/

/-- Reads stay. -/
theorem reads_of_step {label : Label} (step : s.step label = some t) : s.reads <+: t.reads := by
  cases label with
  | advance =>
      simp only [SharedLoop.step] at step
      split at step
      · split at step
        · cases step
          exact List.prefix_rfl
        · cases step
      · cases step
  | go =>
      obtain ⟨-, result⟩ := Option.ite_none_right_eq_some.mp step
      cases result
      exact List.prefix_rfl
  | read g =>
      obtain ⟨-, result⟩ := Option.ite_none_right_eq_some.mp step
      obtain ⟨x, -, rfl⟩ := Option.map_eq_some_iff.mp result
      exact List.prefix_append _ _

/-- A step whose goroutine reads in time adds no late read, and only such a step. -/
theorem inTime_iff_of_step (h : Tracks elems s) {label : Label} (step : s.step label = some t)
    (before : ∀ r ∈ s.reads, r.iteration = r.goroutine) :
    s.InTime label ↔ ∀ r ∈ t.reads, r.iteration = r.goroutine := by
  cases label with
  | advance =>
      simp only [SharedLoop.step] at step
      split at step
      · split at step
        · cases step
          exact iff_of_true trivial before
        · cases step
      · cases step
  | go =>
      obtain ⟨-, result⟩ := Option.ite_none_right_eq_some.mp step
      cases result
      exact iff_of_true trivial before
  | read g =>
      obtain ⟨⟨born, -⟩, result⟩ := Option.ite_none_right_eq_some.mp step
      obtain ⟨x, -, rfl⟩ := Option.map_eq_some_iff.mp result
      have bound := h.started_le
      have same : s.InTime (.read g) ↔ s.begun - 1 = g := by
        show s.begun = g + 1 ↔ s.begun - 1 = g
        omega
      rw [same]
      constructor
      · intro now r mem
        rcases List.mem_append.mp mem with earlier | last
        · exact before r earlier
        · rw [List.mem_singleton.mp last]
          exact now
      · intro all
        exact all ⟨g, s.begun - 1, x⟩ (by simp)

/-- **A schedule is in time** if and only if its reads are. -/
theorem guarded_iff {schedule : List Label} (h : Tracks elems s)
    (before : ∀ r ∈ s.reads, r.iteration = r.goroutine)
    (run : (sharedLoop elems).exec s schedule = some t) :
    (sharedLoop elems).Guarded InTime s schedule ↔
      ∀ r ∈ t.reads, r.iteration = r.goroutine := by
  induction schedule generalizing s with
  | nil =>
      cases run
      exact iff_of_true trivial before
  | cons label rest ih =>
      obtain ⟨u, step, later⟩ := Option.bind_eq_some_iff.mp run
      rw [(sharedLoop elems).guarded_of_step step, inTime_iff_of_step h step before]
      constructor
      · rintro ⟨here, guarded⟩
        exact (ih (h.next step) here later).mp guarded
      · intro all
        have here : ∀ r ∈ u.reads, r.iteration = r.goroutine := by
          have grows := (sharedLoop elems).exec_induction
            (P := fun _ v => u.reads <+: v.reads) List.prefix_rfl
            (fun _ v _ w earlier step => earlier.trans (reads_of_step step)) later
          exact fun r mem => all r (grows.mem mem)
        exact ⟨here, (ih (h.next step) here later).mpr all⟩

/-! ## One goroutine for each element -/

/-- Two functions with the same sum agree where one is never above the other. -/
theorem eq_of_sum_eq {β : Type u} {f g : β → ℕ} {l : List β} (le : ∀ b ∈ l, f b ≤ g b)
    (sum : (l.map f).sum = (l.map g).sum) : ∀ b ∈ l, f b = g b := by
  induction l with
  | nil => simp
  | cons b rest ih =>
      have head := le b List.mem_cons_self
      have tail : (rest.map f).sum ≤ (rest.map g).sum :=
        List.sum_le_sum fun c mem => le c (List.mem_cons_of_mem _ mem)
      simp only [List.map_cons, List.sum_cons] at sum
      refine List.forall_mem_cons.mpr ⟨by omega, ?_⟩
      exact ih (fun c mem => le c (List.mem_cons_of_mem _ mem)) (by omega)

/-- Distinct numbers below their count are all of them. -/
theorem perm_range {l : List ℕ} (nodup : l.Nodup) (below : ∀ i ∈ l, i < l.length) :
    l.Perm (List.range l.length) := by
  refine (List.subperm_of_subset nodup fun i mem => ?_).perm_of_length_le ?_
  · exact List.mem_range.mpr (below i mem)
  · rw [List.length_range]

theorem Tracks.mem_of_reads (h : Tracks elems s) {r : SharedRead α} (mem : r ∈ s.reads) :
    r.value ∈ elems :=
  List.mem_of_getElem? (h.reads r mem).2.2

/-- In the end every iteration has had its goroutine, and every goroutine its read. -/
theorem Tracks.length_reads (h : Tracks elems s) (complete : s.Complete) :
    s.reads.length = elems.length := by
  obtain ⟨done, caughtUp, count⟩ := complete
  have all : s.begun = elems.length := by
    have rest := h.todo
    rw [done] at rest
    exact Nat.le_antisymm h.begun_le (List.drop_eq_nil_iff.mp rest.symm)
  rw [count, caughtUp, all]

/-- The goroutines that have read are numbered like the elements. -/
theorem Tracks.goroutines_perm (h : Tracks elems s) (complete : s.Complete) :
    (s.reads.map SharedRead.goroutine).Perm (List.range elems.length) := by
  have perm := perm_range h.nodup fun i mem => by
    obtain ⟨r, there, rfl⟩ := List.mem_map.mp mem
    rw [List.length_map, complete.2.2]
    exact (h.reads r there).1
  rwa [List.length_map, h.length_reads complete] at perm

/-- Where no element is read by two goroutines, no two reads are of one element. -/
theorem Tracks.values_nodup (h : Tracks elems s) (once : ∀ x ∈ elems, ∃! g, s.Reads g x) :
    (s.reads.map SharedRead.value).Nodup := by
  refine (List.Nodup.of_map _ h.nodup).map_on fun r memR r' memR' same => ?_
  have goroutine := (once r.value (h.mem_of_reads memR)).unique ⟨r, memR, rfl, rfl⟩
    ⟨r', memR', rfl, same.symm⟩
  exact List.inj_on_of_nodup_map h.nodup memR memR' goroutine

/-- As many distinct elements as there are: they are the elements, and distinct. -/
theorem Tracks.nodup_of_values (h : Tracks elems s) (complete : s.Complete)
    (values : (s.reads.map SharedRead.value).Nodup) : elems.Nodup := by
  have whole : (s.reads.map SharedRead.value).Perm elems := by
    refine (List.subperm_of_subset values fun x mem => ?_).perm_of_length_le ?_
    · obtain ⟨r, there, rfl⟩ := List.mem_map.mp mem
      exact h.mem_of_reads there
    · rw [List.length_map, h.length_reads complete]
  exact whole.nodup_iff.mp values

/-- Goroutines that have read distinct elements have read in distinct iterations. -/
theorem Tracks.iterations_perm (h : Tracks elems s) (complete : s.Complete)
    (values : (s.reads.map SharedRead.value).Nodup) :
    (s.reads.map SharedRead.iteration).Perm (List.range elems.length) := by
  have iterations : (s.reads.map SharedRead.iteration).Nodup := by
    have map : (s.reads.map SharedRead.iteration).map (fun i => elems[i]?) =
        (s.reads.map SharedRead.value).map some := by
      rw [List.map_map, List.map_map]
      exact List.map_congr_left fun r mem => (h.reads r mem).2.2
    refine List.Nodup.of_map (fun i => elems[i]?) ?_
    rw [map]
    exact values.map (Option.some_injective _)
  have perm := perm_range iterations fun i mem => by
    obtain ⟨r, there, rfl⟩ := List.mem_map.mp mem
    rw [List.length_map, h.length_reads complete]
    exact (List.getElem?_eq_some_iff.mp (h.reads r there).2.2).1
  rwa [List.length_map, h.length_reads complete] at perm

/-- Nobody reads before its own iteration; so if all iterations are read in, everybody
reads in its own. -/
theorem Tracks.inTime_of_values (h : Tracks elems s) (complete : s.Complete)
    (values : (s.reads.map SharedRead.value).Nodup) :
    ∀ r ∈ s.reads, r.iteration = r.goroutine := by
  have perm := (h.goroutines_perm complete).trans (h.iterations_perm complete values).symm
  have agree := eq_of_sum_eq (fun r mem => (h.reads r mem).2.1) perm.sum_eq
  exact fun r mem => (agree r mem).symm

/-- Goroutines that read in their own iterations read one of the distinct elements each. -/
theorem Tracks.eachOnce_of_inTime (h : Tracks elems s) (complete : s.Complete)
    (distinct : elems.Nodup) (inTime : ∀ r ∈ s.reads, r.iteration = r.goroutine) :
    ∀ x ∈ elems, ∃! g, s.Reads g x := by
  intro x mem
  obtain ⟨i, inside, rfl⟩ := List.mem_iff_getElem.mp mem
  have there : i ∈ s.reads.map SharedRead.goroutine :=
    (h.goroutines_perm complete).symm.mem_iff.mp (List.mem_range.mpr inside)
  obtain ⟨r, memR, rfl⟩ := List.mem_map.mp there
  have value : r.value = elems[r.goroutine] := by
    have read := (h.reads r memR).2.2
    rw [inTime r memR, List.getElem?_eq_getElem inside] at read
    exact (Option.some.inj read).symm
  refine ⟨r.goroutine, ⟨r, memR, rfl, value⟩, ?_⟩
  rintro g ⟨r', memR', rfl, value'⟩
  have read := (h.reads r' memR').2.2
  rw [inTime r' memR', value'] at read
  obtain ⟨inside', same⟩ := List.getElem?_eq_some_iff.mp read
  exact (distinct.getElem_inj_iff).mp same

/-- **Every element is read by exactly one goroutine** if and only if the elements are
distinct and every goroutine reads in its own iteration. -/
theorem eachOnce_iff (h : Tracks elems s) (complete : s.Complete) :
    (∀ x ∈ elems, ∃! g, s.Reads g x) ↔
      elems.Nodup ∧ ∀ r ∈ s.reads, r.iteration = r.goroutine := by
  constructor
  · intro once
    have values := h.values_nodup once
    exact ⟨h.nodup_of_values complete values, h.inTime_of_values complete values⟩
  · rintro ⟨distinct, inTime⟩
    exact h.eachOnce_of_inTime complete distinct inTime

end SharedLoop

end PumaDev
