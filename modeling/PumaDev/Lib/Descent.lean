import Mathlib.Data.List.Basic
import Mathlib.Data.List.Infix
import Mathlib.Tactic.Common

/-!
# Lexical path cleaning as a monoid of descents

Cleaning a path lexically never looks at a file system: it reads the components
from left to right and keeps a stack.  The result of reading any sequence of
components from an unknown place is a **descent**: climb `ups` levels, then
walk down `down`.  Descents compose (`Descent.comp`), reading a longer sequence
is composing the descents of its parts (`descend_append`), and so the question
"does this sequence, read below a directory `d`, stay strictly below `d`?" has
an answer that looks at the sequence's own descent and the tail of `d` only
(`properPrefix_comp_iff`).

Components are of an arbitrary type; which texts mean *stay*, *up* and *into*
is the caller's business.
-/

namespace PumaDev

universe u

/-- One component of a path, as lexical cleaning reads it. -/
inductive Move (α : Type u) where
  /-- Remain where we are (an empty component, or a single dot). -/
  | stay
  /-- Climb to the parent. -/
  | up
  /-- Enter the child `a`. -/
  | into (a : α)
  deriving DecidableEq

/-- Climb `ups` levels, then walk down `down`. -/
@[ext] structure Descent (α : Type u) where
  /-- How many levels above the starting point the walk climbs. -/
  ups : ℕ
  /-- The components entered after the climb. -/
  down : List α
  deriving DecidableEq

/-- `l` is a prefix of `m`, and not all of it. -/
def ProperPrefix {α : Type u} (l m : List α) : Prop := l <+: m ∧ l ≠ m

instance {α : Type u} [DecidableEq α] (l m : List α) :
    Decidable (ProperPrefix l m) :=
  inferInstanceAs (Decidable (l <+: m ∧ l ≠ m))

namespace Descent

variable {α : Type u}

/-- The descent that goes nowhere. -/
def here : Descent α := ⟨0, []⟩

/-- Read one more component. -/
def read : Descent α → Move α → Descent α
  | d, .stay => d
  | ⟨n, []⟩, .up => ⟨n + 1, []⟩
  | ⟨n, a :: rest⟩, .up => ⟨n, (a :: rest).dropLast⟩
  | ⟨n, down⟩, .into a => ⟨n, down ++ [a]⟩

/-- First `d`, then `e`: the levels `e` climbs are taken off the end of `d`'s
walk, and what is left of the climb goes on above. -/
def comp (d e : Descent α) : Descent α :=
  ⟨d.ups + (e.ups - d.down.length),
    d.down.take (d.down.length - e.ups) ++ e.down⟩

@[simp] theorem comp_here (d : Descent α) : d.comp here = d := by
  simp [comp, here]

@[simp] theorem read_into (d : Descent α) (a : α) :
    d.read (.into a) = ⟨d.ups, d.down ++ [a]⟩ := rfl

theorem read_up (d : Descent α) :
    d.read .up = if d.down = [] then ⟨d.ups + 1, []⟩ else ⟨d.ups, d.down.dropLast⟩ := by
  rcases d with ⟨n, _ | ⟨a, rest⟩⟩ <;> simp [read]

/-- Reading a component after `e` is reading it after `d` and then `e`. -/
theorem read_comp (d e : Descent α) (m : Move α) :
    (d.comp e).read m = d.comp (e.read m) := by
  cases m with
  | stay => rfl
  | into a => simp [comp]
  | up =>
      rw [read_up, read_up]
      rcases hdown : e.down with _ | ⟨a, rest⟩
      · -- `e` ends at the top of its climb, so the new level is taken off `d`
        by_cases exhausted : d.down.length ≤ e.ups
        · have empty : (d.comp e).down = [] := by
            simp [comp, hdown, Nat.sub_eq_zero_of_le exhausted]
          rw [if_pos empty, if_pos rfl]
          ext1 <;> simp only [comp]
          · omega
          · simp [Nat.sub_eq_zero_of_le (Nat.le_succ_of_le exhausted)]
        · have shorter : d.down.length - e.ups ≠ 0 := by omega
          have nonempty : (d.comp e).down ≠ [] := by
            simp only [comp, hdown, List.append_nil, ne_eq, List.take_eq_nil_iff]
            rintro (zero | nil)
            · exact shorter zero
            · simp [nil] at shorter
          rw [if_neg nonempty, if_pos rfl]
          ext1
          · simp only [comp]
            omega
          · simp only [comp, hdown, List.append_nil]
            rw [List.dropLast_eq_take, List.take_take, List.length_take]
            congr 1
            omega
      · have nonempty : (d.comp e).down ≠ [] := by simp [comp, hdown]
        rw [if_neg nonempty, if_neg (by simp)]
        ext1
        · rfl
        · simp [comp, hdown, List.dropLast_append_of_ne_nil]

/-- The descent of a sequence of components. -/
def descend (ms : List (Move α)) : Descent α := ms.foldl read here

@[simp] theorem descend_nil : descend ([] : List (Move α)) = here := rfl

/-- Reading a sequence from a place already reached composes with it. -/
theorem foldl_read (d : Descent α) (ms : List (Move α)) :
    ms.foldl read d = d.comp (descend ms) := by
  induction ms using List.reverseRecOn with
  | nil => simp
  | append_singleton ms m ih =>
      rw [List.foldl_append, ih]
      have whole : descend (ms ++ [m]) = (descend ms).read m := by
        simp [descend]
      rw [whole]
      exact read_comp d (descend ms) m

/-- **Reading a longer sequence is composing descents.** -/
theorem descend_append (ms ns : List (Move α)) :
    descend (ms ++ ns) = (descend ms).comp (descend ns) := by
  rw [descend, List.foldl_append]
  exact foldl_read _ ns

/-- A sequence of plain entries is its own walk. -/
@[simp] theorem descend_into (as : List α) :
    descend (as.map Move.into) = ⟨0, as⟩ := by
  induction as using List.reverseRecOn with
  | nil => rfl
  | append_singleton as a ih =>
      rw [List.map_append, descend_append, ih]
      simp [descend, here, comp]

/-- The components a sequence ends up entering are among those it reads. -/
theorem mem_of_mem_down {ms : List (Move α)} {a : α}
    (h : a ∈ (descend ms).down) : Move.into a ∈ ms := by
  induction ms using List.reverseRecOn with
  | nil => simp [here] at h
  | append_singleton ms m ih =>
      rw [descend, List.foldl_append] at h
      change a ∈ ((descend ms).read m).down at h
      cases m with
      | stay => exact List.mem_append_left _ (ih h)
      | up =>
          rw [read_up] at h
          split at h
          · simp at h
          · exact List.mem_append_left _ (ih (List.dropLast_subset _ h))
      | into b =>
          rw [read_into, List.mem_append, List.mem_singleton] at h
          rcases h with earlier | rfl
          · exact List.mem_append_left _ (ih earlier)
          · simp

/-- **Staying strictly below.**  Going on from `d` by `e` ends strictly below
`d` exactly when the tail of `d` that `e` climbs over is a proper prefix of
what `e` walks down again. -/
theorem properPrefix_comp_iff (d e : Descent α) :
    ProperPrefix d.down (d.comp e).down ↔
      ProperPrefix (d.down.drop (d.down.length - e.ups)) e.down := by
  have split : d.down = d.down.take (d.down.length - e.ups) ++
      d.down.drop (d.down.length - e.ups) := (List.take_append_drop _ _).symm
  generalize hk : d.down.length - e.ups = k at split ⊢
  have value : (d.comp e).down = d.down.take k ++ e.down := by
    simp [comp, hk]
  rw [value]
  generalize d.down.take k = front at split ⊢
  generalize d.down.drop k = back at split ⊢
  rw [split]
  simp only [ProperPrefix, List.prefix_append_right_inj, ne_eq,
    List.append_cancel_left_eq]

end Descent

end PumaDev
