import Mathlib.Data.List.Induction
import Mathlib.Tactic.Common

/-!
# Calls and their answers

Something with a state is called again and again; a call leads to a new state and may be
answered.  Two of them give the same answers if one is a **view** of the other: what the answers
depend on is the view, and not all of the state.

* A call that leaves the view alone can be left out of a sequence of calls, and no later answer
  changes (`View.answers_of_silent`), whatever it has done to the state.
* Where every call sets a property of the state, clears it or keeps it, the property holds
  exactly when it was set last (`lastSets_iff`).
-/

namespace PumaDev

universe u v w x

/-- Something that can be called: a call leads to a state, and may be answered. -/
structure Responder (σ : Type u) (ι : Type v) (ο : Type w) where
  init : σ
  call : σ → ι → σ × Option ο

namespace Responder

variable {σ : Type u} {ι : Type v} {ο : Type w} {τ : Type x}

/-- The state after some calls. -/
def after (R : Responder σ ι ο) (s : σ) (calls : List ι) : σ :=
  calls.foldl (fun s i => (R.call s i).1) s

/-- The answers to some calls. -/
def answers (R : Responder σ ι ο) (s : σ) : List ι → List ο
  | [] => []
  | i :: later => (R.call s i).2.toList ++ answers R (R.call s i).1 later

@[simp] theorem after_nil (R : Responder σ ι ο) (s : σ) : R.after s [] = s := rfl

@[simp] theorem after_cons (R : Responder σ ι ο) (s : σ) (i : ι) (later : List ι) :
    R.after s (i :: later) = R.after (R.call s i).1 later := rfl

@[simp] theorem after_append (R : Responder σ ι ο) (s : σ) (before later : List ι) :
    R.after s (before ++ later) = R.after (R.after s before) later := List.foldl_append

@[simp] theorem answers_nil (R : Responder σ ι ο) (s : σ) : R.answers s [] = [] := rfl

theorem answers_cons (R : Responder σ ι ο) (s : σ) (i : ι) (later : List ι) :
    R.answers s (i :: later) =
      (R.call s i).2.toList ++ R.answers (R.call s i).1 later := rfl

theorem answers_append (R : Responder σ ι ο) (s : σ) (before later : List ι) :
    R.answers s (before ++ later) =
      R.answers s before ++ R.answers (R.after s before) later := by
  induction before generalizing s with
  | nil => rfl
  | cons i before ih =>
      rw [List.cons_append, answers_cons, answers_cons, ih, List.append_assoc, after_cons]

/-! ## Views -/

/-- Seen through `view`, the calls of `R` are those of `A`, with the same answers. -/
structure View (R : Responder σ ι ο) (A : Responder τ ι ο) (view : σ → τ) : Prop where
  init : view R.init = A.init
  call : ∀ s i, A.call (view s) i = (view (R.call s i).1, (R.call s i).2)

variable {R : Responder σ ι ο} {A : Responder τ ι ο} {view : σ → τ}

/-- The view of the state after some calls. -/
theorem View.after (seen : View R A view) (s : σ) (calls : List ι) :
    view (R.after s calls) = A.after (view s) calls := by
  induction calls generalizing s with
  | nil => rfl
  | cons i later ih => rw [after_cons, after_cons, seen.call, ih]

/-- **The answers are those of the view.** -/
theorem View.answers (seen : View R A view) (s : σ) (calls : List ι) :
    R.answers s calls = A.answers (view s) calls := by
  induction calls generalizing s with
  | nil => rfl
  | cons i later ih => rw [answers_cons, answers_cons, seen.call, ih]

/-- The call leaves every state as it is. -/
def Silent (A : Responder τ ι ο) (i : ι) : Prop := ∀ s, (A.call s i).1 = s

/-- Silent calls lead nowhere. -/
theorem after_of_silent {calls : List ι} (silent : ∀ i ∈ calls, A.Silent i) (s : τ) :
    A.after s calls = s := by
  induction calls with
  | nil => rfl
  | cons i later ih =>
      rw [after_cons, silent i List.mem_cons_self]
      exact ih fun j mem => silent j (List.mem_cons_of_mem _ mem)

/-- **A call that is silent in the view** changes no later answer. -/
theorem View.answers_of_silent (seen : View R A view) {i : ι} (silent : A.Silent i) (s : σ)
    (before later : List ι) :
    R.answers s (before ++ i :: later) = R.answers s before ++
      ((R.call (R.after s before) i).2.toList ++ R.answers (R.after s before) later) := by
  have same : view (R.call (R.after s before) i).1 = view (R.after s before) := by
    have kept := silent (view (R.after s before))
    rw [seen.call] at kept
    exact kept
  rw [answers_append, answers_cons, seen.answers (R.call (R.after s before) i).1, same,
    ← seen.answers]

/-! ## What was done last -/

/-- One of the calls sets, and none behind it clears. -/
def LastSets (sets clears : ι → Prop) (calls : List ι) : Prop :=
  ∃ before i later, calls = before ++ i :: later ∧ sets i ∧ ∀ j ∈ later, ¬ clears j

variable {sets clears : ι → Prop}

theorem not_lastSets_nil : ¬ LastSets sets clears [] := by
  rintro ⟨before, i, later, split, -⟩
  cases before <;> cases split

/-- One more call. -/
theorem lastSets_append_singleton {calls : List ι} {i : ι} :
    LastSets sets clears (calls ++ [i]) ↔
      sets i ∨ ¬ clears i ∧ LastSets sets clears calls := by
  constructor
  · rintro ⟨before, j, later, split, here, kept⟩
    rcases List.eq_nil_or_concat later with rfl | ⟨later, k, rfl⟩
    · obtain ⟨-, last⟩ := List.append_inj' split rfl
      cases last
      exact Or.inl here
    · rw [List.concat_eq_append] at split kept
      rw [← List.cons_append, ← List.append_assoc] at split
      obtain ⟨rfl, last⟩ := List.append_inj' split rfl
      cases last
      exact Or.inr ⟨kept i (List.mem_append_right _ List.mem_cons_self),
        before, j, later, rfl, here, fun l mem => kept l (List.mem_append_left _ mem)⟩
  · rintro (here | ⟨keeps, before, j, later, rfl, here, kept⟩)
    · exact ⟨calls, i, [], rfl, here, fun j mem => absurd mem List.not_mem_nil⟩
    · refine ⟨before, j, later ++ [i], by rw [List.append_assoc, List.cons_append], here, ?_⟩
      intro l mem
      rcases List.mem_append.mp mem with old | new
      · exact kept l old
      · rw [List.mem_singleton.mp new]
        exact keeps

/-- **What was done last decides**: if every call sets the property, or clears it or keeps it,
it holds after some calls exactly when it was set last. -/
theorem lastSets_iff {P : τ → Prop} (start : ¬ P A.init)
    (call : ∀ s i, P (A.call s i).1 ↔ sets i ∨ ¬ clears i ∧ P s) (calls : List ι) :
    P (A.after A.init calls) ↔ LastSets sets clears calls := by
  induction calls using List.reverseRecOn with
  | nil => exact iff_of_false start not_lastSets_nil
  | append_singleton calls i ih =>
      rw [after_append, after_cons, after_nil, call, ih, lastSets_append_singleton]

end Responder

end PumaDev
