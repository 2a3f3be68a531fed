import Mathlib.Data.List.Basic
import Mathlib.Tactic.Common

/-!
# Asking in turn

Something with a state is asked for one thing after another, until it gives an answer
that is not to be passed over.  `Passed` says that all of a list was passed over, and
`InTurn` what going through a list comes to: an answer, after some of the list was
passed over and before the rest is asked for, or the end of the list.

A log of the questions (`logged`) does not change the answers, so a statement about the
log is one about what the caller asks.
-/

namespace PumaDev

variable {σ α β : Type}

/-- The same, with a log of what was asked for. -/
def logged (ask : σ → α → σ × β) (s : σ × List α) (a : α) : (σ × List α) × β :=
  (((ask s.1 a).1, s.2 ++ [a]), (ask s.1 a).2)

@[simp] theorem logged_apply (ask : σ → α → σ × β) (s : σ) (log : List α) (a : α) :
    logged ask (s, log) a = (((ask s a).1, log ++ [a]), (ask s a).2) := rfl

/-- Every question of the list was asked, and every answer passed over. -/
def Passed (ask : σ → α → σ × β) (pass : β → Prop) : σ → List α → σ → Prop
  | s, [], s' => s' = s
  | s, a :: rest, s' => pass (ask s a).2 ∧ Passed ask pass (ask s a).1 rest s'

/-- Going through a list of questions, from a state: what was asked for, the state
after it, and the answer, if one was not passed over. -/
inductive InTurn (ask : σ → α → σ × β) (pass : β → Prop) (s : σ) (questions : List α) :
    List α → σ → Option β → Prop
  | answered (tried : List α) (last : α) (later : List α) (s' : σ)
      (split : questions = tried ++ last :: later) (passed : Passed ask pass s tried s')
      (answer : ¬ pass (ask s' last).2) :
      InTurn ask pass s questions (tried ++ [last]) (ask s' last).1 (some (ask s' last).2)
  | exhausted (s' : σ) (passed : Passed ask pass s questions s') :
      InTurn ask pass s questions questions s' none

variable {ask : σ → α → σ × β} {pass : β → Prop} {s s' : σ} {a : α} {rest asked : List α}
  {answer : Option β}

namespace Passed

/-- The state at the end is determined. -/
theorem unique {questions : List α} {s₁ s₂ : σ} (h₁ : Passed ask pass s questions s₁)
    (h₂ : Passed ask pass s questions s₂) : s₁ = s₂ := by
  induction questions generalizing s with
  | nil => exact h₁.trans h₂.symm
  | cons a rest ih => exact ih h₁.2 h₂.2

/-- Nothing in the middle of the list is answered. -/
theorem pass_of_append {before after : List α} {s₁ : σ}
    (all : Passed ask pass s (before ++ a :: after) s') (front : Passed ask pass s before s₁) :
    pass (ask s₁ a).2 := by
  induction before generalizing s with
  | nil =>
      rw [show s₁ = s from front]
      exact all.1
  | cons b before ih => exact ih all.2 front.2

end Passed

namespace InTurn

/-- The first question is answered. -/
theorem head (answers : ¬ pass (ask s a).2) :
    InTurn ask pass s (a :: rest) [a] (ask s a).1 (some (ask s a).2) :=
  .answered [] a rest s rfl rfl answers

/-- The first question is passed over. -/
theorem tail (passed : pass (ask s a).2) (h : InTurn ask pass (ask s a).1 rest asked s' answer) :
    InTurn ask pass s (a :: rest) (a :: asked) s' answer := by
  cases h with
  | answered tried last later s₁ split front answers =>
      exact .answered (a :: tried) last later s₁ (by rw [split]; rfl) ⟨passed, front⟩ answers
  | exhausted _ all => exact .exhausted s' ⟨passed, all⟩

/-- No more is asked for than there is. -/
theorem isPrefix {questions : List α} (h : InTurn ask pass s questions asked s' answer) :
    asked <+: questions := by
  cases h with
  | answered tried last later s₁ split => exact ⟨later, by simp [split]⟩
  | exhausted => exact List.prefix_rfl

/-- **There is no answer exactly when all of the list is passed over.** -/
theorem eq_none_iff {questions : List α} (h : InTurn ask pass s questions asked s' answer) :
    answer = none ↔ ∃ s₁, Passed ask pass s questions s₁ := by
  cases h with
  | answered tried last later s₁ split front answers =>
      refine iff_of_false (by simp) ?_
      rintro ⟨s₂, all⟩
      rw [split] at all
      exact answers (all.pass_of_append front)
  | exhausted _ all => exact iff_of_true rfl ⟨s', all⟩

end InTurn

end PumaDev
