import PumaDev.Lib.Machine

/-!
# Getting somewhere

A natural number that gets smaller says two things about the runs of a machine.

* `reaches`: where something can always be done that makes it smaller, until the aim is
  reached, there is a schedule that reaches the aim.  Nothing is said about the other
  schedules: the rule is about what a program *can* still do, so it excludes a deadlock.
* `countP_le`: where the labels of one kind make it smaller and the others leave it as it is,
  no schedule has more labels of the kind than the number allows, however the others are
  mixed in.
-/

namespace PumaDev

namespace Machine

universe u v

variable {σ : Type u} {ι : Type v} (M : Machine σ ι)

/-- **The aim can be reached**, by steps that satisfy `ok`. -/
theorem reaches {J : σ → Prop} (aim : σ → Prop) (ok : σ → ι → Prop) (left : σ → ℕ)
    (goes : ∀ s, J s → ¬ aim s → ∃ i t, M.step s i = some t ∧ ok s i ∧ J t ∧ left t < left s)
    {s : σ} (inv : J s) : ∃ ls t, M.exec s ls = some t ∧ M.Guarded ok s ls ∧ J t ∧ aim t := by
  induction n : left s using Nat.strongRecOn generalizing s with
  | _ n ih =>
      by_cases there : aim s
      · exact ⟨[], s, rfl, trivial, inv, there⟩
      · obtain ⟨i, t, step, good, inv', fewer⟩ := goes s inv there
        obtain ⟨ls, u, rest, guarded, inv'', reached⟩ := ih _ (n ▸ fewer) inv' rfl
        exact ⟨i :: ls, u, (M.exec_of_step step ls).trans rest,
          (M.guarded_of_step step ls).mpr ⟨good, guarded⟩, inv'', reached⟩

/-- **No more than the number allows**, in a schedule whose steps satisfy `ok`. -/
theorem countP_le {J : σ → Prop} {ok : σ → ι → Prop} (counted : ι → Bool) (left : σ → ℕ)
    (goes : ∀ s i t, J s → ok s i → M.step s i = some t →
      J t ∧ left t + (if counted i then 1 else 0) ≤ left s)
    {s t : σ} {ls : List ι} (inv : J s) (guarded : M.Guarded ok s ls)
    (run : M.exec s ls = some t) : ls.countP counted + left t ≤ left s := by
  induction ls generalizing s with
  | nil =>
      cases run
      simp
  | cons i rest ih =>
      obtain ⟨u, step, later⟩ := Option.bind_eq_some_iff.mp run
      obtain ⟨here, after⟩ := (M.guarded_of_step step rest).mp guarded
      obtain ⟨inv', one⟩ := goes s i u inv here step
      have more := ih inv' after later
      rw [List.countP_cons]
      omega

end Machine

end PumaDev
