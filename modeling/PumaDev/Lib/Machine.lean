import Mathlib.Data.List.Induction
import Mathlib.Logic.Basic
import Mathlib.Tactic.Common

/-!
# Labelled machines and guarded runs

A concurrent program is presented as a **machine**: an initial state and one
partial step function, whose label names the goroutine that moves and whatever
its environment answers.  An interleaving is then nothing but a list of labels,
and "for every interleaving" is a quantifier over lists.

* `visited` lists the states a schedule passes through, the starting state
  included; a label that is not enabled ends the schedule there.
* `Guarded ok` says that every step a schedule takes satisfies the condition
  `ok` in the state it is taken in.

Two rules carry every safety argument built on top.  `inv_of_guarded` is the
usual induction on the run.  `visited_iff_guarded` is its exact form: when an
unguarded step always leaves the invariant, the runs that stay inside it are
*precisely* the guarded ones.
-/

namespace PumaDev

universe u v

/-- A deterministic labelled machine; `step s i = none` means that the label
`i` is not enabled in `s`. -/
structure Machine (σ : Type u) (ι : Type v) where
  /-- The state a run starts in. -/
  init : σ
  /-- One step; the label carries every choice that is not the state's. -/
  step : σ → ι → Option σ

namespace Machine

variable {σ : Type u} {ι : Type v} (M : Machine σ ι)

/-- The state reached by a schedule all of whose labels are enabled. -/
def exec (s : σ) : List ι → Option σ
  | [] => some s
  | i :: rest => (M.step s i).bind fun t => exec t rest

/-- The states a schedule passes through, up to its first disabled label. -/
def visited (s : σ) : List ι → List σ
  | [] => [s]
  | i :: rest =>
      s :: match M.step s i with
        | none => []
        | some t => visited t rest

/-- Every step of the schedule satisfies `ok` in the state it is taken in. -/
def Guarded (ok : σ → ι → Prop) (s : σ) : List ι → Prop
  | [] => True
  | i :: rest =>
      match M.step s i with
      | none => True
      | some t => ok s i ∧ Guarded ok t rest

@[simp] theorem exec_nil (s : σ) : M.exec s [] = some s := rfl

@[simp] theorem visited_nil (s : σ) : M.visited s [] = [s] := rfl

@[simp] theorem guarded_nil (ok : σ → ι → Prop) (s : σ) : M.Guarded ok s [] :=
  trivial

theorem exec_of_step {s t : σ} {i : ι} (h : M.step s i = some t) (rest : List ι) :
    M.exec s (i :: rest) = M.exec t rest := by
  simp [exec, h]

/-- One schedule after another. -/
theorem exec_append (s : σ) (ls ls' : List ι) :
    M.exec s (ls ++ ls') = (M.exec s ls).bind fun t => M.exec t ls' := by
  induction ls generalizing s with
  | nil => rfl
  | cons i rest ih => simp [exec, ih, Option.bind_assoc]

theorem visited_of_disabled {s : σ} {i : ι} (h : M.step s i = none)
    (rest : List ι) : M.visited s (i :: rest) = [s] := by
  simp [visited, h]

theorem visited_of_step {s t : σ} {i : ι} (h : M.step s i = some t)
    (rest : List ι) : M.visited s (i :: rest) = s :: M.visited t rest := by
  simp [visited, h]

theorem guarded_of_step {ok : σ → ι → Prop} {s t : σ} {i : ι}
    (h : M.step s i = some t) (rest : List ι) :
    M.Guarded ok s (i :: rest) ↔ ok s i ∧ M.Guarded ok t rest := by
  simp [Guarded, h]

instance decidableGuarded (ok : σ → ι → Prop) [∀ s i, Decidable (ok s i)] :
    ∀ (s : σ) (ls : List ι), Decidable (M.Guarded ok s ls)
  | _, [] => .isTrue trivial
  | s, i :: rest =>
      match h : M.step s i with
      | none => .isTrue (by simp [Guarded, h])
      | some t =>
          have := decidableGuarded ok t rest
          decidable_of_iff (ok s i ∧ M.Guarded ok t rest)
            (M.guarded_of_step h rest).symm

/-- A schedule visits its starting state. -/
theorem mem_visited_self (s : σ) (ls : List ι) : s ∈ M.visited s ls := by
  cases ls <;> simp [visited]

/-- A completed schedule visits the state it ends in. -/
theorem mem_visited_of_exec {s t : σ} {ls : List ι}
    (h : M.exec s ls = some t) : t ∈ M.visited s ls := by
  induction ls generalizing s with
  | nil => simpa using h.symm
  | cons i rest ih =>
      obtain ⟨u, hstep, hrest⟩ := Option.bind_eq_some_iff.mp h
      rw [M.visited_of_step hstep]
      exact List.mem_cons_of_mem _ (ih hrest)

/-- What is read off the end of a completed schedule is true of a state it visits. -/
theorem exists_visited_of_map {β : Type*} {f : σ → β} {b : β} {s : σ} {ls : List ι}
    (facts : (M.exec s ls).map f = some b) : ∃ t ∈ M.visited s ls, f t = b := by
  obtain ⟨t, reached, found⟩ := Option.map_eq_some_iff.mp facts
  exact ⟨t, M.mem_visited_of_exec reached, found⟩

/-- **Induction on a completed run**, with the labels so far in hand: what one more
step preserves, of the history and the state together, holds when the schedule is
through. -/
theorem exec_induction {P : List ι → σ → Prop} {s : σ} (start : P [] s)
    (preserved : ∀ past u i t, P past u → M.step u i = some t → P (past ++ [i]) t)
    {ls : List ι} {t : σ} (run : M.exec s ls = some t) : P ls t := by
  induction ls using List.reverseRecOn generalizing t with
  | nil =>
      cases run
      exact start
  | append_singleton ls i ih =>
      rw [exec_append] at run
      obtain ⟨u, reached, last⟩ := Option.bind_eq_some_iff.mp run
      have step : M.step u i = some t := by simpa [exec] using last
      exact preserved ls u i t (ih reached) step

/-- Where every label is enabled, every schedule is carried out. -/
theorem isSome_exec (enabled : ∀ s i, (M.step s i).isSome) (ls : List ι) (s : σ) :
    (M.exec s ls).isSome := by
  induction ls generalizing s with
  | nil => rfl
  | cons i rest ih =>
      obtain ⟨t, hstep⟩ := Option.isSome_iff_exists.mp (enabled s i)
      rw [M.exec_of_step hstep]
      exact ih t

/-! ## The two run rules -/

/-- **Guarded invariance.**  A property of the starting state that every
guarded step preserves holds in every state a guarded schedule visits. -/
theorem inv_of_guarded {ok : σ → ι → Prop} {P : σ → Prop}
    (preserved : ∀ s i t, P s → ok s i → M.step s i = some t → P t) :
    ∀ {s : σ} (ls : List ι), P s → M.Guarded ok s ls →
      ∀ t ∈ M.visited s ls, P t := by
  intro s ls
  induction ls generalizing s with
  | nil =>
      intro start _ t mem
      rw [visited_nil, List.mem_singleton] at mem
      exact mem ▸ start
  | cons i rest ih =>
      intro start guarded t mem
      cases hstep : M.step s i with
      | none =>
          rw [M.visited_of_disabled hstep, List.mem_singleton] at mem
          exact mem ▸ start
      | some u =>
          rw [M.guarded_of_step hstep] at guarded
          rw [M.visited_of_step hstep] at mem
          rcases List.mem_cons.mp mem with rfl | later
          · exact start
          · exact ih (preserved s i u start guarded.1 hstep) guarded.2 t later

/-- A guarded schedule satisfies the condition at each of its steps. -/
theorem ok_of_guarded {ok : σ → ι → Prop} {s t u : σ} {ls rest : List ι} {i : ι}
    (guarded : M.Guarded ok s (ls ++ i :: rest)) (reached : M.exec s ls = some t)
    (hstep : M.step t i = some u) : ok t i := by
  induction ls generalizing s with
  | nil =>
      cases reached
      exact ((M.guarded_of_step hstep rest).mp guarded).1
  | cons j ls ih =>
      obtain ⟨v, first, later⟩ := Option.bind_eq_some_iff.mp reached
      rw [List.cons_append, M.guarded_of_step first] at guarded
      exact ih guarded.2 later

/-- A condition that all labels satisfy in all states guards every schedule. -/
theorem guarded_of_forall {ok : σ → ι → Prop} {ls : List ι}
    (always : ∀ i ∈ ls, ∀ s, ok s i) (s : σ) : M.Guarded ok s ls := by
  induction ls generalizing s with
  | nil => trivial
  | cons i rest ih =>
      obtain ⟨head, tail⟩ := List.forall_mem_cons.mp always
      cases hstep : M.step s i with
      | none => simp [Guarded, hstep]
      | some u => exact (M.guarded_of_step hstep rest).mpr ⟨head s, ih tail u⟩

/-- **Invariance**, the unguarded case: a property every step preserves holds
in every state of every schedule. -/
theorem inv_of_step {P : σ → Prop}
    (preserved : ∀ s i t, P s → M.step s i = some t → P t)
    {s : σ} (ls : List ι) (start : P s) : ∀ t ∈ M.visited s ls, P t := by
  have unguarded : M.Guarded (fun _ _ => True) s ls :=
    M.guarded_of_forall (fun _ _ _ => trivial) s
  exact M.inv_of_guarded (fun s i t hs _ hstep => preserved s i t hs hstep)
    ls start unguarded

/-- **One condition for another.**  A condition that follows from another one on every step
out of a state that satisfies an invariant guards the schedules that the other one does. -/
theorem guarded_mono {ok ok' : σ → ι → Prop} {J : σ → Prop}
    (always : ∀ s i t, J s → M.step s i = some t → J t)
    (follows : ∀ s i t, J s → ok s i → M.step s i = some t → ok' s i) {s : σ} (ls : List ι)
    (start : J s) (guarded : M.Guarded ok s ls) : M.Guarded ok' s ls := by
  induction ls generalizing s with
  | nil => trivial
  | cons i rest ih =>
      cases hstep : M.step s i with
      | none => simp [Guarded, hstep]
      | some t =>
          rw [M.guarded_of_step hstep] at guarded ⊢
          exact ⟨follows s i t start guarded.1 hstep, ih (always s i t start hstep) guarded.2⟩

/-- **Two conditions for one run.**  Conditions that agree on every step out of a state
that satisfies an invariant guard the same schedules. -/
theorem guarded_congr {ok ok' : σ → ι → Prop} {J : σ → Prop}
    (always : ∀ s i t, J s → M.step s i = some t → J t)
    (agree : ∀ s i t, J s → M.step s i = some t → (ok s i ↔ ok' s i)) {s : σ} (ls : List ι)
    (start : J s) : M.Guarded ok s ls ↔ M.Guarded ok' s ls :=
  ⟨M.guarded_mono always (fun s i t inv holds h => (agree s i t inv h).mp holds) ls start,
    M.guarded_mono always (fun s i t inv holds h => (agree s i t inv h).mpr holds) ls start⟩

/-- **The exact rule**, for the schedules of some of the labels.  Let `J` be an
invariant of these schedules.  If, from a state satisfying `J` and `P`, a step keeps
`P` exactly when it satisfies `ok`, then a schedule stays inside `P` exactly when it
is guarded by `ok`. -/
theorem visited_iff_guarded_of_labels {allowed : ι → Prop} {ok : σ → ι → Prop}
    {J P : σ → Prop}
    (always : ∀ s i t, allowed i → J s → M.step s i = some t → J t)
    (exact_step : ∀ s i t, allowed i → J s → P s → M.step s i = some t →
      (P t ↔ ok s i)) :
    ∀ {s : σ} (ls : List ι), (∀ i ∈ ls, allowed i) → J s → P s →
      ((∀ t ∈ M.visited s ls, P t) ↔ M.Guarded ok s ls) := by
  intro s ls
  induction ls generalizing s with
  | nil =>
      intro _ _ start
      simpa using start
  | cons i rest ih =>
      intro labels inv start
      obtain ⟨head, tail⟩ := List.forall_mem_cons.mp labels
      cases hstep : M.step s i with
      | none => simp [M.visited_of_disabled hstep, Guarded, hstep, start]
      | some u =>
          rw [M.visited_of_step hstep, M.guarded_of_step hstep]
          have split := exact_step s i u head inv start hstep
          have invNext := always s i u head inv hstep
          constructor
          · intro stays
            have next : P u :=
              stays u (List.mem_cons_of_mem _ (M.mem_visited_self u rest))
            exact ⟨split.mp next, (ih tail invNext next).mp fun t mem =>
              stays t (List.mem_cons_of_mem _ mem)⟩
          · rintro ⟨okStep, guarded⟩ t mem
            have next : P u := split.mpr okStep
            rcases List.mem_cons.mp mem with rfl | later
            · exact start
            · exact (ih tail invNext next).mpr guarded t later

/-- **The exact rule**, for all schedules. -/
theorem visited_iff_guarded {ok : σ → ι → Prop} {J P : σ → Prop}
    (always : ∀ s i t, J s → M.step s i = some t → J t)
    (exact_step : ∀ s i t, J s → P s → M.step s i = some t → (P t ↔ ok s i))
    {s : σ} (ls : List ι) :
    J s → P s → ((∀ t ∈ M.visited s ls, P t) ↔ M.Guarded ok s ls) :=
  have unrestricted : ∀ i ∈ ls, (fun _ : ι => True) i := fun _ _ => trivial
  M.visited_iff_guarded_of_labels (fun s i t _ => always s i t)
    (fun s i t _ => exact_step s i t) ls unrestricted

end Machine

end PumaDev
