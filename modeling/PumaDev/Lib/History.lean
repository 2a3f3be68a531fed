import Mathlib.Data.List.Chain
import Mathlib.Data.List.DropRight
import Mathlib.Data.List.Infix
import Mathlib.Tactic.Common

/-!
# Bounded histories

A bounded history forgets its oldest entry when a new one does not fit.  After
any run it holds the last entries of everything it was given
(`foldl_push`), so a question about a circular buffer becomes one about the end
segment `List.rtake` of a list.

Where several kinds of entries share one history, an entry of one kind is
forgotten on behalf of another.  `filterMap_rtake_eq_iff` says when a kind is kept
as if it had a history of its own: exactly when the shared one holds as many of
it as that would.
-/

namespace PumaDev

universe u v

namespace History

variable {α : Type u} {β : Type v}

/-- A history of at most `n` entries takes one more. -/
def push (n : ℕ) (held : List α) (x : α) : List α := (held ++ [x]).rtake n

@[simp] theorem length_rtake (l : List α) (n : ℕ) : (l.rtake n).length = min n l.length := by
  rw [List.rtake, List.length_drop]
  omega

theorem rtake_eq_self {l : List α} {n : ℕ} (fits : l.length ≤ n) : l.rtake n = l := by
  rw [List.rtake, Nat.sub_eq_zero_of_le fits, List.drop_zero]

theorem rtake_suffix (l : List α) (n : ℕ) : l.rtake n <:+ l := List.drop_suffix _ l

/-- What a history has forgotten before makes no difference to what it holds
after the next entry. -/
theorem push_rtake (n : ℕ) (l : List α) (x : α) : push n (l.rtake n) x = (l ++ [x]).rtake n := by
  cases n with
  | zero => simp [push]
  | succ n =>
      rw [push, List.rtake_concat_succ, List.rtake_concat_succ]
      simp [List.rtake_eq_reverse_take_reverse, List.take_take]

/-- **A history holds the last entries of what it was given.** -/
theorem foldl_push (n : ℕ) (xs : List α) : xs.foldl (push n) [] = xs.rtake n := by
  induction xs using List.reverseRecOn with
  | nil => simp
  | append_singleton xs x ih =>
      rw [List.foldl_append, ih]
      exact push_rtake n xs x

theorem rtake_map (f : α → β) (l : List α) (n : ℕ) :
    (l.map f).rtake n = (l.rtake n).map f := by
  rw [List.rtake, List.rtake, List.length_map, List.map_drop]

/-- What a history holds of one kind is an end of that kind's own sequence. -/
theorem filterMap_rtake_suffix (f : α → Option β) (l : List α) (n : ℕ) :
    (l.rtake n).filterMap f <:+ l.filterMap f :=
  (rtake_suffix l n).filterMap f

/-- **When a kind is kept as if it had a history of its own**: exactly when the
shared one holds as many of it as that would. -/
theorem filterMap_rtake_eq_iff (f : α → Option β) (l : List α) (n m : ℕ) :
    (l.rtake n).filterMap f = (l.filterMap f).rtake m ↔
      ((l.rtake n).filterMap f).length = min m (l.filterMap f).length := by
  constructor
  · intro same
    rw [same, length_rtake]
  · intro count
    refine (List.suffix_of_suffix_length_le (filterMap_rtake_suffix f l n)
      (rtake_suffix (l.filterMap f) m) ?_).eq_of_length ?_
    · rw [length_rtake, count]
    · rw [length_rtake, count]

/-- Of entries that never come twice in a row there is at most every other one. -/
theorem two_mul_countP_le {p : α → Bool} :
    ∀ {l : List α}, (l.IsChain fun a b => ¬ (p a = true ∧ p b = true)) →
      2 * l.countP p ≤ l.length + 1
  | [], _ => by simp
  | [a], _ => by
      have one : [a].countP p ≤ [a].length := List.countP_le_length
      rw [List.length_singleton] at one ⊢
      omega
  | a :: b :: rest, apart => by
      obtain ⟨here, later⟩ := List.isChain_cons_cons.mp apart
      by_cases head : p a = true
      · have next : ¬ p b = true := fun both => here ⟨head, both⟩
        have ih := two_mul_countP_le (l := rest) later.tail
        rw [List.countP_cons_of_pos head, List.countP_cons_of_neg next, List.length_cons,
          List.length_cons]
        omega
      · have ih := two_mul_countP_le later
        rw [List.countP_cons_of_neg head, List.length_cons]
        omega

/-- No entry of a kind comes before its first. -/
theorem countP_dropWhile_not (p : α → Bool) (l : List α) :
    (l.dropWhile fun a => !p a).countP p = l.countP p := by
  have before : (l.takeWhile fun a => !p a).countP p = 0 := by
    refine List.countP_eq_zero.mpr fun a mem => ?_
    simpa using List.mem_takeWhile_imp mem
  calc (l.dropWhile fun a => !p a).countP p
      = (l.takeWhile fun a => !p a).countP p + (l.dropWhile fun a => !p a).countP p := by
        rw [before, Nat.zero_add]
    _ = l.countP p := by rw [← List.countP_append, List.takeWhile_append_dropWhile]

/-- A history that has forgotten the first entry of a kind holds fewer of it than there
were. -/
theorem countP_rtake_lt {p : α → Bool} {l : List α} {n : ℕ}
    (long : n < (l.dropWhile fun a => !p a).length) : (l.rtake n).countP p < l.countP p := by
  obtain ⟨a, rest, first⟩ : ∃ a rest, (l.dropWhile fun a => !p a) = a :: rest :=
    List.exists_cons_of_length_pos (by omega)
  have head : p a = true := by
    have drops := List.head?_dropWhile_not (fun a => !p a) l
    rw [first] at drops
    simpa using drops
  have ends : a :: rest <:+ l := first ▸ List.dropWhile_suffix _
  rw [first, List.length_cons] at long
  have later : l.rtake n <:+ rest := by
    refine List.suffix_of_suffix_length_le (rtake_suffix l n)
      ((List.suffix_cons a rest).trans ends) ?_
    rw [length_rtake]
    omega
  calc (l.rtake n).countP p
      ≤ rest.countP p := later.sublist.countP_le
    _ < (a :: rest).countP p := by
        rw [List.countP_cons_of_pos head]
        exact Nat.lt_succ_self _
    _ = l.countP p := by rw [← first, countP_dropWhile_not]

/-- A history that still has the first entry of a kind has all of it. -/
theorem countP_rtake_of_fits {p : α → Bool} {l : List α} {n : ℕ}
    (fits : (l.dropWhile fun a => !p a).length ≤ n) : (l.rtake n).countP p = l.countP p := by
  have ends : (l.dropWhile fun a => !p a) <:+ l := List.dropWhile_suffix _
  have kept : (l.dropWhile fun a => !p a) <:+ l.rtake n := by
    refine List.suffix_of_suffix_length_le ends (rtake_suffix l n) ?_
    rw [length_rtake]
    exact Nat.le_min.mpr ⟨fits, ends.length_le⟩
  refine Nat.le_antisymm (rtake_suffix l n).sublist.countP_le ?_
  rw [← countP_dropWhile_not p l]
  exact kept.sublist.countP_le

/-- **A kind that never comes twice in a row** is kept as if it had a history of its
own exactly when everything from its first entry on fits.  A full history of at
least two entries cannot hold that kind alone, so it falls short as soon as one
entry of it is forgotten. -/
theorem countP_rtake_eq_iff {p : α → Bool} {l : List α} {n : ℕ} (two : 2 ≤ n)
    (apart : l.IsChain fun a b => ¬ (p a = true ∧ p b = true)) :
    (l.rtake n).countP p = min n (l.countP p) ↔ (l.dropWhile fun a => !p a).length ≤ n := by
  constructor
  · intro same
    by_contra long
    have forgotten := countP_rtake_lt (not_le.mp long)
    have half := two_mul_countP_le (apart.suffix (rtake_suffix l n))
    rw [length_rtake] at half
    omega
  · intro fits
    have small : (l.dropWhile fun a => !p a).countP p ≤ n := List.countP_le_length.trans fits
    rw [countP_dropWhile_not] at small
    rw [countP_rtake_of_fits fits, Nat.min_eq_right small]

end History

end PumaDev
