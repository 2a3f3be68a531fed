import PumaDev.Dev.HostSpelling
import PumaDev.Dev.Subdomains
import PumaDev.Lib.InTurn

/-!
# The names a domain name is tried under

`FindAppByDomainName` looks up the name, then what is behind its first dot, and so on,
and `default` when none of them is known.  The names it may try are those a label
starts (`labelSuffixes`), described here by where they stand in the name and not by how
the loop gets to them; an empty label starts one as well, as long as something is left.

The lookup is arbitrary and may change its mind from one call to the next.  What is
looked up is seen in a log of the calls.
-/

namespace PumaDev

/-- The nonempty ends of a name that stand at its beginning or behind a dot, the longest
first. -/
def labelSuffixes (name : GoString) : List GoString :=
  name.tails.filter fun t => t ≠ [] ∧ (t = name ∨ EndsIn name t)

theorem mem_labelSuffixes {name t : GoString} :
    t ∈ labelSuffixes name ↔ t ≠ [] ∧ (t = name ∨ EndsIn name t) := by
  rw [labelSuffixes, List.mem_filter, List.mem_tails, decide_eq_true_eq]
  refine and_iff_right_of_imp ?_
  rintro ⟨-, rfl | ends⟩
  · exact List.suffix_rfl
  · exact (List.suffix_cons '.' t).trans ends

/-- The longest first, and none twice. -/
theorem labelSuffixes_pairwise (name : GoString) :
    (labelSuffixes name).Pairwise fun t u => u.length < t.length := by
  have tails : name.tails.Pairwise fun t u : GoString => u.length < t.length := by
    induction name with
    | nil => simp
    | cons c name ih =>
        rw [List.tails_cons, List.pairwise_cons]
        refine ⟨fun t mem => ?_, ih⟩
        have shorter := ((List.mem_tails t name).mp mem).length_le
        rw [List.length_cons]
        omega
  exact tails.sublist List.filter_sublist

/-- Behind a label there is its dot, and what ends in a dot and more has it after the
label. -/
theorem endsIn_label_iff {label rest t : GoString} (plain : '.' ∉ label) :
    EndsIn (label ++ '.' :: rest) t ↔ t = rest ∨ EndsIn rest t := by
  induction label with
  | nil =>
      rw [EndsIn, List.nil_append, List.suffix_cons_iff, List.cons.injEq]
      simp [EndsIn]
  | cons c label ih =>
      obtain ⟨first, later⟩ := not_or.mp (mt List.mem_cons.mpr plain)
      rw [← ih later, EndsIn, List.cons_append, List.suffix_cons_iff, List.cons.injEq]
      simp [EndsIn, first]

/-- Without a dot there is nothing behind one. -/
theorem not_endsIn_of_plain {name t : GoString} (plain : '.' ∉ name) : ¬ EndsIn name t :=
  fun ends => plain (ends.subset List.mem_cons_self)

/-- **The first name is the whole**, and the others are those of what `pruneSub`
leaves. -/
theorem labelSuffixes_of_ne_nil {name : GoString} (nonempty : name ≠ []) :
    labelSuffixes name = name :: labelSuffixes (pruneSub name) := by
  have later : ∀ t, t ≠ [] → (EndsIn name t ↔ t = pruneSub name ∨ EndsIn (pruneSub name) t) := by
    intro t some_
    by_cases dotted : '.' ∈ name
    · obtain ⟨label, rest, rfl, plain⟩ := List.eq_append_cons_of_mem dotted
      rw [pruneSub_label rest plain, endsIn_label_iff plain]
    · have pruned : pruneSub name = [] := by
        have absent : Strings.indexByte name '.' = none := by
          simpa [Strings.indexByte] using dotted
        simp [pruneSub, absent]
      refine iff_of_false (not_endsIn_of_plain dotted) ?_
      rw [pruned]
      exact not_or.mpr ⟨some_, not_endsIn_of_plain (by simp)⟩
  -- two lists that become shorter from name to name and have the same names
  have sorted : (name :: labelSuffixes (pruneSub name)).Pairwise
      fun t u => u.length < t.length := by
    refine List.pairwise_cons.mpr ⟨fun t mem => ?_, labelSuffixes_pairwise _⟩
    have inside : t <:+ pruneSub name :=
      (List.mem_tails t _).mp (List.mem_filter.mp mem).1
    exact inside.length_le.trans_lt (length_pruneSub_lt nonempty)
  have nodup : ∀ {names : List GoString}, names.Pairwise (fun t u => u.length < t.length) →
      names.Nodup := fun names => names.imp fun shorter same => by simp [same] at shorter
  have perm : (labelSuffixes name).Perm (name :: labelSuffixes (pruneSub name)) := by
    refine (List.perm_ext_iff_of_nodup (nodup (labelSuffixes_pairwise name))
      (nodup sorted)).mpr fun t => ?_
    rw [List.mem_cons, mem_labelSuffixes, mem_labelSuffixes]
    constructor
    · rintro ⟨some_, rfl | ends⟩
      · exact Or.inl rfl
      · exact Or.inr ⟨some_, (later t some_).mp ends⟩
    · rintro (rfl | ⟨some_, ends⟩)
      · exact ⟨nonempty, Or.inl rfl⟩
      · exact ⟨some_, Or.inr ((later t some_).mpr ends)⟩
  refine perm.eq_of_pairwise (fun t u _ _ tu ut => ?_) (labelSuffixes_pairwise name) sorted
  exact absurd tu (lt_asymm ut)

@[simp] theorem labelSuffixes_nil : labelSuffixes [] = [] := by
  simp [labelSuffixes]

/-! ## The loop -/

/-- The answer that the loop passes over. -/
def IsUnknown (answer : Except GoError AppId) : Prop := answer = .error .unknownApp

variable {σ : Type} (lookup : σ → GoString → σ × Except GoError AppId)

/-- **The loop asks for the suffixes in turn.** -/
theorem findLoop_logged (s : σ) (log : List GoString) (name : GoString) :
    ∃ calls s' answer,
      InTurn lookup IsUnknown s (labelSuffixes name) calls s' answer ∧
        findLoop (logged lookup) (s, log) name =
          ((s', log ++ calls), answer.elim (.ok none) fun r => r.map some) := by
  induction length : name.length using Nat.strong_induction_on generalizing s log name with
  | _ n ih =>
  by_cases empty : name = []
  · subst empty
    refine ⟨[], s, none, ?_, by rw [findLoop]; simp⟩
    rw [labelSuffixes_nil]
    exact .exhausted s rfl
  rw [labelSuffixes_of_ne_nil empty]
  have called : ∀ answer, (lookup s name).2 = answer →
      logged lookup (s, log) name = (((lookup s name).1, log ++ [name]), answer) :=
    fun answer found => Prod.ext rfl found
  cases found : (lookup s name).2 with
  | ok id =>
      refine ⟨[name], _, _, .head (by simp [IsUnknown, found]), ?_⟩
      rw [findLoop_of_ok empty (called _ found), found]
      rfl
  | error err =>
      by_cases unknown : err = .unknownApp
      · subst unknown
        obtain ⟨calls, s', answer, inTurn, loop⟩ :=
          ih _ (length ▸ length_pruneSub_lt empty) (lookup s name).1 (log ++ [name])
            (pruneSub name) rfl
        refine ⟨name :: calls, s', answer, .tail found inTurn, ?_⟩
        rw [findLoop_of_unknownApp empty (called _ found), loop]
        simp
      · refine ⟨[name], _, _, .head (by simp [IsUnknown, found, unknown]), ?_⟩
        rw [findLoop_of_error empty unknown (called _ found), found]
        rfl

/-- The log does not change the loop. -/
theorem findLoop_of_logged (s : σ) (log : List GoString) (name : GoString) :
    findLoop lookup s name =
      ((findLoop (logged lookup) (s, log) name).1.1,
        (findLoop (logged lookup) (s, log) name).2) := by
  induction length : name.length using Nat.strong_induction_on generalizing s log name with
  | _ n ih =>
  by_cases empty : name = []
  · rw [findLoop, if_pos empty, findLoop, if_pos empty]
  rcases found : lookup s name with ⟨s', answer⟩
  have called : logged lookup (s, log) name = ((s', log ++ [name]), answer) := by
    rw [logged_apply, found]
  cases answer with
  | ok id => rw [findLoop_of_ok empty found, findLoop_of_ok empty called]
  | error err =>
      by_cases unknown : err = .unknownApp
      · subst unknown
        rw [findLoop_of_unknownApp empty found, findLoop_of_unknownApp empty called]
        exact ih _ (length ▸ length_pruneSub_lt empty) s' (log ++ [name]) (pruneSub name) rfl
      · rw [findLoop_of_error empty unknown found, findLoop_of_error empty unknown called]

/-- **What `FindAppByDomainName` asks for.**  For every lookup with a state and every
name, it asks for the suffixes a label starts, the longest first, until one of them is
not unknown, whose answer it returns; it asks for `default` once, exactly when all of
them are unknown, and returns that answer. -/
theorem findAppByDomainName_inTurn (s : σ) (name : GoString) :
    (∀ t, t ∈ labelSuffixes name ↔ t ≠ [] ∧ (t = name ∨ EndsIn name t)) ∧
      ((labelSuffixes name).Pairwise fun t u => u.length < t.length) ∧
      (∃ calls s' answer,
        InTurn lookup IsUnknown s (labelSuffixes name) calls s' answer ∧
          (answer = none ↔ ∃ s₁, Passed lookup IsUnknown s (labelSuffixes name) s₁) ∧
          findAppByDomainName (logged lookup) (s, []) name =
            match answer with
            | some r => ((s', calls), r)
            | none =>
                (((lookup s' "default".toList).1, calls ++ ["default".toList]),
                  (lookup s' "default".toList).2)) ∧
      findAppByDomainName lookup s name =
        ((findAppByDomainName (logged lookup) (s, []) name).1.1,
          (findAppByDomainName (logged lookup) (s, []) name).2) := by
  refine ⟨fun t => mem_labelSuffixes, labelSuffixes_pairwise name, ?_, ?_⟩
  · obtain ⟨calls, s', answer, inTurn, loop⟩ := findLoop_logged lookup s [] name
    refine ⟨calls, s', answer, inTurn, inTurn.eq_none_iff, ?_⟩
    rw [findAppByDomainName, loop]
    cases answer with
    | none => rfl
    | some r => cases r <;> rfl
  · rw [findAppByDomainName, findAppByDomainName, findLoop_of_logged lookup s [] name]
    rcases findLoop (logged lookup) (s, []) name with ⟨⟨s', calls⟩, err | id | _⟩ <;> rfl

/-- Empty labels, and dots at both ends. -/
example : labelSuffixes ".a..b.".toList =
    [".a..b.".toList, "a..b.".toList, ".b.".toList, "b.".toList] := by decide

end PumaDev
