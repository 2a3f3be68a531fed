import PumaDev.Go.Filepath

/-!
# What a path says

Of a path `filepath.Clean` keeps three things: whether it starts at the root, how far it
climbs before it enters anything, and the components it then enters.  They are the path's
`place`.

* `clean_eq_clean_iff`: the cleaned text says this, and nothing else.
* `join_inj`: from a directory and a component that `filepath.Join` has joined, both can be
  told again, the directory up to cleaning.
-/

namespace PumaDev

namespace Filepath

/-- What cleaning keeps of a path. -/
@[ext] structure Place where
  rooted : Bool
  walk : Descent GoString
  deriving DecidableEq

/-- The place of a path.  Above the root there is nothing to climb to. -/
def place (p : GoString) : Place :=
  ⟨isAbs p, if isAbs p then ⟨0, (descent p).down⟩ else descent p⟩

/-- The cleaned text of a place. -/
def Place.text (p : Place) : GoString :=
  if p.rooted then sep :: Strings.join p.walk.down sep
  else
    match List.replicate p.walk.ups ['.', '.'] ++ p.walk.down with
    | [] => ['.']
    | comps => Strings.join comps sep

/-- The text depends on the place only. -/
theorem clean_eq_text (p : GoString) : clean p = (place p).text := by
  cases rooted : isAbs p with
  | true => simp only [clean, place, Place.text, rooted, if_true]
  | false =>
      have relative : place p = ⟨false, descent p⟩ := by simp [place, rooted]
      have text : clean p = _ := if_neg (by simp [rooted])
      rw [relative]
      exact text

/-- A component describes itself. -/
theorem descent_of_plain {c : GoString} (plain : Plain c) : descent c = ⟨0, [c]⟩ := by
  have whole : Strings.split c sep = [c] := List.splitOn_eq_singleton plain.no_sep
  have enters : moveOf c = .into c := moveOf_eq_into_iff.mpr
    ⟨plain.nonempty, plain.not_dot, plain.not_dotdot, rfl⟩
  rw [descent, moves, whole, List.map_singleton, enters]
  exact Descent.descend_into [c]

theorem isAbs_of_plain {c : GoString} (plain : Plain c) : isAbs c = false := by
  refine decide_eq_false fun first => ?_
  exact plain.no_sep (List.mem_of_head? first)

/-- Climbing, over and over. -/
theorem descend_replicate_up (n : ℕ) :
    Descent.descend (List.replicate n (Move.up : Move GoString)) = ⟨n, []⟩ := by
  induction n with
  | zero => rfl
  | succ n ih =>
      rw [List.replicate_succ', Descent.descend_append, ih]
      simp [Descent.descend, Descent.comp, Descent.read, Descent.here]

/-- A climb and a walk that are written out describe themselves. -/
theorem place_climb {ups : ℕ} {cs : List GoString} (plain : ∀ c ∈ cs, Plain c)
    (some_ : List.replicate ups ['.', '.'] ++ cs ≠ []) :
    place (Strings.join (List.replicate ups ['.', '.'] ++ cs) sep) = ⟨false, ⟨ups, cs⟩⟩ := by
  have solid : ∀ c ∈ List.replicate ups ['.', '.'] ++ cs, c ≠ [] ∧ sep ∉ c := by
    intro c mem
    rcases List.mem_append.mp mem with climb | enters
    · rw [List.eq_of_mem_replicate climb]
      decide
    · exact ⟨(plain c enters).nonempty, (plain c enters).no_sep⟩
  have relative : isAbs (Strings.join (List.replicate ups ['.', '.'] ++ cs) sep) = false := by
    obtain ⟨first, rest, comps⟩ := List.exists_cons_of_ne_nil some_
    rw [comps] at solid ⊢
    obtain ⟨nonempty, noSep⟩ := solid first List.mem_cons_self
    obtain ⟨c, later, rfl⟩ := List.exists_cons_of_ne_nil nonempty
    have other : c ≠ sep := fun same => noSep (same ▸ List.mem_cons_self)
    cases rest with
    | nil => simpa [isAbs] using other
    | cons d rest => simpa [isAbs] using other
  have split : Strings.split (Strings.join (List.replicate ups ['.', '.'] ++ cs) sep) sep =
      List.replicate ups ['.', '.'] ++ cs :=
    List.splitOn_intercalate sep (fun c mem => (solid c mem).2) some_
  have enters : cs.map moveOf = cs.map Move.into :=
    List.map_congr_left fun c mem => moveOf_eq_into_iff.mpr
      ⟨(plain c mem).nonempty, (plain c mem).not_dot, (plain c mem).not_dotdot, rfl⟩
  have climbs : moveOf ['.', '.'] = .up := by decide
  rw [place, relative, descent, moves, split, List.map_append, List.map_replicate, enters,
    climbs, Descent.descend_append, descend_replicate_up, Descent.descend_into]
  simp [Descent.comp]

/-- **Cleaning keeps the place.** -/
theorem place_clean (p : GoString) : place (clean p) = place p := by
  cases rooted : isAbs p with
  | true =>
      rw [clean_of_isAbs rooted, place, place, rooted,
        descent_render fun c mem => plain_of_mem_down mem]
      rfl
  | false =>
      rw [clean, if_neg (by simp [rooted])]
      split
      · next nowhere =>
          obtain ⟨climb, enters⟩ := List.append_eq_nil_iff.mp nowhere
          have here : descent p = ⟨0, []⟩ :=
            Descent.ext (List.replicate_eq_nil_iff _ |>.mp climb) enters
          rw [place, place, rooted, here]
          rfl
      · next somewhere =>
          rw [place_climb (fun c mem => plain_of_mem_down mem) somewhere, place, rooted]
          rfl

/-- **Cleaning keeps the place, and nothing else.** -/
theorem clean_eq_clean_iff {p q : GoString} : clean p = clean q ↔ place p = place q := by
  constructor
  · intro same
    rw [← place_clean p, same, place_clean]
  · intro same
    rw [clean_eq_text, clean_eq_text, same]

/-- The place of a component in a directory. -/
theorem place_join (dir : GoString) {name : GoString} (plain : Plain name) :
    place (join [dir, name]) =
      ⟨(place dir).rooted, ⟨(place dir).walk.ups, (place dir).walk.down ++ [name]⟩⟩ := by
  cases dir with
  | nil =>
      have text : join [[], name] = clean name := by
        obtain ⟨c, rest, rfl⟩ := List.exists_cons_of_ne_nil plain.nonempty
        simp [join]
      rw [text, place_clean, place, isAbs_of_plain plain, descent_of_plain plain]
      rfl
  | cons d dir =>
      have rooted : isAbs (Strings.join [d :: dir, name] sep) = isAbs (d :: dir) := by
        simp [isAbs]
      have text : join [d :: dir, name] = clean (Strings.join [d :: dir, name] sep) := rfl
      rw [text, place_clean, place, rooted, descent_join_text, descent_of_plain plain, place]
      cases isAbs (d :: dir) <;> simp [Descent.comp]

/-- **A directory and a component can be told from what they are joined to.** -/
theorem join_inj {dir dir' name name' : GoString} (plain : Plain name) (plain' : Plain name')
    (same : join [dir, name] = join [dir', name']) : clean dir = clean dir' ∧ name = name' := by
  have places := congrArg place same
  rw [place_join dir plain, place_join dir' plain', Place.mk.injEq, Descent.mk.injEq] at places
  obtain ⟨rooted, ups, down⟩ := places
  obtain ⟨down, names⟩ := List.append_inj' down rfl
  exact ⟨clean_eq_clean_iff.mpr (Place.ext rooted (Descent.ext ups down)),
    List.singleton_inj.mp names⟩

/-- In a directory that enters something, a component stands behind a separator. -/
theorem join_eq_append {dir name : GoString} (plain : Plain name)
    (enters : (place dir).walk.down ≠ []) : ∃ front, join [dir, name] = front ++ sep :: name := by
  obtain ⟨q, cleaned⟩ : ∃ q, join [dir, name] = clean q := by
    cases dir with
    | nil => exact absurd rfl enters
    | cons d dir => exact ⟨_, rfl⟩
  have text : join [dir, name] = (place (join [dir, name])).text := by
    rw [cleaned, place_clean, clean_eq_text]
  rw [place_join dir plain] at text
  have behind : ∀ cs : List GoString, cs ≠ [] →
      Strings.join (cs ++ [name]) sep = Strings.join cs sep ++ sep :: name := fun cs some_ =>
    (Strings.join_append sep some_ (by simp)).trans (by rw [Strings.join_singleton])
  cases rooted : (place dir).rooted with
  | true =>
      rw [Place.text, rooted, if_pos rfl, behind _ enters] at text
      exact ⟨sep :: Strings.join (place dir).walk.down sep, text⟩
  | false =>
      have some_ : List.replicate (place dir).walk.ups ['.', '.'] ++ (place dir).walk.down ≠ [] :=
        List.append_ne_nil_of_right_ne_nil _ enters
      rw [Place.text, rooted, if_neg (by simp), ← List.append_assoc] at text
      split at text
      · next nowhere => exact absurd nowhere (by simp)
      · rw [behind _ some_] at text
        exact ⟨_, text⟩

end Filepath

end PumaDev
