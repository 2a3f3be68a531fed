import PumaDev.Lib.Descent
import PumaDev.Go.Strings

/-!
# `path/filepath` on Unix

`Filepath.clean` and `Filepath.join` follow the documented rules of Go's
`filepath.Clean` and `filepath.Join`: one slash between components, no `.`
component, every inner `..` eliminated with the component before it, and a `..`
at the root dropped.  Cleaning reads the text through the monoid of
`PumaDev.Lib.Descent`, so what the result's components are is a fact about
descents (`parts_clean`).

`StrictDescendant dir p` is the textual notion those facts are stated for: `p`
is an absolute path without dot components whose components extend those of
`dir` by at least one.
-/

namespace PumaDev

namespace Filepath

/-- The separator. -/
def sep : Char := '/'

/-- `filepath.IsAbs`. -/
def isAbs (p : GoString) : Bool := p.head? = some sep

/-- What a component means to lexical cleaning. -/
def moveOf (c : GoString) : Move GoString :=
  if c = [] then .stay
  else if c = ['.'] then .stay
  else if c = ['.', '.'] then .up
  else .into c

/-- The components of a path, as moves. -/
def moves (p : GoString) : List (Move GoString) := (Strings.split p sep).map moveOf

/-- The descent a path describes lexically. -/
def descent (p : GoString) : Descent GoString := Descent.descend (moves p)

/-- `filepath.Clean`. -/
def clean (p : GoString) : GoString :=
  if isAbs p then sep :: Strings.join (descent p).down sep
  else
    match List.replicate (descent p).ups ['.', '.'] ++ (descent p).down with
    | [] => ['.']
    | comps => Strings.join comps sep

/-- `filepath.Join`: leading empty elements are ignored, an all-empty list
gives the empty string, anything else is joined with slashes and cleaned. -/
def join : List GoString → GoString
  | [] => []
  | [] :: rest => join rest
  | (c :: e) :: rest => clean (Strings.join ((c :: e) :: rest) sep)

/-- The name `os.Stat` records: the path without trailing slashes, from its
last slash on. -/
def base (p : GoString) : GoString :=
  match (p.reverse.dropWhile (· = sep)).reverse with
  | [] => p.take 1
  | stripped => (Strings.split stripped sep).getLastD []

/-- The nonempty components of a path, by plain splitting. -/
def parts (p : GoString) : List GoString :=
  (Strings.split p sep).filter (· ≠ [])

/-- `p` lies strictly below the directory `dir`, lexically: it is absolute, has
no dot component, and goes on after all the components of `dir`. -/
def StrictDescendant (dir p : GoString) : Prop :=
  isAbs p ∧ (∀ c ∈ parts p, c ≠ ['.'] ∧ c ≠ ['.', '.']) ∧
    ProperPrefix (parts dir) (parts p)

instance (dir p : GoString) : Decidable (StrictDescendant dir p) :=
  inferInstanceAs (Decidable (_ ∧ _ ∧ _))

/-! ### Components of a cleaned path -/

/-- A component that cleaning enters: nonempty, not a dot component, without a
separator. -/
structure Plain (c : GoString) : Prop where
  nonempty : c ≠ []
  not_dot : c ≠ ['.']
  not_dotdot : c ≠ ['.', '.']
  no_sep : sep ∉ c

theorem moveOf_eq_into_iff {c d : GoString} :
    moveOf c = .into d ↔ c ≠ [] ∧ c ≠ ['.'] ∧ c ≠ ['.', '.'] ∧ c = d := by
  unfold moveOf
  split_ifs <;> simp_all

/-- Every component a path ends up in is plain. -/
theorem plain_of_mem_down {p c : GoString} (h : c ∈ (descent p).down) :
    Plain c := by
  obtain ⟨d, mem, hd⟩ := List.mem_map.mp (Descent.mem_of_mem_down h)
  obtain ⟨h₁, h₂, h₃, rfl⟩ := moveOf_eq_into_iff.mp hd
  exact ⟨h₁, h₂, h₃, Strings.sep_notMem_of_mem_split mem⟩

/-- Splitting a rendered list of plain components gives them back, after the
empty component before the leading slash. -/
theorem split_render {cs : List GoString} (plain : ∀ c ∈ cs, Plain c) (some_ : cs ≠ []) :
    Strings.split (sep :: Strings.join cs sep) sep = [] :: cs := by
  have leading : ∀ t : GoString,
      Strings.split (sep :: t) sep = [] :: Strings.split t sep := by
    intro t
    simp [Strings.split, List.splitOn_cons_eq_if_modifyHead]
  have whole : Strings.split (Strings.join cs sep) sep = cs :=
    List.splitOn_intercalate sep (fun d mem => (plain d mem).no_sep) some_
  rw [leading, whole]

/-- The components of a rendered list of plain components. -/
theorem parts_render {cs : List GoString} (plain : ∀ c ∈ cs, Plain c) :
    parts (sep :: Strings.join cs sep) = cs := by
  rcases eq_or_ne cs [] with rfl | some_
  · decide
  · have kept : cs.filter (· ≠ []) = cs :=
      List.filter_eq_self.mpr fun d mem => by
        simpa using (plain d mem).nonempty
    rw [parts, split_render plain some_, List.filter_cons_of_neg (by simp), kept]

/-- A rendered list of plain components describes itself. -/
theorem descent_render {cs : List GoString} (plain : ∀ c ∈ cs, Plain c) :
    descent (sep :: Strings.join cs sep) = ⟨0, cs⟩ := by
  rcases eq_or_ne cs [] with rfl | some_
  · decide
  · have entered : cs.map moveOf = cs.map Move.into :=
      List.map_congr_left fun c mem => moveOf_eq_into_iff.mpr
        ⟨(plain c mem).nonempty, (plain c mem).not_dot, (plain c mem).not_dotdot, rfl⟩
    rw [descent, moves, split_render plain some_, List.map_cons, entered]
    exact Descent.descend_into cs

/-- The cleaning of an absolute path, spelled out. -/
theorem clean_of_isAbs {p : GoString} (h : isAbs p = true) :
    clean p = sep :: Strings.join (descent p).down sep := if_pos h

/-- **The components of a cleaned absolute path** are where its descent
ends. -/
theorem parts_clean {p : GoString} (h : isAbs p = true) :
    parts (clean p) = (descent p).down := by
  rw [clean_of_isAbs h]
  exact parts_render fun c mem => plain_of_mem_down mem

/-- **Cleaning twice** is cleaning once. -/
theorem clean_clean {p : GoString} (h : isAbs p = true) : clean (clean p) = clean p := by
  rw [clean_of_isAbs h, clean_of_isAbs rfl,
    descent_render fun c mem => plain_of_mem_down mem]

/-- The cleaning of a relative path that enters something, spelled out. -/
theorem clean_of_relative {p : GoString} (h : isAbs p = false) (some_ : (descent p).down ≠ []) :
    clean p =
      Strings.join (List.replicate (descent p).ups ['.', '.'] ++ (descent p).down) sep := by
  rw [clean, if_neg (by simp [h])]
  split
  · next none_ => exact absurd (List.append_eq_nil_iff.mp none_).2 some_
  · rfl

/-- Joining below a nonempty directory reads the directory, then the name. -/
theorem descent_join_text (dir name : GoString) :
    descent (Strings.join [dir, name] sep) = (descent dir).comp (descent name) := by
  have text : Strings.join [dir, name] sep = dir ++ sep :: name := by
    simp [Strings.join, List.intercalate, List.intersperse]
  rw [text, descent, moves, Strings.split, List.splitOn_append_cons_self,
    List.map_append]
  exact Descent.descend_append _ _

/-- `filepath.Join` of an absolute directory and a name, as a cleaning. -/
theorem join_of_isAbs {dir : GoString} (h : isAbs dir = true) (name : GoString) :
    join [dir, name] = clean (Strings.join [dir, name] sep) := by
  cases dir with
  | nil => simp [isAbs] at h
  | cons c rest => rfl

theorem isAbs_join_text {dir : GoString} (h : isAbs dir = true)
    (name : GoString) : isAbs (Strings.join [dir, name] sep) = true := by
  cases dir with
  | nil => simp [isAbs] at h
  | cons c rest =>
      simpa [isAbs, Strings.join, List.intercalate, List.intersperse] using h

theorem isAbs_join {dir : GoString} (h : isAbs dir = true) (name : GoString) :
    isAbs (join [dir, name]) = true := by
  rw [join_of_isAbs h, clean_of_isAbs (isAbs_join_text h name)]
  rfl

/-- The components of `filepath.Join(dir, name)`. -/
theorem parts_join {dir : GoString} (h : isAbs dir = true) (name : GoString) :
    parts (join [dir, name]) = ((descent dir).comp (descent name)).down := by
  rw [join_of_isAbs h, parts_clean (isAbs_join_text h name),
    descent_join_text]

/-- **Going on below a path**: a path that enters something keeps its cleaned text, and
what goes on below it is appended. -/
theorem clean_join_text {p : GoString} (nonempty : p ≠ []) (enters : (descent p).down ≠ [])
    {cs : List GoString} (plain : ∀ c ∈ cs, Plain c) (some_ : cs ≠ []) :
    clean (Strings.join [p, sep :: Strings.join cs sep] sep) =
      clean p ++ sep :: Strings.join cs sep := by
  have below : descent (Strings.join [p, sep :: Strings.join cs sep] sep) =
      ⟨(descent p).ups, (descent p).down ++ cs⟩ := by
    rw [descent_join_text, descent_render plain]
    simp [Descent.comp]
  have rooted : isAbs (Strings.join [p, sep :: Strings.join cs sep] sep) = isAbs p := by
    obtain ⟨c, rest, rfl⟩ := List.exists_cons_of_ne_nil nonempty
    simp [isAbs]
  cases h : isAbs p with
  | true =>
      rw [clean_of_isAbs (rooted.trans h), clean_of_isAbs h, below,
        Strings.join_append sep enters some_]
      rfl
  | false =>
      have entersBelow :
          (descent (Strings.join [p, sep :: Strings.join cs sep] sep)).down ≠ [] := by
        rw [below]
        exact List.append_ne_nil_of_right_ne_nil _ some_
      rw [clean_of_relative (rooted.trans h) entersBelow, clean_of_relative h enters, below,
        ← List.append_assoc, Strings.join_append sep (by simp [enters]) some_]

/-- **`filepath.Join` of a directory, a component and a cleaned path** appends the path
to the directory's component, for every directory. -/
theorem join_below (dir : GoString) {name : GoString} (component : Plain name)
    {cs : List GoString} (plain : ∀ c ∈ cs, Plain c) (some_ : cs ≠ []) :
    join [dir, name, sep :: Strings.join cs sep] =
      join [dir, name] ++ sep :: Strings.join cs sep := by
  obtain ⟨c, rest, rfl⟩ := List.exists_cons_of_ne_nil component.nonempty
  have own : descent (c :: rest) = ⟨0, [c :: rest]⟩ := by
    have whole : Strings.split (c :: rest) sep = [c :: rest] :=
      List.splitOn_eq_singleton component.no_sep
    have enters : moveOf (c :: rest) = .into (c :: rest) := moveOf_eq_into_iff.mpr
      ⟨component.nonempty, component.not_dot, component.not_dotdot, rfl⟩
    rw [descent, moves, whole, List.map_singleton, enters]
    exact Descent.descend_into [c :: rest]
  cases dir with
  | nil =>
      have below := clean_join_text component.nonempty (by simp [own]) plain some_
      simpa [join] using below
  | cons d dir =>
      have enters : (descent (Strings.join [d :: dir, c :: rest] sep)).down ≠ [] := by
        rw [descent_join_text, own]
        simp [Descent.comp]
      have below := clean_join_text (by simp) enters plain some_
      simpa [join] using below

/-! ### Cleaned directories and staying below them -/

/-- A cleaned absolute path. -/
structure CleanDir where
  /-- The text of the path. -/
  text : GoString
  /-- It starts at the root. -/
  abs : isAbs text = true
  /-- `filepath.Clean` leaves it alone. -/
  cleaned : clean text = text

/-- The default directory of apps, in some home. -/
def CleanDir.home : CleanDir := ⟨"/home/u/.puma-dev".toList, by decide, by decide⟩

instance : Inhabited CleanDir := ⟨.home⟩

/-- A cleaned directory's components are where its text descends to. -/
theorem CleanDir.parts_eq (dir : CleanDir) :
    parts dir.text = (descent dir.text).down := by
  conv_lhs => rw [← dir.cleaned]
  exact parts_clean dir.abs

/-- The name stays strictly below the directory.  Its own cleaning climbs `ups`
levels and enters `down`; the last `ups` components of the directory have to be
a proper prefix of `down`.  For a name that climbs nowhere this says that it
enters something. -/
def StaysBelow (dir : CleanDir) (name : GoString) : Prop :=
  ProperPrefix
    ((parts dir.text).drop ((parts dir.text).length - (descent name).ups))
    (descent name).down

instance (dir : CleanDir) (name : GoString) : Decidable (StaysBelow dir name) :=
  inferInstanceAs (Decidable (ProperPrefix _ _))

/-- **`filepath.Join` stays below the directory exactly when the name
does.** -/
theorem strictDescendant_join_iff (dir : CleanDir) (name : GoString) :
    StrictDescendant dir.text (join [dir.text, name]) ↔ StaysBelow dir name := by
  have entered : ∀ c ∈ parts (join [dir.text, name]),
      c ≠ ['.'] ∧ c ≠ ['.', '.'] := by
    intro c mem
    rw [join_of_isAbs dir.abs, parts_clean (isAbs_join_text dir.abs name)] at mem
    exact ⟨(plain_of_mem_down mem).not_dot, (plain_of_mem_down mem).not_dotdot⟩
  have same : StrictDescendant dir.text (join [dir.text, name]) ↔
      ProperPrefix (parts dir.text) (parts (join [dir.text, name])) :=
    ⟨fun h => h.2.2, fun h => ⟨isAbs_join dir.abs name, entered, h⟩⟩
  rw [same, parts_join dir.abs, StaysBelow, dir.parts_eq]
  exact Descent.properPrefix_comp_iff _ _

end Filepath

/-- `path.Clean`, which is `filepath.Clean` where the separator is a slash. -/
def Path.clean (p : GoString) : GoString := Filepath.clean p

end PumaDev
