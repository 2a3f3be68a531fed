import Mathlib.Data.List.Basic
import PumaDev.Lib.Descent

/-!
# File trees with symbolic links

A **place** is a list of components, the innermost first, so that its parent is its
tail.  A file tree says what is at each place: a directory, a file, a symbolic link
or nothing; whatever is somewhere is in a directory.

`FileTree.walk` resolves a path the way an operating system does.  It goes through
the components one by one and looks at the tree at each of them; a `..` climbs from
the place reached, not from the text; a link in the middle is always followed, one at
the end only if the caller asks for it; and a budget bounds how many links one walk
may follow.  What a link's text means (where it starts, and its components) is a
parameter.

Two facts about walks carry what is said about links elsewhere: a larger budget
changes no result (`walk_mono`), and what a link leads to depends on its text and on
the directory it starts from, not on the path the link was reached by
(`walk_link_congr`).
-/

namespace PumaDev

universe u v w

/-- What is at a place. -/
inductive Node (τ : Type u) (γ : Type v) where
  | dir (searchable : Bool)
  | file (content : γ)
  | link (text : τ)
  deriving DecidableEq

/-- Is it a directory? -/
def Node.isDir {τ : Type u} {γ : Type v} : Node τ γ → Bool
  | .dir _ => true
  | _ => false

/-- What the text of a link means. -/
structure Target (κ : Type w) where
  /-- It starts at the root, and not next to the link. -/
  fromRoot : Bool
  moves : List (Move κ)

/-- A file tree. -/
structure FileTree (κ : Type w) (τ : Type u) (γ : Type v) where
  node : List κ → Option (Node τ γ)
  root : (node []).any Node.isDir
  parent : ∀ c p, (node (c :: p)).isSome → (node p).any Node.isDir

/-- Why a walk fails. -/
inductive WalkError where
  | notExist
  | notDir
  | denied
  | loop
  deriving DecidableEq

namespace FileTree

variable {κ : Type w} {τ : Type u} {γ : Type v}

/-- The tree of the listed entries, below a searchable root. -/
def listed [DecidableEq κ] (entries : List (List κ × Node τ γ)) :
    List κ → Option (Node τ γ)
  | [] => some (.dir true)
  | c :: p => entries.lookup (c :: p)

/-- What is in a listed tree is listed. -/
theorem mem_of_listed [DecidableEq κ] {entries : List (List κ × Node τ γ)} {place : List κ}
    {n : Node τ γ} (h : listed entries place = some n) :
    (place, n) ∈ entries ∨ n = .dir true := by
  cases place with
  | nil => exact .inr (Option.some.inj h).symm
  | cons c p =>
      obtain ⟨before, after, split, -⟩ := List.lookup_eq_some_iff.mp h
      exact .inl (by simp [split])

/-- A tree from the list of its entries, each of which is in a directory. -/
def ofList [DecidableEq κ] (entries : List (List κ × Node τ γ))
    (closed : ∀ e ∈ entries, (listed entries e.1.tail).any Node.isDir) :
    FileTree κ τ γ where
  node := listed entries
  root := rfl
  parent := by
    intro c p present
    obtain ⟨n, found⟩ := Option.isSome_iff_exists.mp present
    obtain ⟨before, after, split, -⟩ := List.lookup_eq_some_iff.mp found
    exact closed (c :: p, n) (by simp [split])

/-! ## Walks -/

/-- Where a link's text starts, for a link in the directory `here`. -/
def start (target : Target κ) (here : List κ) : List κ :=
  if target.fromRoot then [] else here

/-- The place one component leads to; it may be the place of a link. -/
def advance (tree : FileTree κ τ γ) (here : List κ) (move : Move κ) :
    Except WalkError (List κ) :=
  match tree.node here with
  | some (.dir searchable) =>
      match move with
      | .stay => .ok here
      | .up => if searchable then .ok here.tail else .error .denied
      | .into c =>
          if ¬searchable then .error .denied
          else if (tree.node (c :: here)).isSome then .ok (c :: here)
          else .error .notExist
  | some _ => .error .notDir
  | none => .error .notExist

/-- One pass over the components of a path; `follow` goes on behind a link. -/
def walkWith (tree : FileTree κ τ γ) (read : τ → Target κ) (followLast : Bool)
    (follow : List κ → List (Move κ) → Except WalkError (List κ)) :
    List κ → List (Move κ) → Except WalkError (List κ)
  | here, [] => .ok here
  | here, move :: rest =>
      match tree.advance here move with
      | .error e => .error e
      | .ok next =>
          match tree.node next with
          | some (.link text) =>
              if rest = [] ∧ followLast = false then .ok next
              else follow (start (read text) next.tail) ((read text).moves ++ rest)
          | _ => walkWith tree read followLast follow next rest

/-- **Path resolution** from the place `here`, through at most `budget` links. -/
def walk (tree : FileTree κ τ γ) (read : τ → Target κ) (followLast : Bool) :
    ℕ → List κ → List (Move κ) → Except WalkError (List κ)
  | 0 => tree.walkWith read followLast fun _ _ => .error .loop
  | budget + 1 => tree.walkWith read followLast (tree.walk read followLast budget)

variable {tree : FileTree κ τ γ} {read : τ → Target κ}

/-- A pass keeps its result when links lead at least as far. -/
theorem walkWith_mono {followLast : Bool}
    {follow follow' : List κ → List (Move κ) → Except WalkError (List κ)}
    (further : ∀ here todo r, follow here todo = .ok r → follow' here todo = .ok r) :
    ∀ (todo : List (Move κ)) (here r : List κ),
      tree.walkWith read followLast follow here todo = .ok r →
        tree.walkWith read followLast follow' here todo = .ok r := by
  intro todo
  induction todo with
  | nil => exact fun here r h => h
  | cons move rest ih =>
      intro here r h
      cases hadvance : tree.advance here move with
      | error e => simp [walkWith, hadvance] at h
      | ok next =>
          simp only [walkWith, hadvance] at h ⊢
          split at h
          · split at h
            · next stop => simpa [stop] using h
            · next goesOn =>
                rw [if_neg goesOn]
                exact further _ _ r h
          · exact ih next r h

/-- **A larger budget changes no result.** -/
theorem walk_mono {followLast : Bool} {budget budget' : ℕ} (more : budget ≤ budget')
    {here : List κ} {todo : List (Move κ)} {r : List κ}
    (h : tree.walk read followLast budget here todo = .ok r) :
    tree.walk read followLast budget' here todo = .ok r := by
  induction budget generalizing budget' here todo r with
  | zero =>
      cases budget' with
      | zero => exact h
      | succ n => exact walkWith_mono (fun _ _ _ impossible => by cases impossible) todo here r h
  | succ n ih =>
      obtain ⟨m, rfl⟩ := Nat.exists_eq_add_of_lt (Nat.lt_of_succ_le more)
      exact walkWith_mono (fun _ _ _ deeper => ih (Nat.le_add_right n m) deeper) todo here r h

/-! ## What links lead to -/

/-- There is no link at this place. -/
def NoLink (tree : FileTree κ τ γ) (here : List κ) : Prop :=
  ∀ text, tree.node here ≠ some (.link text)

theorem noLink_of_isDir {here : List κ} (h : (tree.node here).any Node.isDir) :
    tree.NoLink here := by
  intro text hnode
  rw [hnode] at h
  cases h

/-- A link starts from the root or from its own directory: in neither place is a
link. -/
theorem noLink_start {next : List κ} {text : τ} (target : Target κ)
    (hnode : tree.node next = some (.link text)) : tree.NoLink (start target next.tail) := by
  apply noLink_of_isDir
  unfold start
  split
  · exact tree.root
  · cases next with
    | nil => exact absurd hnode (noLink_of_isDir tree.root text)
    | cons c p => exact tree.parent c p (by simp [hnode])

/-- One pass that stops at a link, and one that does not: the second one goes where
the link leads. -/
theorem walkWith_link {follow follow' : List κ → List (Move κ) → Except WalkError (List κ)}
    {q r : List κ} {text : τ} {Q : Prop} (hq : tree.node q = some (.link text))
    (deeper : ∀ here todo, tree.NoLink here → follow here todo = .ok q →
      follow' here todo = .ok r → Q)
    (leads : follow' (start (read text) q.tail) (read text).moves = .ok r → Q) :
    ∀ (todo : List (Move κ)) (here : List κ), tree.NoLink here →
      tree.walkWith read false follow here todo = .ok q →
        tree.walkWith read true follow' here todo = .ok r → Q := by
  intro todo
  induction todo with
  | nil =>
      intro here noLink stops _
      cases stops
      exact absurd hq (noLink text)
  | cons move rest ih =>
      intro here noLink stops goesOn
      cases hadvance : tree.advance here move with
      | error e => simp [walkWith, hadvance] at stops
      | ok next =>
          simp only [walkWith, hadvance] at stops goesOn
          cases hnode : tree.node next with
          | none =>
              simp only [hnode] at stops goesOn
              exact ih next (by simp [NoLink, hnode]) stops goesOn
          | some n =>
              cases n with
              | dir | file =>
                  simp only [hnode] at stops goesOn
                  exact ih next (by simp [NoLink, hnode]) stops goesOn
              | link text' =>
                  simp only [hnode] at stops goesOn
                  rw [if_neg (by simp)] at goesOn
                  split at stops
                  · next last =>
                      cases stops
                      rw [hq] at hnode
                      cases hnode
                      rw [last.1, List.append_nil] at goesOn
                      exact leads goesOn
                  · exact deeper _ _ (noLink_start _ hnode) stops goesOn

/-- **Where a link leads** is where its text leads, from the root or from the link's
own directory. -/
theorem walk_of_link {budget : ℕ} {here q r : List κ} {todo : List (Move κ)} {text : τ}
    (noLink : tree.NoLink here) (hq : tree.node q = some (.link text))
    (stops : tree.walk read false budget here todo = .ok q)
    (goesOn : tree.walk read true budget here todo = .ok r) :
    ∃ left, tree.walk read true left (start (read text) q.tail) (read text).moves = .ok r := by
  induction budget generalizing here todo with
  | zero =>
      refine walkWith_link hq ?_ ?_ todo here noLink stops goesOn
      · exact fun _ _ _ impossible => by cases impossible
      · exact fun impossible => by cases impossible
  | succ n ih =>
      refine walkWith_link hq ?_ ?_ todo here noLink stops goesOn
      · exact fun _ _ inner stops goesOn => ih inner stops goesOn
      · exact fun leads => ⟨n, leads⟩

/-- **Links that read the same from the same place lead to the same place**, whatever
the paths they were reached by. -/
theorem walk_link_congr {budget : ℕ} {here here' q q' r r' : List κ}
    {todo todo' : List (Move κ)} {text : τ}
    (noLink : tree.NoLink here) (noLink' : tree.NoLink here')
    (hq : tree.node q = some (.link text)) (hq' : tree.node q' = some (.link text))
    (sameStart : start (read text) q.tail = start (read text) q'.tail)
    (stops : tree.walk read false budget here todo = .ok q)
    (stops' : tree.walk read false budget here' todo' = .ok q')
    (goesOn : tree.walk read true budget here todo = .ok r)
    (goesOn' : tree.walk read true budget here' todo' = .ok r') : r = r' := by
  obtain ⟨left, leads⟩ := walk_of_link noLink hq stops goesOn
  obtain ⟨left', leads'⟩ := walk_of_link noLink' hq' stops' goesOn'
  rw [← sameStart] at leads'
  have whole := walk_mono (Nat.le_max_left left left') leads
  have whole' := walk_mono (Nat.le_max_right left left') leads'
  rw [whole] at whole'
  exact Except.ok.inj whole'

end FileTree

end PumaDev
