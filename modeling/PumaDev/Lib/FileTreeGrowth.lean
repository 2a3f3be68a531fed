import PumaDev.Lib.FileTree

/-!
# File trees that grow

A tree **extends** another if everything is still where it was.  Then whatever could be
reached is reached where it was (`walk_of_extends`); only paths that led nowhere may lead
somewhere now.

`withLink` adds one link at a place where nothing is.  A path that ends at the new link goes
on where the text of the link leads (`walk_to_link`), with one reservation: the links on the
way are counted together, and a system that counts to a limit may give up where it would
have got through from the text alone.
-/

namespace PumaDev

universe u v w

namespace FileTree

variable {κ : Type w} {τ : Type u} {γ : Type v} {tree tree' : FileTree κ τ γ}
  {read : τ → Target κ}

/-- Everything that is in `tree` is in `tree'`, in its place. -/
def Extends (tree tree' : FileTree κ τ γ) : Prop :=
  ∀ place n, tree.node place = some n → tree'.node place = some n

theorem Extends.refl (tree : FileTree κ τ γ) : tree.Extends tree := fun _ _ => id

theorem Extends.trans {tree'' : FileTree κ τ γ} (first : tree.Extends tree')
    (second : tree'.Extends tree'') : tree.Extends tree'' :=
  fun place n here => second place n (first place n here)

theorem Extends.any {p : Node τ γ → Bool} (grows : tree.Extends tree') {place : List κ}
    (here : (tree.node place).any p) : (tree'.node place).any p := by
  cases found : tree.node place with
  | none => simp [found] at here
  | some n =>
      rw [grows place n found]
      rwa [found] at here

/-- A step that was possible leads where it led, to something that is there. -/
theorem advance_of_extends (grows : tree.Extends tree') {here next : List κ} {move : Move κ}
    (h : tree.advance here move = .ok next) :
    tree'.advance here move = .ok next ∧ ∃ n, tree.node next = some n := by
  unfold advance at h ⊢
  split at h
  · next searchable at_ =>
      rw [grows here _ at_]
      cases move with
      | stay =>
          cases h
          exact ⟨rfl, _, at_⟩
      | up =>
          dsimp only at h ⊢
          split_ifs at h ⊢
          cases h
          refine ⟨rfl, ?_⟩
          cases here with
          | nil => exact ⟨_, at_⟩
          | cons c p =>
              have isDir := tree.parent c p (by simp [at_])
              cases above : tree.node p with
              | none => simp [above] at isDir
              | some n => exact ⟨n, above⟩
      | into c =>
          dsimp only at h ⊢
          split_ifs at h with closed present
          cases h
          obtain ⟨n, found⟩ := Option.isSome_iff_exists.mp present
          rw [if_neg (not_not.mpr closed), grows _ n found]
          exact ⟨rfl, n, found⟩
  · cases h
  · cases h

/-- A pass that came through comes through in the larger tree. -/
theorem walkWith_of_extends (grows : tree.Extends tree') {followLast : Bool}
    {follow follow' : List κ → List (Move κ) → Except WalkError (List κ)}
    (further : ∀ here todo r, follow here todo = .ok r → follow' here todo = .ok r) :
    ∀ (todo : List (Move κ)) (here r : List κ),
      tree.walkWith read followLast follow here todo = .ok r →
        tree'.walkWith read followLast follow' here todo = .ok r := by
  intro todo
  induction todo with
  | nil => exact fun here r h => h
  | cons move rest ih =>
      intro here r h
      cases hadvance : tree.advance here move with
      | error e => simp [walkWith, hadvance] at h
      | ok next =>
          obtain ⟨same, n, found⟩ := advance_of_extends grows hadvance
          simp only [walkWith, hadvance, same, found, grows next n found] at h ⊢
          cases n with
          | dir | file => exact ih next r h
          | link text =>
              dsimp only at h ⊢
              split_ifs at h ⊢
              · exact h
              · exact further _ _ r h

/-- **What was reached is reached.** -/
theorem walk_of_extends (grows : tree.Extends tree') {followLast : Bool} {budget : ℕ}
    {here r : List κ} {todo : List (Move κ)}
    (h : tree.walk read followLast budget here todo = .ok r) :
    tree'.walk read followLast budget here todo = .ok r := by
  induction budget generalizing here todo r with
  | zero => exact walkWith_of_extends grows (fun _ _ _ impossible => by cases impossible) _ _ _ h
  | succ n ih => exact walkWith_of_extends grows (fun _ _ _ deeper => ih deeper) _ _ _ h

/-! ## Budgets -/

/-- A pass whose links lead as far, or not at all. -/
theorem walkWith_le {followLast : Bool}
    {follow follow' : List κ → List (Move κ) → Except WalkError (List κ)}
    (further : ∀ here todo,
      follow here todo = follow' here todo ∨ follow here todo = .error .loop) :
    ∀ (todo : List (Move κ)) (here : List κ),
      tree.walkWith read followLast follow here todo =
          tree.walkWith read followLast follow' here todo ∨
        tree.walkWith read followLast follow here todo = .error .loop := by
  intro todo
  induction todo with
  | nil => exact fun here => .inl rfl
  | cons move rest ih =>
      intro here
      simp only [walkWith]
      cases tree.advance here move with
      | error e => exact .inl rfl
      | ok next =>
          dsimp only
          cases tree.node next with
          | none => exact ih next
          | some n =>
              cases n with
              | dir | file => exact ih next
              | link text =>
                  dsimp only
                  split_ifs
                  · exact .inl rfl
                  · exact further _ _

/-- **A smaller budget** changes nothing, or it is used up. -/
theorem walk_le {followLast : Bool} {budget budget' : ℕ} (less : budget ≤ budget')
    (here : List κ) (todo : List (Move κ)) :
    tree.walk read followLast budget here todo = tree.walk read followLast budget' here todo ∨
      tree.walk read followLast budget here todo = .error .loop := by
  induction budget generalizing budget' here todo with
  | zero =>
      cases budget' with
      | zero => exact .inl rfl
      | succ n => exact walkWith_le (fun _ _ => .inr rfl) todo here
  | succ n ih =>
      obtain ⟨m, rfl⟩ := Nat.exists_eq_add_of_lt (Nat.lt_of_succ_le less)
      exact walkWith_le (fun here todo => ih (Nat.le_add_right n m) here todo) todo here

/-- **One path after another**: what is left of the budget after the first is there for the
second. -/
theorem walk_append {budget : ℕ} {here mid : List κ} {todo more : List (Move κ)}
    (goesOn : more ≠ []) (h : tree.walk read true budget here todo = .ok mid) :
    ∃ left ≤ budget, ∀ followLast,
      tree.walk read followLast budget here (todo ++ more) =
        tree.walk read followLast left mid more := by
  induction budget generalizing here todo with
  | zero =>
      refine ⟨0, le_rfl, fun followLast => ?_⟩
      induction todo generalizing here with
      | nil =>
          cases h
          rfl
      | cons move rest ih =>
          simp only [walk, walkWith, List.cons_append] at h ⊢
          cases hadvance : tree.advance here move with
          | error e => simp [hadvance] at h
          | ok next =>
              simp only [hadvance] at h ⊢
              cases hnode : tree.node next with
              | none =>
                  rw [hnode] at h
                  exact ih h
              | some n =>
                  rw [hnode] at h
                  cases n with
                  | dir | file => exact ih h
                  | link text => simp at h
  | succ n deeper =>
      induction todo generalizing here with
      | nil =>
          cases h
          exact ⟨n + 1, le_rfl, fun _ => rfl⟩
      | cons move rest ih =>
          simp only [walk, walkWith, List.cons_append] at h ⊢
          cases hadvance : tree.advance here move with
          | error e => simp [hadvance] at h
          | ok next =>
              simp only [hadvance] at h ⊢
              cases hnode : tree.node next with
              | none =>
                  rw [hnode] at h
                  exact ih h
              | some node =>
                  rw [hnode] at h
                  cases node with
                  | dir | file => exact ih h
                  | link text =>
                      simp only [reduceCtorEq, and_false, if_false] at h
                      obtain ⟨left, less, same⟩ := deeper h
                      refine ⟨left, Nat.le_succ_of_le less, fun followLast => ?_⟩
                      have goes : ¬ (rest ++ more = [] ∧ followLast = false) := fun last =>
                        goesOn (List.append_eq_nil_iff.mp last.1).2
                      dsimp only
                      rw [if_neg goes, ← List.append_assoc]
                      exact same followLast

/-- **A path that ends at a link**: the link is reached, and behind it comes what its text
leads to, unless the budget is used up. -/
theorem walk_to_link {budget : ℕ} {here above : List κ} {todo : List (Move κ)} {c : κ} {text : τ}
    (h : tree.walk read true budget here todo = .ok above)
    (enters : tree.advance above (.into c) = .ok (c :: above))
    (link : tree.node (c :: above) = some (.link text)) :
    tree.walk read false budget here (todo ++ [.into c]) = .ok (c :: above) ∧
      (tree.walk read true budget here (todo ++ [.into c]) =
          tree.walk read true budget (start (read text) above) (read text).moves ∨
        tree.walk read true budget here (todo ++ [.into c]) = .error .loop) := by
  have goesOn : [Move.into c] ≠ [] := List.cons_ne_nil _ _
  obtain ⟨left, less, same⟩ := walk_append goesOn h
  rw [same false, same true]
  cases left with
  | zero =>
      exact ⟨by simp [walk, walkWith, enters, link], .inr (by simp [walk, walkWith, enters, link])⟩
  | succ n =>
      refine ⟨by simp [walk, walkWith, enters, link], ?_⟩
      have behind : tree.walk read true (n + 1) above [.into c] =
          tree.walk read true n (start (read text) above) (read text).moves := by
        simp [walk, walkWith, enters, link]
      rw [behind]
      exact walk_le (Nat.le_of_succ_le less) _ _

/-! ## A new link -/

variable [DecidableEq κ]

/-- The tree with a link in a directory, where nothing is. -/
def withLink (tree : FileTree κ τ γ) (c : κ) (here : List κ)
    (isDir : (tree.node here).any Node.isDir) (text : τ) : FileTree κ τ γ where
  node := fun place =>
    if place = c :: here ∧ tree.node place = none then some (.link text) else tree.node place
  root := by simpa using tree.root
  parent := by
    intro d p present
    have isDir' : (tree.node p).any Node.isDir := by
      by_cases new : d :: p = c :: here ∧ tree.node (d :: p) = none
      · rw [(List.cons.inj new.1).2]
        exact isDir
      · rw [if_neg new] at present
        exact tree.parent d p present
    rw [if_neg fun new => by simp [new.2] at isDir']
    exact isDir'

variable {c : κ} {here : List κ} {isDir : (tree.node here).any Node.isDir} {text : τ}

theorem extends_withLink : tree.Extends (tree.withLink c here isDir text) := by
  intro place n found
  simp [withLink, found]

theorem node_withLink (free : tree.node (c :: here) = none) :
    (tree.withLink c here isDir text).node (c :: here) = some (.link text) := by
  simp [withLink, free]

end FileTree

end PumaDev
