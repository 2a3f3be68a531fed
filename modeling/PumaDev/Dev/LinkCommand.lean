import PumaDev.Dev.LaunchAgent
import PumaDev.Dev.LinkIdentity
import PumaDev.Lib.FileTreeGrowth

/-!
# `puma-dev link`

The command puts a link to a directory into the directory of apps, from where the server
serves it.  Everything it does to the file tree is one `os.Symlink`, and only where
`os.Stat` has found nothing.

The program runs, is done, and is run again, each time from another working directory and
with other arguments, and the file tree is all that is carried over: `commandMachine` is the
machine of these runs.  The first link of a name is the one that stays: no later command
changes anything that is there (`linked_of_run`).  And the server finds it under its name,
with the directory as the text of the link (`locate_of_link`).
-/

namespace PumaDev

open Filepath

/-- The file tree of the system. -/
abbrev Files := FileTree GoString GoString GoString

/-! ## `os.Symlink` -/

/-- A place in a directory, where nothing is. -/
structure Vacancy (tree : Files) where
  dir : List GoString
  name : GoString
  isDir : (tree.node dir).any Node.isDir
  free : tree.node (name :: dir) = none

/-- The tree with a link there. -/
def Vacancy.fill {tree : Files} (v : Vacancy tree) (text : GoString) : Files :=
  tree.withLink v.name v.dir v.isDir text

namespace World

/-- The place that a new file would have, or the system's error. -/
def vacancy (w : World) (path : GoString) : Except GoString (Vacancy w.tree) :=
  if path = [] then .error WalkError.notExist.text
  else
    match w.tree.walk target true w.maxLinks (w.origin path) (moves path).dropLast with
    | .error e => .error e.text
    | .ok dir =>
        match (moves path).getLast? with
        | some (.into name) =>
            match here : w.tree.node dir with
            | none => .error WalkError.notExist.text
            | some (.dir searchable) =>
                if ¬ searchable then .error WalkError.denied.text
                else
                  match free : w.tree.node (name :: dir) with
                  | none => .ok ⟨dir, name, by rw [here]; rfl, free⟩
                  | some _ => .error "file exists".toList
            | some _ => .error WalkError.notDir.text
        | some move =>
            match w.tree.advance dir move with
            | .error e => .error e.text
            | .ok _ => .error "file exists".toList
        | none => .error "file exists".toList

/-- `os.Symlink`; `refusal` is why the system does not write where it could. -/
def symlink (w : World) (refusal : Option GoString) (text path : GoString) :
    Except GoString Files :=
  let failed (err : GoString) : Except GoString Files :=
    .error ("symlink ".toList ++ text ++ ' ' :: path ++ ": ".toList ++ err)
  if text = [] then failed WalkError.notExist.text
  else
    match w.vacancy path, refusal with
    | .error err, _ => failed err
    | .ok _, some err => failed err
    | .ok v, none => .ok (v.fill text)

end World

/-! ## The command -/

/-- `filepath.Abs`. -/
def Filepath.abs (getwd : Except GoString GoString) (path : GoString) : Except GoString GoString :=
  if isAbs path then .ok (clean path) else getwd.map fun wd => join [wd, path]

/-- One run of the program with a command; `args` are the arguments behind the flags. -/
structure Invocation where
  cwd : List GoString
  getwd : Except GoString GoString
  homeDir : Except GoError GoString
  refusal : Option GoString
  errorsContext : GoString → GoString → GoString
  /-- The flag `-dir`. -/
  fDir : GoString
  args : List GoString

/-- What a command comes to. -/
inductive CommandResult where
  /-- The flags of `link` end the program. -/
  | exits
  | failed (err : GoString)
  | alreadyExists (name : GoString) (dest : Option GoString)
  | created (name dir : GoString)
  deriving DecidableEq

/-- What `execWithExitStatus` prints. -/
def CommandResult.stdout : CommandResult → GoString
  | exits => []
  | failed err => "Error: ".toList ++ err ++ ['\n']
  | alreadyExists name (some dest) =>
      "! App '".toList ++ name ++ "' already exists, pointed at '".toList ++ dest ++ "'\n".toList
  | alreadyExists name none => "! App '".toList ++ name ++ "' already exists'\n".toList
  | created name dir =>
      "+ App '".toList ++ name ++ "' created, linked to '".toList ++ dir ++ "'\n".toList

/-- The flags of `link`. -/
def linkFlags : GoString → Option (Flag GoString)
  | ['n'] => some ⟨false, fun _ value => some value⟩
  | _ => none

/-- The directory to link to: the argument, or else the working directory, which is not looked
at. -/
def linkDir (w : World) (getwd : Except GoString GoString) : List GoString →
    Except GoString GoString
  | [] => getwd
  | arg :: _ =>
      match Filepath.abs getwd arg with
      | .error err => .error err
      | .ok dir =>
          match w.stat dir with
          | .error err =>
              .error (if err.isNotExist then "invalid directory: ".toList ++ dir else err.text)
          | .ok isDir => if isDir then .ok dir else .error ("invalid directory: ".toList ++ dir)

/-- The name, for which the base name of the directory stands in. -/
def linkName (name dir : GoString) : GoString :=
  if name = [] then Strings.replaceByte (if dir = [] then ['.'] else base dir) '.' '_' else name

/-- `link`: the file tree it leaves, and what it comes to. -/
def link (i : Invocation) (w : World) (args : List GoString) : Files × CommandResult :=
  match Flag.parse linkFlags [] args with
  | none => (w.tree, .exits)
  | some (name, operands) =>
      match linkDir w i.getwd operands with
      | .error err => (w.tree, .failed err)
      | .ok dir =>
          let name := linkName name dir
          match Homedir.expand i.homeDir (join [i.fDir, name]) with
          | .error err => (w.tree, .failed err.text)
          | .ok dest =>
              match w.stat dest with
              | .ok _ => (w.tree, .alreadyExists name (w.readlink dest))
              | .error _ =>
                  match w.symlink i.refusal dir dest with
                  | .error err => (w.tree, .failed (i.errorsContext err "creating symlink".toList))
                  | .ok tree => (tree, .created name dir)

/-- `command`. -/
def command (i : Invocation) (w : World) : Files × CommandResult :=
  match i.args with
  | [] => (w.tree, .failed "unknown command: ".toList)
  | name :: args =>
      if name = "link".toList then link i w args
      else (w.tree, .failed ("unknown command: ".toList ++ name))

/-- The world of one run. -/
def Invocation.world (i : Invocation) (tree : Files) (maxLinks : ℕ)
    (here : (tree.node i.cwd).any Node.isDir) : World := ⟨tree, i.cwd, here, maxLinks⟩

/-- One run after the other, on the same file tree. -/
def commandMachine (maxLinks : ℕ) (tree : Files) : Machine Files Invocation where
  init := tree
  step := fun t i =>
    if here : (t.node i.cwd).any Node.isDir then some (command i (i.world t maxLinks here)).1
    else none

/-! ## What one command does -/

variable {w : World}

/-- Where a new file would be: its directory is reached, and can be entered. -/
theorem World.vacancy_eq_ok {path : GoString} {v : Vacancy w.tree} (h : w.vacancy path = .ok v) :
    moves path = (moves path).dropLast ++ [.into v.name] ∧ path ≠ [] ∧
      w.tree.walk target true w.maxLinks (w.origin path) (moves path).dropLast = .ok v.dir ∧
      w.tree.node v.dir = some (.dir true) := by
  unfold World.vacancy at h
  split at h
  · cases h
  · next nonempty =>
      split at h
      · cases h
      · next dir reached =>
          split at h
          · next name last =>
              have split_ : moves path = (moves path).dropLast ++ [.into name] :=
                (List.dropLast_append_getLast? _ last).symm
              split at h
              · cases h
              · next searchable here =>
                  split_ifs at h with entered
                  split at h
                  · cases h
                    refine ⟨split_, nonempty, reached, ?_⟩
                    rw [here, entered]
                  · cases h
              · cases h
          · split at h <;> cases h
          · cases h

/-- What `os.Symlink` has made. -/
theorem World.symlink_eq_ok {refusal : Option GoString} {text path : GoString} {tree : Files}
    (h : w.symlink refusal text path = .ok tree) :
    text ≠ [] ∧ ∃ v, w.vacancy path = .ok v ∧ tree = v.fill text := by
  unfold World.symlink at h
  dsimp only at h
  split_ifs at h with empty
  split at h
  · cases h
  · cases h
  · next v vacant =>
      cases h
      exact ⟨empty, v, vacant, rfl⟩

/-- **What a command does to the file tree**: nothing, or one link where nothing was. -/
inductive CommandMove (i : Invocation) (w : World) : Files → CommandResult → Prop
  | exits : CommandMove i w w.tree .exits
  | failed (err : GoString) : CommandMove i w w.tree (.failed err)
  | alreadyExists {name dest : GoString} {isDir : Bool}
      (expanded : Homedir.expand i.homeDir (join [i.fDir, name]) = .ok dest)
      (there : w.stat dest = .ok isDir) :
      CommandMove i w w.tree (.alreadyExists name (w.readlink dest))
  | created {name dir dest : GoString} {v : Vacancy w.tree}
      (named : ∃ operands, linkDir w i.getwd operands = .ok dir) (nonempty : dir ≠ [])
      (expanded : Homedir.expand i.homeDir (join [i.fDir, name]) = .ok dest)
      (vacant : w.vacancy dest = .ok v) : CommandMove i w (v.fill dir) (.created name dir)

theorem commandMove (i : Invocation) (w : World) :
    CommandMove i w (command i w).1 (command i w).2 := by
  unfold command
  split
  · exact .failed _
  · split_ifs
    · unfold link
      split
      · exact .exits
      · next name operands parsed =>
          split
          · exact .failed _
          · next dir named =>
              dsimp only
              split
              · exact .failed _
              · next dest expanded =>
                  split
                  · next isDir there => exact .alreadyExists expanded there
                  · split
                    · exact .failed _
                    · next tree made =>
                        obtain ⟨nonempty, v, vacant, rfl⟩ := World.symlink_eq_ok made
                        exact .created ⟨operands, named⟩ nonempty expanded vacant
    · exact .failed _

/-- Whatever is there stays there. -/
theorem CommandMove.extends {i : Invocation} {tree : Files} {result : CommandResult}
    (h : CommandMove i w tree result) : w.tree.Extends tree := by
  cases h with
  | created => exact FileTree.extends_withLink
  | _ => exact FileTree.Extends.refl w.tree

/-- A step is one command. -/
theorem command_of_step {maxLinks : ℕ} {init t u : Files} {i : Invocation}
    (step : (commandMachine maxLinks init).step t i = some u) :
    ∃ here, (command i (i.world t maxLinks here)).1 = u := by
  simp only [commandMachine] at step
  split_ifs at step with here
  exact ⟨here, Option.some.inj step⟩

/-- **Nothing goes away**, over whole runs. -/
theorem extends_of_exec {maxLinks : ℕ} {init t u : Files} {is : List Invocation}
    (run : (commandMachine maxLinks init).exec t is = some u) : t.Extends u := by
  refine (commandMachine maxLinks init).exec_induction (P := fun _ u => t.Extends u)
    (FileTree.Extends.refl t) ?_ run
  intro past v i u before step
  obtain ⟨here, rfl⟩ := command_of_step step
  exact before.trans (commandMove i (i.world v maxLinks here)).extends

/-! ## What a link is good for -/

/-- A world that has grown out of another one, seen from the same place. -/
structure World.Grown (w w' : World) (path : GoString) : Prop where
  tree : w.tree.Extends w'.tree
  maxLinks : w'.maxLinks = w.maxLinks
  origin : w'.origin path = w.origin path

/-- What had a place has it still. -/
theorem World.Grown.resolve {w' : World} {path : GoString} (grown : w.Grown w' path)
    {followLast : Bool} {place : List GoString} (h : w.resolve followLast path = .ok place) :
    w'.resolve followLast path = .ok place := by
  unfold World.resolve at h ⊢
  split_ifs at h ⊢
  rw [grown.maxLinks, grown.origin]
  exact FileTree.walk_of_extends grown.tree h

/-- A directory is one still. -/
theorem World.Grown.stat {w' : World} {path : GoString} (grown : w.Grown w' path)
    (h : w.stat path = .ok true) : w'.stat path = .ok true := by
  unfold World.stat at h ⊢
  split at h
  · cases h
  · next place reached =>
      rw [grown.resolve reached]
      exact congrArg Except.ok (grown.tree.any (Except.ok.inj h))

/-- **A link that is there**: it is read, and it leads where its text leads, unless too many
links are on the way. -/
theorem World.link_of_vacancy {w' : World} {dir dest : GoString} {v : Vacancy w.tree}
    (vacant : w.vacancy dest = .ok v) (abs : isAbs dir = true)
    (grown : (v.fill dir).Extends w'.tree) (maxLinks : w'.maxLinks = w.maxLinks)
    (origin : w'.origin dest = w.origin dest) :
    w'.readlink dest = some dir ∧
      (w'.resolve true dest = w'.resolve true dir ∨ w'.resolve true dest = .error .loop) := by
  obtain ⟨split_, nonempty, reached, above⟩ := World.vacancy_eq_ok vacant
  have larger : w.tree.Extends w'.tree := FileTree.extends_withLink.trans grown
  have link : w'.tree.node (v.name :: v.dir) = some (.link dir) :=
    grown _ _ (FileTree.node_withLink v.free)
  have enters : w'.tree.advance v.dir (.into v.name) = .ok (v.name :: v.dir) := by
    simp [FileTree.advance, larger _ _ above, link]
  obtain ⟨stops, goesOn⟩ := FileTree.walk_to_link (FileTree.walk_of_extends larger reached)
    enters link
  have here : ∀ followLast, w'.resolve followLast dest = w'.tree.walk target followLast w.maxLinks
      (w.origin dest) ((moves dest).dropLast ++ [.into v.name]) := by
    intro followLast
    rw [World.resolve, if_neg nonempty, maxLinks, origin, ← split_]
  have there : w'.resolve true dir = w'.tree.walk target true w.maxLinks
      (FileTree.start (target dir) v.dir) (target dir).moves := by
    have start : FileTree.start (target dir) v.dir = w'.origin dir := by
      rw [FileTree.start, World.origin, if_pos abs]
      exact if_pos abs
    have some_ : dir ≠ [] := by
      rintro rfl
      cases abs
    rw [World.resolve, if_neg some_, maxLinks, start]
    rfl
  rw [there, here true]
  refine ⟨?_, goesOn⟩
  rw [World.readlink, here false, stops]
  dsimp only
  rw [link]

/-! ## Paths of the command and of the server -/

/-- What is linked to is named by an absolute path. -/
theorem isAbs_of_linkDir {getwd : Except GoString GoString} {operands : List GoString}
    {dir : GoString} (absolute : ∀ wd, getwd = .ok wd → isAbs wd = true)
    (h : linkDir w getwd operands = .ok dir) : isAbs dir = true := by
  cases operands with
  | nil => exact absolute dir h
  | cons arg rest =>
      have made : Filepath.abs getwd arg = .ok dir := by
        unfold linkDir at h
        dsimp only at h
        split at h
        · cases h
        · next dir' made =>
            split at h
            · cases h
            · split_ifs at h
              cases h
              exact made
      unfold Filepath.abs at made
      split at made
      · next abs =>
          cases made
          rw [clean_of_isAbs abs]
          rfl
      · cases wd : getwd with
        | error err =>
            rw [wd] at made
            cases made
        | ok wd' =>
            rw [wd] at made
            cases made
            exact isAbs_join (absolute wd' wd) arg

/-- And there is a directory. -/
theorem stat_of_linkDir {getwd : Except GoString GoString} {operands : List GoString}
    {dir : GoString} (isDir : ∀ wd, getwd = .ok wd → w.stat wd = .ok true)
    (h : linkDir w getwd operands = .ok dir) : w.stat dir = .ok true := by
  cases operands with
  | nil => exact isDir dir h
  | cons arg rest =>
      unfold linkDir at h
      dsimp only at h
      split at h
      · cases h
      · split at h
        · cases h
        · next isDir' there =>
            split_ifs at h with directory
            cases h
            rw [there, directory]

/-- A directory of apps that is absolute, or below the home directory. -/
def Homely (fDir : GoString) : Prop :=
  isAbs fDir = true ∨
    fDir = ['~'] ∨ ∃ rest, fDir = '~' :: sep :: rest ∧ (descent rest).ups = 0

/-- A name on its own. -/
theorem descent_plain {name : GoString} (plain : Plain name) : descent name = ⟨0, [name]⟩ := by
  have whole : Strings.split name sep = [name] := List.splitOn_eq_singleton plain.no_sep
  have enters : moveOf name = .into name := moveOf_eq_into_iff.mpr
    ⟨plain.nonempty, plain.not_dot, plain.not_dotdot, rfl⟩
  rw [descent, moves, whole, List.map_singleton, enters]
  exact Descent.descend_into [name]

/-- A path below an absolute directory, spelled out. -/
theorem join_eq_render {dir : GoString} (abs : isAbs dir = true) (name : GoString) :
    join [dir, name] = sep :: Strings.join ((descent dir).comp (descent name)).down sep := by
  rw [join_of_isAbs abs, clean_of_isAbs (isAbs_join_text abs name), descent_join_text]

/-- What joining below an absolute directory descends to. -/
theorem descent_join {dir : GoString} (abs : isAbs dir = true) (name : GoString) :
    descent (join [dir, name]) = ⟨0, ((descent dir).comp (descent name)).down⟩ := by
  rw [join_eq_render abs, ← descent_join_text]
  exact descent_render fun c mem => plain_of_mem_down mem

/-- The rest of a path behind the home directory. -/
theorem Homely.split {fDir : GoString} (homely : Homely fDir) (relative : isAbs fDir = false) :
    ∃ rest down, fDir = '~' :: rest ∧ (rest.head?.any fun c => c ≠ '/' && c ≠ '\\') = false ∧
      descent rest = ⟨0, down⟩ ∧ descent fDir = ⟨0, ['~'] :: down⟩ := by
  rcases homely with abs | rfl | ⟨rest, rfl, below⟩
  · rw [abs] at relative
    cases relative
  · exact ⟨[], [], rfl, rfl, rfl, by decide⟩
  · have behind : descent (sep :: rest) = descent rest := by
      have text : sep :: rest = Strings.join [[], rest] sep := by
        simp [Strings.join, List.intercalate, List.intersperse]
      have nowhere : descent [] = Descent.here := by decide
      rw [text, descent_join_text, nowhere]
      simp [Descent.comp, Descent.here]
    have home : descent ('~' :: sep :: rest) = ⟨0, ['~'] :: (descent rest).down⟩ := by
      have text : '~' :: sep :: rest = Strings.join [['~'], rest] sep := by
        simp [Strings.join, List.intercalate, List.intersperse]
      have own : descent ['~'] = ⟨0, [['~']]⟩ := by decide
      rw [text, descent_join_text, own]
      simp [Descent.comp, below]
    exact ⟨sep :: rest, (descent rest).down, rfl, by simp [sep], by rw [behind, ← below], home⟩

/-- **The command and the server mean the same path**: it makes no difference whether `~` is
expanded before the name is joined or afterwards. -/
theorem expand_join {homeDir : Except GoError GoString} {fDir name dir : GoString}
    (home : ∀ h, homeDir = .ok h → isAbs h = true) (homely : Homely fDir) (plain : Plain name)
    (served : Homedir.expand homeDir fDir = .ok dir) :
    Homedir.expand homeDir (join [fDir, name]) = .ok (join [dir, name]) := by
  cases abs : isAbs fDir with
  | true =>
      have absolute : ∀ {p : GoString}, isAbs p = true → Homedir.expand homeDir p = .ok p := by
        intro p abs
        cases p with
        | nil => cases abs
        | cons c rest =>
            have slash : c = sep := by simpa [isAbs] using abs
            subst slash
            rfl
      rw [absolute abs] at served
      cases served
      exact absolute (isAbs_join abs name)
  | false =>
      obtain ⟨rest, down, rfl, expands, behind, whole⟩ := homely.split abs
      have text : join ['~' :: rest, name] = '~' :: sep :: Strings.join (down ++ [name]) sep := by
        have below : descent (Strings.join ['~' :: rest, name] sep) =
            ⟨0, ['~'] :: (down ++ [name])⟩ := by
          rw [descent_join_text, whole, descent_plain plain]
          simp [Descent.comp]
        have relative : isAbs (Strings.join ['~' :: rest, name] sep) = false := by
          simp [isAbs, Strings.join, List.intercalate, List.intersperse, sep]
        show clean (Strings.join ['~' :: rest, name] sep) = _
        rw [clean_of_relative relative (by rw [below]; simp), below]
        have apart : Strings.join ([['~']] ++ (down ++ [name])) sep =
            Strings.join [['~']] sep ++ sep :: Strings.join (down ++ [name]) sep :=
          Strings.join_append sep (by simp) (by simp)
        exact apart
      have expanded : ∀ rest : GoString,
          (rest.head?.any fun c => c ≠ '/' && c ≠ '\\') = false →
          Homedir.expand homeDir ('~' :: rest) = homeDir.map fun h => join [h, rest] := by
        intro rest expands
        rw [Homedir.expand, if_neg (by rw [expands]; decide)]
      rw [expanded rest expands] at served
      cases known : homeDir with
      | error err =>
          rw [known] at served
          cases served
      | ok h =>
          rw [known] at served expanded
          cases served
          have abs := home h known
          have plainDown : ∀ c ∈ down ++ [name], Plain c := by
            intro c mem
            rcases List.mem_append.mp mem with inDown | last
            · exact plain_of_mem_down (p := rest) (by rw [behind]; exact inDown)
            · exact List.mem_singleton.mp last ▸ plain
          rw [text, expanded _ (by simp [sep])]
          show Except.ok (join [h, sep :: Strings.join (down ++ [name]) sep]) = _
          rw [join_eq_render abs, join_eq_render (isAbs_join abs rest), descent_join abs,
            descent_render plainDown, descent_plain plain, behind]
          have onward : ∀ down down' : List GoString,
              (Descent.mk 0 down).comp ⟨0, down'⟩ = ⟨0, down ++ down'⟩ := by
            simp [Descent.comp]
          rw [onward]
          simp [Descent.comp]

/-- The server's directory is absolute. -/
theorem isAbs_of_served {homeDir : Except GoError GoString} {fDir dir : GoString}
    (home : ∀ h, homeDir = .ok h → isAbs h = true) (homely : Homely fDir)
    (served : Homedir.expand homeDir fDir = .ok dir) : isAbs dir = true := by
  cases abs : isAbs fDir with
  | true =>
      cases fDir with
      | nil => cases abs
      | cons c rest =>
          have slash : c = sep := by simpa [isAbs] using abs
          subst slash
          cases served
          exact abs
  | false =>
      obtain ⟨rest, -, rfl, expands, -, -⟩ := homely.split abs
      rw [Homedir.expand, if_neg (by rw [expands]; decide)] at served
      cases known : homeDir with
      | error err =>
          rw [known] at served
          cases served
      | ok h =>
          rw [known] at served
          cases served
          exact isAbs_join (home h known) rest

/-! ## The first link stays -/

/-- A place in which something is cannot be linked at once more. -/
theorem World.vacancy_ne_of_link {w' : World} {dest : GoString} {v : Vacancy w.tree}
    (vacant : w.vacancy dest = .ok v) {dir : GoString} (grown : (v.fill dir).Extends w'.tree)
    (maxLinks : w'.maxLinks = w.maxLinks) (origin : w'.origin dest = w.origin dest)
    (v' : Vacancy w'.tree) : w'.vacancy dest ≠ .ok v' := by
  intro vacant'
  obtain ⟨split_, -, reached, -⟩ := World.vacancy_eq_ok vacant
  obtain ⟨split_', -, reached', -⟩ := World.vacancy_eq_ok vacant'
  have larger : w.tree.Extends w'.tree := FileTree.extends_withLink.trans grown
  have sameDir : v.dir = v'.dir := by
    have still := FileTree.walk_of_extends larger reached
    rw [maxLinks, origin, still] at reached'
    exact Except.ok.inj reached'
  have sameName : v.name = v'.name := by
    have last := List.append_cancel_left (split_.symm.trans split_')
    exact Move.into.inj (List.cons.inj last).1
  have link : w'.tree.node (v.name :: v.dir) = some (.link dir) :=
    grown _ _ (FileTree.node_withLink v.free)
  have free := v'.free
  rw [← sameDir, ← sameName, link] at free
  cases free

/-- What is created is one link. -/
theorem CommandMove.of_created {i : Invocation} {tree : Files} {name dir : GoString}
    (h : CommandMove i w tree (.created name dir)) :
    ∃ dest v, (∃ operands, linkDir w i.getwd operands = .ok dir) ∧
      Homedir.expand i.homeDir (join [i.fDir, name]) = .ok dest ∧ w.vacancy dest = .ok v ∧
      tree = v.fill dir := by
  cases h with
  | created named nonempty expanded vacant => exact ⟨_, _, named, expanded, vacant, rfl⟩

/-- What is said of an app that is there is what is read there. -/
theorem CommandMove.of_alreadyExists {i : Invocation} {tree : Files} {name : GoString}
    {pointed : Option GoString} (h : CommandMove i w tree (.alreadyExists name pointed)) :
    ∃ dest, Homedir.expand i.homeDir (join [i.fDir, name]) = .ok dest ∧
      pointed = w.readlink dest := by
  cases h with
  | alreadyExists expanded there => exact ⟨_, expanded, rfl⟩

/-- **The first link of a name is the one that stays.**  Take any file tree, and a command that
says it has created the app `name`, linked to `dir`; let the program be run again any number of
times, with whatever arguments and from whatever directories.  Then everything that was in the
tree is in it still, and at the path of the app, read from the same place,

* is a link with the text `dir`, which leads where `dir` leads, unless the system gives up on
  the number of links;
* no later command creates anything;
* a command that says the app already exists says that it points at `dir`. -/
theorem linked_of_run {maxLinks : ℕ} {init t u : Files} {i : Invocation} {is : List Invocation}
    {name dir : GoString} (here : (t.node i.cwd).any Node.isDir)
    (absolute : ∀ wd, i.getwd = .ok wd → isAbs wd = true)
    (made : (command i (i.world t maxLinks here)).2 = .created name dir)
    (run : (commandMachine maxLinks init).exec t (i :: is) = some u) :
    t.Extends u ∧ ∃ dest, Homedir.expand i.homeDir (join [i.fDir, name]) = .ok dest ∧
      ∀ w : World, w.tree = u → w.maxLinks = maxLinks → (isAbs dest = true ∨ w.cwd = i.cwd) →
        (w.readlink dest = some dir ∧
          (w.resolve true dest = w.resolve true dir ∨ w.resolve true dest = .error .loop)) ∧
        ∀ j name', Homedir.expand j.homeDir (join [j.fDir, name']) = .ok dest →
          (∀ dir', (command j w).2 ≠ .created name' dir') ∧
          ∀ pointed, (command j w).2 = .alreadyExists name' pointed → pointed = some dir := by
  refine ⟨extends_of_exec run, ?_⟩
  obtain ⟨t', step, rest⟩ := Option.bind_eq_some_iff.mp run
  obtain ⟨_, left⟩ := command_of_step step
  have later := extends_of_exec rest
  have move := commandMove i (i.world t maxLinks here)
  rw [made, left] at move
  obtain ⟨dest, v, ⟨operands, named⟩, expanded, vacant, rfl⟩ := move.of_created
  refine ⟨dest, expanded, ?_⟩
  rintro w rfl sameLinks seen
  have origin : w.origin dest = (i.world t maxLinks here).origin dest := by
    unfold World.origin
    rcases seen with abs | same
    · rw [if_pos abs, if_pos abs]
    · rw [same]
      rfl
  have there := World.link_of_vacancy vacant (isAbs_of_linkDir absolute named) later sameLinks
    origin
  refine ⟨there, fun j name' expanded' => ⟨fun dir' again => ?_, fun pointed exists_ => ?_⟩⟩
  · have move' := commandMove j w
    rw [again] at move'
    obtain ⟨dest', v', -, expanded'', vacant', -⟩ := move'.of_created
    rw [expanded'] at expanded''
    cases expanded''
    exact World.vacancy_ne_of_link vacant later sameLinks origin v' vacant'
  · have move' := commandMove j w
    rw [exists_] at move'
    obtain ⟨dest', expanded'', rfl⟩ := move'.of_alreadyExists
    rw [expanded'] at expanded''
    cases expanded''
    exact there.1

/-- A home directory with one project. -/
def homeFiles : Files :=
  .ofList [(["home".toList], .dir true), (["u".toList, "home".toList], .dir true),
    ([".puma-dev".toList, "u".toList, "home".toList], .dir true),
    (["code".toList, "u".toList, "home".toList], .dir true),
    (["my.app".toList, "code".toList, "u".toList, "home".toList], .dir true)] (by decide)

/-- A command that is run from the home directory. -/
def fromHome (args : List GoString) : Invocation where
  cwd := ["u".toList, "home".toList]
  getwd := .ok "/home/u".toList
  homeDir := .ok "/home/u".toList
  refusal := none
  errorsContext err context := context ++ ": ".toList ++ err
  fDir := "~/.puma-dev".toList
  args := args

/-- `puma-dev link code/my.app`. -/
def linkMyApp : Invocation := fromHome ["link".toList, "code/my.app".toList]

theorem linkMyApp_created : (command linkMyApp (linkMyApp.world homeFiles 40 (by decide))).2 =
    .created "my_app".toList "/home/u/code/my.app".toList := by decide +kernel

/-- The name is linked elsewhere: the link stays. -/
theorem linked_myApp : ∃ u dest, (commandMachine 40 homeFiles).exec homeFiles
      [linkMyApp, fromHome ["link".toList, "-n".toList, "my_app".toList, "/home".toList]] = some u ∧
    Homedir.expand linkMyApp.homeDir (join [linkMyApp.fDir, "my_app".toList]) = .ok dest ∧
    ∀ w : World, w.tree = u → w.maxLinks = 40 → (isAbs dest = true ∨ w.cwd = linkMyApp.cwd) →
      w.readlink dest = some "/home/u/code/my.app".toList := by
  have through : ((commandMachine 40 homeFiles).exec homeFiles [linkMyApp,
      fromHome ["link".toList, "-n".toList, "my_app".toList, "/home".toList]]).isSome := by
    decide +kernel
  obtain ⟨u, run⟩ := Option.isSome_iff_exists.mp through
  obtain ⟨-, dest, expanded, there⟩ :=
    linked_of_run (by decide) (fun wd known => by cases known; decide) linkMyApp_created run
  exact ⟨u, dest, run, expanded, fun w tree links seen => (there w tree links seen).1.1⟩

/-! ## What the server finds -/

/-- At the path is a link to the directory, and it leads there, if the system goes that far. -/
structure World.Linked (w : World) (path dir : GoString) : Prop where
  absPath : isAbs path = true
  absDir : isAbs dir = true
  reads : w.readlink path = some dir
  leads : w.resolve true path = w.resolve true dir ∨ w.resolve true path = .error .loop
  isDir : w.stat dir = .ok true

/-- **What a command has created is there**, in every tree that grows out of the one it
left. -/
theorem World.linked_of_created {maxLinks : ℕ} {t : Files} {i : Invocation}
    {name dir pool : GoString} (here : (t.node i.cwd).any Node.isDir)
    (absolute : ∀ wd, i.getwd = .ok wd →
      isAbs wd = true ∧ (i.world t maxLinks here).stat wd = .ok true)
    (home : ∀ h, i.homeDir = .ok h → isAbs h = true) (homely : Homely i.fDir)
    (served : Homedir.expand i.homeDir i.fDir = .ok pool) (plain : Plain name)
    (made : (command i (i.world t maxLinks here)).2 = .created name dir)
    (later : (command i (i.world t maxLinks here)).1.Extends w.tree)
    (sameLinks : w.maxLinks = maxLinks) : w.Linked (join [pool, name]) dir := by
  have move := commandMove i (i.world t maxLinks here)
  rw [made] at move
  obtain ⟨dest, v, ⟨operands, named⟩, expanded, vacant, left⟩ := move.of_created
  rw [left] at later
  rw [expand_join home homely plain served] at expanded
  cases expanded
  have abs : isAbs (join [pool, name]) = true :=
    isAbs_join (isAbs_of_served home homely served) name
  have origin : ∀ {p : GoString}, isAbs p = true →
      w.origin p = (i.world t maxLinks here).origin p := by
    intro p abs
    rw [World.origin, World.origin, if_pos abs, if_pos abs]
  have absDir := isAbs_of_linkDir (fun wd known => (absolute wd known).1) named
  obtain ⟨reads, leads⟩ := World.link_of_vacancy vacant absDir later sameLinks (origin abs)
  exact
    { absPath := abs
      absDir := absDir
      reads := reads
      leads := leads
      isDir := World.Grown.stat (w := i.world t maxLinks here)
        ⟨FileTree.extends_withLink.trans later, sameLinks, origin absDir⟩
        (stat_of_linkDir (fun wd known => (absolute wd known).2) named) }

/-- What the system says of the path. -/
theorem World.Linked.stat {path dir : GoString} (linked : w.Linked path dir) :
    w.stat path = .ok true ∨ w.stat path = .error (WalkError.loop.stat path) := by
  rcases linked.leads with same | loops
  · left
    have isDir := linked.isDir
    unfold World.stat at isDir ⊢
    rw [same]
    split at isDir
    · cases isDir
    · exact isDir
  · right
    rw [World.stat, loops]

/-- What a server finds under the name. -/
theorem World.Linked.locate {pool name dir : GoString} (linked : w.Linked (join [pool, name]) dir)
    (base : Os) :
    (PumaDev.locate (w.os base) pool name).2 =
        .ok ⟨join [pool, name], ⟨Filepath.base (join [pool, name]), true⟩, dir⟩ ∨
      (PumaDev.locate (w.os base) pool name).2 =
        .error (.other (WalkError.loop.inOp "stat".toList (join [pool, name]))) := by
  have nonempty : join [pool, name] ≠ [] := by
    intro empty
    have abs := linked.absPath
    rw [empty] at abs
    cases abs
  have dest : (w.os base).readlinkAt .entry (join [pool, name]) = dir := by
    show (w.readlink (join [pool, name])).getD [] = dir
    rw [linked.reads]
    rfl
  have asked : (w.os base).statAt .entry (join [pool, name]) =
      (w.stat (join [pool, name])).map fun isDir =>
        ⟨Filepath.base (join [pool, name]), isDir⟩ := if_neg nonempty
  rcases linked.stat with found | loops
  · left
    unfold PumaDev.locate
    dsimp only
    rw [asked, found]
    simp only [Except.map]
    rw [dest]
  · right
    unfold PumaDev.locate
    dsimp only
    rw [asked, loops]
    rfl

/-- **From the command to the server.**  If a command has created the app `name`, linked to
`dir`, in a directory of apps that is absolute or below the home directory, then a server with
this directory finds, under the name, the link to `dir`, and a directory behind it: at once,
and after any number of further commands.  The one thing that can get in the way is the
number of links that the system follows in one path. -/
theorem locate_of_link {maxLinks : ℕ} {init t u : Files} {i : Invocation} {is : List Invocation}
    {name dir pool : GoString} (here : (t.node i.cwd).any Node.isDir)
    (absolute : ∀ wd, i.getwd = .ok wd →
      isAbs wd = true ∧ (i.world t maxLinks here).stat wd = .ok true)
    (home : ∀ h, i.homeDir = .ok h → isAbs h = true) (homely : Homely i.fDir)
    (served : Homedir.expand i.homeDir i.fDir = .ok pool) (plain : Plain name)
    (made : (command i (i.world t maxLinks here)).2 = .created name dir)
    (run : (commandMachine maxLinks init).exec t (i :: is) = some u) (base : Os) :
    ∀ w : World, w.tree = u → w.maxLinks = maxLinks →
      let path := join [pool, name]
      (locate (w.os base) pool name).2 = .ok ⟨path, ⟨Filepath.base path, true⟩, dir⟩ ∨
      (locate (w.os base) pool name).2 =
        .error (.other (WalkError.loop.inOp "stat".toList path)) := by
  rintro w rfl sameLinks path
  obtain ⟨t', step, rest⟩ := Option.bind_eq_some_iff.mp run
  obtain ⟨_, left⟩ := command_of_step step
  have later := extends_of_exec rest
  rw [← left] at later
  exact (World.linked_of_created here absolute home homely served plain made later
    sameLinks).locate base

/-- The server finds the project. -/
theorem locate_myApp : ∃ u, (commandMachine 40 homeFiles).exec homeFiles [linkMyApp] = some u ∧
    ∀ w : World, w.tree = u → w.maxLinks = 40 →
      let path := join ["/home/u/.puma-dev".toList, "my_app".toList]
      (locate (w.os default) "/home/u/.puma-dev".toList "my_app".toList).2 =
          .ok ⟨path, ⟨Filepath.base path, true⟩, "/home/u/code/my.app".toList⟩ ∨
        (locate (w.os default) "/home/u/.puma-dev".toList "my_app".toList).2 =
          .error (.other (WalkError.loop.inOp "stat".toList path)) := by
  have through : ((commandMachine 40 homeFiles).exec homeFiles [linkMyApp]).isSome := by
    decide +kernel
  obtain ⟨u, run⟩ := Option.isSome_iff_exists.mp through
  refine ⟨u, run, locate_of_link (by decide) (fun wd known => ?_) (fun h known => ?_) ?_ ?_
    ⟨by decide, by decide, by decide, by decide⟩ linkMyApp_created run default⟩
  · cases known
    exact ⟨by decide, by rfl⟩
  · cases known
    decide
  · exact .inr (.inr ⟨".puma-dev".toList, rfl, by decide⟩)
  · rfl

end PumaDev
