import PumaDev.Go.Os
import PumaDev.Lib.FileTree

/-!
# A world that stands still

`Os` lets every query of every call be answered on its own.  Here the answers come
from one file tree and one working directory, the same at all places and at all
times: `World.os` puts them into a record that is otherwise arbitrary, so what starts
a process or answers for the environment may still differ from call to call.

Relative paths are read from the working directory, the text of a relative link from
the directory of the link.  That these are two different things is what the lookups
of links get wrong.
-/

namespace PumaDev

/-- The meaning of the text of a link. -/
def Filepath.target (text : GoString) : Target GoString := ⟨isAbs text, moves text⟩

/-- The text of the system's error. -/
def WalkError.text : WalkError → GoString
  | notExist => "no such file or directory".toList
  | notDir => "not a directory".toList
  | denied => "permission denied".toList
  | loop => "too many levels of symbolic links".toList

/-- The `os.PathError` of a failed walk. -/
def WalkError.inOp (op path : GoString) (e : WalkError) : GoString :=
  op ++ ' ' :: path ++ ": ".toList ++ e.text

/-- The same, as `os.IsNotExist` sees it. -/
def WalkError.stat (path : GoString) (e : WalkError) : StatError :=
  let text := e.inOp "stat".toList path
  if e = .notExist then .notExist text else .other text

/-- A file tree and a process in it. -/
structure World where
  /-- Files by their contents, links by their texts. -/
  tree : FileTree GoString GoString GoString
  /-- The working directory. -/
  cwd : List GoString
  cwd_dir : (tree.node cwd).any Node.isDir
  /-- How many links the system follows in one path. -/
  maxLinks : ℕ

namespace World

variable (w : World)

/-- Where a path starts. -/
def origin (path : GoString) : List GoString := if Filepath.isAbs path then [] else w.cwd

/-- The place a path leads to. -/
def resolve (followLast : Bool) (path : GoString) : Except WalkError (List GoString) :=
  if path = [] then .error .notExist
  else w.tree.walk Filepath.target followLast w.maxLinks (w.origin path) (Filepath.moves path)

/-- The place a path leads to, all links followed: its real path. -/
def realPath (path : GoString) : Option (List GoString) := (w.resolve true path).toOption

/-- `os.Stat`. -/
def stat (path : GoString) : Except StatError Bool :=
  match w.resolve true path with
  | .error e => .error (e.stat path)
  | .ok place => .ok ((w.tree.node place).any Node.isDir)

/-- `os.Readlink`. -/
def readlink (path : GoString) : Option GoString :=
  match w.resolve false path with
  | .error _ => none
  | .ok place =>
      match w.tree.node place with
      | some (.link text) => some text
      | _ => none

/-- `os.Lstat`. -/
def lstat (path : GoString) : Bool := (w.resolve false path).isOk

/-- `ioutil.ReadFile`. -/
def readFile (path : GoString) : Except GoString GoString :=
  match w.resolve true path with
  | .error e => .error (e.inOp "open".toList path)
  | .ok place =>
      match w.tree.node place with
      | some (.file content) => .ok content
      | _ => .error ("read ".toList ++ path ++ ": is a directory".toList)

/-- The file system answers from the world, everything else as in `base`. -/
def os (base : Os) : Os :=
  { base with
    stat := fun _ => w.stat
    readlink := fun _ => w.readlink
    lstat := fun _ => w.lstat
    readFile := w.readFile }

/-! ## Links of the world -/

theorem noLink_origin (path : GoString) : w.tree.NoLink (w.origin path) := by
  apply FileTree.noLink_of_isDir
  unfold origin
  split
  · exact w.tree.root
  · exact w.cwd_dir

/-- What is read is the text of a link that the path ends at. -/
theorem readlink_eq_some {path text : GoString} (h : w.readlink path = some text) :
    ∃ place, w.resolve false path = .ok place ∧ w.tree.node place = some (.link text) := by
  unfold readlink at h
  split at h
  · cases h
  · next place resolved =>
      split at h
      · next hnode =>
          cases h
          exact ⟨place, resolved, hnode⟩
      · cases h

/-- A path that resolves is a walk. -/
theorem walk_of_resolve {followLast : Bool} {path : GoString} {place : List GoString}
    (h : w.resolve followLast path = .ok place) :
    w.tree.walk Filepath.target followLast w.maxLinks (w.origin path)
      (Filepath.moves path) = .ok place := by
  unfold resolve at h
  split at h
  · cases h
  · exact h

theorem realPath_eq_some_iff {path : GoString} {real : List GoString} :
    w.realPath path = some real ↔ w.resolve true path = .ok real := by
  unfold realPath
  cases w.resolve true path <;> simp [Except.toOption]

/-- What `os.Stat` finds has a real path. -/
theorem isSome_realPath_of_stat {path : GoString} {isDir : Bool}
    (h : w.stat path = .ok isDir) : (w.realPath path).isSome := by
  unfold stat at h
  unfold realPath
  split at h
  · cases h
  · next place resolved => rw [resolved]; rfl

/-- **Links with the same absolute text lead to the same place.** -/
theorem realPath_congr_of_isAbs {path path' text : GoString}
    (abs : Filepath.isAbs text = true)
    (h : w.readlink path = some text) (h' : w.readlink path' = some text)
    {real real' : List GoString} (hreal : w.realPath path = some real)
    (hreal' : w.realPath path' = some real') : real = real' := by
  obtain ⟨place, stops, hnode⟩ := w.readlink_eq_some h
  obtain ⟨place', stops', hnode'⟩ := w.readlink_eq_some h'
  have sameStart : ∀ here, FileTree.start (Filepath.target text) here = [] := by
    intro here
    exact if_pos abs
  refine FileTree.walk_link_congr (w.noLink_origin path) (w.noLink_origin path') hnode hnode' ?_
    (w.walk_of_resolve stops) (w.walk_of_resolve stops')
    (w.walk_of_resolve (w.realPath_eq_some_iff.mp hreal))
    (w.walk_of_resolve (w.realPath_eq_some_iff.mp hreal'))
  rw [sameStart, sameStart]

end World

end PumaDev
