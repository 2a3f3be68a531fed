import Mathlib.Data.List.Basic
import Mathlib.Tactic.Common

/-!
# Pieces and separators

Pieces travel in one sequence, told apart by a separator.  Reading the sequence
back is cutting it at the separators, and gives the pieces when, and as long
as, no piece has the separator inside.

* `splitOn_terminated` is for pieces that are each followed by the separator.
* `decode` reads frames, each of them a batch of pieces with the separator
  between them.  A frame begins with one piece and grows by one at a time
  (`splitOn_snoc`), so how the pieces were batched makes no difference to what
  is read.
-/

namespace PumaDev

universe u

namespace Framing

variable {α : Type u} [BEq α] [LawfulBEq α]

/-- Every piece with the separator behind it. -/
def terminated (sep : α) (pieces : List (List α)) : List α := pieces.flatMap (· ++ [sep])

omit [BEq α] [LawfulBEq α] in
@[simp] theorem terminated_nil (sep : α) : terminated sep [] = [] := rfl

omit [BEq α] [LawfulBEq α] in
theorem terminated_eq_intercalate (sep : α) (pieces : List (List α)) :
    terminated sep pieces = [sep].intercalate (pieces ++ [[]]) := by
  induction pieces with
  | nil => simp
  | cons piece rest ih =>
      have some_ : rest ++ [[]] ≠ [] := by simp
      have tail : terminated sep (piece :: rest) = piece ++ [sep] ++ terminated sep rest := rfl
      rw [tail, ih, List.cons_append, List.intercalate_cons_of_ne_nil some_, List.append_assoc]

/-- **Cutting terminated pieces** gives the pieces, and nothing behind the last
separator. -/
theorem splitOn_terminated {sep : α} {pieces : List (List α)}
    (free : ∀ piece ∈ pieces, sep ∉ piece) :
    (terminated sep pieces).splitOn sep = pieces ++ [[]] := by
  rw [terminated_eq_intercalate]
  refine List.splitOn_intercalate sep ?_ (by simp)
  intro piece mem
  rcases List.mem_append.mp mem with inside | last
  · exact free piece inside
  · rw [List.mem_singleton.mp last]
    exact List.not_mem_nil

/-- What is read from frames: each is cut at the separators. -/
def decode (sep : α) (frames : List (List α)) : List (List α) :=
  frames.flatMap (List.splitOn sep)

omit [LawfulBEq α] in
@[simp] theorem decode_nil (sep : α) : decode sep [] = [] := rfl

omit [LawfulBEq α] in
@[simp] theorem decode_concat (sep : α) (frames : List (List α)) (frame : List α) :
    decode sep (frames ++ [frame]) = decode sep frames ++ frame.splitOn sep := by
  rw [decode, List.flatMap_append, List.flatMap_singleton, decode]

/-- One more piece in a frame is one more piece read from it. -/
theorem splitOn_snoc {sep : α} {piece : List α} (free : sep ∉ piece) (frame : List α) :
    (frame ++ sep :: piece).splitOn sep = frame.splitOn sep ++ [piece] := by
  rw [List.splitOn_append_cons_self, List.splitOn_eq_singleton free]

end Framing

end PumaDev
