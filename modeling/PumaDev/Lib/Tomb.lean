import Mathlib.Logic.Basic
import Mathlib.Tactic.Common

/-!
# Tombs

A **tomb** tracks a group of goroutines that live and die together.  It is killed with a
reason, and `nil` is a reason like any other: the first one counts, except that a `nil`
gives way to the first reason that is an error.

So whoever asks a dying tomb for its reason cannot tell "killed without an error" from
"no error"; `isFailed_kill` says which kills leave an error behind.
-/

namespace PumaDev

universe u

/-- A tomb, with errors of the type `ε`. -/
inductive Tomb (ε : Type u) where
  | alive
  /-- It was killed; `none` is the reason `nil`. -/
  | dying (reason : Option ε)
  deriving DecidableEq

namespace Tomb

variable {ε : Type u}

/-- What `Err` reports other than `nil`. -/
inductive Err (ε : Type u) where
  | stillAlive
  | reason (e : ε)
  deriving DecidableEq

/-- `Kill`. -/
def kill : Tomb ε → Option ε → Tomb ε
  | alive, reason => dying reason
  | dying none, reason => dying reason
  | dying (some e), _ => dying (some e)

/-- `Err`; `none` is `nil`. -/
def err : Tomb ε → Option (Err ε)
  | alive => some .stillAlive
  | dying none => none
  | dying (some e) => some (.reason e)

/-- `Dying` is closed. -/
def isDying : Tomb ε → Bool
  | alive => false
  | dying _ => true

/-- It was killed with an error. -/
def isFailed : Tomb ε → Bool
  | dying (some _) => true
  | _ => false

@[simp] theorem isDying_alive : (alive : Tomb ε).isDying = false := rfl

@[simp] theorem isFailed_alive : (alive : Tomb ε).isFailed = false := rfl

@[simp] theorem isDying_kill (t : Tomb ε) (reason : Option ε) : (t.kill reason).isDying = true := by
  rcases t with _ | _ | e <;> rfl

/-- **An error is never forgotten**, and nothing else makes a tomb fail. -/
@[simp] theorem isFailed_kill (t : Tomb ε) (reason : Option ε) :
    (t.kill reason).isFailed = (t.isFailed || reason.isSome) := by
  rcases t with _ | _ | e <;> cases reason <;> rfl

/-- **A dying tomb reports `nil`** exactly when it has not failed. -/
theorem err_eq_none_iff {t : Tomb ε} (dying : t.isDying = true) :
    t.err = none ↔ t.isFailed = false := by
  rcases t with _ | _ | e
  · cases dying
  · exact iff_of_true rfl rfl
  · exact iff_of_false nofun nofun

end Tomb

end PumaDev
