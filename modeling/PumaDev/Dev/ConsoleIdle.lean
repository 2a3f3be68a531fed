import PumaDev.Dev.Optional
import PumaDev.Dev.Serving
import PumaDev.Go.Duration

/-!
# Idle consoles

The monitor of a console asks every ten seconds whether the program has been idle for too
long.  The time of the last use is a `rpc.Maybe`, and the answer is computed by a callback of
its `WithValue`, which returns a `[]any` of what the callback returns, and not what it
returns: the type assertion on the answer fails once there is a last use
(`checksIdle_iff_unused`).
-/

namespace PumaDev.Rpc

/-! ## `WithValue` -/

/-- What an `any` may hold: a bool, a slice of anything, or something else. -/
inductive GoValue (β : Type) where
  | bool (b : Bool)
  | slice (items : List (GoValue β))
  | other (b : β)

/-- The type assertion `v.(bool)`; `none` is a panic. -/
def GoValue.asBool {β : Type} : GoValue β → Option Bool
  | .bool b => some b
  | .slice _ | .other _ => none

section WithValue

variable {α : Type} {T : GoType α}

/-- `Maybe.WithValue`, for a function of a `T` with any number of results. -/
def Maybe.withValue {β : Type} (m : Maybe T) (fn : α → List (GoValue β)) (fallback : GoValue β) :
    GoValue β :=
  if m.hasValue then .slice (fn m.value) else fallback

/-- It returns the result of a function that has one, or the fallback. -/
def Maybe.PassesOn (m : Maybe T) : Prop :=
  ∀ (β : Type) (fn : α → GoValue β) (fallback : GoValue β),
    m.withValue (fun value => [fn value]) fallback =
      if m.hasValue then fn m.value else fallback

/-- No value is its own only item. -/
theorem GoValue.slice_ne {β : Type} (v : GoValue β) : GoValue.slice [v] ≠ v := by
  intro same
  have size := congrArg sizeOf same
  simp at size
  omega

/-- **It does so only without a value.** -/
theorem Maybe.passesOn_iff (m : Maybe T) : m.PassesOn ↔ m.hasValue = false := by
  cases has : m.hasValue with
  | false => exact iff_of_true (fun β fn fallback => by simp [withValue, has]) rfl
  | true =>
      refine iff_of_false (fun passes => ?_) (by decide)
      have packed := passes Empty (fun _ => .bool true) (.bool true)
      simp only [withValue, has, if_true] at packed
      exact GoValue.slice_ne _ packed

end WithValue

/-! ## Consoles in time -/

/-- The type `time.Time`: nanoseconds since the zero time. -/
def timeType : GoType ℤ := basicType 0 (· ≠ 0)

/-- The type `time.Duration`. -/
def durationType : GoType ℤ := basicType 0 (· ≠ 0)

/-- `Time.Sub`, the largest or smallest duration where the difference does not fit. -/
def timeSub (t u : ℤ) : ℤ := max (-2 ^ 63) (min (2 ^ 63 - 1) (t - u))

/-- A console program, with what its idle monitor looks at. -/
structure TimedProg where
  prog : RpcConsoleProg
  idleTimeout : Maybe durationType
  lastUse : Maybe timeType

/-- `App.InitConsoleApp`; the mutex of `lastUse` is `mtx`. -/
def initTimedApp (os : ConsoleOs) (id : AppId) (a : App) (opts : RpcConsoleProgOpts)
    (idleTimeout : Maybe durationType) (mtx : ℕ) : Except GoString TimedProg :=
  (initConsoleApp os id a opts).map fun prog => ⟨prog, idleTimeout, .new timeType mtx⟩

namespace TimedProg

/-- `RpcConsoleProg.WaitTilReady`, where the program is ready and not dying. -/
def waitTilReady (p : TimedProg) (now : ℤ) : TimedProg := { p with lastUse := p.lastUse.set now }

/-- `RpcConsoleProg.IsTimedOut`; `none` is a panic. -/
def isTimedOut (p : TimedProg) (now : ℤ) : Option Bool :=
  (p.lastUse.withValue (fun lastUse =>
      [.bool (p.idleTimeout.hasValue && decide (p.idleTimeout.value < timeSub now lastUse))])
    (.bool false) : GoValue Empty).asBool

/-- The idle check is total and right, and `WithValue` does what it relies on. -/
structure ChecksIdle (p : TimedProg) (now : ℤ) : Prop where
  right : p.isTimedOut now =
    some (p.lastUse.hasValue && p.idleTimeout.hasValue &&
      decide (p.idleTimeout.value < now - p.lastUse.value))
  passesOn : p.lastUse.PassesOn

/-- What the check comes to. -/
theorem isTimedOut_eq (p : TimedProg) (now : ℤ) :
    p.isTimedOut now = if p.lastUse.hasValue then none else some false := by
  unfold isTimedOut Maybe.withValue
  split <;> rfl

/-- **When the idle check works.**  For every console program, whether it has been used and has
a timeout or not, and at every time: the check does not panic, says whether the time since
the last use is longer than the timeout, and `WithValue` passes on what it is to pass on, if
and only if the program has not been used. -/
theorem checksIdle_iff_unused (p : TimedProg) (now : ℤ) :
    p.ChecksIdle now ↔ p.lastUse.hasValue = false := by
  constructor
  · intro checks
    exact p.lastUse.passesOn_iff.mp checks.passesOn
  · intro unused
    refine ⟨?_, p.lastUse.passesOn_iff.mpr unused⟩
    rw [isTimedOut_eq, unused]
    rfl

/-- **A program that was ever ready** cannot be checked, and only such a program. -/
theorem isTimedOut_waitTilReady {os : ConsoleOs} {id : AppId} {a : App}
    {opts : RpcConsoleProgOpts} {idleTimeout : Maybe durationType} {mtx : ℕ} {p : TimedProg}
    (built : initTimedApp os id a opts idleTimeout mtx = .ok p) {ready : ℤ} (later : 0 < ready)
    (now : ℤ) :
    p.isTimedOut now = some false ∧ (p.waitTilReady ready).isTimedOut now = none := by
  have unused : p.lastUse.hasValue = false := by
    unfold initTimedApp at built
    cases made : initConsoleApp os id a opts with
    | error err =>
        rw [made] at built
        cases built
    | ok prog =>
        rw [made] at built
        cases built
        rfl
  have used : (p.waitTilReady ready).lastUse.hasValue = true := by
    rw [waitTilReady, Maybe.hasValue_set]
    exact decide_eq_true later.ne'
  rw [isTimedOut_eq, isTimedOut_eq, unused, used]
  exact ⟨rfl, rfl⟩

/-- A console that was ready at some time, with a timeout of ten minutes, is checked ten
seconds later: the check panics. -/
theorem not_checksIdle_ready :
    ∃ p, initTimedApp Console.shellOs 0 siteApp railsConsole
        ((Maybe.new durationType 0).set (10 * Time.minute)) 1 = .ok p ∧
      ¬ (p.waitTilReady (60 * Time.minute)).ChecksIdle (60 * Time.minute + 10000000000) := by
  have made : (initConsoleApp Console.shellOs 0 siteApp railsConsole).toOption.isSome := by decide
  cases prog : initConsoleApp Console.shellOs 0 siteApp railsConsole with
  | error err =>
      rw [prog] at made
      cases made
  | ok prog' =>
      refine ⟨_, by rw [initTimedApp, prog]; rfl, fun checks => ?_⟩
      have panics := checks.right
      rw [isTimedOut_eq] at panics
      cases panics

end TimedProg

end PumaDev.Rpc
