import PumaDev.Go.Strings

/-!
# The package `flag`

What `FlagSet.Parse` makes of the arguments of a program.  A flag that is not boolean and
stands without `=` takes the next argument for its value, whatever this is: values need no
quoting, and a value may begin with a hyphen.
-/

namespace PumaDev

/-- A flag, with what setting it to a text does to the settings; `none` where `Set` returns an
error. -/
structure Flag (σ : Type) where
  isBoolFlag : Bool
  set : σ → GoString → Option σ

namespace Flag

variable {σ : Type}

/-- What an argument is. -/
inductive Arg where
  /-- No flag: here the flags end. -/
  | operand
  /-- The argument that ends the flags. -/
  | terminator
  | badSyntax
  /-- A flag, with the value behind its `=` if it has one. -/
  | flag (name : GoString) (value : Option GoString)

/-- An argument behind its hyphens. -/
def named (name : GoString) : Arg :=
  match name with
  | [] => .badSyntax
  | c :: rest =>
      if c = '-' ∨ c = '=' then .badSyntax
      else match Strings.indexByte rest '=' with
        | none => .flag name none
        | some i => .flag (c :: rest.take i) (some (rest.drop (i + 1)))

/-- What `parseOne` makes of an argument. -/
def readArg (arg : GoString) : Arg :=
  match arg with
  | '-' :: '-' :: [] => .terminator
  | '-' :: '-' :: name => named name
  | '-' :: c :: name => named (c :: name)
  | _ => .operand

/-- `FlagSet.Parse`: the settings and the arguments that are left, or `none` where it reports
an error. -/
def parse (formal : GoString → Option (Flag σ)) (s : σ) :
    List GoString → Option (σ × List GoString)
  | [] => some (s, [])
  | arg :: rest =>
      match readArg arg with
      | .operand => some (s, arg :: rest)
      | .terminator => some (s, rest)
      | .badSyntax => none
      | .flag name value =>
          match formal name, value with
          | none, _ => none
          | some flag, some value => (flag.set s value).bind fun s => parse formal s rest
          | some flag, none =>
              if flag.isBoolFlag then
                (flag.set s "true".toList).bind fun s => parse formal s rest
              else
                match rest with
                | [] => none
                | value :: rest => (flag.set s value).bind fun s => parse formal s rest

/-- A flag that takes the next argument, whatever this is. -/
theorem parse_value {formal : GoString → Option (Flag σ)} {s : σ} {arg name value : GoString}
    {flag : Flag σ} (isFlag : readArg arg = .flag name none) (defined : formal name = some flag)
    (needs : flag.isBoolFlag = false) (rest : List GoString) :
    parse formal s (arg :: value :: rest) =
      (flag.set s value).bind fun s => parse formal s rest := by
  rw [parse, isFlag]
  simp [defined, needs]

/-- A flag that stands alone. -/
theorem parse_bool {formal : GoString → Option (Flag σ)} {s : σ} {arg name : GoString}
    {flag : Flag σ} (isFlag : readArg arg = .flag name none) (defined : formal name = some flag)
    (alone : flag.isBoolFlag = true) (rest : List GoString) :
    parse formal s (arg :: rest) =
      (flag.set s "true".toList).bind fun s => parse formal s rest := by
  rw [parse, isFlag]
  simp [defined, alone]

end Flag

end PumaDev
