import PumaDev.Dev.RpcConsole
import PumaDev.Lib.Machine

/-!
# Optional values

`rpc.Maybe[T]` is a value that may be unset.  `Set` decides by the truthiness of the value
whether there is one, and `ApplyDefault` takes its defaults as `any` and tells their kinds
apart by reflection: on the type of each, and, by a slip, on that of the address of the loop
variable.

`takesFirst_iff` says when `ApplyDefault` takes the first default that has something to
give, and `keepsExplicit_iff` when it leaves alone what has been set explicitly, in every
sequence of calls and in the chain of defaults of `RpcConsoleProg.Init`.
-/

namespace PumaDev.Rpc

/-! ## Types and values -/

/-- A type `T`, with what `truthy` and `reflect` answer about it. -/
structure GoType (α : Type) where
  zero : α
  /-- `truthy.ValueAny`. -/
  truthy : α → Bool
  /-- `reflect.Type`. -/
  RType : Type
  /-- `Type.AssignableTo`. -/
  assignable : RType → RType → Bool
  /-- `reflect.TypeOf`; there is no type only for the nil of an interface type. -/
  typeOf : α → Option RType
  isInterface : Bool
  /-- `*T`. -/
  ptr : RType
  /-- `Maybe[T]`. -/
  maybe : RType
  /-- `*Maybe[T]`. -/
  maybePtr : RType
  /-- `*interface{}`, the type of the address of a loop variable. -/
  anyPtr : RType
  assignable_refl : ∀ t, assignable t t = true
  /-- A pointer is no struct. -/
  anyPtr_maybe : assignable anyPtr maybe = false
  concrete : isInterface = false → ∃ t, ∀ a, typeOf a = some t
  /-- What an interface holds counts as a `T` here, and not as one of the other kinds. -/
  kinds : isInterface = true → ∀ a t, typeOf a = some t →
    assignable ptr t = false ∧ assignable maybe t = false ∧ assignable t maybePtr = false

variable {α : Type}

/-- `Maybe[T]`. -/
structure Maybe (T : GoType α) where
  hasValue : Bool
  value : α
  /-- The mutex it points to. -/
  mtx : ℕ
  truthy : hasValue = true → T.truthy value = true

namespace Maybe

variable {T : GoType α}

/-- `NewMaybe[T]()`. -/
def new (T : GoType α) (mtx : ℕ) : Maybe T := ⟨false, T.zero, mtx, nofun⟩

/-- `Maybe.Set`. -/
def set (m : Maybe T) (newValue : α) : Maybe T :=
  if h : T.truthy newValue = true then
    { m with hasValue := true, value := newValue, truthy := fun _ => h }
  else { m with hasValue := false, truthy := nofun }

/-- `Maybe.Clear`. -/
def clear (m : Maybe T) : Maybe T :=
  { m with hasValue := false, value := T.zero, truthy := nofun }

/-- What is set, if anything is. -/
def toOption (m : Maybe T) : Option α := if m.hasValue then some m.value else none

theorem toOption_of_unset {m : Maybe T} (unset : m.hasValue = false) : m.toOption = none := by
  simp [toOption, unset]

theorem hasValue_set (m : Maybe T) (a : α) : (m.set a).hasValue = T.truthy a := by
  unfold set
  split <;> simp_all

theorem toOption_set (m : Maybe T) (a : α) :
    (m.set a).toOption = if T.truthy a then some a else none := by
  unfold set toOption
  split <;> simp_all

@[simp] theorem mtx_set (m : Maybe T) (a : α) : (m.set a).mtx = m.mtx := by
  unfold set
  split <;> rfl

end Maybe

/-- A default, as it is passed to `ApplyDefault`. -/
inductive Default (T : GoType α) where
  | value (a : α)
  /-- A `*T`, with what it points to. -/
  | ptr (a : α)
  | maybe (m : Maybe T)
  /-- A `*Maybe[T]`, with what it points to. -/
  | maybePtr (m : Maybe T)

/-- The branches of the loop. -/
inductive Branch where
  | maybePtr
  | maybe
  | value
  | ptr
  /-- No condition is true. -/
  | other
  deriving DecidableEq

namespace Default

variable {T : GoType α}

/-- `reflect.TypeOf(value)`. -/
def typeOf : Default T → Option T.RType
  | .value a => T.typeOf a
  | .ptr _ => some T.ptr
  | .maybe _ => some T.maybe
  | .maybePtr _ => some T.maybePtr

/-- The branch that is meant for it. -/
def kind : Default T → Branch
  | .value _ => .value
  | .ptr _ => .ptr
  | .maybe _ => .maybe
  | .maybePtr _ => .maybePtr

/-- The truthy value that it carries, if it carries one. -/
def carried : Default T → Option α
  | .value a | .ptr a => if T.truthy a then some a else none
  | .maybe m | .maybePtr m => m.toOption

/-- The mutex that it brings along. -/
def mtx : Default T → Option ℕ
  | .value _ | .ptr _ => none
  | .maybe m | .maybePtr m => some m.mtx

/-- The value of the first default that carries a truthy one. -/
def firstUsable (values : List (Default T)) : Option α := values.findSome? carried

end Default

/-! ## `ApplyDefault` -/

namespace Maybe

variable {T : GoType α}

/-- The conditions of the loop, in their order; `none` is a panic: a method of a nil type is
called, or a nil type is passed to one. -/
def branch (m : Maybe T) (value : Default T) : Option Branch :=
  match value.typeOf with
  | none => none
  | some valueType =>
      if T.assignable valueType T.maybePtr then some .maybePtr
      else if T.assignable T.anyPtr T.maybe then some .maybe
      else
        match T.typeOf m.value with
        | none => none
        | some genericType =>
            if T.assignable valueType genericType then some .value
            else if T.assignable T.anyPtr T.ptr then some .ptr
            else some .other

/-- What the branch makes of `maybeValue`; `none` is a type assertion that panics.  Those of
the first two branches do not. -/
def look (m maybeValue : Maybe T) (value : Default T) : Option (Maybe T) :=
  match m.branch value, value with
  | some .maybePtr, .maybePtr maybePtr => some maybePtr
  | some .maybe, .maybe maybeVal => some maybeVal
  | some .value, .value a => some (maybeValue.set a)
  | some .ptr, .ptr a => some (maybeValue.set a)
  | some .maybePtr, _ | some .maybe, _ | some .other, _ => some maybeValue
  | some .value, _ | some .ptr, _ | none, _ => none

/-- How a call ends. -/
inductive Outcome (T : GoType α) where
  | returned (m : Maybe T) (result : Bool)
  | panics
  /-- It waits for a mutex that it holds itself. -/
  | waits

/-- The loop of `ApplyDefault`, with the lock of `m` held. -/
def applyLoop (m : Maybe T) : Maybe T → List (Default T) → Outcome T
  | _, [] => .returned m false
  | maybeValue, value :: rest =>
      match m.look maybeValue value with
      | none => .panics
      | some maybeValue =>
          if maybeValue.mtx = m.mtx then .waits
          else if h : maybeValue.hasValue = true then
            .returned { m with
              hasValue := true, value := maybeValue.value, truthy := fun _ => maybeValue.truthy h }
              true
          else m.applyLoop maybeValue rest

/-- `Maybe.ApplyDefault`.  The mutex of `maybeValue` is new. -/
def applyDefault (m : Maybe T) (values : List (Default T)) : Outcome T :=
  if m.hasValue then .returned m true else m.applyLoop (new T (m.mtx + 1)) values

/-! ## What becomes of each default -/

/-- The default gets to the branch that is meant for it. -/
def reads (m : Maybe T) (value : Default T) : Bool := m.branch value = some value.kind

/-- Looking at the default causes a panic. -/
def Fails (m : Maybe T) (value : Default T) : Prop :=
  m.branch value = none ∨
    (m.branch value = some .value ∨ m.branch value = some .ptr) ∧ m.reads value = false

/-- The loop goes on after the default, or is done with it: there is no panic, and no mutex to
wait for. -/
def Passes (m : Maybe T) (value : Default T) : Prop :=
  ¬ m.Fails value ∧ (m.reads value = true → value.mtx ≠ some m.mtx)

/-- The defaults that are looked at: up to the first that is read and carries a value. -/
def reached (m : Maybe T) : List (Default T) → List (Default T)
  | [] => []
  | value :: rest =>
      value :: if m.reads value ∧ value.carried.isSome then [] else m.reached rest

/-- Every default that is looked at passes. -/
def Completes (m : Maybe T) (values : List (Default T)) : Prop :=
  ∀ value ∈ m.reached values, m.Passes value

/-- What the call comes to if it takes this value. -/
def taken (m : Maybe T) : Option α → Outcome T
  | none => .returned m false
  | some a => .returned (m.set a) true

/-- A default that is read replaces or sets `maybeValue`. -/
theorem look_of_reads {m maybeValue : Maybe T} {value : Default T} (reads : m.reads value = true)
    (own : maybeValue.mtx ≠ m.mtx) :
    ∃ after, m.look maybeValue value = some after ∧ after.toOption = value.carried ∧
      (after.mtx = m.mtx ↔ value.mtx = some m.mtx) := by
  have branch : m.branch value = some value.kind := of_decide_eq_true reads
  cases value with
  | value a =>
      refine ⟨maybeValue.set a, by simp [look, branch, Default.kind], toOption_set _ _, ?_⟩
      simp [own, Default.mtx]
  | ptr a =>
      refine ⟨maybeValue.set a, by simp [look, branch, Default.kind], toOption_set _ _, ?_⟩
      simp [own, Default.mtx]
  | maybe d =>
      exact ⟨d, by simp [look, branch, Default.kind], rfl, by simp [Default.mtx]⟩
  | maybePtr d =>
      exact ⟨d, by simp [look, branch, Default.kind], rfl, by simp [Default.mtx]⟩

/-- A default that is skipped leaves `maybeValue` as it is. -/
theorem look_of_skips {m : Maybe T} {value : Default T} (skips : m.reads value = false)
    (works : ¬ m.Fails value) (maybeValue : Maybe T) :
    m.look maybeValue value = some maybeValue := by
  have other : m.branch value ≠ some value.kind := of_decide_eq_false skips
  unfold Fails at works
  cases branch : m.branch value with
  | none => exact absurd (Or.inl branch) works
  | some b => cases b <;> cases value <;> simp_all [look, Default.kind]

theorem look_of_fails {m : Maybe T} {value : Default T} (fails : m.Fails value)
    (maybeValue : Maybe T) : m.look maybeValue value = none := by
  rcases fails with none | ⟨branch, skips⟩
  · simp [look, none]
  · have other : m.branch value ≠ some value.kind := of_decide_eq_false skips
    rcases branch with branch | branch <;> cases value <;> simp_all [look, Default.kind]

/-- Storing a value that is set is setting it. -/
theorem stored_eq_set (m after : Maybe T) (h : after.hasValue = true) :
    { m with hasValue := true, value := after.value, truthy := fun _ => after.truthy h } =
      m.set after.value := by
  simp [set, after.truthy h]

/-- **The rest of the loop**, after a default that passes. -/
theorem applyLoop_of_passes {m maybeValue : Maybe T} {value : Default T}
    (unset : maybeValue.hasValue = false) (own : maybeValue.mtx ≠ m.mtx)
    (passes : m.Passes value) (rest : List (Default T)) :
    (m.reads value = true ∧ ∃ a, value.carried = some a ∧
        m.applyLoop maybeValue (value :: rest) = .returned (m.set a) true) ∨
      ((m.reads value = true → value.carried = none) ∧
        ∃ after : Maybe T, after.hasValue = false ∧ after.mtx ≠ m.mtx ∧
          m.applyLoop maybeValue (value :: rest) = m.applyLoop after rest) := by
  obtain ⟨works, apart⟩ := passes
  cases reads : m.reads value with
  | false =>
      refine Or.inr ⟨nofun, maybeValue, unset, own, ?_⟩
      simp [applyLoop, look_of_skips reads works, own, unset]
  | true =>
      obtain ⟨after, looked, carried, same⟩ := look_of_reads reads own
      have other : after.mtx ≠ m.mtx := fun eq => apart reads (same.mp eq)
      cases has : after.hasValue with
      | false =>
          refine Or.inr ⟨fun _ => carried.symm.trans (toOption_of_unset has), after, has, other, ?_⟩
          simp [applyLoop, looked, other, has]
      | true =>
          refine Or.inl ⟨rfl, after.value, by simp [← carried, toOption, has], ?_⟩
          simp only [applyLoop, looked, other, has, if_false, dite_true]
          rw [stored_eq_set _ _ has]

/-- A default that does not pass ends the loop, and nothing is returned. -/
theorem applyLoop_of_not_passes {m maybeValue : Maybe T} {value : Default T}
    (own : maybeValue.mtx ≠ m.mtx) (stuck : ¬ m.Passes value) (rest : List (Default T))
    (after : Maybe T) (result : Bool) :
    m.applyLoop maybeValue (value :: rest) ≠ .returned after result := by
  by_cases fails : m.Fails value
  · simp [applyLoop, look_of_fails fails]
  · have shares : m.reads value = true ∧ value.mtx = some m.mtx := by
      by_contra apart
      exact stuck ⟨fails, fun reads shared => apart ⟨reads, shared⟩⟩
    obtain ⟨held, looked, -, same⟩ := look_of_reads shares.1 own
    simp [applyLoop, looked, same.mpr shares.2]

/-- **The loop, if it completes**: the first default that is read and carries a value is
taken. -/
theorem applyLoop_of_completes {m : Maybe T} {values : List (Default T)}
    (completes : m.Completes values) :
    ∀ {maybeValue : Maybe T}, maybeValue.hasValue = false → maybeValue.mtx ≠ m.mtx →
      m.applyLoop maybeValue values = m.taken (Default.firstUsable (values.filter m.reads)) := by
  induction values with
  | nil => exact fun _ _ => rfl
  | cons value rest ih =>
      intro maybeValue unset own
      have passes : m.Passes value := completes value List.mem_cons_self
      rcases applyLoop_of_passes unset own passes rest with
        ⟨reads, a, carried, ends⟩ | ⟨nothing, after, unset', own', ends⟩
      · simp [ends, reads, Default.firstUsable, carried, taken]
      · have stays : ¬ (m.reads value = true ∧ value.carried.isSome = true) := fun h => by
          simp [nothing h.1] at h
        have later : m.Completes rest := fun d mem =>
          completes d (List.mem_cons_of_mem _ (by rwa [if_neg stays]))
        rw [ends, ih later unset' own']
        cases reads : m.reads value with
        | false => simp [reads]
        | true => simp [reads, Default.firstUsable, nothing reads]

/-- The loop, if it does not complete. -/
theorem applyLoop_of_not_completes {m : Maybe T} {values : List (Default T)}
    (stuck : ¬ m.Completes values) :
    ∀ {maybeValue : Maybe T}, maybeValue.hasValue = false → maybeValue.mtx ≠ m.mtx →
      ∀ after result, m.applyLoop maybeValue values ≠ .returned after result := by
  induction values with
  | nil => exact absurd (fun _ mem => by cases mem) stuck
  | cons value rest ih =>
      intro maybeValue unset own after result
      by_cases passes : m.Passes value
      · have further : ¬ (m.reads value = true ∧ value.carried.isSome = true) ∧
            ¬ m.Completes rest := by
          by_contra ends
          refine stuck fun d mem => ?_
          rcases List.mem_cons.mp mem with rfl | later
          · exact passes
          · split at later
            · cases later
            · next goesOn => exact not_not.mp (fun h => ends ⟨goesOn, h⟩) d later
        rcases applyLoop_of_passes unset own passes rest with
          ⟨reads, a, carried, -⟩ | ⟨-, next, unset', own', ends⟩
        · exact absurd ⟨reads, by simp [carried]⟩ further.1
        · rw [ends]
          exact ih further.2 unset' own' after result
      · exact applyLoop_of_not_passes own passes rest after result

/-- What the first usable default carries is truthy. -/
theorem truthy_of_carried {value : Default T} {a : α} (carried : value.carried = some a) :
    T.truthy a = true := by
  cases value with
  | value b | ptr b =>
      simp only [Default.carried, Option.ite_none_right_eq_some, Option.some.injEq] at carried
      exact carried.2 ▸ carried.1
  | maybe d | maybePtr d =>
      simp only [Default.carried, toOption, Option.ite_none_right_eq_some,
        Option.some.injEq] at carried
      exact carried.2 ▸ d.truthy carried.1

theorem truthy_of_firstUsable {values : List (Default T)} {a : α}
    (first : Default.firstUsable values = some a) : T.truthy a = true := by
  obtain ⟨value, -, carried⟩ := List.exists_of_findSome?_eq_some first
  exact truthy_of_carried carried

/-- Different values are different outcomes. -/
theorem taken_inj {m : Maybe T} {x y : Option α} (truthyX : ∀ a, x = some a → T.truthy a = true)
    (truthyY : ∀ a, y = some a → T.truthy a = true) : m.taken x = m.taken y ↔ x = y := by
  refine ⟨fun same => ?_, fun same => by rw [same]⟩
  cases x with
  | none =>
      cases y with
      | none => rfl
      | some b => simp [taken] at same
  | some a =>
      cases y with
      | none => simp [taken] at same
      | some b =>
          simp only [taken, Outcome.returned.injEq, and_true] at same
          have seen := congrArg toOption same
          simpa [toOption_set, truthyX a rfl, truthyY b rfl] using seen

/-- **What `ApplyDefault` comes to.** -/
theorem applyDefault_cases (m : Maybe T) (values : List (Default T)) :
    (m.hasValue = true ∧ m.applyDefault values = .returned m true) ∨
      (m.hasValue = false ∧ ¬ m.Completes values ∧
        ∀ after result, m.applyDefault values ≠ .returned after result) ∨
      (m.hasValue = false ∧ m.Completes values ∧
        m.applyDefault values = m.taken (Default.firstUsable (values.filter m.reads))) := by
  have fresh : (new T (m.mtx + 1)).mtx ≠ m.mtx := Nat.succ_ne_self _
  cases has : m.hasValue with
  | true => exact Or.inl ⟨rfl, by simp [applyDefault, has]⟩
  | false =>
      have loop : m.applyDefault values = m.applyLoop (new T (m.mtx + 1)) values := by
        simp [applyDefault, has]
      rw [loop]
      by_cases completes : m.Completes values
      · exact Or.inr (Or.inr ⟨rfl, completes, applyLoop_of_completes completes rfl fresh⟩)
      · exact Or.inr (Or.inl ⟨rfl, completes, applyLoop_of_not_completes completes rfl fresh⟩)

/-- **When `ApplyDefault` takes the first usable default.**  For every type and every list of
defaults of the four kinds: called on an unset `Maybe` it stores the value of the first
default that carries a truthy one and returns true, or changes nothing and returns false if
there is none, if and only if every default that it looks at passes and those that it skips
make no difference. -/
theorem takesFirst_iff {m : Maybe T} (unset : m.hasValue = false) (values : List (Default T)) :
    m.applyDefault values = m.taken (Default.firstUsable values) ↔
      m.Completes values ∧
        Default.firstUsable (values.filter m.reads) = Default.firstUsable values := by
  rcases m.applyDefault_cases values with ⟨has, -⟩ | ⟨-, stuck, never⟩ | ⟨-, completes, ends⟩
  · rw [unset] at has
    cases has
  · refine iff_of_false (fun ends => ?_) fun h => stuck h.1
    cases first : Default.firstUsable values with
    | none => exact never _ _ (ends.trans (by rw [first, taken]))
    | some a => exact never _ _ (ends.trans (by rw [first, taken]))
  · rw [ends, taken_inj (fun _ => truthy_of_firstUsable) (fun _ => truthy_of_firstUsable)]
    exact (and_iff_right completes).symm

end Maybe

/-! ### Types whose kinds the language tells apart -/

/-- A type that is no interface, and a default of one kind cannot be assigned to a variable of
another. -/
structure GoType.Ordinary (T : GoType α) : Prop where
  isInterface : T.isInterface = false
  ptr : ∀ a t, T.typeOf a = some t → T.assignable T.ptr t = false
  maybe : ∀ a t, T.typeOf a = some t → T.assignable T.maybe t = false
  value : ∀ a t, T.typeOf a = some t → T.assignable t T.maybePtr = false
  maybePtr : T.assignable T.ptr T.maybePtr = false ∧ T.assignable T.maybe T.maybePtr = false
  anyPtr : T.assignable T.anyPtr T.ptr = false

namespace Maybe

variable {T : GoType α}

/-- The branch of each kind: a `*T` and a `Maybe[T]` get to none, as the conditions meant for
them look at the address of the loop variable. -/
theorem branch_of_ordinary (ordinary : T.Ordinary) (m : Maybe T) (value : Default T) :
    m.branch value =
      some (match value with
        | .value _ => .value
        | .maybePtr _ => .maybePtr
        | .ptr _ | .maybe _ => .other) := by
  obtain ⟨t, same⟩ := T.concrete ordinary.isInterface
  have generic := same m.value
  cases value with
  | value a =>
      simp [branch, Default.typeOf, same, ordinary.value a t (same a), T.anyPtr_maybe,
        T.assignable_refl]
  | ptr a =>
      simp [branch, Default.typeOf, ordinary.maybePtr.1, T.anyPtr_maybe, generic,
        ordinary.ptr _ t generic, ordinary.anyPtr]
  | maybe d =>
      simp [branch, Default.typeOf, ordinary.maybePtr.2, T.anyPtr_maybe, generic,
        ordinary.maybe _ t generic, ordinary.anyPtr]
  | maybePtr d => simp [branch, Default.typeOf, T.assignable_refl]

/-- So these two kinds are skipped, and nothing panics. -/
theorem reads_of_ordinary (ordinary : T.Ordinary) (m : Maybe T) (value : Default T) :
    m.reads value = decide (value.kind = .value ∨ value.kind = .maybePtr) ∧ ¬ m.Fails value := by
  have branch := branch_of_ordinary ordinary m value
  cases value <;> simp [reads, Fails, branch, Default.kind]

theorem mem_of_reached {m : Maybe T} {value : Default T} {values : List (Default T)}
    (mem : value ∈ m.reached values) : value ∈ values := by
  induction values with
  | nil => cases mem
  | cons d rest ih =>
      rcases List.mem_cons.mp mem with rfl | later
      · exact List.mem_cons_self
      · split at later
        · cases later
        · exact List.mem_cons_of_mem _ (ih later)

/-- What can go wrong with such a type is a mutex that is shared. -/
theorem completes_iff_of_ordinary (ordinary : T.Ordinary) (m : Maybe T)
    (values : List (Default T)) :
    m.Completes values ↔ ∀ d, .maybePtr d ∈ m.reached values → d.mtx ≠ m.mtx := by
  constructor
  · intro each d mem shared
    refine (each _ mem).2 ?_ (by simp [Default.mtx, shared])
    simp [reads_of_ordinary ordinary, Default.kind]
  · intro each value mem
    refine ⟨(reads_of_ordinary ordinary m value).2, fun read => ?_⟩
    cases value with
    | value a | ptr a => simp [Default.mtx]
    | maybe d => simp [reads_of_ordinary ordinary, Default.kind] at read
    | maybePtr d => simpa [Default.mtx] using each d mem

/-- **For such a type**, the first usable default is taken if and only if no `*Maybe[T]` that
is looked at shares the mutex of the receiver, and the defaults that are a `*T` or a
`Maybe[T]` make no difference. -/
theorem takesFirst_iff_of_ordinary (ordinary : T.Ordinary) {m : Maybe T}
    (unset : m.hasValue = false) (values : List (Default T)) :
    m.applyDefault values = m.taken (Default.firstUsable values) ↔
      (∀ d, .maybePtr d ∈ m.reached values → d.mtx ≠ m.mtx) ∧
        Default.firstUsable (values.filter fun value =>
          decide (value.kind = .value ∨ value.kind = .maybePtr)) =
            Default.firstUsable values := by
  have reads : m.reads = fun value => decide (value.kind = .value ∨ value.kind = .maybePtr) :=
    funext fun value => (reads_of_ordinary ordinary m value).1
  rw [takesFirst_iff unset, completes_iff_of_ordinary ordinary, reads]

end Maybe

/-! ### Basic types -/

/-- The types that are built from a basic type, the type itself first, and `*interface{}`. -/
inductive BasicRType where
  | basic
  | ptr
  | maybe
  | maybePtr
  | anyPtr
  deriving DecidableEq

/-- A basic type. -/
def basicType (zero : α) (truthy : α → Bool) : GoType α where
  zero := zero
  truthy := truthy
  RType := BasicRType
  assignable t t' := t = t'
  typeOf _ := some .basic
  isInterface := false
  ptr := .ptr
  maybe := .maybe
  maybePtr := .maybePtr
  anyPtr := .anyPtr
  assignable_refl t := by simp
  anyPtr_maybe := rfl
  concrete _ := ⟨_, fun _ => rfl⟩
  kinds := nofun

theorem ordinary_basicType (zero : α) (truthy : α → Bool) : (basicType zero truthy).Ordinary where
  isInterface := rfl
  ptr := by rintro a t ⟨⟩; rfl
  maybe := by rintro a t ⟨⟩; rfl
  value := by rintro a t ⟨⟩; rfl
  maybePtr := ⟨rfl, rfl⟩
  anyPtr := rfl

/-- The type `string`. -/
def stringType : GoType GoString := basicType [] Truthy.truthy

theorem ordinary_stringType : stringType.Ordinary := ordinary_basicType _ _

/-- The type `bool`. -/
def boolType : GoType Bool := basicType false Truthy.truthy

/-- An unset `*Maybe[string]`, and then two strings. -/
theorem takesFirst_string :
    let m := Maybe.new stringType 0
    let values := [.maybePtr (Maybe.new stringType 1), .value [], .value "blog".toList]
    m.applyDefault values = m.taken (Default.firstUsable values) := by
  refine (Maybe.takesFirst_iff rfl _).mpr ⟨?_, rfl⟩
  refine (Maybe.completes_iff_of_ordinary ordinary_stringType _ _).mpr fun d mem => ?_
  have listed := Maybe.mem_of_reached mem
  simp only [List.mem_cons, Default.maybePtr.injEq, reduceCtorEq, List.not_mem_nil,
    or_false] at listed
  subst listed
  decide

/-- A pointer to a string is skipped. -/
theorem not_takesFirst_pointer :
    let m := Maybe.new stringType 0
    let values := [.ptr "blog".toList]
    m.applyDefault values ≠ m.taken (Default.firstUsable values) := by
  intro m values ends
  have ignored : m.applyDefault values = .returned m false := rfl
  have wanted : m.taken (Default.firstUsable values) = .returned (m.set "blog".toList) true := rfl
  rw [ignored, wanted] at ends
  exact absurd (Maybe.Outcome.returned.inj ends).2 (by decide)

/-! ## Explicit settings -/

/-- A call on a `Maybe`. -/
inductive Call (T : GoType α) where
  | set (newValue : α)
  | clear
  | applyDefault (values : List (Default T))

/-- A `Maybe`, and what was passed to the last `Set` since it was created or cleared. -/
structure Setting (T : GoType α) where
  m : Maybe T
  last : Option α

section Explicit

variable (T : GoType α) (mtx : ℕ)

/-- The calls on a `Maybe` that `NewMaybe` has built.  A panic unlocks the mutex, and nothing
comes after a call that waits for itself. -/
def settingMachine : Machine (Setting T) (Call T) where
  init := ⟨.new T mtx, none⟩
  step s
    | .set newValue => some ⟨s.m.set newValue, some newValue⟩
    | .clear => some ⟨s.m.clear, none⟩
    | .applyDefault values =>
        match s.m.applyDefault values with
        | .returned m _ => some { s with m := m }
        | .panics => some s
        | .waits => none

variable {T}

/-- `NewMaybe[T](value)`. -/
def Maybe.newSet (mtx : ℕ) (value : α) : Maybe T := (Maybe.new T mtx).set value

/-- So `NewMaybe` with an argument is there as a first `Set`. -/
theorem settingMachine_newSet (value : α) (calls : List (Call T)) :
    (settingMachine T mtx).exec (settingMachine T mtx).init (.set value :: calls) =
      (settingMachine T mtx).exec ⟨.newSet mtx value, some value⟩ calls := rfl

/-- If the call is an `ApplyDefault` after a `Set`, it changes nothing. -/
def Setting.KeepsExplicit (s : Setting T) (call : Call T) : Prop :=
  ∀ values, call = .applyDefault values → s.last ≠ none →
    ∀ t, (settingMachine T mtx).step s call = some t → t.m = s.m

/-- An `ApplyDefault` after a `Set` that was given a value that is not truthy, and before
anything else is stored, finds nothing to store. -/
def Setting.SparesFalsy (s : Setting T) (call : Call T) : Prop :=
  ∀ values, call = .applyDefault values → ∀ v, s.last = some v → T.truthy v = false →
    s.m.hasValue = false → s.m.Completes values →
      Default.firstUsable (values.filter s.m.reads) = none

/-- What was set to a truthy value has a value. -/
def Setting.Holds (s : Setting T) : Prop :=
  ∀ v, s.last = some v → T.truthy v = true → s.m.hasValue = true

variable {mtx}

/-- A step keeps what holds. -/
theorem Setting.holds_of_step {s t : Setting T} {call : Call T} (holds : s.Holds)
    (h : (settingMachine T mtx).step s call = some t) : t.Holds := by
  cases call with
  | set newValue =>
      cases h
      rintro v ⟨⟩ truthy
      rw [Maybe.hasValue_set, truthy]
  | clear =>
      cases h
      rintro v ⟨⟩
  | applyDefault values =>
      intro v last truthy
      simp only [settingMachine] at h
      split at h
      · next after result ends =>
          cases h
          have has := holds v last truthy
          have ends' : s.m.applyDefault values = .returned s.m true := by
            simp [Maybe.applyDefault, has]
          rw [ends] at ends'
          cases ends'
          exact has
      · cases h
        exact holds v last truthy
      · cases h

/-- A value that is stored is a change. -/
theorem Maybe.set_ne {m : Maybe T} (unset : m.hasValue = false) {a : α}
    (truthy : T.truthy a = true) : m.set a ≠ m := by
  intro same
  have has := Maybe.hasValue_set m a
  rw [same, unset, truthy] at has
  cases has

/-- **One call** keeps an explicit setting exactly when it spares a falsy one. -/
theorem Setting.keepsExplicit_iff_sparesFalsy {s : Setting T} (holds : s.Holds) (call : Call T) :
    s.KeepsExplicit mtx call ↔ s.SparesFalsy call := by
  constructor
  · rintro keeps values rfl v last falsy unset completes
    cases first : Default.firstUsable (values.filter s.m.reads) with
    | none => rfl
    | some a =>
        rcases s.m.applyDefault_cases values with ⟨has, -⟩ | ⟨-, stuck, -⟩ | ⟨-, -, ends⟩
        · rw [unset] at has
          cases has
        · exact absurd completes stuck
        · have step : (settingMachine T mtx).step s (.applyDefault values) =
              some { s with m := s.m.set a } := by
            simp [settingMachine, ends, first, Maybe.taken]
          have kept := keeps values rfl (by simp [last]) _ step
          exact absurd kept (Maybe.set_ne unset (Maybe.truthy_of_firstUsable first))
  · rintro spares values rfl given t h
    obtain ⟨v, last⟩ := Option.ne_none_iff_exists'.mp given
    simp only [settingMachine] at h
    rcases s.m.applyDefault_cases values with ⟨-, ends⟩ | ⟨-, -, never⟩ | ⟨unset, completes, ends⟩
    · rw [ends] at h
      cases h
      rfl
    · split at h
      · next after result ends => exact absurd ends (never after result)
      · cases h
        rfl
      · cases h
    · have falsy : T.truthy v = false := by
        cases truthy : T.truthy v with
        | false => rfl
        | true =>
            rw [holds v last truthy] at unset
            cases unset
      rw [ends, spares values rfl v last falsy unset completes] at h
      cases h
      rfl

end Explicit

/-! ### The options of a console -/

/-- The options of a console that are set to a truth value and have a default. -/
inductive BoolOption where
  | useShell
  | allocPty
  | persist
  deriving DecidableEq

/-- The option among all options. -/
def BoolOption.get (o : BoolOption) (opts : RpcConsoleProgOpts) : Option Bool :=
  match o with
  | .useShell => opts.useShell
  | .allocPty => opts.allocPty
  | .persist => opts.persist

/-- The options once `Set(false)` has been called on this one. -/
def BoolOption.setFalse (o : BoolOption) (opts : RpcConsoleProgOpts) : RpcConsoleProgOpts :=
  match o with
  | .useShell => { opts with useShell := PumaDev.Maybe.set false }
  | .allocPty => { opts with allocPty := PumaDev.Maybe.set false }
  | .persist => { opts with persist := PumaDev.Maybe.set false }

/-- What `Set` leaves behind, for a basic type, is what the options of a console have. -/
theorem toOption_set_basic [Truthy α] (zero : α) (m : Maybe (basicType zero Truthy.truthy))
    (a : α) : (m.set a).toOption = PumaDev.Maybe.set a := Maybe.toOption_set m a

/-- What is taken is what is there afterwards. -/
theorem Maybe.toOption_taken {T : GoType α} {m : Maybe T} (unset : m.hasValue = false)
    {x : Option α} (truthy : ∀ a, x = some a → T.truthy a = true) :
    ∃ after result, m.taken x = .returned after result ∧ after.toOption = x := by
  cases x with
  | none => exact ⟨m, false, rfl, toOption_of_unset unset⟩
  | some a => exact ⟨m.set a, true, rfl, by rw [toOption_set, if_pos (truthy a rfl)]⟩

/-- So does `ApplyDefault` with one default. -/
theorem toOption_applyDefault_basic [Truthy α] (zero : α)
    (m : Maybe (basicType zero Truthy.truthy)) (a : α) :
    ∃ after result, m.applyDefault [.value a] = .returned after result ∧
      after.toOption = PumaDev.Maybe.applyDefault m.toOption a := by
  have ordinary : (basicType zero Truthy.truthy).Ordinary := ordinary_basicType _ _
  have completes : m.Completes [.value a] := by
    refine (Maybe.completes_iff_of_ordinary ordinary m _).mpr fun d mem => ?_
    have listed := Maybe.mem_of_reached mem
    simp at listed
  rcases m.applyDefault_cases [.value a] with ⟨has, ends⟩ | ⟨-, stuck, -⟩ | ⟨unset, -, ends⟩
  · exact ⟨m, true, ends, by simp [Maybe.toOption, has, PumaDev.Maybe.applyDefault]⟩
  · exact absurd completes stuck
  · have reads : m.reads (.value a) = true := by
      simp [(Maybe.reads_of_ordinary ordinary m _).1, Default.kind]
    have first : Default.firstUsable ([.value a].filter m.reads) = PumaDev.Maybe.set a := by
      rw [List.filter_cons_of_pos reads, List.filter_nil, Default.firstUsable,
        List.findSome?_singleton]
      rfl
    obtain ⟨after, result, took, there⟩ :=
      Maybe.toOption_taken unset fun b => Maybe.truthy_of_firstUsable
    refine ⟨after, result, ends.trans took, ?_⟩
    rw [there, first, Maybe.toOption_of_unset unset]
    rfl

/-- The options after `RpcConsoleProg.Init`, for an app in the directory `dir`: without
`Persist` it returns before it comes to `UseShell`. -/
def initDefaults (dir : GoString) (opts : RpcConsoleProgOpts) : RpcConsoleProgOpts :=
  let opts := { opts with
    dir := PumaDev.Maybe.applyDefault opts.dir dir
    persist := PumaDev.Maybe.applyDefault opts.persist opts.key.isSome }
  if opts.persist = none then opts
  else
    { opts with
      useShell := PumaDev.Maybe.applyDefault opts.useShell true
      allocPty := PumaDev.Maybe.applyDefault opts.allocPty true }

/-- A default that has been applied is not applied again. -/
theorem applyDefault_applyDefault [Truthy α] (m : Option α) (a : α) :
    PumaDev.Maybe.applyDefault (PumaDev.Maybe.applyDefault m a) a =
      PumaDev.Maybe.applyDefault m a := by
  cases m with
  | some b => rfl
  | none =>
      simp only [PumaDev.Maybe.applyDefault]
      cases PumaDev.Maybe.set a <;> rfl

/-- `InitConsoleApp` goes on with these options. -/
theorem initConsoleApp_initDefaults (os : ConsoleOs) (id : AppId) (a : App)
    (opts : RpcConsoleProgOpts) :
    initConsoleApp os id a (initDefaults a.dir opts) = initConsoleApp os id a opts := by
  by_cases none : PumaDev.Maybe.applyDefault opts.persist opts.key.isSome = none
  · delta initConsoleApp initDefaults
    dsimp only
    rw [if_pos none, if_pos none]
    dsimp only
    rw [applyDefault_applyDefault, if_pos none]
  · delta initConsoleApp initDefaults
    dsimp only
    rw [if_neg none, if_neg none]
    dsimp only
    rw [applyDefault_applyDefault, if_neg none]
    simp only [applyDefault_applyDefault]

/-- An option after `Init`. -/
theorem get_initDefaults (o : BoolOption) (dir : GoString) (opts : RpcConsoleProgOpts) :
    o.get (initDefaults dir opts) =
      if o = .persist then PumaDev.Maybe.applyDefault opts.persist opts.key.isSome
      else if PumaDev.Maybe.applyDefault opts.persist opts.key.isSome = none then o.get opts
      else PumaDev.Maybe.applyDefault (o.get opts) true := by
  unfold initDefaults
  dsimp only
  split
  · next none => cases o <;> simp [BoolOption.get, none]
  · cases o <;> rfl

/-- Whether `Persist` has a value after `Init`. -/
theorem persist_eq_none_iff (persist : Option Bool) (key : Option GoString) :
    PumaDev.Maybe.applyDefault persist key.isSome = none ↔ persist = none ∧ key = none := by
  cases persist <;> cases key <;> simp [PumaDev.Maybe.applyDefault, PumaDev.Maybe.set, Truthy.truthy]

/-- **When an explicit setting beats a default.**  For every type, in every sequence of calls
on a `Maybe` that `NewMaybe` has built: no `ApplyDefault` after a `Set` changes anything, if
and only if none comes with something to store while a falsy `Set` is the last one and there
is no value.  And for every option of a console that was `Set(false)`: `Init` leaves it false
if and only if there is no key and, unless the option is `Persist`, no `Persist`. -/
theorem keepsExplicit_iff (T : GoType α) (mtx : ℕ) (calls : List (Call T)) :
    ((settingMachine T mtx).Guarded (Setting.KeepsExplicit mtx) (settingMachine T mtx).init calls ↔
        (settingMachine T mtx).Guarded Setting.SparesFalsy (settingMachine T mtx).init calls) ∧
      ∀ (dir : GoString) (opts : RpcConsoleProgOpts) (o : BoolOption),
        (o.get (initDefaults dir (o.setFalse opts))).getD false = false ↔
          opts.key = none ∧ (o = .persist ∨ opts.persist = none) := by
  constructor
  · refine (settingMachine T mtx).guarded_congr (J := Setting.Holds)
      (fun _ _ _ holds h => Setting.holds_of_step holds h)
      (fun _ call _ holds _ => Setting.keepsExplicit_iff_sparesFalsy holds call) calls ?_
    rintro v ⟨⟩
  · intro dir opts o
    rw [get_initDefaults]
    cases o with
    | persist =>
        cases key : opts.key <;>
          simp [BoolOption.setFalse, key, PumaDev.Maybe.applyDefault, PumaDev.Maybe.set,
            Truthy.truthy]
    | useShell | allocPty =>
        simp only [BoolOption.setFalse, BoolOption.get, reduceCtorEq, if_false,
          persist_eq_none_iff, false_or]
        split
        · next none => simpa [PumaDev.Maybe.set, Truthy.truthy] using none.symm
        · next some =>
            simp only [PumaDev.Maybe.applyDefault, PumaDev.Maybe.set, Truthy.truthy, id]
            simpa [and_comm] using some

/-- A `Maybe[bool]` that is set to false gets the default; and a console that is to run
without a shell gets one. -/
theorem not_keepsExplicit_false :
    ¬ (settingMachine boolType 0).Guarded (Setting.KeepsExplicit 0)
        (settingMachine boolType 0).init [.set false, .applyDefault [.value true]] ∧
      (initDefaults [] (BoolOption.useShell.setFalse railsConsole)).useShell = some true := by
  refine ⟨fun guarded => ?_, by decide⟩
  have kept := guarded.2.1 _ rfl (by decide) _ rfl
  exact absurd (congrArg Maybe.hasValue kept) (by decide)

end PumaDev.Rpc
