import PumaDev.Go.Strings
import PumaDev.Lib.Binary64
import PumaDev.Lib.JsonText
import PumaDev.Lib.Registry

/-!
# `encoding/json`: decoding into `map[string]any`

`json.Unmarshal` into an empty interface makes a float64 of every number, and
reports an error when one does not fit; a string, a boolean or a null stays
what it is.  An object becomes a map, so of several members with one key the
last one stays.

`unmarshalMap` is what a `map[string]any` receives: an object or a `null`, and
an error from any other text, and from one that is nested too deeply.
-/

namespace PumaDev

/-- A decoded value, as it is stored in an `any`. -/
inductive GoAny where
  /-- `nil`. -/
  | null
  /-- A `bool`. -/
  | bool (b : Bool)
  /-- A `float64`, by the rational it stands for. -/
  | float64 (x : ℚ)
  /-- A `string`. -/
  | str (s : GoString)
  /-- A `[]any`. -/
  | slice (items : List GoAny)
  /-- A `map[string]any`, its members in the order they were stored. -/
  | map (members : List (GoString × GoAny))

namespace Unmarshal

/-- The value of a decimal literal, rounded to a float64. -/
def number (mantissa exponent : ℤ) : Option GoAny :=
  (binary64 (mantissa * (10 : ℚ) ^ exponent)).map .float64

mutual

/-- A value decoded into an `any`. -/
def value : Json → Option GoAny
  | .null => some .null
  | .bool b => some (.bool b)
  | .num mantissa exponent => number mantissa exponent
  | .str s => some (.str s)
  | .arr items => (values items).map .slice
  | .obj entries => (members entries).map .map

/-- The elements of an array. -/
def values : List Json → Option (List GoAny)
  | [] => some []
  | j :: rest =>
      match value j, values rest with
      | some v, some vs => some (v :: vs)
      | _, _ => none

/-- The members of an object. -/
def members : List (GoString × Json) → Option (List (GoString × GoAny))
  | [] => some []
  | (k, j) :: rest =>
      match value j, members rest with
      | some v, some vs => some ((k, v) :: vs)
      | _, _ => none

end

/-! ### Which values are decoded -/

mutual

/-- Every number in the value fits a float64. -/
def fits : Json → Bool
  | .null | .bool _ | .str _ => true
  | .num mantissa exponent => (binary64 (mantissa * (10 : ℚ) ^ exponent)).isSome
  | .arr items => fitsAll items
  | .obj entries => fitsMembers entries

def fitsAll : List Json → Bool
  | [] => true
  | j :: rest => fits j && fitsAll rest

def fitsMembers : List (GoString × Json) → Bool
  | [] => true
  | (_, j) :: rest => fits j && fitsMembers rest

end

mutual

/-- A value is decoded exactly if its numbers fit. -/
theorem isSome_value : ∀ j : Json, (value j).isSome = fits j
  | .null | .bool _ | .str _ => rfl
  | .num mantissa exponent => by rw [value, number, Option.isSome_map, fits]
  | .arr items => by rw [value, Option.isSome_map, isSome_values items, fits]
  | .obj entries => by rw [value, Option.isSome_map, isSome_members entries, fits]

theorem isSome_values : ∀ items : List Json, (values items).isSome = fitsAll items
  | [] => rfl
  | j :: rest => by
      rw [values, fitsAll, ← isSome_value j, ← isSome_values rest]
      cases value j <;> cases values rest <;> rfl

theorem isSome_members :
    ∀ entries : List (GoString × Json), (members entries).isSome = fitsMembers entries
  | [] => rfl
  | (k, j) :: rest => by
      rw [members, fitsMembers, ← isSome_value j, ← isSome_members rest]
      cases value j <;> cases members rest <;> rfl

end

mutual

/-- How deeply arrays and objects are nested. -/
def depth : Json → ℕ
  | .null | .bool _ | .num .. | .str _ => 0
  | .arr items => depthAll items + 1
  | .obj entries => depthMembers entries + 1

def depthAll : List Json → ℕ
  | [] => 0
  | j :: rest => max (depth j) (depthAll rest)

def depthMembers : List (GoString × Json) → ℕ
  | [] => 0
  | (_, j) :: rest => max (depth j) (depthMembers rest)

end

/-- `maxNestingDepth`. -/
def maxNestingDepth : ℕ := 10000

/-- Members that are no containers are not nested. -/
theorem depthMembers_of_flat {entries : List (GoString × Json)}
    (flat : ∀ e ∈ entries, depth e.2 = 0) : depthMembers entries = 0 := by
  induction entries with
  | nil => rfl
  | cons e rest ih =>
      obtain ⟨here, later⟩ := List.forall_mem_cons.mp flat
      rw [depthMembers, here, ih later, Nat.max_self]

/-- Integers of magnitude below `2 ^ 53` are decoded exactly. -/
theorem number_of_small {n : ℤ} (small : |n| < 2 ^ 53) :
    number n 0 = some (.float64 n) := by
  rw [number, zpow_zero, mul_one, binary64_intCast small, Option.map_some]

/-- A member and what it is decoded to, under the same key. -/
def Decodes (e : GoString × Json) (d : GoString × GoAny) : Prop :=
  e.1 = d.1 ∧ value e.2 = some d.2

/-- The members of an object are decoded one by one. -/
theorem members_eq_some_iff {entries : List (GoString × Json)}
    {decoded : List (GoString × GoAny)} :
    members entries = some decoded ↔ List.Forall₂ Decodes entries decoded := by
  constructor
  · intro h
    induction entries generalizing decoded with
    | nil =>
        cases h
        exact .nil
    | cons e rest ih =>
        obtain ⟨k, j⟩ := e
        rw [members] at h
        split at h
        · next v vs here later =>
            cases h
            exact .cons ⟨rfl, here⟩ (ih later)
        · cases h
  · intro each
    induction each with
    | nil => rfl
    | @cons e d entries decoded here _ ih =>
        obtain ⟨sameKey, decodes⟩ := here
        rw [members, decodes, ih, sameKey]

/-- Every decoded member comes from one of the text. -/
theorem exists_of_mem_decoded {entries : List (GoString × Json)}
    {decoded : List (GoString × GoAny)} (each : List.Forall₂ Decodes entries decoded)
    {d : GoString × GoAny} (mem : d ∈ decoded) : ∃ e ∈ entries, Decodes e d := by
  induction each with
  | nil => cases mem
  | @cons e d' entries decoded here _ ih =>
      rcases List.mem_cons.mp mem with rfl | later
      · exact ⟨e, List.mem_cons_self, here⟩
      · obtain ⟨e', inRest, decodes⟩ := ih later
        exact ⟨e', List.mem_cons_of_mem _ inRest, decodes⟩

/-- Decoding changes no key. -/
theorem keys_of_forall₂ {entries : List (GoString × Json)}
    {decoded : List (GoString × GoAny)} (each : List.Forall₂ Decodes entries decoded) :
    decoded.map Prod.fst = entries.map Prod.fst := by
  induction each with
  | nil => rfl
  | cons here _ ih => rw [List.map_cons, List.map_cons, ih, here.1]

/-- **Of several members with one key**, the last is decoded. -/
theorem lookup_ofList_of_forall₂ {entries : List (GoString × Json)}
    {decoded : List (GoString × GoAny)} (each : List.Forall₂ Decodes entries decoded)
    (k : GoString) :
    (Registry.ofList decoded).lookup k = ((Registry.ofList entries).lookup k).bind value := by
  suffices written : ∀ (m : Registry GoString Json) (m' : Registry GoString GoAny),
      m'.lookup k = (m.lookup k).bind value →
        (decoded.foldl (fun m e => m.insert e.1 e.2) m').lookup k =
          ((entries.foldl (fun m e => m.insert e.1 e.2) m).lookup k).bind value by
    exact written ∅ ∅ rfl
  induction each with
  | nil => exact fun _ _ same => same
  | @cons e d entries decoded here _ ih =>
      intro m m' same
      apply ih
      dsimp only
      by_cases key : k = d.1
      · subst key
        rw [← here.1, AList.lookup_insert, here.1, AList.lookup_insert, Option.bind_some, here.2]
      · rw [AList.lookup_insert_ne key, AList.lookup_insert_ne (here.1 ▸ key), same]

end Unmarshal

/-- `json.Unmarshal(data, &obj)` for a `map[string]any`; `none` is an error. -/
def unmarshalMap (data : GoString) : Option (Registry GoString GoAny) :=
  match Json.parse data with
  | some (.obj entries) =>
      if Unmarshal.depth (.obj entries) ≤ Unmarshal.maxNestingDepth then
        (Unmarshal.members entries).map Registry.ofList
      else none
  | some .null => some ∅
  | _ => none

end PumaDev
