import Mathlib.Data.List.AList
import Mathlib.Tactic.Common

/-!
# Registries: a map that knows its values by identity

A **registry** maps keys to values and is read in two ways: by key, and — when
a value has to go — by value, dropping every key that leads to it.  The map
itself is Mathlib's association list with distinct keys; what is added here is
the second reading and the two notions the callers reason with.

* `drop v` removes every key of `v`, whatever its aliases.
* `Extends m m'` says that `m'` forgets and redirects nothing of `m`.
* `Unaliased m` says that no value has two keys, so that a listing of the values
  names each once.
* `SelfNamed nameOf m` says that every value found under *some* key is also
  found under its own name, so that aliases can never disagree with the name
  they stand for.

Erasing by key is the one operation that can break `SelfNamed`;
`selfNamed_erase_iff` says exactly when it does.
-/

namespace PumaDev

universe u v

/-- A finite map from keys to values. -/
abbrev Registry (κ : Type u) (ν : Type v) := AList fun _ : κ => ν

namespace Registry

variable {κ : Type u} {ν : Type v} [DecidableEq κ]

/-- The values of a registry, one entry per key. -/
def values (m : Registry κ ν) : List ν := m.entries.map Sigma.snd

/-- A value is listed exactly when some key leads to it. -/
theorem mem_values {m : Registry κ ν} {v : ν} :
    v ∈ m.values ↔ ∃ k, m.lookup k = some v := by
  simp only [values, List.mem_map]
  constructor
  · rintro ⟨⟨k, w⟩, mem, rfl⟩
    exact ⟨k, AList.mem_lookup_iff.mpr mem⟩
  · rintro ⟨k, h⟩
    exact ⟨⟨k, v⟩, AList.mem_lookup_iff.mp h, rfl⟩

/-- Remove every key that leads to the value `v`. -/
def drop [DecidableEq ν] (m : Registry κ ν) (v : ν) : Registry κ ν where
  entries := m.entries.filter fun e => e.2 ≠ v
  nodupKeys := m.nodupKeys.sublist List.filter_sublist

/-- After `drop v` a key leads where it led before, unless that was `v`. -/
@[simp] theorem lookup_drop [DecidableEq ν] {m : Registry κ ν} {v w : ν}
    {k : κ} : (m.drop v).lookup k = some w ↔ m.lookup k = some w ∧ w ≠ v := by
  have mem : ∀ {m : Registry κ ν}, m.lookup k = some w ↔
      (⟨k, w⟩ : Sigma fun _ : κ => ν) ∈ m.entries := AList.mem_lookup_iff
  rw [mem, mem]
  simp [drop]

/-- `m'` keeps every entry of `m`. -/
def Extends (m m' : Registry κ ν) : Prop :=
  ∀ k v, m.lookup k = some v → m'.lookup k = some v

theorem Extends.refl (m : Registry κ ν) : Extends m m := fun _ _ h => h

/-- What a registry with one more entry holds. -/
theorem lookup_insert_eq_some {m : Registry κ ν} {k k' : κ} {v w : ν} :
    (m.insert k v).lookup k' = some w ↔
      (k' = k ∧ v = w) ∨ (k' ≠ k ∧ m.lookup k' = some w) := by
  by_cases same : k' = k
  · subst same
    simp [AList.lookup_insert]
  · simp [same, AList.lookup_insert_ne]

/-- What a registry with one key erased holds. -/
theorem lookup_erase_eq_some {m : Registry κ ν} {k k' : κ} {w : ν} :
    (m.erase k).lookup k' = some w ↔ k' ≠ k ∧ m.lookup k' = some w := by
  by_cases same : k' = k
  · subst same
    simp [AList.lookup_erase]
  · simp [same, AList.lookup_erase_ne]

/-- The registry that results from writing the entries one after the other. -/
def ofList (entries : List (κ × ν)) : Registry κ ν :=
  entries.foldl (fun m e => m.insert e.1 e.2) ∅

theorem lookup_foldl_insert {k : κ} {v : ν} :
    ∀ (entries : List (κ × ν)) (m : Registry κ ν), (entries.map Prod.fst).Nodup →
      ((entries.foldl (fun m e => m.insert e.1 e.2) m).lookup k = some v ↔
        (k, v) ∈ entries ∨ (k ∉ entries.map Prod.fst ∧ m.lookup k = some v)) := by
  intro entries
  induction entries with
  | nil => intro m _; simp
  | cons e rest ih =>
      intro m distinct
      obtain ⟨fresh, distinctRest⟩ := List.nodup_cons.mp distinct
      have notTwice : (e.1, v) ∉ rest := fun mem =>
        fresh (List.mem_map.mpr ⟨(e.1, v), mem, rfl⟩)
      rw [List.foldl_cons, ih _ distinctRest, lookup_insert_eq_some]
      obtain ⟨k', v'⟩ := e
      by_cases same : k = k'
      · subst same
        simp only [List.map_cons, List.mem_cons, Prod.mk.injEq] at *
        simp [notTwice, fresh, eq_comm]
      · simp [same]

/-- With distinct keys, what is written is what is found. -/
theorem lookup_ofList {entries : List (κ × ν)} (distinct : (entries.map Prod.fst).Nodup)
    {k : κ} {v : ν} : (ofList entries).lookup k = some v ↔ (k, v) ∈ entries := by
  rw [ofList, lookup_foldl_insert entries ∅ distinct]
  simp

/-! ## Self-named registries -/

/-- Every value found under some key is also found under its own name. -/
def SelfNamed (nameOf : ν → Option κ) (m : Registry κ ν) : Prop :=
  ∀ k v, m.lookup k = some v → ∃ n, nameOf v = some n ∧ m.lookup n = some v

theorem selfNamed_empty (nameOf : ν → Option κ) :
    SelfNamed nameOf (∅ : Registry κ ν) := by
  intro k v h
  simp at h

/-- Only the names of the values present matter. -/
theorem SelfNamed.congr {nameOf nameOf' : ν → Option κ} {m : Registry κ ν}
    (h : SelfNamed nameOf m)
    (same : ∀ v n, nameOf v = some n → nameOf' v = some n) :
    SelfNamed nameOf' m := by
  intro k v hk
  obtain ⟨n, hn, reg⟩ := h k v hk
  exact ⟨n, same v n hn, reg⟩

/-- In a self-named registry a value's name leads back to it, so two values
with one name are the same. -/
theorem SelfNamed.lookup_name {nameOf : ν → Option κ} {m : Registry κ ν}
    (h : SelfNamed nameOf m) {k n : κ} {v : ν} (hk : m.lookup k = some v)
    (hn : nameOf v = some n) : m.lookup n = some v := by
  obtain ⟨n', hn', reg⟩ := h k v hk
  rw [hn] at hn'
  cases hn'
  exact reg

/-- Dropping a value by identity keeps a registry self-named: its aliases go
with it. -/
theorem SelfNamed.drop [DecidableEq ν] {nameOf : ν → Option κ}
    {m : Registry κ ν} (h : SelfNamed nameOf m) (v : ν) :
    SelfNamed nameOf (m.drop v) := by
  intro k w hk
  rw [lookup_drop] at hk
  obtain ⟨n, hn, reg⟩ := h k w hk.1
  exact ⟨n, hn, lookup_drop.mpr ⟨reg, hk.2⟩⟩

/-- **Erasing by key.**  A self-named registry stays so exactly when no *other*
key leads to a value named by the erased key. -/
theorem selfNamed_erase_iff {nameOf : ν → Option κ} {m : Registry κ ν}
    (h : SelfNamed nameOf m) (k : κ) :
    SelfNamed nameOf (m.erase k) ↔
      ∀ k' v, k' ≠ k → m.lookup k' = some v → nameOf v ≠ some k := by
  constructor
  · intro stays k' v hne hk' named
    obtain ⟨n, hn, reg⟩ :=
      stays k' v (lookup_erase_eq_some.mpr ⟨hne, hk'⟩)
    rw [named] at hn
    cases hn
    exact (lookup_erase_eq_some.mp reg).1 rfl
  · intro alone k' v hk'
    obtain ⟨hne, old⟩ := lookup_erase_eq_some.mp hk'
    obtain ⟨n, hn, reg⟩ := h k' v old
    refine ⟨n, hn, lookup_erase_eq_some.mpr ⟨?_, reg⟩⟩
    rintro rfl
    exact alone k' v hne old hn

/-! ## Registries without aliases -/

/-- No value has two keys. -/
def Unaliased (m : Registry κ ν) : Prop :=
  ∀ k k' v, m.lookup k = some v → m.lookup k' = some v → k = k'

/-- Each value is listed once exactly when none has two keys. -/
theorem nodup_values_iff {m : Registry κ ν} : m.values.Nodup ↔ m.Unaliased := by
  have mem : ∀ {k v}, m.lookup k = some v ↔ (⟨k, v⟩ : Sigma fun _ : κ => ν) ∈ m.entries :=
    AList.mem_lookup_iff
  rw [values, List.nodup_map_iff_inj_on m.nodupKeys.nodup]
  constructor
  · intro inj k k' v found found'
    exact congrArg Sigma.fst (inj ⟨k, v⟩ (mem.mp found) ⟨k', v⟩ (mem.mp found') rfl)
  · rintro unaliased ⟨k, v⟩ found ⟨k', v'⟩ found' same
    cases same
    cases unaliased k k' v (mem.mpr found) (mem.mpr found')
    rfl

theorem unaliased_empty : Unaliased (∅ : Registry κ ν) := by
  intro k k' v found
  simp at found

/-- Forgetting keys makes no alias. -/
theorem Unaliased.mono {m m' : Registry κ ν} (h : m.Unaliased)
    (fewer : ∀ k v, m'.lookup k = some v → m.lookup k = some v) : m'.Unaliased :=
  fun k k' v found found' => h k k' v (fewer k v found) (fewer k' v found')

/-! ## Going through a registry -/

/-- An order in which the entries of a registry are gone through, each of them once. -/
structure Iteration (m : Registry κ ν) where
  visits : List (κ × ν)
  all : visits.Perm (m.entries.map fun e => (e.1, e.2))

namespace Iteration

variable {m : Registry κ ν}

/-- The order of the entries themselves. -/
def entries (m : Registry κ ν) : Iteration m := ⟨_, List.Perm.refl _⟩

instance : Inhabited (Iteration m) := ⟨entries m⟩

theorem mem_visits (order : Iteration m) {k : κ} {v : ν} :
    (k, v) ∈ order.visits ↔ m.lookup k = some v := by
  rw [order.all.mem_iff, List.mem_map]
  constructor
  · rintro ⟨e, mem, same⟩
    cases same
    exact AList.mem_lookup_iff.mpr mem
  · intro found
    exact ⟨⟨k, v⟩, AList.mem_lookup_iff.mp found, rfl⟩

/-- Any entry may come first. -/
theorem exists_first [DecidableEq ν] {k : κ} {v : ν} (found : m.lookup k = some v) :
    ∃ order : Iteration m, ∃ rest, order.visits = (k, v) :: rest := by
  have mem : (k, v) ∈ m.entries.map fun e => (e.1, e.2) := (entries m).mem_visits.mpr found
  exact ⟨⟨_, (List.perm_cons_erase mem).symm⟩, _, rfl⟩

/-- **The first entry of a kind** has a property in every order exactly when there is one
and all of them have it. -/
theorem forall_first_iff [DecidableEq ν] (kind : κ → Bool) (P : ν → Prop) :
    (∀ order : Iteration m,
        ∃ v, (order.visits.find? fun e => kind e.1).map Prod.snd = some v ∧ P v) ↔
      (∃ k v, kind k = true ∧ m.lookup k = some v) ∧
        ∀ k v, m.lookup k = some v → kind k = true → P v := by
  constructor
  · intro always
    obtain ⟨v, some_, -⟩ := always (entries m)
    obtain ⟨⟨k, w⟩, first, -⟩ := Option.map_eq_some_iff.mp some_
    have found := (entries m).mem_visits.mp (List.mem_of_find?_eq_some first)
    have fits : kind k = true := List.find?_some (p := fun e : κ × ν => kind e.1) first
    refine ⟨⟨k, w, fits, found⟩, fun k' w' found' fits' => ?_⟩
    obtain ⟨order, rest, visits⟩ := exists_first found'
    obtain ⟨v, here, holds⟩ := always order
    rw [visits, List.find?_cons_of_pos (p := fun e : κ × ν => kind e.1) fits'] at here
    cases here
    exact holds
  · rintro ⟨⟨k, v, fits, found⟩, all⟩ order
    cases first : order.visits.find? fun e => kind e.1 with
    | none => exact absurd fits (List.find?_eq_none.mp first _ (order.mem_visits.mpr found))
    | some e =>
        have mem := order.mem_visits.mp (List.mem_of_find?_eq_some first)
        have fits' : kind e.1 = true := List.find?_some (p := fun e : κ × ν => kind e.1) first
        exact ⟨e.2, rfl, all _ _ mem fits'⟩

/-- It has the value `v` in every order exactly when there is one and all of them do. -/
theorem forall_find?_iff [DecidableEq ν] (kind : κ → Bool) (v : ν) :
    (∀ order : Iteration m, (order.visits.find? fun e => kind e.1).map Prod.snd = some v) ↔
      (∃ k, kind k = true ∧ m.lookup k = some v) ∧
        ∀ k w, m.lookup k = some w → kind k = true → w = v := by
  have first := forall_first_iff (m := m) kind (· = v)
  simp only [exists_eq_right] at first
  rw [first]
  refine and_congr_left fun all => ?_
  constructor
  · rintro ⟨k, w, fits, found⟩
    exact ⟨k, fits, all k w found fits ▸ found⟩
  · rintro ⟨k, fits, found⟩
    exact ⟨k, v, fits, found⟩

end Iteration

end Registry

end PumaDev
