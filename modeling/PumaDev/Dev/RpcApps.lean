import PumaDev.Dev.PoolProcesses
import PumaDev.Lib.Json

/-!
# The list of apps

`GET /apps` answers with `AppPool.ToJson`: one object for every entry of the map.
The entries are keys and the objects are about apps, so an app that sits under
two keys is listed twice.

`ListsOnce` says that the list has exactly one object for each app of the pool.
That is a matter of the keys alone (`listsOnce_iff`), and no step but one gives an
app a second key: writing it under an alias.  `listsOnce_iff_singleNamed` is the
exact condition over runs.
-/

namespace PumaDev

/-- `JsonObj`, in the order its members are set. -/
abbrev JsonObj := List (GoString × Json)

/-- A member that is set only under a condition. -/
def JsonObj.when (set : Prop) [Decidable set] (key : GoString) (value : Json) : JsonObj :=
  if set then [(key, value)] else []

/-- `App.ToJson(false)`. -/
def App.toJson (app : App) : JsonObj :=
  ("id".toList, .str app.name) :: ("name".toList, .str app.name) ::
    (JsonObj.when (0 < app.host.length) "host".toList (.str app.host) ++
      ("scheme".toList, .str app.scheme) ::
      (JsonObj.when (0 < app.port) "port".toList (.num app.port 0) ++
        JsonObj.when app.isPublic "public".toList (.bool app.isPublic) ++
        JsonObj.when (app.address ≠ []) "address".toList (.str app.address) ++
        [("directory".toList, .str app.dir)]))

/-- The entry is known under one name: it has no alias, or the alias is that name. -/
def Identity.Single (identity : Identity) : Prop :=
  identity.aliasName = [] ∨ identity.aliasName = identity.canonicalName

namespace Pool

variable {T : PrintTable} {hash : GoString → GoString} {s t : Pool} {l : Label}

/-- The object `ToJson` appends for an app. -/
def objectOf (s : Pool) (id : AppId) : Option JsonObj := (s.heap[id]?).map (·.app.toJson)

/-- `AppPool.ToJson`: an object for each entry of the map.  The order of the entries
is the order Go happens to go through the map in. -/
def toJson (s : Pool) : List JsonObj := s.apps.values.filterMap s.objectOf

/-- **Each app once.**  Up to order, the list has one object for each app of the
pool, with none missing and none repeated. -/
def ListsOnce (s : Pool) : Prop :=
  ∃ ids : List AppId, ids.Nodup ∧ (∀ id, id ∈ ids ↔ s.InPool id) ∧
    (s.toJson.map some).Perm (ids.map s.objectOf)

/-- Every entry of the map has its object. -/
theorem toJson_map_some (inv : WellFormed s) :
    s.toJson.map some = s.apps.values.map s.objectOf := by
  have total : ∀ id ∈ s.apps.values, ∃ object, s.objectOf id = some object := by
    intro id listed
    obtain ⟨k, found⟩ := Registry.mem_values.mp listed
    obtain ⟨i, here⟩ := inv.keys k id found
    exact ⟨i.app.toJson, by simp [objectOf, here]⟩
  rw [toJson]
  generalize s.apps.values = ids at total
  induction ids with
  | nil => rfl
  | cons id rest ih =>
      obtain ⟨object, is⟩ := total id List.mem_cons_self
      rw [List.filterMap_cons_some is, List.map_cons, List.map_cons, is,
        ih fun id' later => total id' (List.mem_cons_of_mem _ later)]

/-- Each app is listed once exactly when none has two keys. -/
theorem listsOnce_iff (inv : WellFormed s) : s.ListsOnce ↔ s.apps.Unaliased := by
  rw [← Registry.nodup_values_iff, ListsOnce, toJson_map_some inv]
  constructor
  · rintro ⟨ids, distinct, exact_, listing⟩
    have inside : ids.Subperm s.apps.values :=
      distinct.subperm fun id mem => Registry.mem_values.mpr ((exact_ id).mp mem)
    have lengths : s.apps.values.length = ids.length := by simpa using listing.length_eq
    exact (inside.perm_of_length_le lengths.le).nodup distinct
  · intro distinct
    exact ⟨s.apps.values, distinct, fun id => Registry.mem_values, List.Perm.refl _⟩

/-! ## Second keys -/

/-- An app that this step writes into the map is written under one name. -/
def SingleNamed (hash : GoString → GoString) (s : Pool) (l : Label) : Prop :=
  ∀ id identity, s.written hash l = some (id, identity) → identity.Single

/-- Registering an app that has no key, or only its canonical one, gives it a second
key exactly when it comes with an alias. -/
theorem unaliased_register {apps : Apps} {identity : Identity} {id : AppId}
    (unaliased : apps.Unaliased)
    (free : ∀ k v, identity.Names k → apps.lookup k = some v → v = id)
    (only : ∀ k, apps.lookup k = some id → k = identity.canonicalName) :
    (register apps identity id).Unaliased ↔ identity.Single := by
  constructor
  · intro stays
    by_cases empty : identity.aliasName = []
    · exact Or.inl empty
    · refine Or.inr (stays _ _ id ?_ ?_)
      · exact lookup_register_eq_some.mpr (Or.inl ⟨Or.inr ⟨empty, rfl⟩, rfl⟩)
      · exact lookup_register_eq_some.mpr (Or.inl ⟨Or.inl rfl, rfl⟩)
  · intro single
    have canonical : ∀ k, (register apps identity id).lookup k = some id →
        k = identity.canonicalName := by
      intro k found
      rcases lookup_register_eq_some.mp found with ⟨rfl | ⟨nonempty, rfl⟩, -⟩ | ⟨-, old⟩
      · rfl
      · exact single.resolve_left nonempty
      · exact only k old
    intro k k' v found found'
    by_cases same : v = id
    · subst same
      rw [canonical k found, canonical k' found']
    · have old : ∀ {k}, (register apps identity id).lookup k = some v →
          apps.lookup k = some v := fun found =>
        ((lookup_register_eq_some.mp found).resolve_left fun new => same new.2.symm).2
      exact unaliased k k' v (old found) (old found')

/-- What is written is new, or was found under its canonical name. -/
theorem fresh_of_written (inv : WellFormed s) {id : AppId} {identity : Identity}
    (writes : s.written hash l = some (id, identity)) :
    (∀ k v, identity.Names k → s.apps.lookup k = some v → v = id) ∧
      ((∀ k, s.apps.lookup k ≠ some id) ∨
        s.apps.lookup identity.canonicalName = some id) := by
  cases l with
  | lookup name os =>
      have fits := fits_decideLookup hash os s.dir.text s.apps name
      simp only [written] at writes
      split at writes
      · next id' identity' decision =>
          cases writes
          rw [decision] at fits
          exact ⟨only_of_fits fits, Or.inr fits.2.1⟩
      · cases writes
  | register =>
      simp only [written] at writes
      split at writes
      · next id' identity' starting =>
          cases writes
          obtain ⟨unused, -, unknown⟩ := inv.starting _ _ _ starting
          refine ⟨fun k v name found => ?_, Or.inl unknown⟩
          rw [unused k name] at found
          cases found
      · cases writes
  | _ => cases writes

/-- **One step.**  The list stays without repetitions exactly when the step writes no
app under two names. -/
theorem listsOnce_step (inv : WellFormed s) (once : s.ListsOnce)
    (h : s.step T hash l = some t) : t.ListsOnce ↔ s.SingleNamed hash l := by
  rw [listsOnce_iff (wellFormed_of_step h inv)]
  have unaliased := (listsOnce_iff inv).mp once
  rcases apps_of_step h with ⟨id, identity, writes, apps⟩ | ⟨quiet, fewer⟩
  · obtain ⟨free, fresh⟩ := fresh_of_written inv writes
    have only : ∀ k, s.apps.lookup k = some id → k = identity.canonicalName := by
      intro k found
      rcases fresh with unknown | canonical
      · exact absurd found (unknown k)
      · exact unaliased k _ id found canonical
    rw [apps, unaliased_register unaliased free only]
    constructor
    · intro single id' identity' writes'
      rw [writes] at writes'
      cases writes'
      exact single
    · intro single
      exact single id identity writes
  · refine iff_of_true (unaliased.mono fewer) fun id identity writes => ?_
    rw [quiet] at writes
    cases writes

/-- **When each app is listed once.**  In every state of a run the list has exactly
one object for each app of the pool, if and only if the run never writes an app
into the map under two names. -/
theorem listsOnce_iff_singleNamed (T : PrintTable) (hash : GoString → GoString)
    (dir : Filepath.CleanDir) (idleTime : ℤ) (ls : List Label) :
    (∀ s ∈ (poolMachine T hash dir idleTime).visited (poolMachine T hash dir idleTime).init ls,
        s.ListsOnce) ↔
      (poolMachine T hash dir idleTime).Guarded (Pool.SingleNamed hash)
        (poolMachine T hash dir idleTime).init ls := by
  have start : (poolMachine T hash dir idleTime).init.ListsOnce :=
    (listsOnce_iff (wellFormed_empty dir idleTime)).mpr Registry.unaliased_empty
  exact (poolMachine T hash dir idleTime).visited_iff_guarded
    (fun _ _ _ inv h => wellFormed_of_step h inv)
    (fun _ _ _ inv once h => listsOnce_step inv once h) ls
    (wellFormed_empty dir idleTime) start

/-- The link `www` is known by the name of its target and by its own.  One lookup of
it, and the one app of the pool is listed twice. -/
theorem not_listsOnce_www :
    ∃ s ∈ linkedPool.visited linkedPool.init (startApp "www".toList linkedWorld),
      ¬ s.ListsOnce := by
  have facts : (linkedPool.exec linkedPool.init (startApp "www".toList linkedWorld)).map
      (fun s => (s.apps.lookup "www".toList, s.apps.lookup "blog-9d480fb8".toList)) =
      some (some 0, some 0) := by decide
  obtain ⟨s, visited, found⟩ := linkedPool.exists_visited_of_map facts
  simp only [Prod.mk.injEq] at found
  refine ⟨s, visited, fun once => ?_⟩
  have unaliased := (listsOnce_iff (wellFormed_of_visited _ s visited)).mp once
  exact absurd (unaliased _ _ 0 found.1 found.2) (by decide)

end Pool

end PumaDev
