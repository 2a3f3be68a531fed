import PumaDev.Dev.PoolMap
import PumaDev.Dev.PoolProcesses
import PumaDev.Dev.RpcAnswers

/-!
# The status page

`GET /status` goes through the pool and writes one object into a map for each entry, under the
name of its app; the map is then encoded.  What an app has printed is part of the page, so the
text must hold whatever bytes there are.

`PageLists` says that the page is a JSON object with exactly one member for each app of the
pool, named by the app and reporting on it.  That is so exactly when no two apps of the pool
share a name (`pageLists_iff`); and they do not, in a run in which `maybeIdle` never deletes a
name that an alias still needs (`statusPage_of_run`).
-/

namespace PumaDev

open Marshal (Input)

/-- What the function that `status` hands to `ForApps` finds when it is called. -/
structure PageVisit where
  id : AppId
  app : App
  /-- What `Status` returns. -/
  status : AppStatus
  /-- What `Log` returns. -/
  log : Bytes

namespace PageVisit

/-- `appStatus`. -/
def appStatus (v : PageVisit) : Input :=
  .struct [(Utf8.encode "scheme".toList, Marshal.text v.app.scheme),
    (Utf8.encode "address".toList, Marshal.text v.app.address),
    (Utf8.encode "status".toList, Marshal.text v.status.label),
    (Utf8.encode "log".toList, .str v.log)]

/-- What the page says of an app. -/
def object (v : PageVisit) : Json :=
  .obj [("scheme".toList, .str v.app.scheme), ("address".toList, .str v.app.address),
    ("status".toList, .str v.status.label), ("log".toList, .str (Utf8.runes 0 v.log))]

theorem read_appStatus (v : PageVisit) : v.appStatus.read = v.object := by
  simp only [appStatus, Input.read, Marshal.readMembers_eq, List.map_cons, List.map_nil,
    Utf8.runes_encode, Marshal.text, object]

theorem depth_appStatus (v : PageVisit) : v.appStatus.depth = 1 := rfl

end PageVisit

/-- `statuses`, after all of the visits. -/
def statuses (visits : List PageVisit) : Registry GoString Input :=
  Registry.ofList (visits.map fun v => (v.app.name, v.appStatus))

/-- The members that are encoded. -/
def pageMembers (visits : List PageVisit) : Marshal.Members :=
  (statuses visits).entries.map fun e => (e.1, e.2)

/-- What `HTTPServer.status` writes. -/
def statusPage (visits : List PageVisit) : GoString :=
  Marshal.encode (Marshal.obj (pageMembers visits))

namespace Registry

variable {κ ν : Type} [DecidableEq κ] {k : κ} {v : ν} {entries : List (κ × ν)}

/-- What is found has been written. -/
theorem mem_of_lookup_foldl {m : Registry κ ν}
    (found : (entries.foldl (fun m e => m.insert e.1 e.2) m).lookup k = some v) :
    (k, v) ∈ entries ∨ m.lookup k = some v := by
  induction entries generalizing m with
  | nil => exact Or.inr found
  | cons e rest ih =>
      rcases ih found with later | here
      · exact Or.inl (List.mem_cons_of_mem e later)
      · rcases lookup_insert_eq_some.mp here with ⟨rfl, rfl⟩ | ⟨-, old⟩
        · exact Or.inl List.mem_cons_self
        · exact Or.inr old

/-- Under a key that has been written something is found. -/
theorem isSome_lookup_foldl {m : Registry κ ν}
    (written : k ∈ entries.map Prod.fst ∨ (m.lookup k).isSome) :
    ((entries.foldl (fun m e => m.insert e.1 e.2) m).lookup k).isSome := by
  induction entries generalizing m with
  | nil => exact written.resolve_left List.not_mem_nil
  | cons e rest ih =>
      refine ih ?_
      rw [List.map_cons, List.mem_cons] at written
      by_cases same : k = e.1
      · right
        rw [same, AList.lookup_insert]
        rfl
      · rw [AList.lookup_insert_ne same]
        exact written.imp_left fun here => here.resolve_left same

end Registry

/-- Each member comes from a visit. -/
theorem visit_of_mem_pageMembers {visits : List PageVisit} {m : GoString × Input}
    (mem : m ∈ pageMembers visits) : ∃ v ∈ visits, m = (v.app.name, v.appStatus) := by
  obtain ⟨e, entry, rfl⟩ := List.mem_map.mp mem
  have found : (statuses visits).lookup e.1 = some e.2 := AList.mem_lookup_iff.mpr entry
  rcases Registry.mem_of_lookup_foldl found with written | nothing
  · obtain ⟨v, visited, same⟩ := List.mem_map.mp written
    exact ⟨v, visited, same.symm⟩
  · cases nothing

/-- Each visit brings a member of its name. -/
theorem mem_pageMembers_of_visit {visits : List PageVisit} {v : PageVisit} (visited : v ∈ visits) :
    ∃ m ∈ pageMembers visits, m.1 = v.app.name := by
  have written : v.app.name ∈ (visits.map fun v => (v.app.name, v.appStatus)).map Prod.fst :=
    List.mem_map.mpr ⟨(v.app.name, v.appStatus), List.mem_map.mpr ⟨v, visited, rfl⟩, rfl⟩
  obtain ⟨value, found⟩ := Option.isSome_iff_exists.mp
    (Registry.isSome_lookup_foldl (m := ∅) (Or.inl written))
  exact ⟨(v.app.name, value),
    List.mem_map.mpr ⟨⟨v.app.name, value⟩, AList.mem_lookup_iff.mp found, rfl⟩, rfl⟩

theorem nodup_pageMembers (visits : List PageVisit) :
    ((pageMembers visits).map Prod.fst).Nodup := by
  have keys : (pageMembers visits).map Prod.fst = (statuses visits).entries.keys := by
    rw [pageMembers, List.map_map]
    rfl
  rw [keys]
  exact (statuses visits).nodupKeys

/-- **The page is read** as its members. -/
theorem parse_statusPage (visits : List PageVisit) :
    ∃ members, Json.parse (statusPage visits) = some (.obj members) ∧
      members.Perm (Marshal.Members.read (pageMembers visits)) := by
  obtain ⟨members, reads, all⟩ := Marshal.read_obj (pageMembers visits)
  have depth : (Marshal.obj (pageMembers visits)).depth ≤ 2 := by
    refine Marshal.depth_obj_le fun m mem => ?_
    obtain ⟨v, -, rfl⟩ := visit_of_mem_pageMembers mem
    exact (v.depth_appStatus).le
  refine ⟨members, ?_, all⟩
  rw [statusPage, Marshal.parse_encode (Marshal.obj _) nofun (depth.trans (by decide)), reads]

namespace Pool

variable {s : Pool} {visits : List PageVisit}

/-- The visits of `ForApps`, which holds the lock: the entries of the map in some order, each
with its app. -/
structure Visits (s : Pool) (visits : List PageVisit) : Prop where
  all : (visits.map PageVisit.id).Perm s.apps.values
  app : ∀ v ∈ visits, (s.heap[v.id]?).map Instance.app = some v.app

/-- No two apps of the pool have one name. -/
def DistinctNames (s : Pool) : Prop :=
  ∀ id id' name, s.InPool id → s.InPool id' → s.nameOf id = some name →
    s.nameOf id' = some name → id = id'

/-- The page has one member for each app of the pool, under its name, which says what was found
when the app was visited; and no other. -/
def PageLists (s : Pool) (visits : List PageVisit) : Prop :=
  ∃ members ids, Json.parse (statusPage visits) = some (.obj members) ∧ ids.Nodup ∧
    (∀ id, id ∈ ids ↔ s.InPool id) ∧
    List.Forall₂ (fun id m => ∃ v ∈ visits, v.id = id ∧ m = (v.app.name, v.object)) ids members

theorem Visits.inPool_iff (going : s.Visits visits) {id : AppId} :
    s.InPool id ↔ ∃ v ∈ visits, v.id = id := by
  rw [InPool, ← Registry.mem_values, ← going.all.mem_iff, List.mem_map]

theorem Visits.nameOf (going : s.Visits visits) {v : PageVisit} (visited : v ∈ visits) :
    s.nameOf v.id = some v.app.name := by
  have here := congrArg (Option.map App.name) (going.app v visited)
  rwa [Option.map_map] at here

/-- The visits that the members of a page come from. -/
theorem exists_visits_of_members {members : List (GoString × Json)}
    (from_ : ∀ m ∈ members, ∃ v ∈ visits, m = (v.app.name, v.object)) :
    ∃ vs : List PageVisit, (∀ v ∈ vs, v ∈ visits) ∧
      members = vs.map fun v => (v.app.name, v.object) := by
  induction members with
  | nil => exact ⟨[], nofun, rfl⟩
  | cons m rest ih =>
      obtain ⟨v, visited, rfl⟩ := from_ m List.mem_cons_self
      obtain ⟨vs, visitedRest, rfl⟩ := ih fun m' later => from_ m' (List.mem_cons_of_mem _ later)
      exact ⟨v :: vs, List.forall_mem_cons.mpr ⟨visited, visitedRest⟩, rfl⟩

/-- **The page lists the pool exactly when its names are distinct.** -/
theorem pageLists_iff (going : s.Visits visits) : s.PageLists visits ↔ s.DistinctNames := by
  obtain ⟨members, reads, all⟩ := parse_statusPage visits
  have keys : (members.map Prod.fst).Nodup := by
    have same : (Marshal.Members.read (pageMembers visits)).map Prod.fst =
        (pageMembers visits).map Prod.fst := by
      rw [Marshal.Members.read, List.map_map]
      rfl
    exact (all.map Prod.fst).nodup_iff.mpr (same ▸ nodup_pageMembers visits)
  constructor
  · rintro ⟨members', ids, reads', -, inPool, listed⟩ id id' name present present' named named'
    rw [reads] at reads'
    obtain rfl := Json.obj.inj (Option.some.inj reads')
    -- the names of the apps, in their order, are the keys of the page
    have names : ids.map s.nameOf = (members.map Prod.fst).map some := by
      clear keys all reads reads' inPool
      induction listed with
      | nil => rfl
      | cons shows _ ih =>
          obtain ⟨v, visited, rfl, rfl⟩ := shows
          rw [List.map_cons, List.map_cons, List.map_cons, ih, going.nameOf visited]
    have distinct : (ids.map s.nameOf).Nodup := by
      rw [names]
      exact keys.map (Option.some_injective _)
    exact List.inj_on_of_nodup_map distinct ((inPool id).mpr present) ((inPool id').mpr present')
      (named.trans named'.symm)
  · intro distinct
    have from_ : ∀ m ∈ members, ∃ v ∈ visits, m = (v.app.name, v.object) := by
      intro m mem
      obtain ⟨m', member, rfl⟩ := List.mem_map.mp (all.mem_iff.mp mem)
      obtain ⟨v, visited, rfl⟩ := visit_of_mem_pageMembers member
      exact ⟨v, visited, by rw [← v.read_appStatus]⟩
    obtain ⟨vs, visited, rfl⟩ := exists_visits_of_members from_
    rw [List.map_map] at keys
    refine ⟨_, vs.map PageVisit.id, reads, ?_, fun id => ?_, ?_⟩
    · -- the names are functions of the ids
      have named : vs.map (fun v => some v.app.name) = (vs.map PageVisit.id).map s.nameOf := by
        rw [List.map_map]
        exact List.map_congr_left fun v mem => (going.nameOf (visited v mem)).symm
      refine List.Nodup.of_map s.nameOf ?_
      rw [← named]
      have wrapped := keys.map (Option.some_injective GoString)
      rwa [List.map_map] at wrapped
    · rw [going.inPool_iff, List.mem_map]
      constructor
      · rintro ⟨v, mem, rfl⟩
        exact ⟨v, visited v mem, rfl⟩
      · rintro ⟨v, mem, rfl⟩
        obtain ⟨m, member, name⟩ := mem_pageMembers_of_visit mem
        have listed : (m.1, m.2.read) ∈ vs.map fun v => (v.app.name, v.object) :=
          all.mem_iff.mpr (List.mem_map.mpr ⟨m, member, rfl⟩)
        obtain ⟨w, here, same⟩ := List.mem_map.mp listed
        refine ⟨w, here, ?_⟩
        have named : w.app.name = v.app.name := (congrArg Prod.fst same).trans name
        exact distinct _ _ v.app.name (going.inPool_iff.mpr ⟨w, visited w here, rfl⟩)
          (going.inPool_iff.mpr ⟨v, mem, rfl⟩) (named ▸ going.nameOf (visited w here))
          (going.nameOf mem)
    · rw [List.forall₂_map_left_iff, List.forall₂_map_right_iff, List.forall₂_same]
      exact fun v mem => ⟨v, visited v mem, rfl, rfl⟩

/-- In a self-named map the names are distinct. -/
theorem SelfNamed.distinctNames (self : s.SelfNamed) : s.DistinctNames := by
  rintro id id' name ⟨k, found⟩ ⟨k', found'⟩ named named'
  have here := self.lookup_name found named
  rw [self.lookup_name found' named'] at here
  exact (Option.some.inj here).symm

/-- **The status page over whole runs.**  In every state of every run the page lists the pool,
in whatever order the map is gone through, exactly if no two apps share a name; and they do
not, if `maybeIdle` has never deleted a name that an alias still needed. -/
theorem statusPage_of_run (T : PrintTable) (hash : GoString → GoString) (dir : Filepath.CleanDir)
    (idleTime : ℤ) (ls : List Label) :
    (∀ s ∈ (poolMachine T hash dir idleTime).visited (poolMachine T hash dir idleTime).init ls,
        ∀ visits, s.Visits visits → (s.PageLists visits ↔ s.DistinctNames)) ∧
      ((poolMachine T hash dir idleTime).Guarded Pool.AliasFree
          (poolMachine T hash dir idleTime).init ls →
        ∀ s ∈ (poolMachine T hash dir idleTime).visited (poolMachine T hash dir idleTime).init ls,
          s.DistinctNames) := by
  refine ⟨fun s _ visits going => pageLists_iff going, fun guarded s visited => ?_⟩
  have kept : ∀ s ∈ (poolMachine T hash dir idleTime).visited
      (poolMachine T hash dir idleTime).init ls, s.WellFormed ∧ s.SelfNamed := by
    refine Machine.inv_of_guarded _ (fun s l t held free h => ?_) ls
      ⟨wellFormed_empty dir idleTime, Registry.selfNamed_empty _⟩ guarded
    exact ⟨wellFormed_of_step h held.1, (selfNamed_step held.1 held.2 h).mpr free⟩
  exact (kept s visited).2.distinctNames

/-- One app, and its page. -/
theorem statusPage_blog : ∃ s app,
    s ∈ plainPool.visited plainPool.init (startApp "blog".toList .everyDirectory) ∧
      s.Visits [⟨0, app, .running, []⟩] ∧ s.PageLists [⟨0, app, .running, []⟩] := by
  have facts : (plainPool.exec plainPool.init (startApp "blog".toList .everyDirectory)).map
      (fun s => (s.apps.values, (s.heap[0]?).isSome)) = some ([0], true) := by decide
  obtain ⟨s, visited, found⟩ := plainPool.exists_visited_of_map facts
  simp only [Prod.mk.injEq] at found
  obtain ⟨i, here⟩ := Option.isSome_iff_exists.mp found.2
  have idle : ∀ l ∈ startApp "blog".toList .everyDirectory, ∀ s : Pool, s.AliasFree l := by
    intro l mem s id i fires
    simp only [startApp, List.mem_cons, List.not_mem_nil, or_false] at mem
    rcases mem with rfl | rfl | rfl | rfl | rfl | rfl | rfl <;> cases fires
  have page := statusPage_of_run .asciiOnly blogDigest .home 900
    (startApp "blog".toList .everyDirectory)
  have going : s.Visits [⟨0, i.app, .running, []⟩] :=
    { all := by rw [found.1]; exact .refl _
      app := by simp [here] }
  exact ⟨s, i.app, visited, going, (page.1 s visited _ going).mpr
    (page.2 (Machine.guarded_of_forall _ idle _) s visited)⟩

/-- A world in which `web` is a second link to what `www` links to. -/
def twiceLinkedWorld : Os :=
  { linkedWorld with readlink := fun _ _ => some "/home/u/code/blog".toList }

/-- The app of `www` has been idle, and the name of its directory is deleted; it stays under
`www`.  Then `web` starts the app of that directory anew, and the page has room for one of
the two. -/
theorem not_distinctNames_web : ∃ s ∈ linkedPool.visited linkedPool.init
    (startApp "www".toList linkedWorld ++ [.tick 901, .maybeIdle 0] ++
      startApp "web".toList twiceLinkedWorld), ¬ s.DistinctNames := by
  have facts : (linkedPool.exec linkedPool.init
      (startApp "www".toList linkedWorld ++ [.tick 901, .maybeIdle 0] ++
        startApp "web".toList twiceLinkedWorld)).map
      (fun s => (s.apps.lookup "www".toList, s.apps.lookup "web".toList, s.nameOf 0, s.nameOf 1)) =
      some (some 0, some 1, some "blog-9d480fb8".toList, some "blog-9d480fb8".toList) := by decide
  obtain ⟨s, visited, found⟩ := linkedPool.exists_visited_of_map facts
  simp only [Prod.mk.injEq] at found
  obtain ⟨old, new, name, name'⟩ := found
  exact ⟨s, visited, fun distinct =>
    absurd (distinct 0 1 _ ⟨_, old⟩ ⟨_, new⟩ name name') (by decide)⟩

end Pool

end PumaDev
