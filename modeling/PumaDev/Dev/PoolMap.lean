import PumaDev.Dev.PoolInvariants

/-!
# The map of the pool, over whole runs

Two questions about the keys of the map.

**Does a removed app ever come back?**  No.  Once `remove` has run for an app no
key leads to it (`gone_of_remove`), and nothing can bring it back: lookups copy
addresses from the map or register an app that has only just been created, and
a lookup that is still starting the app would hold the lock that `remove`
needs.  `removed_for_good` is the result over runs.

**Is every app found under its own name?**  Not always.  Lookups and `remove`
keep the map self-named, since aliases are written next to the canonical name
and dropped with it; `maybeIdle` deletes one key only.
`selfNamed_iff_aliasFree` is exact: a run stays self-named in all its states if
and only if, whenever `maybeIdle` deletes a name, no other key leads to an app of
that name.
-/

namespace PumaDev

namespace Pool

variable {T : PrintTable} {hash : GoString → GoString} {s t : Pool} {l : Label}

/-! ## Removal is final -/

/-- The app exists; no key leads to it, and no lookup is about to register it. -/
structure Gone (s : Pool) (id : AppId) : Prop where
  present : ∃ i, s.heap[id]? = some i
  keyless : ∀ k, s.apps.lookup k ≠ some id
  unclaimed : ∀ identity left, s.holder ≠ some (.starting id identity left)

/-- The app that `remove` is called for in this step. -/
def removing : Label → Option AppId
  | .killRemove id _ => some id
  | .watchRemove id => some id
  | _ => none

/-- The app that a call of `lookupApp` returns in this step. -/
def returned (hash : GoString → GoString) (s : Pool) : Label → Option AppId
  | .lookup name os =>
      match (decideLookup hash os s.dir.text s.apps name).2 with
      | .hit id => some id
      | .share id _ => some id
      | _ => none
  | .register =>
      match s.holder with
      | some (.starting id _ []) => some id
      | _ => none
  | _ => none

/-- What is gone is not returned. -/
theorem Gone.not_returned {id : AppId} (gone : Gone s id) (l : Label) :
    s.returned hash l ≠ some id := by
  cases l with
  | lookup name os =>
      have fits := fits_decideLookup hash os s.dir.text s.apps name
      simp only [returned]
      cases decision : (decideLookup hash os s.dir.text s.apps name).2 with
      | hit id' =>
          rw [decision] at fits
          exact fun same => gone.keyless name (Option.some.inj same ▸ fits)
      | share id' identity =>
          rw [decision] at fits
          exact fun same =>
            gone.keyless identity.canonicalName (Option.some.inj same ▸ fits.2.1)
      | _ => simp
  | register =>
      simp only [returned]
      split
      · next id' identity starting =>
          exact fun same =>
            gone.unclaimed identity [] (Option.some.inj same ▸ starting)
      · simp
  | _ => simp [returned]

/-- After `remove` the app is gone. -/
theorem gone_of_remove {id : AppId} (h : s.step T hash l = some t)
    (remove : removing l = some id) : Gone t id := by
  have dropped : ∀ {i j : Instance}, s.Free → s.heap[id]? = some i →
      Gone { s with apps := s.apps.drop id, heap := s.heap.set id j } id := by
    intro i j free here
    have inside : id < s.heap.length := (List.getElem?_eq_some_iff.mp here).1
    refine ⟨⟨j, List.getElem?_set_self inside⟩, fun k found => ?_, fun identity left => ?_⟩
    · exact (Registry.lookup_drop.mp found).2 rfl
    · rw [Free] at free
      simp [free]
  cases stepsTo_of_step h with
  | killRemoved free here _ | watchRemoved free here _ =>
      cases remove
      exact dropped free here
  | _ => cases remove

/-- **Nothing brings it back.** -/
theorem Gone.of_step {id : AppId} (gone : Gone s id) (h : s.step T hash l = some t) :
    Gone t id := by
  obtain ⟨i, here⟩ := gone.present
  obtain ⟨j, there, -⟩ := after_of_step h here
  have same : t.apps = s.apps → ∀ k, t.apps.lookup k ≠ some id := fun apps k => by
    rw [apps]
    exact gone.keyless k
  have unheld : t.holder = s.holder →
      ∀ identity left, t.holder ≠ some (.starting id identity left) := fun holder => by
    rw [holder]
    exact gone.unclaimed
  have registered : ∀ {id' identity}, t.apps = register s.apps identity id' → id' ≠ id →
      ∀ k, t.apps.lookup k ≠ some id := by
    intro id' identity apps other k found
    rw [apps, lookup_register_eq_some] at found
    rcases found with ⟨-, same⟩ | ⟨-, old⟩
    · exact other same
    · exact gone.keyless k old
  cases firing : s.fired l with
  | some fired =>
      obtain ⟨-, -, -, rfl⟩ := step_of_fired h firing
      refine ⟨⟨j, there⟩, fun k found => ?_, gone.unclaimed⟩
      exact gone.keyless k (Registry.lookup_erase_eq_some.mp found).2
  | none =>
      cases move_of_step h firing with
      | quiet apps _ holder | changed _ _ apps _ holder =>
          exact ⟨⟨j, there⟩, same apps, unheld holder⟩
      | @shared id' identity _ canonical _ apps _ holder =>
          refine ⟨⟨j, there⟩, registered apps ?_, unheld holder⟩
          rintro rfl
          exact gone.keyless _ canonical
      | opened _ _ apps _ holder | failed _ apps _ holder =>
          exact ⟨⟨j, there⟩, same apps, fun identity left => by rw [holder]; simp⟩
      | created _ _ _ apps _ holder =>
          refine ⟨⟨j, there⟩, same apps, fun identity left claimed => ?_⟩
          rw [holder] at claimed
          cases claimed
          rw [List.getElem?_eq_none (Nat.le_refl _)] at here
          cases here
      | went starting _ _ apps _ holder =>
          refine ⟨⟨j, there⟩, same apps, fun identity left claimed => ?_⟩
          rw [holder] at claimed
          cases claimed
          exact gone.unclaimed _ _ starting
      | registered starting apps _ holder =>
          refine ⟨⟨j, there⟩, registered apps ?_, fun identity left => by rw [holder]; simp⟩
          rintro rfl
          exact gone.unclaimed _ _ starting
      | removed _ _ _ _ apps _ holder =>
          refine ⟨⟨j, there⟩, fun k found => ?_, unheld holder⟩
          rw [apps, Registry.lookup_drop] at found
          exact gone.keyless k found.1

/-- **A removed app never comes back.**  Once `remove` has run for an app, in
whatever state of the pool, no key leads to it in the state it leaves or in any
later one, whatever steps follow, and no lookup returns it. -/
theorem removed_for_good {dir : Filepath.CleanDir} {idleTime : ℤ} {after : List Label}
    {id : AppId} (h : (poolMachine T hash dir idleTime).step s l = some t)
    (remove : removing l = some id) :
    ∀ u ∈ (poolMachine T hash dir idleTime).visited t after,
      (∀ k, u.apps.lookup k ≠ some id) ∧ ∀ l', u.returned hash l' ≠ some id := by
  have gone : ∀ u ∈ (poolMachine T hash dir idleTime).visited t after, Gone u id :=
    (poolMachine T hash dir idleTime).inv_of_step (fun _ _ _ gone h => gone.of_step h)
      after (gone_of_remove h remove)
  exact fun u mem => ⟨(gone u mem).keyless, (gone u mem).not_returned⟩

/-- The digest of one link's text. -/
def blogDigest (text : GoString) : GoString :=
  if text = "/home/u/code/blog".toList then "9d480fb8".toList else []

/-- A world in which `www` is a link to `/home/u/code/blog`. -/
def linkedWorld : Os :=
  { Os.everyDirectory with
    readlink := fun _ path =>
      if path = "/home/u/.puma-dev/www".toList then some "/home/u/code/blog".toList else none }

/-- The pool of that world, with an idle time of 900. -/
def linkedPool : Machine Pool Label := poolMachine .asciiOnly blogDigest .home 900

/-- A lookup starts an app. -/
def startApp (name : GoString) (os : Os) : List Label :=
  [.lookup name os, .boot os, .go, .go, .go, .go, .register]

/-- The output of the app is closed, and `watch` kills it. -/
def killedByWatch (id : AppId) : List Label :=
  [.act id .closeStdout, .act id (.watchWake true), .act id (.signal .watch true)]

/-- An app whose output was closed is gone for good, and the next lookup of its
name does not return it. -/
theorem removed_www : ∃ s t,
    linkedPool.exec linkedPool.init
      (startApp "www".toList linkedWorld ++ killedByWatch 0) = some s ∧
    linkedPool.step s (.killRemove 0 .watch) = some t ∧
    ∀ u ∈ linkedPool.visited t [.lookup "www".toList linkedWorld],
      (∀ k, u.apps.lookup k ≠ some 0) ∧ ∀ l', u.returned blogDigest l' ≠ some 0 := by
  have enabled : ((linkedPool.exec linkedPool.init
      (startApp "www".toList linkedWorld ++ killedByWatch 0)).bind
        (linkedPool.step · (.killRemove 0 .watch))).isSome = true := by decide
  obtain ⟨t, run⟩ := Option.isSome_iff_exists.mp enabled
  obtain ⟨s, reached, h⟩ := Option.bind_eq_some_iff.mp run
  exact ⟨s, t, reached, h, removed_for_good h rfl⟩

/-! ## Self-named maps -/

/-- The name of the app under an address. -/
def nameOf (s : Pool) (id : AppId) : Option GoString := (s.heap[id]?).map fun i => i.app.name

/-- Every app found under any key is found under its own name. -/
def SelfNamed (s : Pool) : Prop := Registry.SelfNamed s.nameOf s.apps

/-- If `maybeIdle` deletes a name in this step, no other key leads to an app of
that name. -/
def AliasFree (s : Pool) (l : Label) : Prop :=
  ∀ id i, s.fired l = some (id, i) → ∀ k v, k ≠ i.app.name → s.apps.lookup k = some v →
    s.nameOf v ≠ some i.app.name

/-- Names do not change. -/
theorem nameOf_of_step (h : s.step T hash l = some t) {id : AppId} {name : GoString}
    (named : s.nameOf id = some name) : t.nameOf id = some name := by
  obtain ⟨i, here, rfl⟩ := Option.map_eq_some_iff.mp named
  obtain ⟨j, there, next⟩ := after_of_step h here
  rw [nameOf, there, Option.map_some, next.evolves.app]

/-- Registering an app under its own name, and perhaps an alias, keeps a map
self-named. -/
theorem selfNamed_register {nameOf : AppId → Option GoString} {apps : Apps}
    {identity : Identity} {id : AppId} (self : Registry.SelfNamed nameOf apps)
    (free : ∀ k v, identity.Names k → apps.lookup k = some v → v = id)
    (named : ∃ n, nameOf id = some n ∧ (register apps identity id).lookup n = some id) :
    Registry.SelfNamed nameOf (register apps identity id) := by
  intro k v found
  rcases lookup_register_eq_some.mp found with ⟨-, rfl⟩ | ⟨-, old⟩
  · exact named
  · obtain ⟨n, own, reg⟩ := self k v old
    exact ⟨n, own, extends_register free n v reg⟩

/-- **One step.**  A self-named map stays so exactly when the step deletes no
name that an alias still needs. -/
theorem selfNamed_step (inv : WellFormed s) (self : s.SelfNamed)
    (h : s.step T hash l = some t) : t.SelfNamed ↔ s.AliasFree l := by
  have sameNames : ∀ {apps : Apps}, Registry.SelfNamed s.nameOf apps →
      Registry.SelfNamed t.nameOf apps :=
    fun self => self.congr fun v n => nameOf_of_step h
  cases firing : s.fired l with
  | none =>
      have vacuous : s.AliasFree l := by
        intro id i fires
        rw [firing] at fires
        cases fires
      refine iff_of_true ?_ vacuous
      cases move_of_step h firing with
      | quiet apps _ _ | opened _ _ apps _ _ | failed _ apps _ _ | created _ _ _ apps _ _
      | went _ _ _ apps _ _ | changed _ _ apps _ _ =>
          rw [SelfNamed, apps]
          exact sameNames self
      | removed _ _ _ _ apps _ _ =>
          rw [SelfNamed, apps]
          exact sameNames (Registry.SelfNamed.drop self _)
      | @shared id identity _ canonical unused apps _ _ =>
          rw [SelfNamed, apps]
          refine sameNames (selfNamed_register self unused ?_)
          obtain ⟨n, own, reg⟩ := self _ _ canonical
          exact ⟨n, own, extends_register unused n id reg⟩
      | @registered id identity starting apps _ _ =>
          obtain ⟨unused, ⟨i, here, named⟩, -⟩ := inv.starting _ _ _ starting
          rw [SelfNamed, apps]
          refine sameNames (selfNamed_register self (fun k v name found => ?_) ?_)
          · rw [unused k name] at found
            cases found
          · refine ⟨identity.canonicalName, ?_, ?_⟩
            · rw [nameOf, here, Option.map_some, named]
            · exact lookup_register_eq_some.mpr (Or.inl ⟨Or.inl rfl, rfl⟩)
  | some fired =>
      obtain ⟨id, i⟩ := fired
      obtain ⟨-, -, here, rfl⟩ := step_of_fired h firing
      -- the deletion changes no name
      have names : Registry.SelfNamed s.nameOf (s.apps.erase i.app.name) ↔
          SelfNamed { s with
            apps := s.apps.erase i.app.name, heap := s.heap.set id i.idleFired } := by
        refine ⟨sameNames, fun self' => self'.congr fun v n named => ?_⟩
        obtain ⟨j, there, rfl⟩ := Option.map_eq_some_iff.mp named
        rcases (getElem?_set_eq_some here).mp there with ⟨rfl, rfl⟩ | ⟨-, old⟩
        · rw [nameOf, here]
          rfl
        · rw [nameOf, old]
          rfl
      rw [← names, Registry.selfNamed_erase_iff self]
      constructor
      · intro alone id' i' fires
        rw [firing] at fires
        cases fires
        exact alone
      · intro free
        exact free id i firing

/-- **When the map is self-named.**  In every state of a run each app found under
some key is also found under its own name, if and only if each time `maybeIdle`
deletes a name no other key leads to an app of that name. -/
theorem selfNamed_iff_aliasFree (T : PrintTable) (hash : GoString → GoString)
    (dir : Filepath.CleanDir) (idleTime : ℤ) (ls : List Label) :
    (∀ s ∈ (poolMachine T hash dir idleTime).visited (poolMachine T hash dir idleTime).init ls,
        s.SelfNamed) ↔
      (poolMachine T hash dir idleTime).Guarded Pool.AliasFree
        (poolMachine T hash dir idleTime).init ls :=
  (poolMachine T hash dir idleTime).visited_iff_guarded
    (fun _ _ _ inv h => wellFormed_of_step h inv)
    (fun _ _ _ inv self h => selfNamed_step inv self h) ls
    (wellFormed_empty dir idleTime) (Registry.selfNamed_empty _)

/-- The link `www` is known by the name of its target.  When the app has been
idle, `maybeIdle` deletes that name and leaves the alias. -/
theorem not_selfNamed_www : ∃ s ∈ linkedPool.visited linkedPool.init
    (startApp "www".toList linkedWorld ++ [.tick 901, .maybeIdle 0]), ¬ s.SelfNamed := by
  have facts : (linkedPool.exec linkedPool.init
      (startApp "www".toList linkedWorld ++ [.tick 901, .maybeIdle 0])).map
        (fun s => (s.apps.lookup "www".toList, s.nameOf 0,
          s.apps.lookup "blog-9d480fb8".toList)) =
      some (some 0, some "blog-9d480fb8".toList, none) := by decide
  obtain ⟨s, visited, found⟩ := linkedPool.exists_visited_of_map facts
  simp only [Prod.mk.injEq] at found
  obtain ⟨aliased, named, missing⟩ := found
  refine ⟨s, visited, fun self => ?_⟩
  have registered := self.lookup_name aliased named
  rw [missing] at registered
  cases registered

end Pool

end PumaDev
