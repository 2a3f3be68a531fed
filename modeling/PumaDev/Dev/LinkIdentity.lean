import PumaDev.Dev.LookupRuns

/-!
# Links, and the apps they lead to

`lookupApp` recognises a link by its text: entries whose links have the same text
share one app, provided that the text, read from the working directory, leads
anywhere.  Two things can go wrong, and both do.

**Two directories, one app.**  One relative text can lead to two directories, since it
is read from where the link is; and a name with its hyphens expanded can be the
canonical name of a link.  `agrees_iff_unmixed` is exact: every answer is the app that
a fresh pool would start, if and only if no name is answered from a key that an entry
elsewhere was written under.  Links with absolute texts are never mixed up
(`agrees_of_absolute`).

**One directory, two apps.**  Two texts can lead to one directory, and a text that
leads nowhere from the working directory is not looked at at all.
`oneApp_of_recognized` is what remains true: links are shared as long as links to one
directory are looked up by the same name, or have the same text and that text leads
somewhere, and no entry is looked up under a name that is the canonical name of
another one.
-/

namespace PumaDev

open Filepath

namespace World

variable (w : World) (dir : CleanDir) (name : GoString)

/-- Two paths lead to the same place. -/
def SamePlace (path path' : GoString) : Prop :=
  (w.realPath path).isSome ∧ w.realPath path = w.realPath path'

instance (path path' : GoString) : Decidable (w.SamePlace path path') :=
  inferInstanceAs (Decidable (_ ∧ _))

/-- The path of the entry that the name has in the pool directory. -/
def entry : Option GoString := (w.find dir name).toOption.map Found.path

/-- The path that a lookup in an empty pool would start an app for. -/
def fresh (T : PrintTable) (hash : GoString → GoString) : Option GoString :=
  ((lookupApp T hash (w.os default) ⟨dir, ∅, []⟩ name).1.filterMap Effect.starts).head?

variable {w dir name}

theorem SamePlace.symm {path path' : GoString} (h : w.SamePlace path path') :
    w.SamePlace path' path :=
  ⟨h.2 ▸ h.1, h.2.symm⟩

theorem SamePlace.trans {path path' path'' : GoString} (h : w.SamePlace path path')
    (h' : w.SamePlace path' path'') : w.SamePlace path path'' :=
  ⟨h.1, h.2.trans h'.2⟩

/-- The name has an entry as soon as it has a path. -/
theorem entry_eq_some {path : GoString} (h : w.entry dir name = some path) :
    ∃ found, w.find dir name = .ok found ∧ found.path = path := by
  unfold entry at h
  cases search : w.find dir name with
  | error err =>
      rw [search] at h
      cases h
  | ok found =>
      rw [search] at h
      exact ⟨found, rfl, Option.some.inj h⟩

/-- An entry is where its path leads. -/
theorem samePlace_entry {path : GoString} (h : w.entry dir name = some path) :
    w.SamePlace path path := by
  obtain ⟨found, search, rfl⟩ := entry_eq_some h
  obtain ⟨site, stat, -⟩ := stat_of_locate search
  refine ⟨?_, rfl⟩
  unfold Os.statAt at stat
  split at stat
  · cases stat
  · cases exists_ : w.stat found.path with
    | ok isDir => exact w.isSome_realPath_of_stat exists_
    | error err =>
        have fails : (w.os default).stat site found.path = .error err := exists_
        rw [fails] at stat
        cases stat

/-- **A fresh lookup starts the app of the entry.** -/
theorem fresh_eq_entry (T : PrintTable) (hash : GoString → GoString) :
    w.fresh dir name T hash = w.entry dir name := by
  have quiet := starts_asked (w.os default) dir.text name
  unfold fresh entry find lookupApp decideLookup
  rw [AList.lookup_empty]
  dsimp only
  rcases located : locate (w.os default) dir.text name with ⟨asked, err | found⟩
  · rw [located] at quiet
    dsimp only
    rw [quiet]
    rfl
  · rw [located] at quiet
    have starts := starts_boot T (w.os default)
      ⟨found.path, found.info.isDir, identify hash (w.os default) name found⟩
    dsimp only
    rw [AList.lookup_empty]
    dsimp only
    rcases booted : boot T (w.os default)
      ⟨found.path, found.info.isDir, identify hash (w.os default) name found⟩
      with ⟨effect, err | app⟩ <;>
    · rw [booted] at starts
      dsimp only
      rw [List.filterMap_append, List.filterMap_append, quiet, List.filterMap_cons_some starts]
      rfl

/-- An identity has an entry. -/
theorem entry_of_identity {hash : GoString → GoString} {i : Identity}
    (h : w.identity hash dir name = some i) : ∃ path, w.entry dir name = some path := by
  obtain ⟨found, search, -⟩ := w.identity_eq_some hash dir name h
  exact ⟨found.path, by rw [entry, search]; rfl⟩

end World

/-! ## Agreement with a fresh pool -/

namespace Lookups

variable {T : PrintTable} {hash : GoString → GoString} {w : World} {dir : CleanDir}
  {s t : Lookups} {name : GoString}

/-- Every answer leads where a fresh lookup would lead. -/
def Agrees (T : PrintTable) (hash : GoString → GoString) (w : World) (dir : CleanDir)
    (s : Lookups) : Prop :=
  ∀ e ∈ s.answered, ∀ path, w.fresh dir e.1 T hash = some path →
    ∃ origin, s.origins[e.2]? = some origin ∧ w.SamePlace origin path

/-- The key that a lookup is answered from, if there is an app: the name if it is a key
already, otherwise the canonical name of its entry. -/
def key (hash : GoString → GoString) (w : World) (dir : CleanDir) (s : Lookups)
    (name : GoString) : Option GoString :=
  if (s.pool.apps.lookup name).isSome then some name
  else (w.identity hash dir name).map Identity.canonicalName

/-- **Unmixed**: every name that was written into the map under this key has its entry
in the same place. -/
def Unmixed (hash : GoString → GoString) (w : World) (dir : CleanDir) (s : Lookups)
    (name : GoString) : Prop :=
  ∀ e ∈ s.registered, ∀ i, w.identity hash dir e.1 = some i →
    ∀ k, s.key hash w dir name = some k → i.Names k →
      ∀ path path', w.entry dir e.1 = some path → w.entry dir name = some path' →
        w.SamePlace path path'

/-- When the key leads to an app, the answer is right exactly when the key is unmixed. -/
theorem agrees_iff_of_key {id : AppId} {k : GoString} (h : s.Recorded hash w dir)
    (agrees : s.Agrees T hash w dir) (hk : s.key hash w dir name = some k)
    (found : s.pool.apps.lookup k = some id) (answered : t.answered = (name, id) :: s.answered)
    (origins : t.origins = s.origins) :
    t.Agrees T hash w dir ↔ s.Unmixed hash w dir name := by
  constructor
  · intro right e mem i hi k' hk' named path path' hpath hpath'
    rw [hk] at hk'
    cases hk'
    have same : e.2 = id := Option.some.inj
      (((h.written k e.2).mpr ⟨e.1, i, mem, hi, named⟩).symm.trans found)
    obtain ⟨origin, there, place⟩ := agrees e (h.answers e mem) path
      ((w.fresh_eq_entry T hash).trans hpath)
    obtain ⟨origin', there', place'⟩ := right (name, id) (by simp [answered]) path'
      ((w.fresh_eq_entry T hash).trans hpath')
    rw [origins, ← same, there] at there'
    cases there'
    exact place.symm.trans place'
  · intro unmixed e mem path' hpath'
    rw [answered, List.mem_cons] at mem
    rw [origins]
    rcases mem with rfl | old
    · obtain ⟨m, i, mem, hi, named⟩ := (h.written k id).mp found
      obtain ⟨path, hpath⟩ := World.entry_of_identity hi
      obtain ⟨origin, there, place⟩ := agrees (m, id) (h.answers _ mem) path
        ((w.fresh_eq_entry T hash).trans hpath)
      exact ⟨origin, there, place.trans
        (unmixed (m, id) mem i hi k hk named path path' hpath
          ((w.fresh_eq_entry T hash).symm.trans hpath'))⟩
    · exact agrees e old path' hpath'

/-- A name whose key leads nowhere is unmixed. -/
theorem unmixed_of_miss (h : s.Recorded hash w dir)
    (miss : s.pool.apps.lookup name = none)
    (unshared : ∀ identity, w.identity hash dir name = some identity →
      s.pool.apps.lookup identity.canonicalName = none) : s.Unmixed hash w dir name := by
  intro e mem i hi k hk named
  rw [key, if_neg (by simp [miss])] at hk
  obtain ⟨identity, known, rfl⟩ := Option.map_eq_some_iff.mp hk
  have there := (h.written _ e.2).mpr ⟨e.1, i, mem, hi, named⟩
  rw [unshared identity known] at there
  cases there

/-- **A call gives a right answer exactly when its name is unmixed.** -/
theorem Answer.agrees_iff (answer : Answer hash w dir s name t) (h : s.Recorded hash w dir)
    (agrees : s.Agrees T hash w dir) :
    t.Agrees T hash w dir ↔ s.Unmixed hash w dir name := by
  cases answer with
  | hit id found => exact agrees_iff_of_key h agrees (by simp [key, found]) found rfl rfl
  | shared id identity miss known found =>
      exact agrees_iff_of_key h agrees (by simp [key, miss, known]) found rfl rfl
  | failed miss unshared => exact iff_of_true agrees (unmixed_of_miss h miss unshared)
  | started app found identity miss located known unshared =>
      refine iff_of_true ?_ (unmixed_of_miss h miss fun identity' known' => ?_)
      · intro e mem path fresh
        rcases List.mem_cons.mp mem with rfl | old
        · have hpath := (w.fresh_eq_entry T hash).symm.trans fresh
          obtain ⟨found', search, rfl⟩ := World.entry_eq_some hpath
          rw [located] at search
          cases search
          refine ⟨found.path, ?_, World.samePlace_entry hpath⟩
          rw [← h.sizes]
          exact List.getElem?_concat_length
        · obtain ⟨origin, there, place⟩ := agrees e old path fresh
          refine ⟨origin, ?_, place⟩
          rw [List.getElem?_append_left (List.getElem?_eq_some_iff.mp there).1]
          exact there
      · rw [known] at known'
        cases known'
        exact unshared

end Lookups

/-- **When the cached answers agree with fresh ones.**  In a run of lookups, every
answer leads where a lookup in an empty pool would lead, if and only if every name is
unmixed when it is looked up. -/
theorem agrees_iff_unmixed (T : PrintTable) (hash : GoString → GoString) (w : World)
    (dir : CleanDir) (calls : List (Os × GoString)) :
    (∀ t ∈ (lookupRuns T hash w dir).visited (lookupRuns T hash w dir).init calls,
        t.Agrees T hash w dir) ↔
      (lookupRuns T hash w dir).Guarded (fun s l => s.Unmixed hash w dir l.2)
        (lookupRuns T hash w dir).init calls := by
  refine (lookupRuns T hash w dir).visited_iff_guarded
    (fun _ _ _ inv step => Lookups.recorded_step inv step) ?_ calls Lookups.recorded_init ?_
  · intro s l t inv agrees step
    cases step
    exact (Lookups.answer_call inv.dir_eq l.1).agrees_iff inv agrees
  · intro e mem
    cases mem

/-! ### Where they do not -/

namespace World

/-- Links with different texts have different digests. -/
def TellsApart (hash : GoString → GoString) (w : World) : Prop :=
  ∀ path path' text text', w.readlink path = some text → w.readlink path' = some text' →
    hash text = hash text' → text = text'

/-- No entry of the pool directory is named like the canonical name of a link. -/
def NoCanonicalEntry (hash : GoString → GoString) (w : World) (dir : CleanDir) : Prop :=
  ∀ name path text, w.lstat (join [dir.text, name]) = true →
    w.readlink path = some text → name ≠ canonicalOf hash text

end World

/-- The first four bytes of the digests of the link texts below. -/
def codeDigest (text : GoString) : GoString :=
  if text = "../code/app".toList then "53fa7618".toList
  else if text = "/home/u/code/blog".toList then "9d480fb8".toList
  else if text = "/home/u/code/blog/".toList then "cf56c515".toList
  else []

/-- A place, from the outside in. -/
def placeOf (components : List String) : List GoString :=
  (components.map String.toList).reverse

/-- A home directory: `code` with two apps, and the pool directory with its entries. -/
def homeOf (entries : List (List String × Node GoString GoString)) :
    List (List GoString × Node GoString GoString) :=
  [(placeOf ["home"], .dir true), (placeOf ["home", "u"], .dir true),
    (placeOf ["home", "u", "code"], .dir true),
    (placeOf ["home", "u", "code", "app"], .dir true),
    (placeOf ["home", "u", "code", "blog"], .dir true),
    (placeOf ["home", "u", ".puma-dev"], .dir true)] ++
  entries.map fun e => (placeOf (["home", "u", ".puma-dev"] ++ e.1), e.2)

/-- `foo2` and `sub/foo` are links with one relative text; there is a directory `code`
next to the pool directory, and another one in it. -/
def subEntries : List (List GoString × Node GoString GoString) :=
  homeOf [(["foo2"], .link "../code/app".toList), (["sub"], .dir true),
    (["sub", "foo"], .link "../code/app".toList), (["code"], .dir true),
    (["code", "app"], .dir true)]

/-- The world of these links, with the working directory `/home/u/code`. -/
def subWorld : World where
  tree := .ofList subEntries (by decide)
  cwd := placeOf ["home", "u", "code"]
  cwd_dir := by decide
  maxLinks := 40

theorem text_of_subWorld {path text : GoString} (h : subWorld.readlink path = some text) :
    text = "../code/app".toList := by
  have all : ∀ e ∈ subEntries, e.2 = .dir true ∨ e.2 = .link "../code/app".toList := by decide
  obtain ⟨place, -, hnode⟩ := subWorld.readlink_eq_some h
  have listed : (.link text : Node GoString GoString) = .dir true ∨
      (.link text : Node GoString GoString) = .link "../code/app".toList :=
    (FileTree.mem_of_listed hnode).elim (all _) .inl
  rcases listed with dir | link
  · cases dir
  · exact Node.link.inj link

/-- **Cross-wired.**  The digests tell the links apart and no entry has a canonical
name, but `sub-foo`, which is `/home/u/.puma-dev/code/app`, is answered with the app of
`foo2`, which is `/home/u/code/app`. -/
theorem crossWired_subFoo :
    subWorld.TellsApart codeDigest ∧ subWorld.NoCanonicalEntry codeDigest .home ∧
      ∃ calls, ∃ t ∈ (lookupRuns .asciiOnly codeDigest subWorld .home).visited
          (lookupRuns .asciiOnly codeDigest subWorld .home).init calls,
        ¬ t.Agrees .asciiOnly codeDigest subWorld .home := by
  refine ⟨?_, ?_, [(default, "foo2".toList), (default, "sub-foo".toList)], ?_⟩
  · intro path path' text text' link link' _
    rw [text_of_subWorld link, text_of_subWorld link']
  · rintro name path text there link rfl
    rw [text_of_subWorld link] at there
    have absent : subWorld.lstat (join [CleanDir.home.text,
        canonicalOf codeDigest "../code/app".toList]) = false := by decide +kernel
    rw [absent] at there
    cases there
  · have run : ((lookupRuns .asciiOnly codeDigest subWorld .home).exec
        (lookupRuns .asciiOnly codeDigest subWorld .home).init
        [(default, "foo2".toList), (default, "sub-foo".toList)]).map
        (fun t => (t.answered, t.origins)) =
          some ([("sub-foo".toList, 0), ("foo2".toList, 0)],
            ["/home/u/.puma-dev/foo2".toList]) := by decide +kernel
    have fresh : subWorld.fresh .home "sub-foo".toList .asciiOnly codeDigest =
        some "/home/u/.puma-dev/sub/foo".toList := by decide +kernel
    have elsewhere : ¬ subWorld.SamePlace "/home/u/.puma-dev/foo2".toList
        "/home/u/.puma-dev/sub/foo".toList := by decide +kernel
    obtain ⟨t, ends, facts⟩ := Option.map_eq_some_iff.mp run
    obtain ⟨answered, origins⟩ := Prod.mk.inj facts
    refine ⟨t, Machine.mem_visited_of_exec _ ends, fun agrees => ?_⟩
    obtain ⟨origin, there, place⟩ := agrees ("sub-foo".toList, 0) (by simp [answered]) _ fresh
    rw [origins] at there
    cases there
    exact elsewhere place

/-! ### Absolute links -/

/-- The digest is what a canonical name ends in. -/
theorem hash_of_canonicalOf {hash : GoString → GoString}
    (digits : ∀ text, (hash text).length = 8) {text text' : GoString}
    (same : canonicalOf hash text = canonicalOf hash text') : hash text = hash text' := by
  have tails := List.append_inj_right' same (by simp [digits])
  exact (List.cons.inj tails).2

namespace World

/-- A key that the name may be written or answered under: itself, or the canonical name
of the text of its entry. -/
def GoesBy (hash : GoString → GoString) (w : World) (dir : CleanDir) (name k : GoString) :
    Prop :=
  k = name ∨ ∃ found, w.find dir name = .ok found ∧ k = canonicalOf hash found.destPath

variable {hash : GoString → GoString} {w : World} {dir : CleanDir}
  {name name' k : GoString}

theorem goesBy_canonicalName {i : Identity} (h : w.identity hash dir name = some i) :
    w.GoesBy hash dir name i.canonicalName := by
  obtain ⟨found, search, rfl⟩ := w.identity_eq_some hash dir name h
  unfold identify
  split
  · exact .inr ⟨found, search, rfl⟩
  · exact .inl rfl

theorem goesBy_of_names {i : Identity} (h : w.identity hash dir name = some i)
    (named : i.Names k) : w.GoesBy hash dir name k := by
  rcases named with rfl | ⟨nonempty, rfl⟩
  · exact goesBy_canonicalName h
  · obtain ⟨found, -, rfl⟩ := w.identity_eq_some hash dir name h
    rcases aliasName_identify hash (w.os default) name found with none | self
    · exact absurd none nonempty
    · exact .inl self

/-- The text of an entry that is a link. -/
theorem readlink_of_find {found : Found} (h : w.find dir name = .ok found)
    (abs : isAbs found.destPath = true) : w.readlink found.path = some found.destPath := by
  obtain ⟨site, -, text⟩ := stat_of_locate h
  have read : found.destPath = (w.readlink found.path).getD [] := text
  cases link : w.readlink found.path with
  | none =>
      rw [read, link] at abs
      cases abs
  | some text =>
      rw [link] at read
      rw [read]
      rfl

/-- Links with the same absolute text are in the same place, where they lead anywhere. -/
theorem samePlace_of_links {path path' text : GoString} (abs : isAbs text = true)
    (link : w.readlink path = some text) (link' : w.readlink path' = some text)
    (here : w.SamePlace path path) (here' : w.SamePlace path' path') :
    w.SamePlace path path' := by
  obtain ⟨real, hreal⟩ := Option.isSome_iff_exists.mp here.1
  obtain ⟨real', hreal'⟩ := Option.isSome_iff_exists.mp here'.1
  refine ⟨here.1, ?_⟩
  rw [hreal, hreal', w.realPath_congr_of_isAbs abs link link' hreal hreal']

/-- Names that go by one key have their entries in one place, if their entries are
absolute links and the names themselves no canonical names. -/
theorem samePlace_of_goesBy (apart : w.TellsApart hash)
    (digits : ∀ text, (hash text).length = 8)
    (plain : ∀ path text, w.readlink path = some text → canonicalOf hash text ≠ name)
    (plain' : ∀ path text, w.readlink path = some text → canonicalOf hash text ≠ name')
    (absolute : ∀ found, w.find dir name = .ok found → isAbs found.destPath = true)
    (absolute' : ∀ found, w.find dir name' = .ok found → isAbs found.destPath = true)
    (goes : w.GoesBy hash dir name k) (goes' : w.GoesBy hash dir name' k)
    {path path' : GoString} (hpath : w.entry dir name = some path)
    (hpath' : w.entry dir name' = some path') : w.SamePlace path path' := by
  obtain ⟨found, search, rfl⟩ := entry_eq_some hpath
  obtain ⟨found', search', rfl⟩ := entry_eq_some hpath'
  have link := readlink_of_find search (absolute found search)
  have link' := readlink_of_find search' (absolute' found' search')
  rcases goes with rfl | ⟨f, hf, rfl⟩
  · rcases goes' with rfl | ⟨f', hf', isText'⟩
    · rw [search'] at search
      cases search
      exact samePlace_entry hpath'
    · rw [search'] at hf'
      cases hf'
      exact absurd isText'.symm (plain _ _ link')
  · rw [search] at hf
    cases hf
    rcases goes' with self | ⟨f', hf', isText'⟩
    · exact absurd self (plain' _ _ link)
    · rw [search'] at hf'
      cases hf'
      have sameText := apart _ _ _ _ link link' (hash_of_canonicalOf digits isText')
      rw [← sameText] at link'
      exact samePlace_of_links (absolute found search) link link'
        (samePlace_entry hpath) (samePlace_entry hpath')

end World

namespace Lookups

variable {T : PrintTable} {hash : GoString → GoString} {w : World} {dir : CleanDir}
  {s t : Lookups} {name k : GoString}

theorem goesBy_key (h : s.key hash w dir name = some k) : w.GoesBy hash dir name k := by
  unfold key at h
  split at h
  · exact .inl (Option.some.inj h).symm
  · obtain ⟨i, known, rfl⟩ := Option.map_eq_some_iff.mp h
    exact World.goesBy_canonicalName known

/-- A call registers its name, or nothing. -/
theorem Answer.registered (answer : Answer hash w dir s name t) {e : GoString × AppId}
    (mem : e ∈ t.registered) : e ∈ s.registered ∨ e.1 = name := by
  cases answer with
  | failed | hit => exact .inl mem
  | shared | started =>
      rcases List.mem_cons.mp mem with rfl | old
      · exact .inr rfl
      · exact .inl old

end Lookups

/-- **Absolute links are not mixed up.**  If the digests tell the links apart,
no name that is looked up is such a canonical name, and the entries that are looked up
are links with absolute texts, then every answer agrees with a fresh one. -/
theorem agrees_of_absolute (T : PrintTable) {hash : GoString → GoString} {w : World}
    {dir : CleanDir} {calls : List (Os × GoString)} (apart : w.TellsApart hash)
    (digits : ∀ text, (hash text).length = 8)
    (plain : ∀ l ∈ calls, ∀ path text, w.readlink path = some text →
      canonicalOf hash text ≠ l.2)
    (absolute : ∀ l ∈ calls, ∀ found, w.find dir l.2 = .ok found →
      isAbs found.destPath = true) :
    ∀ t ∈ (lookupRuns T hash w dir).visited (lookupRuns T hash w dir).init calls,
      t.Agrees T hash w dir := by
  -- the names in the map are among those that are called
  let called (s : Lookups) : Prop := ∀ e ∈ s.registered, ∃ l ∈ calls, l.2 = e.1
  have step : ∀ (s : Lookups) (l : Os × GoString) (t : Lookups),
      (s.Recorded hash w dir ∧ s.Agrees T hash w dir ∧ called s) → l ∈ calls →
        (lookupRuns T hash w dir).step s l = some t →
          (t.Recorded hash w dir ∧ t.Agrees T hash w dir ∧ called t) := by
    rintro s l t ⟨recorded, agrees, names⟩ mem step
    cases step
    have answer : Lookups.Answer hash w dir s l.2 (s.call T hash w l.1 l.2) :=
      Lookups.answer_call recorded.dir_eq l.1
    refine ⟨answer.recorded recorded, (answer.agrees_iff recorded agrees).mpr ?_, ?_⟩
    · intro e old i hi k hk named path path' hpath hpath'
      obtain ⟨l', mem', same⟩ := names e old
      rw [← same] at hi hpath
      exact World.samePlace_of_goesBy apart digits (plain l' mem') (plain l mem) (absolute l' mem')
        (absolute l mem) (World.goesBy_of_names hi named) (Lookups.goesBy_key hk) hpath hpath'
    · intro e new
      rcases answer.registered new with old | self
      · exact names e old
      · exact ⟨l, mem, self.symm⟩
  have start : (lookupRuns T hash w dir).init.Agrees T hash w dir := nofun
  intro t mem
  exact ((lookupRuns T hash w dir).inv_of_guarded step calls
    ⟨Lookups.recorded_init, start, nofun⟩
    ((lookupRuns T hash w dir).guarded_of_forall (fun l mem _ => mem) _) t mem).2.1

/-! ## One app for one directory -/

namespace World

variable (w : World) (dir : CleanDir) (name : GoString)

/-- The directory that a link at this path leads to. -/
def linkedAt (path : GoString) : Option (List GoString) :=
  if (w.readlink path).isSome ∧ (w.stat path).toOption = some true then w.realPath path
  else none

/-- The directory that the entry of the name is a link to. -/
def linkedDir : Option (List GoString) := (w.entry dir name).bind w.linkedAt

/-- The text that the entry of the name is recognised by: that of a link, if it leads
somewhere from the working directory. -/
def knownText : Option GoString :=
  (w.find dir name).toOption.bind fun found =>
    if ((w.os default).statAt .dest found.destPath).toOption.isSome then some found.destPath
    else none

variable {w dir name}

/-- An entry that is recognised by a text goes under the canonical name of the text. -/
theorem canonicalName_of_knownText {hash : GoString → GoString} {text : GoString}
    {i : Identity} (h : w.knownText dir name = some text)
    (known : w.identity hash dir name = some i) : i.canonicalName = canonicalOf hash text := by
  obtain ⟨found, search, rfl⟩ := w.identity_eq_some hash dir name known
  rw [knownText, search] at h
  replace h : (if _ then _ else _) = _ := h
  unfold identify
  split at h
  · next leads =>
      cases h
      cases hstat : (w.os default).statAt .dest found.destPath with
      | ok info => rfl
      | error err =>
          rw [hstat] at leads
          cases leads
  · cases h

end World

namespace Lookups

variable {T : PrintTable} {hash : GoString → GoString} {w : World} {dir : CleanDir}
  {s t : Lookups} {name : GoString}

/-- **One app for one directory.** -/
structure OneApp (w : World) (dir : CleanDir) (s : Lookups) : Prop where
  /-- Links to one directory are answered with one app. -/
  same : ∀ e ∈ s.answered, ∀ e' ∈ s.answered, (w.linkedDir dir e.1).isSome →
    w.linkedDir dir e.1 = w.linkedDir dir e'.1 → e.2 = e'.2
  /-- No directory that links lead to is started twice. -/
  once : ∀ (id id' : AppId) (path path' : GoString), s.origins[id]? = some path →
    s.origins[id']? = some path' → (w.linkedAt path).isSome →
      w.linkedAt path = w.linkedAt path' → id = id'

/-- **Recognized**: what a name needs to be answered with the app of its directory. -/
structure Recognized (hash : GoString → GoString) (w : World) (dir : CleanDir)
    (s : Lookups) (name : GoString) : Prop where
  /-- A name that was answered, and is a link to the same directory, is the same name or
  is recognised by the same text. -/
  text : ∀ e ∈ s.answered, (w.linkedDir dir name).isSome →
    w.linkedDir dir e.1 = w.linkedDir dir name →
      e.1 = name ∨
        (w.knownText dir name).isSome ∧ w.knownText dir e.1 = w.knownText dir name
  /-- The canonical name of an entry that was answered is not the name of another. -/
  unnamed : ∀ e ∈ s.registered, ∀ i ∈ w.identity hash dir name,
    ∀ j ∈ w.identity hash dir e.1, j.canonicalName = name → i.canonicalName = name

instance (name : GoString) : Decidable (s.Recognized hash w dir name) :=
  decidable_of_iff (_ ∧ _) ⟨fun h => Recognized.mk h.1 h.2, fun h => ⟨h.text, h.unnamed⟩⟩

/-- Every answer is found under the canonical name of its entry. -/
def Canonical (hash : GoString → GoString) (w : World) (dir : CleanDir) (s : Lookups) : Prop :=
  ∀ e ∈ s.answered, ∀ i, w.identity hash dir e.1 = some i →
    s.pool.apps.lookup i.canonicalName = some e.2

/-- A new answer that is found under its canonical name, among old ones. -/
theorem Canonical.cons {id : AppId} (h : s.Canonical hash w dir)
    (extends_ : Registry.Extends s.pool.apps t.pool.apps)
    (answered : t.answered = (name, id) :: s.answered)
    (new : ∀ i, w.identity hash dir name = some i →
      t.pool.apps.lookup i.canonicalName = some id) : t.Canonical hash w dir := by
  intro e mem i known
  rw [answered, List.mem_cons] at mem
  rcases mem with rfl | old
  · exact new i known
  · exact extends_ _ _ (h e old i known)

/-- A recognized name keeps every answer under its canonical name. -/
theorem Answer.canonical (answer : Answer hash w dir s name t) (h : s.Recorded hash w dir)
    (canonical : s.Canonical hash w dir) (recognized : s.Recognized hash w dir name) :
    t.Canonical hash w dir := by
  have extends_ := answer.extends
  cases answer with
  | failed => exact canonical
  | hit id found =>
      refine canonical.cons extends_ rfl fun i known => ?_
      obtain ⟨m, j, mem, hj, named⟩ := (h.written name id).mp found
      rcases named with isCanonical | ⟨nonempty, isAlias⟩
      · rw [recognized.unnamed _ mem i known j hj isCanonical.symm]
        exact found
      · -- the name is its own alias, so it was answered before
        obtain ⟨entry, -, rfl⟩ := w.identity_eq_some hash dir m hj
        rcases aliasName_identify hash (w.os default) m entry with none | self
        · exact absurd none nonempty
        · rw [self] at isAlias
          subst isAlias
          exact canonical _ (h.answers _ mem) i known
  | shared id identity miss known found =>
      refine canonical.cons extends_ rfl fun i known' => ?_
      rw [known] at known'
      cases known'
      exact extends_ _ _ found
  | started app entry identity miss located known unshared =>
      refine canonical.cons extends_ rfl fun i known' => ?_
      rw [known] at known'
      cases known'
      exact lookup_register_eq_some.mpr (.inl ⟨.inl rfl, rfl⟩)

/-- A call answers its name, or nothing. -/
theorem Answer.answered (answer : Answer hash w dir s name t) :
    t.answered = s.answered ∨ ∃ id, t.answered = (name, id) :: s.answered := by
  cases answer with
  | failed => exact .inl rfl
  | hit id | shared id => exact .inr ⟨id, rfl⟩
  | started => exact .inr ⟨_, rfl⟩

/-- An entry that is a link to a directory has an identity. -/
theorem identity_of_linkedDir (hash : GoString → GoString)
    (linked : (w.linkedDir dir name).isSome) :
    ∃ i, w.identity hash dir name = some i := by
  obtain ⟨place, hplace⟩ := Option.isSome_iff_exists.mp linked
  obtain ⟨path, hpath, -⟩ := Option.bind_eq_some_iff.mp hplace
  obtain ⟨found, search, -⟩ := World.entry_eq_some hpath
  exact ⟨identify hash (w.os default) name found, by rw [World.identity, search]; rfl⟩

/-- A recognized name has the canonical name of every link to the same directory. -/
theorem Recognized.canonicalName_eq (h : s.Recognized hash w dir name)
    {e : GoString × AppId} (mem : e ∈ s.answered)
    (linked : (w.linkedDir dir name).isSome)
    (same : w.linkedDir dir e.1 = w.linkedDir dir name) {i j : Identity}
    (hi : w.identity hash dir e.1 = some i) (hj : w.identity hash dir name = some j) :
    i.canonicalName = j.canonicalName := by
  rcases h.text e mem linked same with rfl | ⟨known, sameText⟩
  · rw [hi] at hj
    cases hj
    rfl
  · obtain ⟨text, htext⟩ := Option.isSome_iff_exists.mp known
    rw [World.canonicalName_of_knownText (sameText.trans htext) hi,
      World.canonicalName_of_knownText htext hj]

/-- What a run of recognized names keeps. -/
structure Sharing (hash : GoString → GoString) (w : World) (dir : CleanDir)
    (s : Lookups) : Prop where
  recorded : s.Recorded hash w dir
  canonical : s.Canonical hash w dir
  same : ∀ e ∈ s.answered, ∀ e' ∈ s.answered, (w.linkedDir dir e.1).isSome →
    w.linkedDir dir e.1 = w.linkedDir dir e'.1 → e.2 = e'.2

/-- **A call for a recognized name** shares the app of its directory. -/
theorem Answer.sharing (answer : Answer hash w dir s name t) (h : s.Sharing hash w dir)
    (recognized : s.Recognized hash w dir name) : t.Sharing hash w dir where
  recorded := answer.recorded h.recorded
  canonical := answer.canonical h.recorded h.canonical recognized
  same := by
    have canonical := answer.canonical h.recorded h.canonical recognized
    -- an old answer and the new one
    have meet : ∀ e ∈ s.answered, ∀ id, (name, id) ∈ t.answered → e ∈ t.answered →
        (w.linkedDir dir name).isSome → w.linkedDir dir e.1 = w.linkedDir dir name →
          e.2 = id := by
      intro e old id new kept linked same
      obtain ⟨i, hi⟩ := identity_of_linkedDir hash (same ▸ linked)
      obtain ⟨j, hj⟩ := identity_of_linkedDir hash linked
      have here := canonical e kept i hi
      rw [recognized.canonicalName_eq old linked same hi hj,
        canonical (name, id) new j hj] at here
      exact (Option.some.inj here).symm
    intro e mem e' mem' linked same
    rcases answer.answered with all | ⟨id, all⟩
    · rw [all] at mem mem'
      exact h.same e mem e' mem' linked same
    · have new : (name, id) ∈ t.answered := by simp [all]
      have kept := mem
      have kept' := mem'
      rw [all, List.mem_cons] at mem mem'
      rcases mem with rfl | old <;> rcases mem' with rfl | old'
      · rfl
      · exact (meet e' old' id new kept' linked same.symm).symm
      · exact meet e old id new kept (same ▸ linked) same
      · exact h.same e old e' old' linked same

/-- What is shared is started once. -/
theorem Sharing.oneApp (h : s.Sharing hash w dir) : s.OneApp w dir where
  same := h.same
  once := by
    intro id id' path path' started started' linked place
    obtain ⟨m, found, mem, search, rfl⟩ := h.recorded.origin id path started
    obtain ⟨m', found', mem', search', rfl⟩ := h.recorded.origin id' path' started'
    have leads : w.linkedDir dir m = w.linkedAt found.path := by
      rw [World.linkedDir, World.entry, search]
      rfl
    have leads' : w.linkedDir dir m' = w.linkedAt found'.path := by
      rw [World.linkedDir, World.entry, search']
      rfl
    exact h.same (m, id) (h.recorded.answers _ mem) (m', id') (h.recorded.answers _ mem')
      (leads ▸ linked) (leads.trans (place.trans leads'.symm))

end Lookups

/-- **When links to one directory share one app.**  In a run of lookups of recognized
names, links to one directory are answered with one app, and the directory is started
once. -/
theorem oneApp_of_recognized (T : PrintTable) (hash : GoString → GoString) (w : World)
    (dir : CleanDir) (calls : List (Os × GoString))
    (recognized : (lookupRuns T hash w dir).Guarded
      (fun s l => s.Recognized hash w dir l.2) (lookupRuns T hash w dir).init calls) :
    ∀ t ∈ (lookupRuns T hash w dir).visited (lookupRuns T hash w dir).init calls,
      t.OneApp w dir := by
  have step : ∀ (s : Lookups) (l : Os × GoString) (t : Lookups), s.Sharing hash w dir →
      s.Recognized hash w dir l.2 → (lookupRuns T hash w dir).step s l = some t →
        t.Sharing hash w dir := by
    intro s l t sharing recognized step
    cases step
    exact (Lookups.answer_call sharing.recorded.dir_eq l.1).sharing sharing recognized
  intro t mem
  exact ((lookupRuns T hash w dir).inv_of_guarded step calls
    ⟨Lookups.recorded_init, nofun, nofun⟩ recognized t mem).oneApp

/-- Two links with the same text. -/
def twinWorld : World where
  tree := .ofList (homeOf
    [(["blog"], .link "/home/u/code/blog".toList), (["www"], .link "/home/u/code/blog".toList)])
    (by decide)
  cwd := []
  cwd_dir := rfl
  maxLinks := 40

/-- Both names, and the first one again, are answered with one app. -/
theorem oneApp_twin :
    ((lookupRuns .asciiOnly codeDigest twinWorld .home).exec
        (lookupRuns .asciiOnly codeDigest twinWorld .home).init
        [(default, "blog".toList), (default, "www".toList), (default, "blog".toList)]).map
      Lookups.answered = some [("blog".toList, 0), ("www".toList, 0), ("blog".toList, 0)] ∧
    ∀ t ∈ (lookupRuns .asciiOnly codeDigest twinWorld .home).visited
        (lookupRuns .asciiOnly codeDigest twinWorld .home).init
        [(default, "blog".toList), (default, "www".toList), (default, "blog".toList)],
      t.OneApp twinWorld .home :=
  ⟨by decide +kernel, oneApp_of_recognized _ _ _ _ _ (by decide +kernel)⟩

/-- Two links to one directory; one text has a slash at its end. -/
def slashWorld : World where
  tree := .ofList (homeOf
    [(["blog"], .link "/home/u/code/blog".toList), (["www"], .link "/home/u/code/blog/".toList)])
    (by decide)
  cwd := []
  cwd_dir := rfl
  maxLinks := 40

/-- **Started twice.**  `blog` and `www` lead to `/home/u/code/blog`, and each of them
gets an app of its own. -/
theorem startedTwice_www :
    ∃ calls, ∃ t ∈ (lookupRuns .asciiOnly codeDigest slashWorld .home).visited
        (lookupRuns .asciiOnly codeDigest slashWorld .home).init calls,
      ¬ t.OneApp slashWorld .home := by
  have run : ((lookupRuns .asciiOnly codeDigest slashWorld .home).exec
      (lookupRuns .asciiOnly codeDigest slashWorld .home).init
      [(default, "blog".toList), (default, "www".toList)]).map Lookups.answered =
        some [("www".toList, 1), ("blog".toList, 0)] := by decide +kernel
  have linked : (slashWorld.linkedDir .home "www".toList).isSome = true := by decide +kernel
  have same : slashWorld.linkedDir .home "www".toList =
      slashWorld.linkedDir .home "blog".toList := by decide +kernel
  obtain ⟨t, ends, answered⟩ := Option.map_eq_some_iff.mp run
  refine ⟨_, t, Machine.mem_visited_of_exec _ ends, fun oneApp => ?_⟩
  have apps := oneApp.same ("www".toList, 1) (by simp [answered]) ("blog".toList, 0)
    (by simp [answered]) linked same
  cases apps

end PumaDev
