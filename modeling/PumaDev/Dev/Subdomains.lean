import PumaDev.Dev.LinkIdentity

/-!
# Subdomains

`FindAppByDomainName` looks a name up as it is, then without its first label, and so
on, as long as the answer is that there is no such app.  So a name with labels in
front should lead to the app of the name, as soon as there is nothing for any of the
longer names in between.

It does when the file system says so in the right words (`Clear`): the loop goes on
after an error that `os.IsNotExist` recognises, and gives up after any other.  A label
with a hyphen is expanded into a directory and an entry below it, and where a proxy
*file* has the name of that directory, the system answers that it is not a directory.
-/

namespace PumaDev

open Filepath

/-- The name with labels in front, each followed by a dot. -/
def subdomain (n : GoString) : List GoString → GoString
  | [] => n
  | label :: labels => label ++ '.' :: subdomain n labels

/-- The names that are longer than `n`, the longest first. -/
def longerNames (n : GoString) : List GoString → List GoString
  | [] => []
  | label :: labels => subdomain n (label :: labels) :: longerNames n labels

/-- A label is dropped together with its dot. -/
theorem pruneSub_label {label : GoString} (rest : GoString) (plain : '.' ∉ label) :
    pruneSub (label ++ '.' :: rest) = rest := by
  simp [pruneSub, Strings.indexByte_append rest plain]

/-- Neither the entry of the name nor its hyphen-expanded path exists. -/
def Absent (os : Os) (dir name : GoString) : Prop :=
  (os.statAt .entry (join [dir, name])).isOk = false ∧
    (os.statAt .expanded (join [dir, expandHyphens name])).isOk = false

instance (os : Os) (dir name : GoString) : Decidable (Absent os dir name) :=
  inferInstanceAs (Decidable (_ ∧ _))

/-- The answer is an error that `os.IsNotExist` recognises. -/
def NotExist (answer : Except StatError FileInfo) : Prop :=
  ∃ err, answer = .error err ∧ err.isNotExist = true

instance : DecidablePred NotExist
  | .ok _ => .isFalse nofun
  | .error err => decidable_of_iff (err.isNotExist = true) (by simp [NotExist])

/-- For the loop, there is no such app. -/
def Missing (os : Os) (dir name : GoString) : Prop :=
  NotExist (os.statAt .entry (join [dir, name])) ∧
    ('-' ∈ name → NotExist (os.statAt .expanded (join [dir, expandHyphens name])))

instance (os : Os) (dir name : GoString) : Decidable (Missing os dir name) :=
  inferInstanceAs (Decidable (_ ∧ _))

/-- **The way to the app is clear**: none of the names stops the loop, unless it is a
key that leads to the app already. -/
def Clear (os : Os) (pool : AppPool) (id : AppId) : List GoString → Prop
  | [] => True
  | name :: rest =>
      match pool.apps.lookup name with
      | some v => v = id
      | none => Missing os pool.dir.text name ∧ Clear os pool id rest

instance decidableClear (os : Os) (pool : AppPool) (id : AppId) :
    ∀ names, Decidable (Clear os pool id names)
  | [] => .isTrue trivial
  | name :: rest =>
      have := decidableClear os pool id rest
      match cached : pool.apps.lookup name with
      | some v => decidable_of_iff (v = id) (by simp [Clear, cached])
      | none => decidable_of_iff (Missing os pool.dir.text name ∧ Clear os pool id rest)
          (by simp [Clear, cached])

/-- **The search for an entry that is not there**: the loop goes on exactly when it is
missing. -/
theorem locate_of_absent {os : Os} {dir name : GoString} (absent : Absent os dir name) :
    ∃ err, (locate os dir name).2 = .error err ∧ (err = .unknownApp ↔ Missing os dir name) := by
  obtain ⟨entry, expanded⟩ := absent
  have hyphen : expandHyphens name = name ↔ '-' ∉ name := expandHyphens_eq_self_iff
  unfold locate Missing NotExist
  dsimp only
  cases atEntry : os.statAt .entry (join [dir, name]) with
  | ok info => simp [atEntry, Except.isOk, Except.toBool] at entry
  | error err =>
      cases missing : err.isNotExist with
      | false => simp [missing]
      | true =>
          by_cases plain : expandHyphens name = name
          · simp [plain, hyphen.mp plain, missing]
          · have contains : '-' ∈ name := by
              by_contra without
              exact plain (hyphen.mpr without)
            cases atExpanded : os.statAt .expanded (join [dir, expandHyphens name]) with
            | ok info => simp [atExpanded, Except.isOk, Except.toBool] at expanded
            | error err' =>
                cases missing' : err'.isNotExist <;> simp [plain, contains, missing, missing']

variable {T : PrintTable} {hash : GoString → GoString} {os : Os} {pool : AppPool}

/-- `lookupApp`, as the loop sees it. -/
def lookupIn (T : PrintTable) (hash : GoString → GoString) (os : Os) (pool : AppPool)
    (name : GoString) : AppPool × Except GoError AppId :=
  (lookupApp T hash os pool name).2

/-- A name without an entry leaves the pool as it is. -/
theorem lookupIn_of_absent (T : PrintTable) (hash : GoString → GoString) {name : GoString}
    (miss : pool.apps.lookup name = none) (absent : Absent os pool.dir.text name) :
    ∃ err, lookupIn T hash os pool name = (pool, .error err) ∧
      (err = .unknownApp ↔ Missing os pool.dir.text name) := by
  obtain ⟨err, search, stops⟩ := locate_of_absent absent
  refine ⟨err, ?_, stops⟩
  rcases located : locate os pool.dir.text name with ⟨asked, result⟩
  rw [located] at search
  cases search
  simp [lookupIn, lookupApp, decideLookup, miss, located]

/-! ## The loop -/

section Loop

variable {σ : Type} {lookup : σ → GoString → σ × Except GoError AppId} {s s' : σ}
  {name : GoString}

/-- The loop ends with an app. -/
theorem findLoop_of_ok {id : AppId} (nonempty : name ≠ [])
    (found : lookup s name = (s', .ok id)) :
    findLoop lookup s name = (s', .ok (some id)) := by
  rw [findLoop, if_neg nonempty, found]

/-- It goes on without the first label when there is no such app. -/
theorem findLoop_of_unknownApp (nonempty : name ≠ [])
    (unknown : lookup s name = (s', .error .unknownApp)) :
    findLoop lookup s name = findLoop lookup s' (pruneSub name) := by
  rw [findLoop, if_neg nonempty, unknown]

/-- It ends with every other error. -/
theorem findLoop_of_error {err : GoError} (nonempty : name ≠ []) (known : err ≠ .unknownApp)
    (failed : lookup s name = (s', .error err)) :
    findLoop lookup s name = (s', .error err) := by
  rw [findLoop, if_neg nonempty, failed]
  cases err with
  | unknownApp => exact absurd rfl known
  | other text => rfl

end Loop

/-- **The loop over the longer names** leads to an app or fails, and it leads to the app
of the name exactly when the way is clear. -/
theorem findLoop_subdomain {n : GoString} {id : AppId} (nonempty : n ≠ [])
    (found : (lookupIn T hash os pool n).2 = .ok id) (labels : List GoString)
    (plain : ∀ label ∈ labels, '.' ∉ label)
    (absent : ∀ name ∈ longerNames n labels, Absent os pool.dir.text name) :
    ∃ r : Except GoError AppId,
      (findLoop (lookupIn T hash os) pool (subdomain n labels)).2 = r.map some ∧
        (r = .ok id ↔ Clear os pool id (longerNames n labels)) := by
  induction labels with
  | nil =>
      refine ⟨.ok id, ?_, by simp [longerNames, Clear]⟩
      rw [subdomain, findLoop_of_ok nonempty (Prod.ext rfl found)]
      rfl
  | cons label labels ih =>
      obtain ⟨here, later⟩ := List.forall_mem_cons.mp absent
      obtain ⟨labelPlain, restPlain⟩ := List.forall_mem_cons.mp plain
      have long : subdomain n (label :: labels) ≠ [] := by simp [subdomain]
      rw [longerNames, Clear]
      cases cached : pool.apps.lookup (subdomain n (label :: labels)) with
      | some v =>
          refine ⟨.ok v, ?_, by simp⟩
          have answered : lookupIn T hash os pool (subdomain n (label :: labels)) =
              (pool, .ok v) := congrArg Prod.snd (lookupApp_of_key T hash os cached)
          rw [findLoop_of_ok long answered]
          rfl
      | none =>
          obtain ⟨err, failed, stops⟩ := lookupIn_of_absent T hash cached here
          by_cases unknown : err = .unknownApp
          · obtain ⟨r, result, exact_⟩ := ih restPlain later
            have missing := stops.mp unknown
            subst unknown
            refine ⟨r, ?_, by simp [missing, exact_]⟩
            rw [findLoop_of_unknownApp long failed, subdomain, pruneSub_label _ labelPlain]
            exact result
          · refine ⟨.error err, ?_, ?_⟩
            · rw [findLoop_of_error long unknown failed]
              rfl
            · simp [← stops, unknown]

/-- **When a subdomain leads to its app.**  Let labels stand in front of a name whose
lookup answers with an app, and let there be no entry for any of the longer names.
Then `FindAppByDomainName` answers with that app if and only if the way is clear. -/
theorem findAppByDomainName_subdomain_iff (T : PrintTable) (hash : GoString → GoString)
    (os : Os) (pool : AppPool) {n : GoString} {id : AppId} {labels : List GoString}
    (nonempty : n ≠ []) (found : (lookupIn T hash os pool n).2 = .ok id)
    (plain : ∀ label ∈ labels, '.' ∉ label)
    (absent : ∀ name ∈ longerNames n labels, Absent os pool.dir.text name) :
    (findAppByDomainName (lookupIn T hash os) pool (subdomain n labels)).2 = .ok id ↔
      Clear os pool id (longerNames n labels) := by
  obtain ⟨r, result, exact_⟩ := findLoop_subdomain nonempty found labels plain absent
  rw [← exact_]
  rcases loop : findLoop (lookupIn T hash os) pool (subdomain n labels) with ⟨s, out⟩
  rw [loop] at result
  dsimp only at result
  subst result
  cases r with
  | error err => simp [findAppByDomainName, loop, Except.map]
  | ok v => simp [findAppByDomainName, loop, Except.map]

/-- A pool directory with the app `app` and the proxy `api`, which is a file. -/
def proxyWorld : World where
  tree := .ofList (homeOf [(["app"], .dir true), (["api"], .file "3000".toList)]) (by decide)
  cwd := []
  cwd_dir := rfl
  maxLinks := 40

/-- Two labels with hyphens that lead to `app`: there is neither `admin-v2.www` nor
`admin`. -/
theorem findAppByDomainName_adminV2 :
    Clear (proxyWorld.os default) emptyPool 0
        (longerNames "app".toList ["admin-v2".toList, "www".toList]) ∧
      ((findAppByDomainName (lookupIn .asciiOnly id (proxyWorld.os default)) emptyPool
            (subdomain "app".toList ["admin-v2".toList, "www".toList])).2 = .ok 0 ↔
        Clear (proxyWorld.os default) emptyPool 0
          (longerNames "app".toList ["admin-v2".toList, "www".toList])) :=
  ⟨by decide +kernel, findAppByDomainName_subdomain_iff _ _ _ _ (by decide) (by decide +kernel)
    (by decide) (by decide +kernel)⟩

/-- The name `api-v2.app` expands to `api/v2.app`, and `api` is no directory: the
lookup of `app` succeeds, there is nothing for the longer name, and the answer is an
error. -/
theorem fails_apiV2 :
    subdomain "app".toList ["api-v2".toList] = "api-v2.app".toList ∧
      (lookupIn .asciiOnly id (proxyWorld.os default) emptyPool "app".toList).2 = .ok 0 ∧
      Absent (proxyWorld.os default) emptyPool.dir.text "api-v2.app".toList ∧
      (findAppByDomainName (lookupIn .asciiOnly id (proxyWorld.os default)) emptyPool
          "api-v2.app".toList).2 =
        .error (.other "stat /home/u/.puma-dev/api/v2.app: not a directory".toList) := by
  have there : (lookupIn .asciiOnly id (proxyWorld.os default) emptyPool "app".toList).2 =
      .ok 0 := by decide +kernel
  have absent : Absent (proxyWorld.os default) emptyPool.dir.text "api-v2.app".toList := by
    decide +kernel
  have fails : lookupIn .asciiOnly id (proxyWorld.os default) emptyPool "api-v2.app".toList =
      (emptyPool, .error (.other
        "stat /home/u/.puma-dev/api/v2.app: not a directory".toList)) := by
    refine Prod.ext (by rfl) (by decide +kernel)
  refine ⟨by decide, there, absent, ?_⟩
  rw [findAppByDomainName, findLoop_of_error (by decide) (by decide) fails]

end PumaDev
