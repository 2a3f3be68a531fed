import PumaDev.Dev.Domains
import PumaDev.Go.Os

/-!
# Spellings of one host

An app goes by several hosts: its name with a configured domain, or with four labels
of an address and one of the services `xip.io` and `nip.io`, each with or without a
port.  `removeTLD` has a branch for each, and they agree (`removeTLD_spelled`).

The branch for the services counts labels from the back.  `removeTLDSliced` is
`removeTLD` with the slice expression it uses, which panics out of range; it never
does (`removeTLDSliced_eq`).
-/

namespace PumaDev

/-- The host name as it stands, or with a decimal port. -/
inductive Spelled (name : GoString) : GoString → Prop
  | alone : Spelled name name
  | port (p : GoString) (decimal : ∀ c ∈ p, Json.isDigit c = true) :
      Spelled name (name ++ ':' :: p)

/-- The services whose names contain an address. -/
def ipServices : List GoString := ["xip.io".toList, "nip.io".toList]

/-- The name in front of labels, each behind a dot. -/
def withLabels (n : GoString) : List GoString → GoString
  | [] => n
  | label :: labels => withLabels (n ++ '.' :: label) labels

namespace Unported

theorem append {s t : GoString} (hs : Unported s) (ht : Unported t) : Unported (s ++ t) where
  colon := by simp [hs.colon, ht.colon]
  opening := by simp [hs.opening, ht.opening]
  closing := by simp [hs.closing, ht.closing]

theorem dot {s : GoString} (hs : Unported s) : Unported ('.' :: s) where
  colon := by simp [hs.colon]
  opening := by simp [hs.opening]
  closing := by simp [hs.closing]

theorem withLabels {n : GoString} {labels : List GoString} (hn : Unported n)
    (hl : ∀ label ∈ labels, Unported label) : Unported (PumaDev.withLabels n labels) := by
  induction labels generalizing n with
  | nil => exact hn
  | cons label labels ih =>
      obtain ⟨here, later⟩ := List.forall_mem_cons.mp hl
      exact ih (hn.append here.dot) later

end Unported

theorem unported_of_ipService {service : GoString} (known : service ∈ ipServices) :
    Unported service := by
  rcases List.mem_cons.mp known with rfl | known
  · decide
  · rw [List.mem_singleton.mp known]
    decide

/-! ## The port -/

/-- **The port is dropped**, whatever its digits. -/
theorem hostName_of_spelled {name host : GoString} (unported : Unported name)
    (spelled : Spelled name host) : hostName host = name := by
  cases spelled with
  | alone =>
      have none_ : Strings.lastIndexByte name ':' = none :=
        Strings.lastIndexByte_eq_none_iff.mpr unported.colon
      simp [hostName, none_]
  | port p decimal =>
      have digits := Unported.of_isDigit decimal
      have last : Strings.lastIndexByte (name ++ ':' :: p) ':' = some name.length :=
        Strings.lastIndexByte_append name digits.colon
      simp [hostName, last, Net.splitHostPort_of_unported unported digits]

/-! ## The labels of an address -/

/-- Labels are the last pieces of a name, however the name itself is made up. -/
theorem withLabels_eq_join (n : GoString) (labels : List GoString) :
    withLabels n labels = Strings.join (Strings.split n '.' ++ labels) '.' := by
  have pieces : ∀ elems : List GoString, elems ≠ [] →
      withLabels (Strings.join elems '.') labels = Strings.join (elems ++ labels) '.' := by
    induction labels with
    | nil => simp [withLabels]
    | cons label labels ih =>
        intro elems some_
        have next := ih (elems ++ [label]) (by simp)
        rw [Strings.join_append '.' some_ (List.cons_ne_nil _ _), Strings.join_singleton] at next
        rw [withLabels, next, List.append_assoc, List.singleton_append]
  have whole : Strings.join (Strings.split n '.') '.' = n := List.intercalate_splitOn '.'
  rw [← pieces (Strings.split n '.') (List.splitOn_ne_nil '.' n), whole]

/-- **Splitting finds the labels again.** -/
theorem split_withLabels {n : GoString} {labels : List GoString}
    (dotFree : ∀ label ∈ labels, '.' ∉ label) :
    Strings.split (withLabels n labels) '.' = Strings.split n '.' ++ labels := by
  rw [withLabels_eq_join]
  refine List.splitOn_intercalate '.' (fun piece mem => ?_) (by simp [Strings.split])
  rcases List.mem_append.mp mem with inName | inLabels
  · exact Strings.sep_notMem_of_mem_split inName
  · exact dotFree piece inLabels

/-- The branch of `removeTLD` for an address in disguise. -/
theorem removeTLD_eq_of_isIpHost (domains : List GoString) {host : GoString}
    (address : IsIpHost host) :
    removeTLD domains host =
      if (Strings.split (hostName host) '.').length < 6 then []
      else Strings.join ((Strings.split (hostName host) '.').take
        ((Strings.split (hostName host) '.').length - 6)) '.' :=
  if_pos address

/-- A name in front of an address and a service: the last six labels are counted off. -/
theorem removeTLD_of_service {domains : List GoString} {n a b c e service host : GoString}
    (dotFree : ∀ label ∈ [a, b, c, e], '.' ∉ label) (known : service ∈ ipServices)
    (named : hostName host = withLabels n [a, b, c, e, service]) : removeTLD domains host = n := by
  have suffix : '.' :: service <:+ hostName host := by
    rw [named]
    exact ⟨withLabels n [a, b, c, e], rfl⟩
  have ends : IsIpHost host := by
    rcases List.mem_cons.mp known with rfl | known
    · exact Or.inl (List.isSuffixOf_iff_suffix.mpr suffix)
    · rw [List.mem_singleton.mp known] at suffix
      exact Or.inr (List.isSuffixOf_iff_suffix.mpr suffix)
  obtain ⟨first, plain, rfl⟩ : ∃ first : GoString, '.' ∉ first ∧
      service = first ++ '.' :: "io".toList := by
    rcases List.mem_cons.mp known with rfl | known
    · exact ⟨"xip".toList, by decide, rfl⟩
    · exact ⟨"nip".toList, by decide, List.mem_singleton.mp known⟩
  have labels : withLabels n [a, b, c, e, first ++ '.' :: "io".toList] =
      withLabels n [a, b, c, e, first, "io".toList] := by
    simp [withLabels]
  have parts : Strings.split (hostName host) '.' =
      Strings.split n '.' ++ [a, b, c, e, first, "io".toList] := by
    rw [named, labels]
    refine split_withLabels fun label mem => ?_
    rcases List.mem_append.mp (show label ∈ [a, b, c, e] ++ [first, "io".toList] from mem)
      with inside | last
    · exact dotFree label inside
    · rcases List.mem_cons.mp last with rfl | last
      · exact plain
      · exact List.mem_singleton.mp last ▸ by decide
  have whole : Strings.join (Strings.split n '.') '.' = n := List.intercalate_splitOn '.'
  have count : (Strings.split (hostName host) '.').length =
      (Strings.split n '.').length + 6 := by rw [parts, List.length_append]; rfl
  rw [removeTLD_eq_of_isIpHost domains ends, if_neg (by omega), count, Nat.add_sub_cancel, parts,
    List.take_left, whole]

/-! ## The slice -/

/-- The slice expression `s[:high]`.  It panics, which is `none`, unless the bound is
between 0 and the capacity; what `strings.Split` returns has no room behind its end. -/
def sliceTo {α : Type} (s : List α) (high : ℤ) : Option (List α) :=
  if 0 ≤ high ∧ high ≤ s.length then some (s.take high.toNat) else none

/-- `HTTPServer.removeTLD` once more, with the slice expression as it stands. -/
def removeTLDSliced (domains : List GoString) (host : GoString) : Option GoString :=
  let host := match Strings.lastIndexByte host ':' with
    | none => host
    | some _ =>
        match Net.splitHostPort host with
        | some (h, _) => h
        | none => host
  if Strings.hasSuffix host ".xip.io".toList ∨ Strings.hasSuffix host ".nip.io".toList then
    let parts := Strings.split host '.'
    if parts.length < 6 then some []
    else (sliceTo parts ((parts.length : ℤ) - 6)).map fun front => Strings.join front '.'
  else
    match trimDomain host domains with
    | some name => some name
    | none =>
        match Strings.lastIndexByte host '.' with
        | none => some host
        | some dot => some (host.take dot)

/-- **The slice is never out of range**, whatever the host. -/
theorem removeTLDSliced_eq (domains : List GoString) (host : GoString) :
    removeTLDSliced domains host = some (removeTLD domains host) := by
  by_cases address : IsIpHost host
  · rw [removeTLD_eq_of_isIpHost domains address]
    refine (if_pos address).trans ?_
    change (if (Strings.split (hostName host) '.').length < 6 then _ else _) = _
    by_cases few : (Strings.split (hostName host) '.').length < 6
    · rw [if_pos few, if_pos few]
    · have inside : (0 : ℤ) ≤ ((Strings.split (hostName host) '.').length : ℤ) - 6 ∧
          ((Strings.split (hostName host) '.').length : ℤ) - 6 ≤
            (Strings.split (hostName host) '.').length := by omega
      have same : (((Strings.split (hostName host) '.').length : ℤ) - 6).toNat =
          (Strings.split (hostName host) '.').length - 6 := by omega
      rw [if_neg few, if_neg few, ← same]
      exact congrArg (Option.map _) (if_pos inside)
  · rw [removeTLD_of_not_isIpHost address]
    refine (if_neg address).trans ?_
    change (match trimDomain (hostName host) domains with
      | some name => some name
      | none => _) = _
    cases trimDomain (hostName host) domains with
    | some name => rfl
    | none =>
        dsimp only
        change (match Strings.lastIndexByte (hostName host) '.' with
          | none => some (hostName host)
          | some dot => some ((hostName host).take dot)) = _
        cases Strings.lastIndexByte (hostName host) '.' <;> rfl

/-! ## The spellings agree -/

/-- A name in front of a configured domain, if no longer one is at the end as well. -/
theorem removeTLD_of_domain {given domains : List GoString} (sorted : SortedDomains given domains)
    {n d host : GoString} (configured : d ∈ given) (named : hostName host = n ++ '.' :: d)
    (other : ¬ IsIpHost host)
    (longest : ∀ d' ∈ given, d.length < d'.length → ¬ EndsIn (n ++ '.' :: d) d') :
    removeTLD domains host = n := by
  have nameFor := sorted.nameFor other
  refine nameFor.unique (.stripped d ⟨configured, ⟨n, named.symm⟩, fun d' mem ends => ?_⟩ named)
  by_contra longer
  exact longest d' mem (Nat.lt_of_not_le longer) (named ▸ ends)

/-- **Host spelling does not matter.**  A name is found again in front of an address and
one of the services, and in front of a configured domain that no longer one hides, with
or without a port; and the slice expression in `removeTLD` is never out of range. -/
theorem removeTLD_spelled {given domains : List GoString}
    (sorted : SortedDomains given domains) :
    (∀ n a b c e service host : GoString, n ≠ [] → Unported n →
        (∀ label ∈ [a, b, c, e], Unported label ∧ '.' ∉ label) → service ∈ ipServices →
        Spelled (withLabels n [a, b, c, e, service]) host → removeTLD domains host = n) ∧
      (∀ n d host : GoString, n ≠ [] → Unported n → d ∈ given → d ≠ [] → Unported d →
        (∀ service ∈ ipServices, ¬ EndsIn (n ++ '.' :: d) service) →
        (∀ d' ∈ given, d.length < d'.length → ¬ EndsIn (n ++ '.' :: d) d') →
        Spelled (n ++ '.' :: d) host → removeTLD domains host = n) ∧
      ∀ host, removeTLDSliced domains host = some (removeTLD domains host) := by
  refine ⟨?_, ?_, removeTLDSliced_eq domains⟩
  · intro n a b c e service host _ unported labels known spelled
    have whole : Unported (withLabels n [a, b, c, e, service]) := by
      refine unported.withLabels fun label mem => ?_
      rcases List.mem_append.mp (show label ∈ [a, b, c, e] ++ [service] from mem) with
        inside | last
      · exact (labels label inside).1
      · rw [List.mem_singleton.mp last]
        exact unported_of_ipService known
    exact removeTLD_of_service (fun label mem => (labels label mem).2) known
      (hostName_of_spelled whole spelled)
  · intro n d host _ unported configured _ unported' other longest spelled
    have named := hostName_of_spelled (unported.append unported'.dot) spelled
    refine removeTLD_of_domain sorted configured named ?_ longest
    rintro (xip | nip)
    · exact other _ (by decide) (named ▸ List.isSuffixOf_iff_suffix.mp xip)
    · exact other _ (by decide) (named ▸ List.isSuffixOf_iff_suffix.mp nip)

/-- The app `web.v2` among the domains `test` and `v2.test.dev`, by an address and by a
domain, with a port. -/
theorem removeTLD_spelled_webV2 :
    removeTLD ["v2.test.dev".toList, "test".toList] "web.v2.10.0.0.1.nip.io:8080".toList =
        "web.v2".toList ∧
      removeTLD ["v2.test.dev".toList, "test".toList] "web.v2.test:9280".toList =
        "web.v2".toList ∧
      removeTLDSliced ["v2.test.dev".toList, "test".toList] "0.0.xip.io".toList = some [] :=
  have sorted : SortedDomains ["test".toList, "v2.test.dev".toList]
      ["v2.test.dev".toList, "test".toList] := ⟨by decide, by decide⟩
  have spelled := removeTLD_spelled sorted
  ⟨spelled.1 _ "10".toList "0".toList "0".toList "1".toList "nip.io".toList _ (by decide)
      (by decide) (by decide) (by decide)
      (.port "8080".toList (by decide)),
    spelled.2.1 _ "test".toList _ (by decide) (by decide) (by decide) (by decide)
      (by decide) (by decide) (by decide) (.port "9280".toList (by decide)),
    (spelled.2.2 _).trans (by decide)⟩

end PumaDev
