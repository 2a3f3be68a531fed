import PumaDev.Dev.Http

/-!
# The configured domains

The domains of the `-d` flag are sorted before `removeTLD` tries them in order: the
ones with more dots first.  `sort.Sort` promises no more than that the result is a
rearrangement in which nothing comes before something that is less, so every list with
these two properties has to be taken into account (`SortedDomains`).

The first domain that a host ends in is then the longest one.  Two domains that one
host ends in, each behind a dot, are nested, and the longer one contains the dot in
front of the other (`count_lt_of_longer`): among the domains of one host the number of
dots goes with the length, and the order of all others does not matter.
-/

namespace PumaDev

/-- `ByDecreasingTLDComplexity.Less`, of the two elements. -/
def ByDecreasingTLDComplexity.less (a b : GoString) : Bool := b.count '.' < a.count '.'

/-- `domains` is what `sort.Sort(ByDecreasingTLDComplexity(given))` may leave. -/
structure SortedDomains (given domains : List GoString) : Prop where
  perm : domains.Perm given
  order : domains.Pairwise fun a b => ByDecreasingTLDComplexity.less b a = false

/-- The host name of a `Host`: without the port, if there is one. -/
def hostName (host : GoString) : GoString :=
  match Strings.lastIndexByte host ':' with
  | none => host
  | some _ =>
      match Net.splitHostPort host with
      | some (h, _) => h
      | none => host

/-- The host name is one of `xip.io` or `nip.io`, which `removeTLD` takes apart on its
own. -/
def IsIpHost (host : GoString) : Prop :=
  Strings.hasSuffix (hostName host) ".xip.io".toList ∨
    Strings.hasSuffix (hostName host) ".nip.io".toList

instance (host : GoString) : Decidable (IsIpHost host) := inferInstanceAs (Decidable (_ ∨ _))

/-- The host name ends in the domain, behind a dot. -/
def EndsIn (host d : GoString) : Prop := '.' :: d <:+ host

instance (host d : GoString) : Decidable (EndsIn host d) :=
  inferInstanceAs (Decidable ('.' :: d <:+ host))

/-- The longest of the domains that the host name ends in. -/
structure LongestDomain (domains : List GoString) (host d : GoString) : Prop where
  mem : d ∈ domains
  ends : EndsIn host d
  longest : ∀ d' ∈ domains, EndsIn host d' → d'.length ≤ d.length

/-! ## Nested domains -/

/-- Two domains of one length that a host ends in are the same. -/
theorem eq_of_endsIn {host d d' : GoString} (ends : EndsIn host d) (ends' : EndsIn host d')
    (same : d.length = d'.length) : d = d' := by
  have nested : '.' :: d <:+ '.' :: d' :=
    List.suffix_of_suffix_length_le ends ends' (by simp [same])
  have whole : '.' :: d = '.' :: d' := nested.eq_of_length (by simp [same])
  exact (List.cons.inj whole).2

/-- **Of two domains that a host ends in, the longer one has more dots.** -/
theorem count_lt_of_longer {host d d' : GoString} (ends : EndsIn host d)
    (ends' : EndsIn host d') (longer : d'.length < d.length) : d'.count '.' < d.count '.' := by
  have nested : '.' :: d' <:+ '.' :: d :=
    List.suffix_of_suffix_length_le ends' ends (by simpa using longer.le)
  have inner : '.' :: d' <:+ d := by
    rcases List.suffix_cons_iff.mp nested with same | inner
    · rw [(List.cons.inj same).2] at longer
      exact absurd longer (lt_irrefl _)
    · exact inner
  calc d'.count '.' < ('.' :: d').count '.' := by simp
    _ ≤ d.count '.' := inner.sublist.count_le '.'

namespace LongestDomain

variable {given domains : List GoString} {host d d' : GoString}

/-- There is only one. -/
theorem unique (h : LongestDomain domains host d) (h' : LongestDomain domains host d') :
    d = d' :=
  eq_of_endsIn h.ends h'.ends
    (Nat.le_antisymm (h'.longest d h.mem h.ends) (h.longest d' h'.mem h'.ends))

/-- The order of the domains does not matter. -/
theorem perm (h : LongestDomain given host d) (same : domains.Perm given) :
    LongestDomain domains host d where
  mem := same.mem_iff.mpr h.mem
  ends := h.ends
  longest d' mem := h.longest d' (same.mem_iff.mp mem)

end LongestDomain

/-! ## The loop over the domains -/

/-- The host ends in the domain the loop has found, and in none before it. -/
theorem trimDomain_eq_some {host name : GoString} {domains : List GoString}
    (h : trimDomain host domains = some name) :
    ∃ before d after, domains = before ++ d :: after ∧ host = name ++ '.' :: d ∧
      ∀ d' ∈ before, ¬ EndsIn host d' := by
  induction domains with
  | nil => cases h
  | cons tld rest ih =>
      rw [trimDomain] at h
      split at h
      · next ends =>
          cases h
          obtain ⟨name, rfl⟩ := List.isSuffixOf_iff_suffix.mp ends
          refine ⟨[], tld, rest, rfl, ?_, by simp⟩
          simp [Strings.trimSuffix, Strings.hasSuffix]
      · next other =>
          obtain ⟨before, d, after, rfl, split, none_⟩ := ih h
          have notHere : ¬ EndsIn host tld := fun ends =>
            other (List.isSuffixOf_iff_suffix.mpr ends)
          refine ⟨tld :: before, d, after, rfl, split, ?_⟩
          exact List.forall_mem_cons.mpr ⟨notHere, none_⟩

/-- The loop finds nothing exactly when the host ends in none of the domains. -/
theorem trimDomain_eq_none_iff {host : GoString} {domains : List GoString} :
    trimDomain host domains = none ↔ ∀ d ∈ domains, ¬ EndsIn host d := by
  induction domains with
  | nil => simp [trimDomain]
  | cons tld rest ih =>
      rw [trimDomain, List.forall_mem_cons, ← ih]
      by_cases ends : EndsIn host tld
      · have here : Strings.hasSuffix host ('.' :: tld) = true :=
          List.isSuffixOf_iff_suffix.mpr ends
        simp [here, ends]
      · have other : ¬ Strings.hasSuffix host ('.' :: tld) = true := fun h =>
          ends (List.isSuffixOf_iff_suffix.mp h)
        simp [other, ends]

/-- **The first domain is the longest**, if the domains are sorted. -/
theorem longest_of_trimDomain {host name : GoString} {domains : List GoString}
    (order : domains.Pairwise fun a b => ByDecreasingTLDComplexity.less b a = false)
    (h : trimDomain host domains = some name) :
    ∃ d, LongestDomain domains host d ∧ host = name ++ '.' :: d := by
  obtain ⟨before, d, after, rfl, split, none_⟩ := trimDomain_eq_some h
  have ends : EndsIn host d := ⟨name, split.symm⟩
  refine ⟨d, ⟨by simp, ends, fun d' mem ends' => ?_⟩, split⟩
  rcases List.mem_append.mp mem with earlier | later
  · exact absurd ends' (none_ d' earlier)
  · rcases List.mem_cons.mp later with rfl | later
    · exact le_rfl
    · -- a longer one would have more dots, and come first
      have sorted := (List.pairwise_cons.mp (List.pairwise_append.mp order).2.1).1 d' later
      by_contra longer
      have more := count_lt_of_longer ends' ends (Nat.lt_of_not_le longer)
      simp [ByDecreasingTLDComplexity.less] at sorted
      exact absurd more (Nat.not_lt.mpr sorted)

/-! ## The name of a host -/

/-- `removeTLD` of a host that is not an address in disguise. -/
theorem removeTLD_of_not_isIpHost {domains : List GoString} {host : GoString}
    (named : ¬ IsIpHost host) :
    removeTLD domains host =
      match trimDomain (hostName host) domains with
      | some name => name
      | none =>
          match Strings.lastIndexByte (hostName host) '.' with
          | none => hostName host
          | some dot => (hostName host).take dot :=
  if_neg named

/-- The domains are not looked at for an address in disguise. -/
theorem removeTLD_of_isIpHost {host : GoString} (address : IsIpHost host)
    (domains domains' : List GoString) : removeTLD domains host = removeTLD domains' host :=
  (if_pos address).trans (if_pos address).symm

/-- `name` is what the host name is called, given the configured domains: the longest
domain is stripped with its dot; without one the last label is dropped, and without a
dot nothing is. -/
inductive NameFor (given : List GoString) (host name : GoString) : Prop
  | stripped (d : GoString) (longest : LongestDomain given host d)
      (split : host = name ++ '.' :: d)
  | dropped (label : GoString) (none_ : ∀ d ∈ given, ¬ EndsIn host d) (plain : '.' ∉ label)
      (split : host = name ++ '.' :: label)
  | whole (none_ : ∀ d ∈ given, ¬ EndsIn host d) (plain : '.' ∉ host) (same : name = host)

/-- **Sorted domains**: the name is that of the longest domain. -/
theorem SortedDomains.nameFor {given domains : List GoString} (sorted : SortedDomains given domains)
    {host : GoString} (named : ¬ IsIpHost host) :
    NameFor given (hostName host) (removeTLD domains host) := by
  rw [removeTLD_of_not_isIpHost named]
  cases trimmed : trimDomain (hostName host) domains with
  | some name =>
      obtain ⟨d, longest, split⟩ := longest_of_trimDomain sorted.order trimmed
      exact .stripped d (longest.perm sorted.perm.symm) split
  | none =>
      have none_ : ∀ d ∈ given, ¬ EndsIn (hostName host) d := fun d mem =>
        trimDomain_eq_none_iff.mp trimmed d (sorted.perm.mem_iff.mpr mem)
      dsimp only
      cases last : Strings.lastIndexByte (hostName host) '.' with
      | none => exact .whole none_ (Strings.lastIndexByte_eq_none_iff.mp last) rfl
      | some dot =>
          obtain ⟨label, plain, split⟩ := Strings.split_of_lastIndexByte last
          exact .dropped label none_ plain split

/-- A host ends in labels of one length only. -/
theorem length_eq_of_plain {host label label' : GoString} (ends : EndsIn host label)
    (ends' : EndsIn host label') (plain : '.' ∉ label) (plain' : '.' ∉ label') :
    label.length = label'.length := by
  have none_ : label.count '.' = 0 := List.count_eq_zero.mpr plain
  have none_' : label'.count '.' = 0 := List.count_eq_zero.mpr plain'
  rcases Nat.lt_trichotomy label.length label'.length with shorter | same | longer
  · have more := count_lt_of_longer ends' ends shorter
    omega
  · exact same
  · have more := count_lt_of_longer ends ends' longer
    omega

/-- A host name is called by one name only. -/
theorem NameFor.unique {given : List GoString} {host name name' : GoString}
    (h : NameFor given host name) (h' : NameFor given host name') : name = name' := by
  have endsIn : ∀ {n d : GoString}, host = n ++ '.' :: d → EndsIn host d := fun split =>
    ⟨_, split.symm⟩
  have dotted : ∀ {n d : GoString}, host = n ++ '.' :: d → '.' ∈ host := by
    rintro n d rfl
    simp
  cases h with
  | stripped d longest split =>
      cases h' with
      | stripped d' longest' split' =>
          rw [longest.unique longest', split'] at split
          exact (List.append_cancel_right split).symm
      | dropped _ none_ | whole none_ => exact absurd longest.ends (none_ d longest.mem)
  | dropped label none_ plain split =>
      cases h' with
      | stripped d' longest' => exact absurd longest'.ends (none_ d' longest'.mem)
      | dropped label' none_' plain' split' =>
          have same := eq_of_endsIn (endsIn split) (endsIn split')
            (length_eq_of_plain (endsIn split) (endsIn split') plain plain')
          rw [← same, split] at split'
          exact List.append_cancel_right split'
      | whole _ noDot => exact absurd (dotted split) noDot
  | whole none_ noDot same =>
      cases h' with
      | stripped d' longest' => exact absurd longest'.ends (none_ d' longest'.mem)
      | dropped _ _ _ split' => exact absurd (dotted split') noDot
      | whole _ _ same' => rw [same, same']

/-- The same names for the same domains, in any order. -/
theorem NameFor.perm {given given' : List GoString} {host name : GoString}
    (h : NameFor given host name) (same : given'.Perm given) : NameFor given' host name := by
  cases h with
  | stripped d longest split => exact .stripped d (longest.perm same) split
  | dropped label none_ plain split =>
      exact .dropped label (fun d mem => none_ d (same.mem_iff.mp mem)) plain split
  | whole none_ plain whole => exact .whole (fun d mem => none_ d (same.mem_iff.mp mem)) plain whole

/-- **The longest configured domain wins**, whatever order the domains are given in.
For every value of the `-d` flag, every result of sorting its domains and every host
that is not an address in disguise, `removeTLD` gives the name that goes with the
longest domain; and with the same domains in another order every host has the same
name. -/
theorem removeTLD_sorted (v : GoString) (domains : List GoString)
    (sorted : SortedDomains (Strings.split v ':') domains) :
    (∀ host, ¬ IsIpHost host →
        NameFor (Strings.split v ':') (hostName host) (removeTLD domains host)) ∧
      ∀ v' domains', (Strings.split v' ':').Perm (Strings.split v ':') →
        SortedDomains (Strings.split v' ':') domains' →
          ∀ host, removeTLD domains' host = removeTLD domains host := by
  refine ⟨fun host named => sorted.nameFor named, fun v' domains' same sorted' host => ?_⟩
  by_cases address : IsIpHost host
  · exact removeTLD_of_isIpHost address domains' domains
  · exact ((sorted'.nameFor address).perm same.symm).unique (sorted.nameFor address)

/-- Three domains in two orders: a host of `co.test` is called by what is in front of
all of it, and the two that sort alike may stay as they are. -/
theorem removeTLD_coTest :
    removeTLD ["co.test".toList, "test".toList, "dev".toList] "app.co.test:8080".toList =
        "app".toList ∧
      NameFor (Strings.split "test:co.test:dev".toList ':')
        (hostName "app.co.test:8080".toList)
        (removeTLD ["co.test".toList, "test".toList, "dev".toList]
          "app.co.test:8080".toList) ∧
      ∀ host, removeTLD ["co.test".toList, "dev".toList, "test".toList] host =
        removeTLD ["co.test".toList, "test".toList, "dev".toList] host :=
  have names := removeTLD_sorted "test:co.test:dev".toList
    ["co.test".toList, "test".toList, "dev".toList] ⟨by decide, by decide⟩
  ⟨by decide, names.1 _ (by decide),
    names.2 "dev:co.test:test".toList _ (by decide) ⟨by decide, by decide⟩⟩

end PumaDev
