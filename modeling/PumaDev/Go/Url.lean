import PumaDev.Go.Bytes
import PumaDev.Go.Os

/-!
# URLs

`url.Parse` as Go 1.20 has it.  It goes through its argument byte by byte, so the
argument is a string whose characters stand for bytes (`Bytes.chars`).  Of the result
there is what `readProxy` uses, the scheme and the host; the other parts are parsed as
well, since each of them may be refused.  A host never has a slash in it
(`slash_notMem_of_parseText`).
-/

namespace PumaDev

/-- The bytes as characters up to 255. -/
def Bytes.chars (s : Bytes) : GoString := s.map fun b => Char.ofNat b.toNat

/-- `strings.Cut` at a one-byte separator: what is in front of it and behind it. -/
def Strings.cut (s : GoString) (sep : Char) : GoString × GoString :=
  (s.takeWhile (· ≠ sep), (s.dropWhile (· ≠ sep)).drop 1)

namespace Url

/-- The modes of `unescape` that `url.Parse` uses. -/
inductive Encoding where
  | path
  | userPassword
  | host
  | zone
  | fragment
  deriving DecidableEq

/-- Why a text is no URL. -/
inductive Error where
  | controlCharacter
  | missingScheme
  | firstSegmentColon
  | invalidUserinfo
  | missingBracket
  | invalidPort (colonPort : GoString)
  /-- `EscapeError`. -/
  | escape (s : GoString)
  /-- `InvalidHostError`. -/
  | invalidHost (s : GoString)
  deriving DecidableEq

/-- `strconv.Quote` of a string whose characters stand for bytes. -/
def quoteRaw (T : PrintTable) (s : GoString) : GoString :=
  (Strconv.quoteBytes T (s.map fun c => UInt8.ofNat c.toNat)).chars

/-- The message of the error. -/
def Error.text (T : PrintTable) : Error → GoString
  | controlCharacter => "net/url: invalid control character in URL".toList
  | missingScheme => "missing protocol scheme".toList
  | firstSegmentColon => "first path segment in URL cannot contain colon".toList
  | invalidUserinfo => "net/url: invalid userinfo".toList
  | missingBracket => "missing ']' in host".toList
  | invalidPort colonPort =>
      "invalid port ".toList ++ quoteRaw T colonPort ++ " after host".toList
  | escape s => "invalid URL escape ".toList ++ quoteRaw T s
  | invalidHost s => "invalid character ".toList ++ quoteRaw T s ++ " in host name".toList

/-- The part of a `url.URL` that is used. -/
structure URL where
  scheme : GoString
  host : GoString
  deriving DecidableEq

/-- A letter of ASCII. -/
def isLetter (c : Char) : Bool := ('a' ≤ c && c ≤ 'z') || ('A' ≤ c && c ≤ 'Z')

/-- `shouldEscape` in the modes `encodeHost` and `encodeZone`. -/
def shouldEscape (c : Char) : Bool :=
  !(isLetter c || Json.isDigit c || c ∈ "!$&'()*+,;=:[]<>\"".toList || c ∈ "-_.~".toList)

/-- `unescape`. -/
def unescape (mode : Encoding) : GoString → Except Error GoString
  | [] => .ok []
  | c :: rest =>
      if c = '%' then
        match rest with
        | a :: b :: rest =>
            match Json.hexValue a, Json.hexValue b with
            | some x, some y =>
                let v := Char.ofNat (16 * x + y)
                if mode = .host ∧ x < 8 ∧ [a, b] ≠ ['2', '5'] then .error (.escape ['%', a, b])
                else if mode = .zone ∧ [a, b] ≠ ['2', '5'] ∧ v ≠ ' ' ∧ shouldEscape v then
                  .error (.escape ['%', a, b])
                else (unescape mode rest).map (v :: ·)
            | _, _ => .error (.escape ['%', a, b])
        | short => .error (.escape ('%' :: short))
      else if (mode = .host ∨ mode = .zone) ∧ c.toNat < 0x80 ∧ shouldEscape c then
        .error (.invalidHost [c])
      else (unescape mode rest).map (c :: ·)

/-- The loop of `getScheme` at the position `i`. -/
def getSchemeFrom (rawURL : GoString) (i : ℕ) : GoString → Except Error (GoString × GoString)
  | [] => .ok ([], rawURL)
  | c :: rest =>
      if isLetter c then getSchemeFrom rawURL (i + 1) rest
      else if Json.isDigit c ∨ c = '+' ∨ c = '-' ∨ c = '.' then
        if i = 0 then .ok ([], rawURL) else getSchemeFrom rawURL (i + 1) rest
      else if c = ':' then
        if i = 0 then .error .missingScheme else .ok (rawURL.take i, rest)
      else .ok ([], rawURL)

/-- `getScheme`: the scheme and what is behind its colon. -/
def getScheme (rawURL : GoString) : Except Error (GoString × GoString) :=
  getSchemeFrom rawURL 0 rawURL

/-- `validOptionalPort`. -/
def validOptionalPort (port : GoString) : Bool :=
  match port with
  | [] => true
  | c :: digits => c = ':' && digits.all Json.isDigit

/-- `validUserinfo`. -/
def validUserinfo (s : GoString) : Bool :=
  s.all fun c => isLetter c || Json.isDigit c || c ∈ "-._:~!$&'()*+,;=%@".toList

/-- `strings.Index` of `"%25"`. -/
def indexZone : GoString → Option ℕ
  | [] => none
  | c :: rest => if "%25".toList.isPrefixOf (c :: rest) then some 0 else (indexZone rest).map (· + 1)

/-- `parseHost`. -/
def parseHost (host : GoString) : Except Error GoString :=
  if host.head? = some '[' then
    match Strings.lastIndexByte host ']' with
    | none => .error .missingBracket
    | some i =>
        let colonPort := host.drop (i + 1)
        if ¬ validOptionalPort colonPort then .error (.invalidPort colonPort)
        else
          match indexZone (host.take i) with
          | none => unescape .host host
          | some zone => do
              let host1 ← unescape .host (host.take zone)
              let host2 ← unescape .zone ((host.take i).drop zone)
              let host3 ← unescape .host (host.drop i)
              return host1 ++ host2 ++ host3
  else
    match Strings.lastIndexByte host ':' with
    | none => unescape .host host
    | some i =>
        let colonPort := host.drop i
        if ¬ validOptionalPort colonPort then .error (.invalidPort colonPort)
        else unescape .host host

/-- `parseAuthority`, up to the user it returns. -/
def parseAuthority (authority : GoString) : Except Error GoString :=
  match Strings.lastIndexByte authority '@' with
  | none => parseHost authority
  | some i => do
      let host ← parseHost (authority.drop (i + 1))
      let userinfo := authority.take i
      if ¬ validUserinfo userinfo then .error .invalidUserinfo
      else if ':' ∉ userinfo then
        let _ ← unescape .userPassword userinfo
        return host
      else
        let _ ← unescape .userPassword (Strings.cut userinfo ':').1
        let _ ← unescape .userPassword (Strings.cut userinfo ':').2
        return host

/-- `stringContainsCTLByte`. -/
def containsCTLByte (s : GoString) : Bool := s.any fun c => c < ' ' || c.toNat = 0x7f

/-- `strings.ToLower` of a scheme. -/
def toLower (s : GoString) : GoString := s.map Char.toLower

/-- What is left of a URL behind its scheme when the query is cut off. -/
def cutQuery (rest : GoString) : GoString :=
  if Strings.hasSuffix rest ['?'] ∧ rest.count '?' = 1 then rest.take (rest.length - 1)
  else (Strings.cut rest '?').1

/-- The end of `parse`: the authority and the path. -/
def parseHierarchy (scheme rest : GoString) : Except Error URL := do
  if (scheme ≠ [] ∨ ¬ Strings.hasPrefix rest "///".toList) ∧ Strings.hasPrefix rest "//".toList then
    let authority := (rest.drop 2).takeWhile (· ≠ '/')
    let path := (rest.drop 2).dropWhile (· ≠ '/')
    let host ← parseAuthority authority
    let _ ← unescape .path path
    return ⟨scheme, host⟩
  else
    let _ ← unescape .path rest
    return ⟨scheme, []⟩

/-- `parse`, of a URL whose fragment is cut off. -/
def parseNoFragment (rawURL : GoString) : Except Error URL :=
  if containsCTLByte rawURL then .error .controlCharacter
  else if rawURL = ['*'] then .ok ⟨[], []⟩
  else do
    let (scheme, rest) ← getScheme rawURL
    let scheme := toLower scheme
    let rest := cutQuery rest
    if ¬ Strings.hasPrefix rest ['/'] then
      -- a path without a slash is opaque
      if scheme ≠ [] then return ⟨scheme, []⟩
      else if ':' ∈ (Strings.cut rest '/').1 then .error .firstSegmentColon
      else parseHierarchy scheme rest
    else parseHierarchy scheme rest

/-- `url.Parse`; an error comes with the text it is about. -/
def parse (rawURL : GoString) : Except (GoString × Error) URL :=
  let (u, frag) := Strings.cut rawURL '#'
  match parseNoFragment u with
  | .error err => .error (u, err)
  | .ok url =>
      match unescape .fragment frag with
      | .error err => .error (rawURL, err)
      | .ok _ => .ok url

/-- `url.Parse` with the message of its error, and the two fields that are used. -/
def parseText (T : PrintTable) (rawURL : GoString) : Except GoString (GoString × GoString) :=
  match parse rawURL with
  | .error (u, err) => .error ("parse ".toList ++ quoteRaw T u ++ ": ".toList ++ err.text T)
  | .ok url => .ok (url.scheme, url.host)

/-! ## Plain texts

Names, addresses and ports are made up of characters that no part of `url.Parse` treats
in a special way, except for the colon and the brackets. -/

/-- A letter, a digit, or one of `-._:[]`. -/
def isHostByte (c : Char) : Bool := isLetter c || Json.isDigit c || c ∈ "-._:[]".toList

/-- What is the same for all these characters can be tried out. -/
theorem of_isHostByte {P : Char → Prop} {c : Char} (host : isHostByte c = true)
    (all : ∀ n < 128, isHostByte (Char.ofNat n) = true → P (Char.ofNat n)) : P c := by
  have ascii : c.toNat < 128 := by
    simp only [isHostByte, isLetter, Json.isDigit, Bool.or_eq_true, Bool.and_eq_true,
      decide_eq_true_eq, Char.le_def] at host
    have bound : ∀ d : Char, c.val ≤ d.val → d.toNat < 128 → c.toNat < 128 :=
      fun d le small => lt_of_le_of_lt (UInt32.le_iff_toNat_le.mp le) small
    rcases host with ((⟨-, z⟩ | ⟨-, z⟩) | ⟨-, z⟩) | special
    · exact bound 'z' z (by decide)
    · exact bound 'Z' z (by decide)
    · exact bound '9' z (by decide)
    · have small : ∀ d ∈ "-._:[]".toList, d.toNat < 128 := by decide
      exact small c special
  have same : Char.ofNat c.toNat = c := Char.ofNat_toNat c
  exact same ▸ all c.toNat ascii (same.symm ▸ host)

theorem notSpecial_of_isHostByte {c : Char} (host : isHostByte c = true) :
    c ∉ "/?#%@*".toList ∧ shouldEscape c = false ∧ (c < ' ' || c.toNat = 0x7f) = false ∧
      Strings.isSpace c = false ∧ c.toNat < 0x80 :=
  of_isHostByte (P := fun c => c ∉ "/?#%@*".toList ∧ shouldEscape c = false ∧
    (c < ' ' || c.toNat = 0x7f) = false ∧ Strings.isSpace c = false ∧ c.toNat < 0x80) host
    (by decide +kernel)

/-- A text of such characters. -/
def HostText (s : GoString) : Prop := ∀ c ∈ s, isHostByte c = true

namespace HostText

variable {s t : GoString}

theorem append (hs : HostText s) (ht : HostText t) : HostText (s ++ t) := fun c mem =>
  (List.mem_append.mp mem).elim (hs c) (ht c)

theorem cons {c : Char} (hc : isHostByte c = true) (hs : HostText s) : HostText (c :: s) :=
  List.forall_mem_cons.mpr ⟨hc, hs⟩

theorem of_digits (digits : ∀ c ∈ s, Json.isDigit c = true) : HostText s := fun c mem => by
  simp [isHostByte, digits c mem]

theorem notMem (hs : HostText s) {c : Char} (special : c ∈ "/?#%@*".toList) : c ∉ s := fun mem =>
  (notSpecial_of_isHostByte (hs c mem)).1 special

end HostText

/-- Nothing is unescaped. -/
theorem unescape_of_hostText {s : GoString} (mode : Encoding) (host : HostText s) :
    unescape mode s = .ok s := by
  induction s with
  | nil => rfl
  | cons c s ih =>
      obtain ⟨here, later⟩ := List.forall_mem_cons.mp host
      have percent : c ≠ '%' := by
        rintro rfl
        exact absurd here (by decide)
      unfold unescape
      rw [if_neg percent, (notSpecial_of_isHostByte here).2.1, ih later]
      simp [Except.map]

/-- There is nothing to cut off. -/
theorem cut_of_notMem {s : GoString} {c : Char} (absent : c ∉ s) :
    Strings.cut s c = (s, []) := by
  have all : ∀ d ∈ s, (decide (d ≠ c)) = true := fun d mem => by
    simpa using fun same : d = c => absent (same ▸ mem)
  rw [Strings.cut, List.takeWhile_eq_self_iff.mpr all, List.dropWhile_eq_nil_iff.mpr all]
  rfl

theorem cutQuery_of_notMem {s : GoString} (absent : '?' ∉ s) : cutQuery s = s := by
  have count : s.count '?' ≠ 1 := by
    rw [List.count_eq_zero.mpr absent]
    decide
  rw [cutQuery, if_neg (fun h => count h.2), cut_of_notMem absent]

/-! ## Schemes -/

/-- Letters, digits, `+`, `-` and `.`. -/
def isSchemeByte (c : Char) : Bool :=
  isLetter c || Json.isDigit c || c = '+' || c = '-' || c = '.'

/-- Behind the first character the loop goes on to the colon. -/
theorem getSchemeFrom_append {front : GoString} (rawURL rest : GoString) (i : ℕ)
    (scheme : ∀ c ∈ front, isSchemeByte c = true) :
    getSchemeFrom rawURL (i + 1) (front ++ rest) =
      getSchemeFrom rawURL (i + 1 + front.length) rest := by
  induction front generalizing i with
  | nil => rfl
  | cons c front ih =>
      obtain ⟨here, later⟩ := List.forall_mem_cons.mp scheme
      have next := ih (i + 1) later
      rw [List.cons_append, getSchemeFrom, next, List.length_cons]
      have position : i + 1 + 1 + front.length = i + 1 + (front.length + 1) := by omega
      rw [position]
      split
      · rfl
      · next other =>
          have digit : Json.isDigit c = true ∨ c = '+' ∨ c = '-' ∨ c = '.' := by
            simpa [isSchemeByte, other, or_assoc] using here
          rw [if_pos digit, if_neg (Nat.succ_ne_zero i)]

/-- **A scheme is found**: a letter, more of the kind, and a colon. -/
theorem getScheme_of_scheme {c : Char} {front : GoString} (rest : GoString)
    (letter : isLetter c = true) (scheme : ∀ c ∈ front, isSchemeByte c = true) :
    getScheme (c :: front ++ ':' :: rest) = .ok (c :: front, rest) := by
  have colon : isLetter ':' = false := by decide
  have digit : Json.isDigit ':' = false := by decide
  rw [getScheme, List.cons_append, getSchemeFrom, if_pos letter,
    getSchemeFrom_append _ _ 0 scheme, getSchemeFrom]
  have front_ : (c :: (front ++ ':' :: rest)).take (0 + 1 + front.length) = c :: front := by
    rw [Nat.add_comm, ← List.cons_append]
    exact List.take_left' (by simp)
  simp [colon, digit, front_]

/-- In front of a colon there is a scheme, or there is none at all. -/
theorem getScheme_of_colon {h : GoString} (rest : GoString) (some_ : h ≠ []) (plain : ':' ∉ h) :
    getScheme (h ++ ':' :: rest) = .ok (h, rest) ∨
      getScheme (h ++ ':' :: rest) = .ok ([], h ++ ':' :: rest) := by
  have loop : ∀ (front back : GoString), h = front ++ back →
      getSchemeFrom (h ++ ':' :: rest) front.length (back ++ ':' :: rest) = .ok (h, rest) ∨
        getSchemeFrom (h ++ ':' :: rest) front.length (back ++ ':' :: rest) =
          .ok ([], h ++ ':' :: rest) := by
    intro front back
    induction back generalizing front with
    | nil =>
        intro split
        have whole : front = h := by rw [split, List.append_nil]
        have colon : isLetter ':' = false := by decide
        have digit : Json.isDigit ':' = false := by decide
        left
        rw [List.nil_append, getSchemeFrom]
        simp [colon, digit, whole, some_]
    | cons c back ih =>
        intro split
        have next := ih (front ++ [c]) (by rw [split]; simp)
        rw [List.length_append, List.length_singleton] at next
        have apart : c ≠ ':' := by
          rintro rfl
          exact plain (by rw [split]; simp)
        rw [List.cons_append, getSchemeFrom, if_neg apart]
        split
        · exact next
        · split
          · split
            · exact Or.inr rfl
            · exact next
          · exact Or.inr rfl
  exact loop [] h rfl

/-! ## Hosts and ports -/

/-- The schemes of the web. -/
def webSchemes : List GoString := ["http".toList, "https".toList]

theorem validOptionalPort_of_digits {p : GoString} (digits : ∀ c ∈ p, Json.isDigit c = true) :
    validOptionalPort (':' :: p) = true := by
  simpa [validOptionalPort] using digits

theorem indexZone_of_notMem {s : GoString} (absent : '%' ∉ s) : indexZone s = none := by
  induction s with
  | nil => rfl
  | cons c s ih =>
      obtain ⟨here, later⟩ := not_or.mp (mt List.mem_cons.mpr absent)
      have apart : ('%' == c) = false := by simpa using here
      simp [indexZone, List.isPrefixOf, apart, ih later]

/-- A host without brackets, and a port. -/
theorem parseHost_of_unported {h p : GoString} (host : HostText h) (unported : Unported h)
    (digits : ∀ c ∈ p, Json.isDigit c = true) : parseHost (h ++ ':' :: p) = .ok (h ++ ':' :: p) := by
  have port := HostText.of_digits digits
  have colon : ':' ∉ p := fun mem => absurd (digits _ mem) (by decide)
  have bracket : (h ++ ':' :: p).head? ≠ some '[' := by
    cases h with
    | nil => simp
    | cons c h =>
        have other : '[' ≠ c := fun same => unported.opening (same ▸ List.mem_cons_self)
        simpa using other.symm
  have last : Strings.lastIndexByte (h ++ ':' :: p) ':' = some h.length :=
    Strings.lastIndexByte_append h colon
  have whole : HostText (h ++ ':' :: p) := host.append (port.cons (by decide))
  rw [parseHost, if_neg bracket, last]
  simp [validOptionalPort_of_digits digits, unescape_of_hostText .host whole]

/-- A host in brackets, and a port. -/
theorem parseHost_of_brackets {a p : GoString} (address : HostText a)
    (digits : ∀ c ∈ p, Json.isDigit c = true) :
    parseHost ('[' :: a ++ ']' :: ':' :: p) = .ok ('[' :: a ++ ']' :: ':' :: p) := by
  have port := HostText.of_digits digits
  have closing : ']' ∉ ':' :: p := by
    rw [List.mem_cons, not_or]
    exact ⟨by decide, fun mem => absurd (digits _ mem) (by decide)⟩
  have last : Strings.lastIndexByte ('[' :: a ++ ']' :: ':' :: p) ']' = some (a.length + 1) :=
    Strings.lastIndexByte_append ('[' :: a) closing
  have front : HostText ('[' :: a) := address.cons (by decide)
  have whole : HostText ('[' :: a ++ ']' :: ':' :: p) :=
    front.append ((port.cons (by decide)).cons (by decide))
  have zone : indexZone (('[' :: a ++ ']' :: ':' :: p).take (a.length + 1)) = none := by
    refine indexZone_of_notMem fun mem => ?_
    exact whole.notMem (by decide) (List.mem_of_mem_take mem)
  have behind : ('[' :: a ++ ']' :: ':' :: p).drop (a.length + 1 + 1) = ':' :: p := by simp
  rw [parseHost, if_pos (by rfl), last]
  dsimp only
  rw [behind, validOptionalPort_of_digits digits, zone]
  simpa using unescape_of_hostText .host whole

/-- What `url.Parse` makes of a text without a fragment. -/
theorem parse_of_noFragment {s : GoString} {url : URL} (absent : '#' ∉ s)
    (parsed : parseNoFragment s = .ok url) : parse s = .ok url := by
  rw [parse, cut_of_notMem absent]
  simp [parsed, unescape]

theorem HostText.noControl {s : GoString} (host : HostText s) : containsCTLByte s = false := by
  rw [containsCTLByte, List.any_eq_false]
  exact fun c mem => Bool.eq_false_iff.mp (notSpecial_of_isHostByte (host c mem)).2.2.1

/-- `parse` from the scheme on. -/
theorem parseNoFragment_of_getScheme {s scheme rest : GoString}
    (noControl : containsCTLByte s = false) (noStar : s ≠ ['*'])
    (found : getScheme s = .ok (scheme, rest)) :
    parseNoFragment s =
      if ¬ Strings.hasPrefix (cutQuery rest) ['/'] then
        if toLower scheme ≠ [] then .ok ⟨toLower scheme, []⟩
        else if ':' ∈ (Strings.cut (cutQuery rest) '/').1 then .error .firstSegmentColon
        else parseHierarchy (toLower scheme) (cutQuery rest)
      else parseHierarchy (toLower scheme) (cutQuery rest) := by
  rw [parseNoFragment, noControl, if_neg Bool.false_ne_true, if_neg noStar, found]
  rfl

/-- The authority is all there is behind the slashes. -/
theorem parseHierarchy_of_authority {scheme authority host : GoString} (some_ : scheme ≠ [])
    (text : HostText authority) (parses : parseHost authority = .ok host) :
    parseHierarchy scheme ("//".toList ++ authority) = .ok ⟨scheme, host⟩ := by
  have slash : '/' ∉ authority := text.notMem (by decide)
  have noUser : Strings.lastIndexByte authority '@' = none :=
    Strings.lastIndexByte_eq_none_iff.mpr (text.notMem (by decide))
  have slashes : Strings.hasPrefix ("//".toList ++ authority) "//".toList = true :=
    List.isPrefixOf_iff_prefix.mpr (List.prefix_append _ _)
  have cut := cut_of_notMem slash
  rw [Strings.cut, Prod.mk.injEq] at cut
  have path : authority.dropWhile (· ≠ '/') = [] :=
    List.dropWhile_eq_nil_iff.mpr (List.takeWhile_eq_self_iff.mp cut.1)
  have behind : ("//".toList ++ authority).drop 2 = authority := rfl
  have authorityHost : parseAuthority authority = .ok host := by
    unfold parseAuthority
    rw [noUser]
    exact parses
  rw [parseHierarchy, if_pos ⟨Or.inl some_, slashes⟩, behind, cut.1, path]
  dsimp only
  rw [authorityHost]
  rfl

/-- **A URL of the web**: its scheme, and the host and port it is written with. -/
theorem parse_of_web {scheme authority host : GoString} (web : scheme ∈ webSchemes)
    (text : HostText authority) (parses : parseHost authority = .ok host) :
    parse (scheme ++ "://".toList ++ authority) = .ok ⟨scheme, host⟩ := by
  obtain ⟨c, front, rfl, letter, schemeBytes⟩ : ∃ c front, scheme = c :: front ∧
      isLetter c = true ∧ ∀ d ∈ front, isSchemeByte d = true := by
    rcases List.mem_cons.mp web with rfl | web
    · exact ⟨_, _, rfl, by decide, by decide⟩
    · rw [List.mem_singleton.mp web]
      exact ⟨_, _, rfl, by decide, by decide⟩
  have plain : ∀ scheme ∈ webSchemes, toLower scheme = scheme ∧ '#' ∉ scheme ++ "://".toList ∧
      containsCTLByte (scheme ++ "://".toList) = false := by decide
  obtain ⟨lower, noHash, noControl⟩ := plain _ web
  have split : c :: front ++ "://".toList ++ authority =
      c :: front ++ ':' :: ("//".toList ++ authority) := by simp
  have noQuery : '?' ∉ "//".toList ++ authority := by
    rw [List.mem_append, not_or]
    exact ⟨by decide, text.notMem (by decide)⟩
  have slash : Strings.hasPrefix ("//".toList ++ authority) ['/'] = true := rfl
  refine parse_of_noFragment ?_ ?_
  · rw [List.mem_append, not_or]
    exact ⟨noHash, text.notMem (by decide)⟩
  · have clean : containsCTLByte (c :: front ++ "://".toList ++ authority) = false := by
      rw [containsCTLByte, List.any_append, Bool.or_eq_false_iff]
      exact ⟨noControl, text.noControl⟩
    rw [split] at clean ⊢
    rw [parseNoFragment_of_getScheme clean (by simp) (getScheme_of_scheme _ letter schemeBytes),
      lower, cutQuery_of_notMem noQuery, slash]
    exact parseHierarchy_of_authority (List.cons_ne_nil c front) text parses

/-- **A host and a port are no URL of a host**: either the host is taken for a scheme, or
there is a colon where none may be. -/
theorem parse_of_hostPort {s : GoString} (text : HostText s) (colon : ':' ∈ s) :
    (∃ scheme, parse s = .ok ⟨scheme, []⟩) ∨ ∃ err, parse s = .error err := by
  obtain ⟨h, rest, rfl, plain⟩ := List.eq_append_cons_of_mem colon
  have noSlash : '/' ∉ h ++ ':' :: rest := text.notMem (by decide)
  have noHash : '#' ∉ h ++ ':' :: rest := text.notMem (by decide)
  have noQuery : '?' ∉ h ++ ':' :: rest := text.notMem (by decide)
  have noStar : h ++ ':' :: rest ≠ ['*'] := fun same =>
    absurd (show ':' ∈ ['*'] from same ▸ colon) (by decide)
  have relative : ∀ {t : GoString}, '/' ∉ t → Strings.hasPrefix t ['/'] = false := by
    intro t absent
    cases t with
    | nil => rfl
    | cons c t =>
        have apart : '/' ≠ c := fun same => absent (same ▸ List.mem_cons_self)
        simp [Strings.hasPrefix, List.isPrefixOf, apart]
  have refused : ∀ err, parseNoFragment (h ++ ':' :: rest) = .error err →
      ∃ err, parse (h ++ ':' :: rest) = .error err := by
    intro err failed
    refine ⟨(h ++ ':' :: rest, err), ?_⟩
    rw [parse, cut_of_notMem noHash]
    dsimp only
    rw [failed]
  by_cases some_ : h = []
  · -- the text begins with the colon
    refine Or.inr (refused .missingScheme ?_)
    subst some_
    rw [parseNoFragment, text.noControl, if_neg Bool.false_ne_true, if_neg noStar]
    rfl
  rcases getScheme_of_colon rest some_ plain with found | found
  · left
    have lower : toLower h ≠ [] := by simpa [toLower] using some_
    have behind : '/' ∉ rest ∧ '?' ∉ rest :=
      ⟨fun mem => noSlash (by simp [mem]), fun mem => noQuery (by simp [mem])⟩
    refine ⟨toLower h, parse_of_noFragment noHash ?_⟩
    rw [parseNoFragment_of_getScheme text.noControl noStar found, cutQuery_of_notMem behind.2,
      relative behind.1]
    simp [lower]
  · refine Or.inr (refused .firstSegmentColon ?_)
    rw [parseNoFragment_of_getScheme text.noControl noStar found, cutQuery_of_notMem noQuery,
      relative noSlash, cut_of_notMem noSlash]
    simp [toLower]

/-! ## No host has a slash -/

theorem ok_of_bind {α β : Type} {x : Except Error α} {f : α → Except Error β} {b : β}
    (h : x >>= f = .ok b) : ∃ a, x = .ok a ∧ f a = .ok b := by
  cases x with
  | error err => cases h
  | ok a => exact ⟨a, rfl, h⟩

theorem slash_notMem_of_map {c : Char} {result : Except Error GoString} {t : GoString}
    (other : c ≠ '/') (rest : ∀ {t'}, result = .ok t' → '/' ∉ t')
    (h : result.map (c :: ·) = .ok t) : '/' ∉ t := by
  cases result with
  | error err => cases h
  | ok t' =>
      cases h
      rw [List.mem_cons, not_or]
      exact ⟨other.symm, rest rfl⟩

/-- Where hosts and zones are read, a slash is refused, also as an escape. -/
theorem slash_notMem_of_unescape {mode : Encoding} (strict : mode = .host ∨ mode = .zone)
    {s t : GoString} (h : unescape mode s = .ok t) : '/' ∉ t := by
  fun_induction unescape mode s generalizing t with
  | case1 =>
      cases h
      exact List.not_mem_nil
  | case4 a b rest x y low high v host zone =>
      rename_i ih
      refine slash_notMem_of_map (fun slash => ?_) ih h
      have value : 16 * x + y = '/'.toNat := by
        by_cases valid : (16 * x + y).isValidChar
        · rw [show v = _ from dif_pos valid] at slash
          exact congrArg Char.toNat slash
        · rw [show v = _ from dif_neg valid] at slash
          exact absurd slash (by decide)
      have escaped : [a, b] ≠ ['2', '5'] := by
        intro same
        cases same
        cases high
        cases low
        exact absurd value (by decide)
      rcases strict with rfl | rfl
      · have small : 16 * x + y = 47 := value
        exact host ⟨rfl, by omega, escaped⟩
      · exact zone ⟨rfl, escaped, by rw [slash]; decide, by rw [slash]; decide⟩
  | case8 c rest escape plain ih =>
      refine slash_notMem_of_map ?_ ih h
      rintro rfl
      exact plain ⟨strict, by decide, by decide⟩
  | _ => cases h

theorem slash_notMem_of_parseHost {s host : GoString} (h : parseHost s = .ok host) :
    '/' ∉ host := by
  have whole : unescape .host s = .ok host → '/' ∉ host := slash_notMem_of_unescape (.inl rfl)
  unfold parseHost at h
  split at h
  · split at h
    · cases h
    · next i _ =>
        dsimp only at h
        split at h
        · cases h
        · split at h
          · exact whole h
          · next zone _ =>
              obtain ⟨host1, first, h⟩ := ok_of_bind h
              obtain ⟨host2, second, h⟩ := ok_of_bind h
              obtain ⟨host3, third, h⟩ := ok_of_bind h
              cases h
              simp only [List.mem_append, not_or]
              exact ⟨⟨slash_notMem_of_unescape (.inl rfl) first,
                slash_notMem_of_unescape (.inr rfl) second⟩,
                slash_notMem_of_unescape (.inl rfl) third⟩
  · split at h
    · exact whole h
    · dsimp only at h
      split at h
      · cases h
      · exact whole h

theorem slash_notMem_of_parseAuthority {s host : GoString} (h : parseAuthority s = .ok host) :
    '/' ∉ host := by
  unfold parseAuthority at h
  split at h
  · exact slash_notMem_of_parseHost h
  · obtain ⟨host', read, h⟩ := ok_of_bind h
    dsimp only at h
    split at h
    · cases h
    · split at h
      · obtain ⟨-, -, h⟩ := ok_of_bind h
        cases h
        exact slash_notMem_of_parseHost read
      · obtain ⟨-, -, h⟩ := ok_of_bind h
        obtain ⟨-, -, h⟩ := ok_of_bind h
        cases h
        exact slash_notMem_of_parseHost read

theorem slash_notMem_of_parseHierarchy {scheme rest : GoString} {url : URL}
    (h : parseHierarchy scheme rest = .ok url) : '/' ∉ url.host := by
  unfold parseHierarchy at h
  split at h
  · obtain ⟨host, read, h⟩ := ok_of_bind h
    obtain ⟨-, -, h⟩ := ok_of_bind h
    cases h
    exact slash_notMem_of_parseAuthority read
  · obtain ⟨-, -, h⟩ := ok_of_bind h
    cases h
    exact List.not_mem_nil

theorem slash_notMem_of_parseNoFragment {rawURL : GoString} {url : URL}
    (h : parseNoFragment rawURL = .ok url) : '/' ∉ url.host := by
  unfold parseNoFragment at h
  split at h
  · cases h
  · split at h
    · cases h
      exact List.not_mem_nil
    · obtain ⟨⟨scheme, rest⟩, -, h⟩ := ok_of_bind h
      dsimp only at h
      split at h
      · split at h
        · cases h
          exact List.not_mem_nil
        · split at h
          · cases h
          · exact slash_notMem_of_parseHierarchy h
      · exact slash_notMem_of_parseHierarchy h

/-- **The host of a URL** has no slash, whatever the text it was read from. -/
theorem slash_notMem_of_parseText {T : PrintTable} {rawURL scheme host : GoString}
    (h : parseText T rawURL = .ok (scheme, host)) : '/' ∉ host := by
  unfold parseText parse at h
  dsimp only at h
  cases read : parseNoFragment (Strings.cut rawURL '#').1 with
  | error err =>
      rw [read] at h
      cases h
  | ok url =>
      rw [read] at h
      dsimp only at h
      cases fragment : unescape .fragment (Strings.cut rawURL '#').2 with
      | error err =>
          rw [fragment] at h
          cases h
      | ok _ =>
          rw [fragment] at h
          cases h
          exact slash_notMem_of_parseNoFragment read

end Url

end PumaDev
