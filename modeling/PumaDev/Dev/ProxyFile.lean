import PumaDev.Dev.App
import PumaDev.Go.Url

/-!
# Proxy files

A file in the pool directory names the server that an app stands for: a port, or a host
and a port, or a URL.  `readProxy` tries three readers in turn, `strconv.Atoi`,
`url.Parse` and `net.SplitHostPort`, and takes an error of the first and of the last for
a sign that the text is of another form.

Of the forms that are documented, `proxyFile_works_iff` says which work.  A host and a
port do not: for `url.Parse` the host is a scheme, or the colon is out of place.  And an
address of IPv6 loses its brackets, so that the address of the app cannot be taken apart
again.
-/

namespace PumaDev

/-- `readProxy` from `port, err := strconv.Atoi(string(data))` on. -/
def proxyOf (T : PrintTable) (urlParse : GoString → Except GoString (GoString × GoString))
    (name data : GoString) : Except GoError App :=
  let app : App :=
    { name := name, scheme := [], host := [], port := 0, command := none
      isPublic := false, dir := [] }
  match Strconv.atoi data with
  | .ok port => .ok (app.setAddress "http".toList "127.0.0.1".toList port)
  | .error _ =>
      match urlParse data with
      | .error err => .error (.other err)
      | .ok (scheme, urlHost) =>
          match Net.splitHostPort urlHost with
          | none => .ok (app.setAddress scheme urlHost 0)
          | some (host, sport) =>
              match Strconv.atoi sport with
              | .error err => .error (.other (err.text T sport))
              | .ok port => .ok (app.setAddress scheme host port)

theorem readProxy_eq_proxyOf {T : PrintTable} {os : Os} {path raw : GoString} (name : GoString)
    (content : os.readFile path = .ok raw) :
    readProxy T os name path = proxyOf T os.urlParse name (Strings.trimSpace raw) := by
  rw [readProxy, content]
  rfl

/-- `AppPool.readProxy` of a file with any bytes in it. -/
def readProxyFile (T : PrintTable) (name : GoString) (content : Bytes) : Except GoError App :=
  proxyOf T (Url.parseText T) name (Bytes.trimSpace content).chars

/-- A proxy, as `readProxy` sets it up. -/
def proxyApp (name scheme host : GoString) (port : ℤ) : App :=
  { name := name, scheme := scheme, host := host, port := port, command := none
    isPublic := false, dir := [] }

section Branches

variable {T : PrintTable} {urlParse : GoString → Except GoString (GoString × GoString)}
  {name data scheme urlHost host sport : GoString} {e e' : Strconv.NumError} {n : ℤ}

theorem proxyOf_of_number (number : Strconv.atoi data = .ok n) :
    proxyOf T urlParse name data =
      .ok (proxyApp name "http".toList "127.0.0.1".toList n) := by
  rw [proxyOf, number]
  rfl

theorem proxyOf_of_refused {err : GoString} (notNumber : Strconv.atoi data = .error e)
    (refused : urlParse data = .error err) :
    proxyOf T urlParse name data = .error (.other err) := by
  rw [proxyOf, notNumber, refused]

theorem proxyOf_of_host (notNumber : Strconv.atoi data = .error e)
    (parsed : urlParse data = .ok (scheme, urlHost)) (whole : Net.splitHostPort urlHost = none) :
    proxyOf T urlParse name data = .ok (proxyApp name scheme urlHost 0) := by
  rw [proxyOf, notNumber, parsed]
  dsimp only
  rw [whole]
  rfl

theorem proxyOf_of_badPort (notNumber : Strconv.atoi data = .error e)
    (parsed : urlParse data = .ok (scheme, urlHost))
    (split : Net.splitHostPort urlHost = some (host, sport))
    (refused : Strconv.atoi sport = .error e') :
    proxyOf T urlParse name data = .error (.other (e'.text T sport)) := by
  rw [proxyOf, notNumber, parsed]
  dsimp only
  rw [split]
  dsimp only
  rw [refused]

theorem proxyOf_of_split (notNumber : Strconv.atoi data = .error e)
    (parsed : urlParse data = .ok (scheme, urlHost))
    (split : Net.splitHostPort urlHost = some (host, sport))
    (number : Strconv.atoi sport = .ok n) :
    proxyOf T urlParse name data = .ok (proxyApp name scheme host n) := by
  rw [proxyOf, notNumber, parsed]
  dsimp only
  rw [split]
  dsimp only
  rw [number]
  rfl

end Branches

/-! ## Texts -/

/-- Characters of ASCII are their own bytes. -/
theorem chars_encode {s : GoString} (ascii : ∀ c ∈ s, c.toNat < 0x80) :
    (Utf8.encode s).chars = s := by
  induction s with
  | nil => rfl
  | cons c s ih =>
      obtain ⟨here, later⟩ := List.forall_mem_cons.mp ascii
      have single : String.utf8EncodeChar c = [UInt8.ofNat c.toNat] := by
        have small : ¬ 127 < c.toNat := by omega
        simp [String.utf8EncodeChar, small]
      have value : (UInt8.ofNat c.toNat).toNat = c.toNat := by
        rw [UInt8.toNat_ofNat']
        exact Nat.mod_eq_of_lt (by omega)
      rw [Utf8.encode_cons, single, Bytes.chars, List.map_append, List.map_singleton, value,
        Char.ofNat_toNat]
      exact congrArg (c :: ·) (ih later)

/-- White space around a text is taken off. -/
theorem trimSpace_of_surrounded {before after s : GoString}
    (spaces : ∀ c ∈ before ++ after, Strings.isSpace c = true)
    (text : ∀ c ∈ s, Strings.isSpace c = false) :
    Strings.trimSpace (before ++ s ++ after) = s := by
  obtain ⟨front, back⟩ := List.forall_mem_append.mp spaces
  have stays : ∀ {t : GoString}, (∀ c ∈ t, Strings.isSpace c = false) →
      t.dropWhile Strings.isSpace = t := by
    intro t text
    cases t with
    | nil => rfl
    | cons c t => simp [text c List.mem_cons_self]
  have trimmed : (before ++ s ++ after).dropWhile Strings.isSpace = s ++ after ∨
      (s = [] ∧ (before ++ s ++ after).dropWhile Strings.isSpace = []) := by
    rw [List.append_assoc, List.dropWhile_append_of_pos front]
    cases s with
    | nil => exact Or.inr ⟨rfl, List.dropWhile_eq_nil_iff.mpr back⟩
    | cons c s => exact Or.inl (by simp [text c List.mem_cons_self])
  rw [Strings.trimSpace]
  rcases trimmed with rest | ⟨rfl, rest⟩
  · have backwards : ∀ c ∈ after.reverse, Strings.isSpace c = true := fun c mem =>
      back c (List.mem_reverse.mp mem)
    have text' : ∀ c ∈ s.reverse, Strings.isSpace c = false := fun c mem =>
      text c (List.mem_reverse.mp mem)
    rw [rest, List.reverse_append, List.dropWhile_append_of_pos backwards, stays text',
      List.reverse_reverse]
  · rw [rest]
    rfl

/-! ## The documented forms -/

/-- A host of another server. -/
inductive ProxyHost where
  /-- A DNS name or an IPv4 address. -/
  | name (h : GoString)
  /-- An IPv6 address in brackets. -/
  | ipv6 (a : GoString)

namespace ProxyHost

/-- The host as it is written. -/
def text : ProxyHost → GoString
  | name h => h
  | ipv6 a => '[' :: a ++ [']']

/-- The host without brackets. -/
def bare : ProxyHost → GoString
  | name h => h
  | ipv6 a => a

/-- Letters, digits, hyphens, underscores and dots make up a name: all DNS names and all
IPv4 addresses are of this kind.  An IPv6 address has hexadecimal digits, at least two
colons, and dots if it ends like one of IPv4. -/
def Valid : ProxyHost → Prop
  | name h => h ≠ [] ∧ ∀ c ∈ h, Url.isLetter c = true ∨ Json.isDigit c = true ∨ c ∈ "-._".toList
  | ipv6 a => (∀ c ∈ a, (Json.hexValue c).isSome = true ∨ c ∈ ":.".toList) ∧ 2 ≤ a.count ':'

end ProxyHost

/-- The documented forms of a proxy file. -/
inductive ProxyForm where
  | port
  | hostPort (h : ProxyHost)
  | http (h : ProxyHost)
  | https (h : ProxyHost)

namespace ProxyForm

/-- What is in the file, for a port. -/
def text (p : ℕ) : ProxyForm → GoString
  | port => Strconv.itoa p
  | hostPort h => h.text ++ ':' :: Strconv.itoa p
  | http h => "http".toList ++ "://".toList ++ (h.text ++ ':' :: Strconv.itoa p)
  | https h => "https".toList ++ "://".toList ++ (h.text ++ ':' :: Strconv.itoa p)

/-- The scheme that is given, `http` when none is. -/
def scheme : ProxyForm → GoString
  | https _ => "https".toList
  | _ => "http".toList

/-- The host without brackets, `127.0.0.1` when none is given. -/
def host : ProxyForm → GoString
  | port => "127.0.0.1".toList
  | hostPort h | http h | https h => h.bare

def Valid : ProxyForm → Prop
  | port => True
  | hostPort h | http h | https h => h.Valid

/-- The app has the scheme, and its address is that of the host and the port. -/
def Works (T : PrintTable) (name : GoString) (content : Bytes) (form : ProxyForm) (p : ℕ) :
    Prop :=
  ∃ app, readProxyFile T name content = .ok app ∧ app.scheme = form.scheme ∧
    Net.splitHostPort app.address = some (form.host, Strconv.itoa p)

/-- A port alone, or a URL whose host is not in brackets. -/
def Usable : ProxyForm → Prop
  | port => True
  | hostPort _ => False
  | http (.name _) | https (.name _) => True
  | http (.ipv6 _) | https (.ipv6 _) => False

end ProxyForm

/-! ## What becomes of the forms -/

open Url

/-- A port is made up of digits. -/
theorem isDigit_of_mem_port {p : ℕ} : ∀ c ∈ Strconv.itoa p, Json.isDigit c = true := fun _ mem =>
  Strconv.isDigit_of_mem_itoa mem

namespace ProxyHost

theorem hostText_name {h : GoString} (valid : (name h).Valid) : HostText h := by
  intro c mem
  rcases valid.2 c mem with letter | digit | mark
  · simp [isHostByte, letter]
  · simp [isHostByte, digit]
  · have marks : ∀ c ∈ "-._".toList, isHostByte c = true := by decide
    exact marks c mark

theorem unported_name {h : GoString} (valid : (name h).Valid) : Unported h := by
  have other : ∀ c ∈ ":[]".toList, ¬ (isLetter c = true ∨ Json.isDigit c = true ∨
      c ∈ "-._".toList) := by decide
  have absent : ∀ c ∈ ":[]".toList, c ∉ h := fun c special mem => other c special (valid.2 c mem)
  exact ⟨absent ':' (by decide), absent '[' (by decide), absent ']' (by decide)⟩

theorem hostText_ipv6 {a : GoString} (valid : (ipv6 a).Valid) : HostText a := by
  intro c mem
  rcases valid.1 c mem with hex | mark
  · have letterOrDigit : isLetter c = true ∨ Json.isDigit c = true := by
      simp only [isLetter, Json.isDigit, Bool.or_eq_true, Bool.and_eq_true, decide_eq_true_eq]
      unfold Json.hexValue at hex
      split at hex
      · next digit => exact Or.inr digit
      · split at hex
        · next lower => exact Or.inl (Or.inl ⟨lower.1, Char.le_trans lower.2 (by decide)⟩)
        · split at hex
          · next upper => exact Or.inl (Or.inr ⟨upper.1, Char.le_trans upper.2 (by decide)⟩)
          · cases hex
    rcases letterOrDigit with letter | digit
    · simp [isHostByte, letter]
    · simp [isHostByte, digit]
  · have marks : ∀ c ∈ ":.".toList, isHostByte c = true := by decide
    exact marks c mark

theorem hostText {h : ProxyHost} (valid : h.Valid) : HostText h.text := by
  cases h with
  | name h => exact hostText_name valid
  | ipv6 a =>
      have closing : HostText [']'] := fun c mem => by rw [List.mem_singleton.mp mem]; decide
      exact ((hostText_ipv6 valid).cons (by decide)).append closing

end ProxyHost

/-- The characters of the forms are single bytes, and none of them is a space. -/
def Solid (s : GoString) : Prop := ∀ c ∈ s, Strings.isSpace c = false ∧ c.toNat < 0x80

instance (s : GoString) : Decidable (Solid s) := inferInstanceAs (Decidable (∀ c ∈ s, _))

theorem Solid.append {s t : GoString} (hs : Solid s) (ht : Solid t) : Solid (s ++ t) :=
  fun c mem => (List.mem_append.mp mem).elim (hs c) (ht c)

theorem solid_of_hostText {s : GoString} (host : HostText s) : Solid s := fun c mem =>
  have facts := notSpecial_of_isHostByte (host c mem)
  ⟨facts.2.2.2.1, facts.2.2.2.2⟩

theorem hostText_hostPort {h : ProxyHost} (valid : h.Valid) (p : ℕ) :
    HostText (h.text ++ ':' :: Strconv.itoa p) :=
  h.hostText valid |>.append ((HostText.of_digits isDigit_of_mem_port).cons (by decide))

theorem solid_text {form : ProxyForm} (valid : form.Valid) (p : ℕ) : Solid (form.text p) := by
  cases form with
  | port => exact solid_of_hostText (HostText.of_digits isDigit_of_mem_port)
  | hostPort h => exact solid_of_hostText (hostText_hostPort valid p)
  | http h =>
      have front : Solid ("http".toList ++ "://".toList) := by decide
      exact front.append (solid_of_hostText (hostText_hostPort valid p))
  | https h =>
      have front : Solid ("https".toList ++ "://".toList) := by decide
      exact front.append (solid_of_hostText (hostText_hostPort valid p))

/-- White space around the text does not matter. -/
theorem readProxyFile_surrounded (T : PrintTable) (name : GoString) {before after s : GoString}
    (spaces : ∀ c ∈ before ++ after, Strings.isSpace c = true) (solid : Solid s) :
    readProxyFile T name (Utf8.encode (before ++ s ++ after)) = proxyOf T (parseText T) name s := by
  rw [readProxyFile, Bytes.trimSpace_encode,
    trimSpace_of_surrounded spaces fun c mem => (solid c mem).1,
    chars_encode fun c mem => (solid c mem).2]

variable {T : PrintTable} {name : GoString} {p : ℕ}

/-- A text with a colon is no number. -/
theorem atoi_of_colon {s : GoString} (colon : ':' ∈ s) : ∃ e, Strconv.atoi s = .error e :=
  Strconv.atoi_of_mem colon (by decide)

/-- **A port** is one on this machine. -/
theorem proxyOf_port (small : p ≤ 65535) :
    proxyOf T (parseText T) name (Strconv.itoa p) =
      .ok (proxyApp name "http".toList "127.0.0.1".toList p) :=
  proxyOf_of_number (Strconv.atoi_itoa (by omega))

/-- **A host and a port** are refused, or give an app without a host. -/
theorem proxyOf_hostPort {s : GoString} (text : HostText s) (colon : ':' ∈ s) :
    (∃ scheme, proxyOf T (parseText T) name s = .ok (proxyApp name scheme [] 0)) ∨
      ∃ err, proxyOf T (parseText T) name s = .error err := by
  obtain ⟨e, notNumber⟩ := atoi_of_colon colon
  rcases parse_of_hostPort text colon with ⟨scheme, parsed⟩ | ⟨⟨u, err⟩, refused⟩
  · have read : parseText T s = .ok (scheme, []) := by rw [parseText, parsed]
    exact Or.inl ⟨scheme, proxyOf_of_host notNumber read rfl⟩
  · obtain ⟨message, noUrl⟩ : ∃ message, parseText T s = .error message := by
      rw [parseText, refused]
      exact ⟨_, rfl⟩
    exact Or.inr ⟨.other message, proxyOf_of_refused notNumber noUrl⟩

/-- **A URL**: the host and the port that `net.SplitHostPort` finds in it. -/
theorem proxyOf_web (T : PrintTable) (name : GoString) {scheme authority host : GoString}
    (web : scheme ∈ webSchemes) (text : HostText authority) (parses : parseHost authority = .ok authority)
    (split : Net.splitHostPort authority = some (host, Strconv.itoa p)) (small : p ≤ 65535) :
    proxyOf T (parseText T) name (scheme ++ "://".toList ++ authority) =
      .ok (proxyApp name scheme host p) := by
  obtain ⟨e, notNumber⟩ :=
    atoi_of_colon (s := scheme ++ "://".toList ++ authority) (by simp)
  have read : parseText T (scheme ++ "://".toList ++ authority) = .ok (scheme, authority) := by
    rw [parseText, parse_of_web web text parses]
  exact proxyOf_of_split notNumber read split (Strconv.atoi_itoa (by omega))

/-! ## What comes back from the address -/

/-- A host with colons needs its brackets. -/
theorem splitHostPort_of_colon {a p : GoString} (colon : ':' ∈ a)
    (digits : ∀ c ∈ p, Json.isDigit c = true) (noBracket : a.head? ≠ some '[') :
    Net.splitHostPort (a ++ ':' :: p) = none := by
  have colonFree : ':' ∉ p := fun mem => absurd (digits _ mem) (by decide)
  have last : Strings.lastIndexByte (a ++ ':' :: p) ':' = some a.length :=
    Strings.lastIndexByte_append a colonFree
  have head : (a ++ ':' :: p).head? ≠ some '[' := by
    rw [List.head?_append_of_ne_nil _ (List.ne_nil_of_mem colon)]
    exact noBracket
  rw [Net.splitHostPort, last]
  simp only [if_neg head, List.take_left, if_pos colon]

/-- A host in brackets is split off without them. -/
theorem splitHostPort_of_brackets {a p : GoString} (opening : '[' ∉ a) (closing : ']' ∉ a)
    (digits : ∀ c ∈ p, Json.isDigit c = true) :
    Net.splitHostPort ('[' :: a ++ ']' :: ':' :: p) = some (a, p) := by
  have other : ∀ c : Char, Json.isDigit c = false → c ∉ p := fun c plain mem =>
    absurd (digits c mem) (by simp [plain])
  have last : Strings.lastIndexByte ('[' :: a ++ ']' :: ':' :: p) ':' = some (a.length + 2) := by
    have split : '[' :: a ++ ']' :: ':' :: p = ('[' :: a ++ [']']) ++ ':' :: p := by simp
    rw [split, Strings.lastIndexByte_append _ (other ':' (by decide))]
    simp
  have first : Strings.indexByte ('[' :: a ++ ']' :: ':' :: p) ']' = some (a.length + 1) := by
    have absent : ']' ∉ '[' :: a := by simp [closing]
    exact Strings.indexByte_append (':' :: p) absent
  have front : ('[' :: a ++ ']' :: ':' :: p).take (a.length + 1) = '[' :: a := by simp
  have behind : ('[' :: a ++ ']' :: ':' :: p).drop (a.length + 1 + 1) = ':' :: p := by simp
  have port : ('[' :: a ++ ']' :: ':' :: p).drop (a.length + 2 + 1) = p := by simp
  have noOpening : '[' ∉ ('[' :: a ++ ']' :: ':' :: p).drop 1 := by
    simp [opening, other '[' (by decide)]
  have noClosing : ']' ∉ ':' :: p := by simp [other ']' (by decide)]
  rw [Net.splitHostPort, last]
  dsimp only
  rw [if_pos (by rfl), first]
  dsimp only
  rw [if_neg (by omega), if_neg noOpening, behind, if_neg noClosing, front, port]
  rfl

theorem address_proxyApp {name scheme host : GoString} (positive : 1 ≤ p) :
    (proxyApp name scheme host p).address = host ++ ':' :: Strconv.itoa p := by
  have some_ : p ≠ 0 := by omega
  simp [App.address, proxyApp, some_]

namespace ProxyForm

/-- An IPv6 address is none of the texts that can be split off behind a colon. -/
theorem splitHostPort_ipv6 {a : GoString} (valid : (ProxyHost.ipv6 a).Valid) :
    Net.splitHostPort (a ++ ':' :: Strconv.itoa p) = none := by
  have colon : ':' ∈ a := by
    have some_ : 0 < a.count ':' := lt_of_lt_of_le (by decide) valid.2
    exact List.count_pos_iff.mp some_
  refine splitHostPort_of_colon colon isDigit_of_mem_port fun head => ?_
  have mem : '[' ∈ a := List.mem_of_head? head
  exact absurd (valid.1 '[' mem) (by decide)

theorem bracket_notMem {a : GoString} (valid : (ProxyHost.ipv6 a).Valid) (c : Char)
    (bracket : c = '[' ∨ c = ']') : c ∉ a := fun mem => by
  rcases bracket with rfl | rfl <;> exact absurd (valid.1 _ mem) (by decide)

/-- A URL works exactly when its host is not in brackets. -/
theorem web_iff {scheme : GoString} (web : scheme ∈ webSchemes) {h : ProxyHost} (valid : h.Valid)
    (positive : 1 ≤ p) (small : p ≤ 65535) :
    (∃ app, proxyOf T (parseText T) name
          (scheme ++ "://".toList ++ (h.text ++ ':' :: Strconv.itoa p)) = .ok app ∧
        app.scheme = scheme ∧ Net.splitHostPort app.address = some (h.bare, Strconv.itoa p)) ↔
      ∃ n, h = .name n := by
  cases h with
  | name n =>
      have unported := ProxyHost.unported_name valid
      have digits := Unported.of_isDigit (isDigit_of_mem_port (p := p))
      have app := proxyOf_web T name web (hostText_hostPort valid p)
        (parseHost_of_unported (ProxyHost.hostText_name valid) unported isDigit_of_mem_port)
        (Net.splitHostPort_of_unported unported digits) small
      refine iff_of_true ⟨_, app, rfl, ?_⟩ ⟨n, rfl⟩
      rw [address_proxyApp positive]
      exact Net.splitHostPort_of_unported unported digits
  | ipv6 a =>
      have shape : (ProxyHost.ipv6 a).text ++ ':' :: Strconv.itoa p =
          '[' :: a ++ ']' :: ':' :: Strconv.itoa p := by simp [ProxyHost.text]
      have split : Net.splitHostPort ('[' :: a ++ ']' :: ':' :: Strconv.itoa p) =
          some (a, Strconv.itoa p) :=
        splitHostPort_of_brackets (bracket_notMem valid '[' (Or.inl rfl))
          (bracket_notMem valid ']' (Or.inr rfl)) isDigit_of_mem_port
      have app := proxyOf_web T name web (shape ▸ hostText_hostPort valid p)
        (parseHost_of_brackets (ProxyHost.hostText_ipv6 valid) isDigit_of_mem_port) split small
      refine iff_of_false ?_ (by rintro ⟨n, same⟩; cases same)
      rintro ⟨app', read, -, split'⟩
      rw [shape, app] at read
      cases read
      rw [address_proxyApp positive, splitHostPort_ipv6 valid] at split'
      cases split'

end ProxyForm

/-- **Which of the documented forms work.**  For every host and every port, with any
white space around: a port alone does, and so does a URL of a DNS name or an IPv4
address.  A host and a port without a scheme never do, and neither does a URL of an
address of IPv6. -/
theorem proxyForm_works_iff (T : PrintTable) (name : GoString) (form : ProxyForm) (p : ℕ)
    (before after : GoString) (valid : form.Valid) (positive : 1 ≤ p) (small : p ≤ 65535)
    (spaces : ∀ c ∈ before ++ after, Strings.isSpace c = true) :
    form.Works T name (Utf8.encode (before ++ form.text p ++ after)) p ↔ form.Usable := by
  rw [ProxyForm.Works, readProxyFile_surrounded T name spaces (solid_text valid p)]
  cases form with
  | port =>
      have digits := Unported.of_isDigit (isDigit_of_mem_port (p := p))
      have loopback : Unported "127.0.0.1".toList := by decide
      refine iff_of_true ⟨_, proxyOf_port small, rfl, ?_⟩ trivial
      rw [address_proxyApp positive]
      exact Net.splitHostPort_of_unported loopback digits
  | hostPort h =>
      refine iff_of_false ?_ not_false
      rintro ⟨app, read, -, split⟩
      have result : proxyOf T (parseText T) name (h.text ++ ':' :: Strconv.itoa p) = .ok app := read
      rcases proxyOf_hostPort (hostText_hostPort valid p) (by simp) with
        ⟨scheme, noHost⟩ | ⟨err, refused⟩
      · rw [noHost] at result
        cases result
        cases split
      · rw [refused] at result
        cases result
  | http h =>
      refine (ProxyForm.web_iff (by decide) valid positive small).trans ?_
      cases h <;> simp [ProxyForm.Usable]
  | https h =>
      refine (ProxyForm.web_iff (by decide) valid positive small).trans ?_
      cases h <;> simp [ProxyForm.Usable]

/-- The example of the documentation for another host, as `echo` writes it, is refused. -/
theorem not_works_hostPort :
    (ProxyHost.name "10.3.1.2".toList).Valid ∧
      Utf8.encode "10.3.1.2:9292\n".toList =
        Utf8.encode ([] ++ (ProxyForm.hostPort (.name "10.3.1.2".toList)).text 9292 ++ ['\n']) ∧
      readProxyFile .asciiOnly "awesome-elsewhere".toList (Utf8.encode "10.3.1.2:9292\n".toList) =
        .error (.other ("parse \"10.3.1.2:9292\": first path segment in URL cannot " ++
          "contain colon").toList) ∧
      ¬ (ProxyForm.hostPort (.name "10.3.1.2".toList)).Works .asciiOnly
        "awesome-elsewhere".toList (Utf8.encode "10.3.1.2:9292\n".toList) 9292 := by
  have valid : (ProxyHost.name "10.3.1.2".toList).Valid := ⟨by decide, by decide⟩
  have refused : readProxyFile .asciiOnly "awesome-elsewhere".toList
      (Utf8.encode "10.3.1.2:9292\n".toList) =
        .error (.other ("parse \"10.3.1.2:9292\": first path segment in URL cannot " ++
          "contain colon").toList) := by
    decide +kernel
  refine ⟨valid, rfl, refused, ?_⟩
  rintro ⟨app, read, -⟩
  rw [refused] at read
  cases read

/-- A URL with two spaces in front of it and a line end behind it works. -/
theorem proxyForm_works_https :
    "  ".toList ++ (ProxyForm.https (.name "api.example-1.com".toList)).text 8443 ++ "\n".toList =
        "  https://api.example-1.com:8443\n".toList ∧
      (ProxyForm.https (.name "api.example-1.com".toList)).Works .asciiOnly "api".toList
        (Utf8.encode ("  ".toList ++
          (ProxyForm.https (.name "api.example-1.com".toList)).text 8443 ++ "\n".toList)) 8443 :=
  ⟨by decide,
    (proxyForm_works_iff .asciiOnly "api".toList (.https (.name "api.example-1.com".toList)) 8443
      "  ".toList "\n".toList ⟨by decide, by decide⟩ (by decide) (by decide) (by decide)).mpr
      trivial⟩

end PumaDev
