import PumaDev.Lib.Xml

/-!
# Property lists

A property list is written as an XML document.  `encode` is the one way to write it, up to
white space between the elements, comments and the ways to write a character: a text says a
property list if it is well formed and its significant events are those of the list
(`Says`).
-/

namespace PumaDev

open Xml

/-- What has a text. -/
inductive Plist.Kind where
  | string
  | integer
  | real
  | date
  | data
  deriving DecidableEq

/-- A property list. -/
inductive Plist where
  | leaf (kind : Plist.Kind) (text : List Char)
  | bool (value : Bool)
  | array (items : List Plist)
  | dict (entries : List (List Char × Plist))

namespace Plist

/-- The element of a leaf. -/
def Kind.name : Kind → Name
  | string => "string".toList
  | integer => "integer".toList
  | real => "real".toList
  | date => "date".toList
  | data => "data".toList

theorem Kind.name_string : Kind.string.name = "string".toList := rfl

/-- A string. -/
abbrev string (text : List Char) : Plist := .leaf .string text

/-- An element with its content. -/
def element (name : Name) (content : List Event) : List Event :=
  .start name :: content ++ [.stop name]

/-- A key, or the text of a leaf. -/
def textElement (name : Name) (text : List Char) : List Event := element name (text.map .char)

mutual

/-- The events of a property list. -/
def encode : Plist → List Event
  | .leaf kind text => textElement kind.name text
  | .bool value => element (if value then "true".toList else "false".toList) []
  | .array items => element "array".toList (encodeItems items)
  | .dict entries => element "dict".toList (encodeEntries entries)

/-- The events of the items of an array. -/
def encodeItems : List Plist → List Event
  | [] => []
  | p :: ps => encode p ++ encodeItems ps

/-- The events of the entries of a dictionary. -/
def encodeEntries : List (List Char × Plist) → List Event
  | [] => []
  | (key, p) :: rest => textElement "key".toList key ++ (encode p ++ encodeEntries rest)

end

theorem encode_leaf (kind : Kind) (text : List Char) :
    encode (.leaf kind text) = textElement kind.name text := rfl

theorem encode_bool (value : Bool) :
    encode (.bool value) = element (if value then "true".toList else "false".toList) [] := rfl

theorem encode_array (items : List Plist) :
    encode (.array items) = element "array".toList (encodeItems items) := rfl

theorem encode_dict (entries : List (List Char × Plist)) :
    encode (.dict entries) = element "dict".toList (encodeEntries entries) := rfl

theorem encodeItems_nil : encodeItems [] = [] := rfl

theorem encodeItems_cons (p : Plist) (ps : List Plist) :
    encodeItems (p :: ps) = encode p ++ encodeItems ps := rfl

theorem encodeEntries_nil : encodeEntries [] = [] := rfl

theorem encodeEntries_cons (key : List Char) (p : Plist) (rest : List (List Char × Plist)) :
    encodeEntries ((key, p) :: rest) =
      textElement "key".toList key ++ (encode p ++ encodeEntries rest) := rfl

/-- The element has a text, in which white space counts. -/
def hasText (name : Name) : Bool :=
  name = "key".toList || name = Kind.string.name || name = Kind.integer.name ||
    name = Kind.real.name || name = Kind.date.name || name = Kind.data.name

/-- The events without the white space between elements, in a text or not. -/
def significant (text : Bool) : List Event → List Event
  | [] => []
  | .char c :: es =>
      if text || !isSpace c then .char c :: significant text es else significant text es
  | .start n :: es => .start n :: significant (hasText n) es
  | .stop n :: es => .stop n :: significant false es
  | .quoted :: es => significant text es
  | .doctype :: es => significant text es

/-- **The text says the property list**: it is well formed, and what it is made of is the
list. -/
def Says (t : List Char) (p : Plist) : Prop :=
  ∃ es, events t = some es ∧ Nested es ∧
    significant false es = element "plist".toList (encode p)

mutual

/-- The texts of the strings in a property list, in their order. -/
def strings : Plist → List (List Char)
  | .leaf kind text => if kind = .string then [text] else []
  | .bool _ => []
  | .array items => stringsItems items
  | .dict entries => stringsEntries entries

/-- The texts of the strings in an array. -/
def stringsItems : List Plist → List (List Char)
  | [] => []
  | p :: ps => strings p ++ stringsItems ps

/-- The texts of the strings in a dictionary, without its keys. -/
def stringsEntries : List (List Char × Plist) → List (List Char)
  | [] => []
  | (_, p) :: rest => strings p ++ stringsEntries rest

end

/-! ## The strings of a document -/

/-- What has been seen of the strings of a document. -/
structure Digest where
  /-- The texts of the strings that are complete. -/
  complete : List (List Char)
  /-- The text so far of the string that is open. -/
  current : Option (List Char)
  /-- The strings that were complete when the first array ended. -/
  inArray : Option ℕ
  deriving DecidableEq

namespace Digest

/-- One event. -/
def add (g : Digest) : Event → Digest
  | .start n => { g with current := if n = "string".toList then some [] else none }
  | .stop n =>
      { complete := if n = "string".toList then g.complete ++ g.current.toList else g.complete
        current := none
        inArray :=
          if n = "array".toList then g.inArray <|> some g.complete.length else g.inArray }
  | .char c => { g with current := g.current.map (· ++ [c]) }
  | .quoted => g
  | .doctype => g

/-- Nothing has been seen. -/
def empty : Digest := ⟨[], none, none⟩

/-- Some events. -/
def after (g : Digest) (es : List Event) : Digest := es.foldl add g

@[simp] theorem after_nil (g : Digest) : g.after [] = g := rfl

@[simp] theorem after_cons (g : Digest) (e : Event) (es : List Event) :
    g.after (e :: es) = (g.add e).after es := rfl

@[simp] theorem after_append (g : Digest) (es fs : List Event) :
    g.after (es ++ fs) = (g.after es).after fs := List.foldl_append

/-- The characters of a text. -/
theorem after_chars (g : Digest) (s : List Char) :
    g.after (s.map .char) = { g with current := g.current.map (· ++ s) } := by
  induction s generalizing g with
  | nil => cases g with | mk complete current inArray => cases current <;> simp
  | cons c s ih =>
      rw [List.map_cons, after_cons, ih]
      cases g with | mk complete current inArray => cases current <;> simp [add]

/-- **White space between the elements** belongs to no string. -/
theorem after_significant {g : Digest} {text : Bool} (es : List Event)
    (inText : g.current.isSome = true → text = true) :
    g.after (significant text es) = g.after es := by
  induction es generalizing g text with
  | nil => rfl
  | cons e es ih =>
      cases e with
      | start n =>
          refine ih fun opened => ?_
          by_cases isString : n = "string".toList
          · subst isString
            rfl
          · simp [add, isString, -String.reduceToList] at opened
      | stop n =>
          have closed : (g.add (.stop n)).current = none := rfl
          exact ih fun opened => by rw [closed] at opened; cases opened
      | char c =>
          unfold significant
          split_ifs with kept
          · exact ih fun opened => inText (by simpa [add] using opened)
          · have outside : g.current = none := by
              by_contra opened
              exact kept (by rw [inText (Option.isSome_iff_ne_none.mpr opened)]; rfl)
            have same : g.add (.char c) = g := by
              cases g with | mk complete current inArray => cases outside; rfl
            rw [after_cons, same]
            exact ih inText
      | quoted | doctype => exact ih inText

/-- What has been complete before plays no part. -/
theorem after_eq (g : Digest) (es : List Event) :
    (g.after es).complete = g.complete ++ (Digest.after ⟨[], g.current, none⟩ es).complete ∧
      (g.after es).current = (Digest.after ⟨[], g.current, none⟩ es).current := by
  suffices grows : ∀ (front back : List (List Char)) (current : Option (List Char))
      (k k' : Option ℕ),
      (Digest.after ⟨front ++ back, current, k⟩ es).complete =
          front ++ (Digest.after ⟨back, current, k'⟩ es).complete ∧
        (Digest.after ⟨front ++ back, current, k⟩ es).current =
          (Digest.after ⟨back, current, k'⟩ es).current by
    have here := grows g.complete [] g.current g.inArray none
    rw [List.append_nil] at here
    exact here
  induction es with
  | nil => exact fun front back current k k' => ⟨rfl, rfl⟩
  | cons e es ih =>
      intro front back current k k'
      cases e with
      | stop n =>
          simp only [after_cons, add]
          split_ifs
          all_goals first | exact ih .. | (rw [List.append_assoc]; exact ih ..)
      | _ => exact ih ..

/-- What is complete stays so. -/
theorem prefix_after (g : Digest) (es : List Event) :
    g.complete <+: (g.after es).complete := by
  induction es generalizing g with
  | nil => exact List.prefix_rfl
  | cons e es ih =>
      refine List.IsPrefix.trans ?_ (ih (g.add e))
      cases e with
      | stop n =>
          simp only [add]
          split_ifs
          · exact List.prefix_append _ _
          · exact List.prefix_rfl
      | _ => exact List.prefix_rfl

/-- The first array ends once. -/
theorem inArray_after {g : Digest} {n : ℕ} (ended : g.inArray = some n) (es : List Event) :
    (g.after es).inArray = some n := by
  induction es generalizing g with
  | nil => exact ended
  | cons e es ih =>
      refine ih ?_
      cases e with
      | stop m =>
          simp only [add, ended]
          exact ite_self _
      | _ => exact ended

/-- A string, wherever it stands. -/
theorem after_string (g : Digest) (s : List Char) :
    g.after (encode (.string s)) = ⟨g.complete ++ [s], none, g.inArray⟩ := by
  have shape : encode (.string s) =
      .start "string".toList :: (s.map .char ++ [.stop "string".toList]) := rfl
  have opened : g.add (.start "string".toList) = { g with current := some [] } := rfl
  rw [shape, after_cons, opened, after_append, after_chars]
  rfl

/-- Several strings. -/
theorem after_strings (g : Digest) (outside : g.current = none) (ss : List (List Char)) :
    g.after (encodeItems (ss.map .string)) = ⟨g.complete ++ ss, none, g.inArray⟩ := by
  induction ss generalizing g with
  | nil => cases g with | mk complete current inArray => cases outside; simp [encodeItems_nil]
  | cons s ss ih =>
      rw [List.map_cons, encodeItems_cons, after_append, after_string, ih _ rfl]
      simp

/-- An element that is no string, and whose content leaves no string open. -/
theorem complete_element {g : Digest} {name : Name} {content : List Event} {ss : List (List Char)}
    (other : name ≠ "string".toList)
    (inside : ∀ g : Digest, g.current = none → (g.after content).complete = g.complete ++ ss) :
    (g.after (element name content)).complete = g.complete ++ ss ∧
      (g.after (element name content)).current = none := by
  have outside : (g.add (.start name)).current = none := if_neg other
  rw [element, List.cons_append, after_cons, after_append]
  exact ⟨(if_neg other).trans (inside (g.add (.start name)) outside), rfl⟩

/-- The text of an element that is no string. -/
theorem complete_chars (s : List Char) (g : Digest) (_ : g.current = none) :
    (g.after (s.map .char)).complete = g.complete ++ [] := by
  rw [after_chars, List.append_nil]

mutual

/-- **The strings of a property list** are complete when it is. -/
theorem complete_encode (p : Plist) (g : Digest) :
    (g.after (encode p)).complete = g.complete ++ p.strings ∧
      (g.after (encode p)).current = none := by
  cases p with
  | leaf kind text =>
      cases kind with
      | string =>
          rw [after_string]
          exact ⟨rfl, rfl⟩
      | integer | real | date | data =>
          exact complete_element (by decide) (complete_chars text)
  | bool value =>
      refine complete_element ?_ (fun g _ => (List.append_nil g.complete).symm)
      cases value <;> decide
  | array items => exact complete_element (by decide) (complete_encodeItems items)
  | dict entries => exact complete_element (by decide) (complete_encodeEntries entries)

theorem complete_encodeItems (ps : List Plist) (g : Digest) (_ : g.current = none) :
    (g.after (encodeItems ps)).complete = g.complete ++ stringsItems ps := by
  cases ps with
  | nil => exact (List.append_nil g.complete).symm
  | cons p ps =>
      obtain ⟨here, closed⟩ := complete_encode p g
      rw [encodeItems_cons, after_append, complete_encodeItems ps _ closed, here, stringsItems,
        List.append_assoc]

theorem complete_encodeEntries (entries : List (List Char × Plist)) (g : Digest)
    (_ : g.current = none) :
    (g.after (encodeEntries entries)).complete = g.complete ++ stringsEntries entries := by
  cases entries with
  | nil => exact (List.append_nil g.complete).symm
  | cons entry rest =>
      obtain ⟨key, p⟩ := entry
      have atKey : (g.after (textElement "key".toList key)).complete = g.complete ++ [] :=
        (complete_element (by decide) (complete_chars key)).1
      obtain ⟨here, closed⟩ := complete_encode p (g.after (textElement "key".toList key))
      rw [encodeEntries_cons, after_append, after_append, complete_encodeEntries rest _ closed, here,
        atKey, stringsEntries, List.append_nil, List.append_assoc]

end

/-! ### How long a string can be -/

/-- The strings from the `i`-th on are shorter than `k` characters, with those that are read
and not yet emitted. -/
structure Short (i k pending : ℕ) (g : Digest) : Prop where
  complete : ∀ j w, i ≤ j → g.complete[j]? = some w → w.length < k
  current : i ≤ g.complete.length → ∀ w, g.current = some w → w.length + pending < k

/-- What is short is shorter still later on. -/
theorem Short.mono {i k k' pending pending' : ℕ} {g : Digest} (short : Short i k pending g)
    (less : k ≤ k') (fewer : pending' ≤ pending) : Short i k' pending' g where
  complete j w from_ here := Nat.lt_of_lt_of_le (short.complete j w from_ here) less
  current from_ w here := by
    have before := short.current from_ w here
    omega

/-- Tags and marks lengthen no string, and what they open is empty. -/
theorem Short.add {i k : ℕ} {g : Digest} {e : Event} (short : Short i k 0 g) (some_ : 0 < k)
    (silent : ∀ c, e ≠ .char c) : Short i k 0 (g.add e) := by
  cases e with
  | char c => exact absurd rfl (silent c)
  | quoted | doctype => exact short
  | start n =>
      refine ⟨short.complete, fun from_ w here => ?_⟩
      simp only [Digest.add] at here
      split_ifs at here
      cases here
      exact some_
  | stop n =>
      refine ⟨fun j w from_ here => ?_, fun _ w here => by cases here⟩
      simp only [Digest.add] at here
      split_ifs at here
      · rw [List.getElem?_append] at here
        split_ifs at here with inside
        · exact short.complete j w from_ here
        · have last : g.current = some w ∧ j = g.complete.length := by
            cases current : g.current with
            | none => simp [current] at here
            | some v =>
                rw [current] at here
                obtain ⟨first, value⟩ := List.getElem?_eq_some_iff.mp here
                simp only [Option.toList_some, List.length_singleton] at first
                refine ⟨?_, by omega⟩
                simpa using value
          exact short.current (last.2 ▸ from_) w last.1
      · exact short.complete j w from_ here

theorem Short.silent {i k : ℕ} {g : Digest} {es : List Event} (short : Short i k 0 g)
    (some_ : 0 < k) (silent : Silent es) : Short i k 0 (g.after es) := by
  induction es generalizing g with
  | nil => exact short
  | cons e es ih =>
      refine ih (short.add some_ fun c same => silent c ?_) fun c mem =>
        silent c (List.mem_cons_of_mem _ mem)
      exact same ▸ List.mem_cons_self

/-- **One character** lengthens a string by at most one. -/
theorem Short.step {i k : ℕ} {g : Digest} {m m' : Mode} {c : Char} {es : List Event}
    (short : Short i k m.pending g) (h : Xml.step m c = some (m', es)) :
    Short i (k + 1) m'.pending (g.after es) := by
  rcases step_cases h with ⟨cs, rfl, few⟩ | ⟨silent, none_⟩
  · rw [after_chars]
    refine ⟨fun j w from_ here => Nat.lt_succ_of_lt (short.complete j w from_ here),
      fun from_ w here => ?_⟩
    obtain ⟨v, current, rfl⟩ := Option.map_eq_some_iff.mp here
    have before := short.current from_ v current
    rw [List.length_append]
    omega
  · rw [none_]
    exact (short.mono (Nat.le_succ k) (Nat.zero_le _)).silent (Nat.succ_pos k) silent

/-- **A text** lengthens it by at most its length. -/
theorem Short.run {i k : ℕ} {g : Digest} {m m' : Mode} {t : List Char} {es : List Event}
    (short : Short i k m.pending g) (h : Xml.run m t = some (m', es)) :
    Short i (k + t.length) m'.pending (g.after es) := by
  induction t generalizing k g m es with
  | nil =>
      cases h
      exact short
  | cons c t ih =>
      obtain ⟨n, es₁, es₂, here, there, rfl⟩ := run_cons_eq_some.mp h
      rw [after_append, List.length_cons, Nat.add_comm t.length 1, ← Nat.add_assoc]
      exact ih (short.step here) there

/-- Strings that have not begun are short. -/
theorem short_of_lt {i : ℕ} {g : Digest} (before : g.complete.length < i) (pending : ℕ) :
    Short i 0 pending g where
  complete j w from_ here := by
    have inside := (List.getElem?_eq_some_iff.mp here).1
    omega
  current from_ := by omega

/-- A string that begins with a text in which there is markup is shorter than the text. -/
theorem short_of_markup {g : Digest} {m : Mode} {t : List Char} {es : List Event}
    (opened : g.current = some []) (markup : '<' ∈ t ∨ '&' ∈ t)
    (h : Xml.run (.text 0) t = some (m, es)) :
    Short g.complete.length t.length m.pending (g.after es) := by
  -- up to the first character that is markup
  obtain ⟨a, c, b, rfl, plain, first⟩ : ∃ a c b, t = a ++ c :: b ∧
      (∀ d ∈ a, d ≠ '<' ∧ d ≠ '&') ∧ (c = '<' ∨ c = '&') := by
    have some_ : (t.find? fun d => d = '<' ∨ d = '&').isSome = true := by
      rw [List.find?_isSome]
      rcases markup with mem | mem
      · exact ⟨_, mem, by simp⟩
      · exact ⟨_, mem, by simp⟩
    obtain ⟨c, found⟩ := Option.isSome_iff_exists.mp some_
    obtain ⟨which, a, b, rfl, before⟩ := List.find?_eq_some_iff_append.mp found
    exact ⟨a, c, b, rfl, fun d mem => by simpa using before d mem, by simpa using which⟩
  have lt : '<' ∉ a := fun mem => (plain _ mem).1 rfl
  have amp : '&' ∉ a := fun mem => (plain _ mem).2 rfl
  obtain ⟨m₁, es₁, es₂, front, back, rfl⟩ := run_append_eq_some.mp h
  rcases run_text lt amp (Nat.zero_le 2) with ⟨-, k, few, ran⟩ | ⟨-, failed⟩
  · rw [ran] at front
    cases front
    obtain ⟨m₂, es₃, es₄, here, there, rfl⟩ := run_cons_eq_some.mp back
    have silent : Silent es₃ ∧ m₂.pending = 0 := by
      rcases first with rfl | rfl <;> cases here <;> simp [Silent, Mode.pending]
    have start : Short g.complete.length (a.length + 1) 0 (g.after (a.map .char)) := by
      rw [after_chars, opened]
      refine ⟨fun j w from_ here => ?_, fun _ w here => ?_⟩
      · have inside := (List.getElem?_eq_some_iff.mp here).1
        simp only at inside
        omega
      · cases here
        simp
    have next := start.silent (Nat.succ_pos _) silent.1
    rw [← silent.2] at next
    rw [after_append, after_append, List.length_append, List.length_cons,
      show a.length + (b.length + 1) = a.length + 1 + b.length by omega]
    exact next.run there
  · rw [failed] at front
    cases front

/-- **A string that is too short** is not the one that is wanted: the strings that are complete,
and the one that is open if it is to be complete as it is, do not reach it. -/
theorem Short.length_le {i pending : ℕ} {g : Digest} {v : List Char} {wanted : List (List Char)}
    (short : Short i v.length pending g) (want : wanted[i]? = some v)
    (begins : g.complete ++ g.current.toList <+: wanted) :
    (g.complete ++ g.current.toList).length ≤ i := by
  by_contra longer
  rw [Nat.not_le] at longer
  have here : (g.complete ++ g.current.toList)[i]? = some v := by
    obtain ⟨rest, whole⟩ := begins
    rw [← whole, List.getElem?_append_left longer] at want
    exact want
  rw [List.getElem?_append] at here
  split_ifs at here with inside
  · exact Nat.lt_irrefl _ (short.complete i v (Nat.le_refl i) here)
  · have from_ : i ≤ g.complete.length := by
      cases current : g.current <;> simp [current] at longer <;> omega
    have current : g.current = some v := by
      cases current : g.current with
      | none => simp [current] at here
      | some w =>
          rw [current] at here
          obtain ⟨first, value⟩ := List.getElem?_eq_some_iff.mp here
          simpa using value
    have less := short.current from_ v current
    omega

/-- No more strings were complete when an array ended than are now. -/
theorem inArray_le {g : Digest} (le : ∀ n, g.inArray = some n → n ≤ g.complete.length)
    (es : List Event) :
    ∀ n, (g.after es).inArray = some n → n ≤ (g.after es).complete.length := by
  induction es generalizing g with
  | nil => exact le
  | cons e es ih =>
      refine ih fun n ended => ?_
      have more := (prefix_after g [e]).length_le
      refine Nat.le_trans ?_ more
      cases e with
      | stop m =>
          simp only [add] at ended
          split_ifs at ended with isArray
          · cases before : g.inArray with
            | none =>
                rw [before] at ended
                cases ended
                exact Nat.le_refl _
            | some k =>
                rw [before] at ended
                cases ended
                exact le _ before
          · exact le n ended
      | _ => exact le n ended

end Digest

/-! ## What a text says -/

/-- A text that says a property list has its strings. -/
theorem Says.strings {t : List Char} {p : Plist} (said : Says t p) {es : List Event}
    (h : events t = some es) : (Digest.empty.after es).complete = p.strings := by
  obtain ⟨es', reads, -, same⟩ := said
  rw [h] at reads
  cases reads
  have outside : Digest.empty.current.isSome = true → false = true := by simp [Digest.empty]
  rw [← Digest.after_significant es outside, same]
  have inside : ∀ g : Digest, g.current = none →
      (g.after (encode p)).complete = g.complete ++ p.strings :=
    fun g _ => (Digest.complete_encode p g).1
  rw [(Digest.complete_element (by decide) inside).1]
  exact List.nil_append _

/-- The text of a key or a leaf ends with its tag. -/
theorem chars_stop_inj {s s' : List Char} {n n' : Name} {es es' : List Event}
    (h : s.map .char ++ .stop n :: es = s'.map .char ++ .stop n' :: es') : s = s' ∧ es = es' := by
  induction s generalizing s' with
  | nil =>
      cases s' with
      | nil =>
          simp only [List.map_nil, List.nil_append, List.cons.injEq] at h
          exact ⟨rfl, h.2⟩
      | cons c s' => simp at h
  | cons c s ih =>
      cases s' with
      | nil => simp at h
      | cons c' s' =>
          simp only [List.map_cons, List.cons_append, List.cons.injEq, Event.char.injEq] at h
          obtain ⟨rfl, rfl⟩ := ih h.2
          rw [h.1]
          exact ⟨rfl, rfl⟩

/-- A key begins an entry of a dictionary, and only what is left of it follows. -/
theorem entries_of_key {entries : List (List Char × Plist)} {key : List Char} {n : Name}
    {es es' : List Event} (h : encodeEntries entries ++ .stop n :: es =
      textElement "key".toList key ++ es') :
    ∃ p rest, entries = (key, p) :: rest ∧
      encode p ++ (encodeEntries rest ++ .stop n :: es) = es' := by
  cases entries with
  | nil => cases h
  | cons entry rest =>
      obtain ⟨key', p⟩ := entry
      simp only [encodeEntries_cons, textElement, element, List.cons_append, List.append_assoc,
        List.cons.injEq, true_and, List.nil_append] at h
      obtain ⟨rfl, rest_⟩ := chars_stop_inj h
      exact ⟨p, rest, rfl, rest_⟩

/-- A leaf is written in one way only. -/
theorem eq_leaf_of_encode {p : Plist} {kind : Kind} {text : List Char} {es es' : List Event}
    (h : encode p ++ es = encode (.leaf kind text) ++ es') : p = .leaf kind text ∧ es = es' := by
  cases p with
  | leaf kind' text' =>
      simp only [encode_leaf, textElement, element, List.cons_append, List.append_assoc,
        List.cons.injEq, Event.start.injEq, List.nil_append] at h
      obtain ⟨rfl, rest⟩ := chars_stop_inj h.2
      have same : kind' = kind := by
        have names := h.1
        cases kind' <;> cases kind <;> first | rfl | (revert names; decide)
      exact ⟨by rw [same], rest⟩
  | bool value =>
      exfalso
      simp only [encode_bool, encode_leaf, textElement, element, List.cons_append, List.cons.injEq,
        Event.start.injEq] at h
      have names := h.1
      cases value <;> cases kind <;> revert names <;> decide
  | array items | dict entries =>
      exfalso
      simp only [encode_array, encode_dict, encode_leaf, textElement, element, List.cons_append,
        List.cons.injEq, Event.start.injEq] at h
      have names := h.1
      cases kind <;> revert names <;> decide

/-- A property list begins with a tag. -/
theorem encode_eq_start (p : Plist) : ∃ n es, encode p = .start n :: es := by
  cases p <;> exact ⟨_, _, rfl⟩

mutual

/-- **A property list is written in one way only**, whatever follows. -/
theorem eq_of_encode (p q : Plist) {es es' : List Event} (h : encode p ++ es = encode q ++ es') :
    p = q ∧ es = es' := by
  cases p with
  | leaf kind text =>
      obtain ⟨same, rest⟩ := eq_leaf_of_encode h.symm
      exact ⟨same.symm, rest.symm⟩
  | bool value =>
      cases q with
      | leaf kind text => exact eq_leaf_of_encode h
      | bool value' =>
          simp only [encode_bool, element, List.cons_append, List.cons.injEq, Event.start.injEq,
            List.nil_append] at h
          have same : value = value' := by
            have names := h.1
            cases value <;> cases value' <;> first | rfl | (revert names; decide)
          exact ⟨by rw [same], h.2.2⟩
      | array items | dict entries =>
          exfalso
          simp only [encode_bool, encode_array, encode_dict, element, List.cons_append,
            List.cons.injEq, Event.start.injEq] at h
          have names := h.1
          cases value <;> revert names <;> decide
  | array items =>
      cases q with
      | leaf kind text => exact eq_leaf_of_encode h
      | array items' =>
          simp only [encode_array, element, List.cons_append, List.append_assoc, List.cons.injEq,
            true_and, List.nil_append] at h
          obtain ⟨rfl, rest⟩ := eq_of_encodeItems items items' h
          exact ⟨rfl, rest⟩
      | bool value =>
          exfalso
          simp only [encode_bool, encode_array, element, List.cons_append, List.cons.injEq,
            Event.start.injEq] at h
          have names := h.1
          cases value <;> revert names <;> decide
      | dict entries =>
          exfalso
          simp only [encode_array, encode_dict, element, List.cons_append, List.cons.injEq,
            Event.start.injEq] at h
          exact absurd h.1 (by decide)
  | dict entries =>
      cases q with
      | leaf kind text => exact eq_leaf_of_encode h
      | dict entries' =>
          simp only [encode_dict, element, List.cons_append, List.append_assoc, List.cons.injEq,
            true_and, List.nil_append] at h
          obtain ⟨rfl, rest⟩ := eq_of_encodeEntries entries entries' h
          exact ⟨rfl, rest⟩
      | bool value =>
          exfalso
          simp only [encode_bool, encode_dict, element, List.cons_append, List.cons.injEq,
            Event.start.injEq] at h
          have names := h.1
          cases value <;> revert names <;> decide
      | array items =>
          exfalso
          simp only [encode_array, encode_dict, element, List.cons_append, List.cons.injEq,
            Event.start.injEq] at h
          exact absurd h.1 (by decide)

theorem eq_of_encodeItems (ps qs : List Plist) {n : Name} {es es' : List Event}
    (h : encodeItems ps ++ .stop n :: es = encodeItems qs ++ .stop n :: es') :
    ps = qs ∧ es = es' := by
  cases ps with
  | nil =>
      cases qs with
      | nil => exact ⟨rfl, (List.cons.inj h).2⟩
      | cons q qs =>
          obtain ⟨m, fs, begins⟩ := encode_eq_start q
          rw [encodeItems_cons, begins] at h
          cases h
  | cons p ps =>
      cases qs with
      | nil =>
          obtain ⟨m, fs, begins⟩ := encode_eq_start p
          rw [encodeItems_cons, begins] at h
          cases h
      | cons q qs =>
          rw [encodeItems_cons, encodeItems_cons, List.append_assoc, List.append_assoc] at h
          obtain ⟨rfl, items⟩ := eq_of_encode p q h
          obtain ⟨rfl, rest⟩ := eq_of_encodeItems ps qs items
          exact ⟨rfl, rest⟩

theorem eq_of_encodeEntries (ps qs : List (List Char × Plist)) {n : Name} {es es' : List Event}
    (h : encodeEntries ps ++ .stop n :: es = encodeEntries qs ++ .stop n :: es') :
    ps = qs ∧ es = es' := by
  cases ps with
  | nil =>
      cases qs with
      | nil => exact ⟨rfl, (List.cons.inj h).2⟩
      | cons q qs => cases h
  | cons entry ps =>
      obtain ⟨key, p⟩ := entry
      rw [encodeEntries_cons, List.append_assoc, List.append_assoc] at h
      obtain ⟨q, qs, rfl, value⟩ := entries_of_key h.symm
      obtain ⟨rfl, entries⟩ := eq_of_encode p q value.symm
      obtain ⟨rfl, rest⟩ := eq_of_encodeEntries ps qs entries
      exact ⟨rfl, rest⟩

end

/-- **A text says one property list** at most. -/
theorem Says.unique {t : List Char} {p q : Plist} (said : Says t p) (also : Says t q) :
    p = q := by
  obtain ⟨es, reads, -, same⟩ := said
  obtain ⟨es', reads', -, same'⟩ := also
  obtain rfl : es = es' := Option.some.inj (reads.symm.trans reads')
  have written := same.symm.trans same'
  simp only [element, List.cons_append, List.cons.injEq, true_and] at written
  exact (eq_of_encode p q written).1

/-- Two keys of a dictionary that have one string for their value have it twice. -/
theorem two_le_count_of_lookup {entries : List (List Char × Plist)} {k k' s : List Char}
    (apart : k ≠ k') (first : entries.lookup k = some (.string s))
    (second : entries.lookup k' = some (.string s)) :
    2 ≤ (stringsEntries entries).count s := by
  have one : ∀ {entries : List (List Char × Plist)} {k : List Char},
      entries.lookup k = some (.string s) → 1 ≤ (stringsEntries entries).count s := by
    intro entries k found
    induction entries with
    | nil => cases found
    | cons entry rest ih =>
        obtain ⟨key, p⟩ := entry
        rw [stringsEntries, List.count_append]
        rw [List.lookup_cons] at found
        split at found
        · cases found
          simp [Plist.strings]
        · exact Nat.le_add_left_of_le (ih found)
  induction entries with
  | nil => cases first
  | cons entry rest ih =>
      obtain ⟨key, p⟩ := entry
      rw [stringsEntries, List.count_append]
      rw [List.lookup_cons] at first second
      split at first
      · next here =>
          cases first
          split at second
          · next here' =>
              rw [beq_iff_eq] at here here'
              exact absurd (here.trans here'.symm) apart
          · have later := one second
            simp [Plist.strings]
            omega
      · split at second
        · cases second
          have later := one first
          simp [Plist.strings]
          omega
        · exact Nat.le_add_left_of_le (ih first second)

theorem stringsItems_map (ss : List (List Char)) : stringsItems (ss.map .string) = ss := by
  induction ss with
  | nil => rfl
  | cons s ss ih =>
      show [s] ++ stringsItems (ss.map .string) = s :: ss
      rw [ih]
      rfl

/-! ### White space between elements -/

/-- The events end in a text. -/
def inText (text : Bool) : List Event → Bool
  | [] => text
  | .start n :: es => inText (hasText n) es
  | .stop _ :: es => inText false es
  | .char _ :: es => inText text es
  | .quoted :: es => inText text es
  | .doctype :: es => inText text es

theorem significant_append (text : Bool) (es fs : List Event) :
    significant text (es ++ fs) = significant text es ++ significant (inText text es) fs := by
  induction es generalizing text with
  | nil => rfl
  | cons e es ih =>
      cases e with
      | char c =>
          simp only [List.cons_append, significant, ih]
          split_ifs <;> rfl
      | _ => simp [significant, inText, ih]

/-- A text is significant as a whole. -/
theorem significant_chars (s : List Char) (es : List Event) :
    significant true (s.map .char ++ es) = s.map .char ++ significant true es := by
  induction s with
  | nil => rfl
  | cons c s ih => simp [significant, ih]

/-! ## A value pasted into a text -/

/-- Where the `i`-th string is to be read: its text begins here, and nothing of it has been
read. -/
structure InSync (i : ℕ) (m : Mode) (g : Digest) : Prop where
  mode : m = .text 0
  current : g.current = some []
  complete : g.complete.length = i

/-- **A value** that is read where its string begins, or before: it is read as it is, or every
string from this one on is shorter than it. -/
theorem cases_of_value {i : ℕ} {m m' : Mode} {g : Digest} {u v : List Char} {es : List Event}
    (here : g.complete.length < i ∨ InSync i m g) (h : run m u = some (m', es))
    (fits : u.length ≤ v.length) :
    (InSync i m g ∧ '<' ∉ u ∧ '&' ∉ u ∧ ¬ sectionEnd <:+: u ∧ (∃ n, m' = .text n) ∧
      es = u.map .char) ∨ Digest.Short i v.length m'.pending (g.after es) := by
  rcases here with behind | sync
  · have short := (Digest.short_of_lt behind m.pending).run h
    rw [Nat.zero_add] at short
    exact Or.inr (short.mono fits (Nat.le_refl _))
  · by_cases markup : '<' ∈ u ∨ '&' ∈ u
    · have ran := h
      rw [sync.mode] at ran
      have short := Digest.short_of_markup sync.current markup ran
      rw [sync.complete] at short
      exact Or.inr (short.mono fits (Nat.le_refl _))
    · rw [not_or] at markup
      rw [sync.mode] at h
      rcases run_text markup.1 markup.2 (Nat.zero_le 2) with ⟨free, k, -, ran⟩ | ⟨-, failed⟩
      · rw [ran] at h
        cases h
        exact Or.inl ⟨sync, markup.1, markup.2, free, ⟨k, rfl⟩, rfl⟩
      · rw [failed] at h
        cases h

/-- What a joint completes: the string that is open, and these. -/
def Completes (es : List Event) (own : List (List Char)) : Prop :=
  ∀ g : Digest, (g.after es).complete = g.complete ++ g.current.toList ++ own

/-- What a joint leaves open. -/
def Leaves (es : List Event) (current : Option (List Char)) : Prop :=
  ∀ g : Digest, (g.after es).current = current

/-- What a joint completes and opens is seen from a run of it behind the end of a string. -/
theorem completes_of_after {rest : List Event} {own : List (List Char)}
    (h : (Digest.empty.after rest).complete = own) :
    Completes (.stop "string".toList :: rest) own := by
  intro g
  have first : g.add (.stop "string".toList) =
    ⟨g.complete ++ g.current.toList, none, g.inArray⟩ := rfl
  rw [Digest.after_cons, first, (Digest.after_eq _ rest).1]
  exact congrArg (g.complete ++ g.current.toList ++ ·) h

theorem leaves_of_after {rest : List Event} {current : Option (List Char)}
    (h : (Digest.empty.after rest).current = current) :
    Leaves (.stop "string".toList :: rest) current := by
  intro g
  rw [Digest.after_cons, (Digest.after_eq _ rest).2]
  exact h

/-- A number between two joints is a string of its own. -/
theorem Completes.append {es es' : List Event} {own own' : List (List Char)}
    (front : Completes es own) (opens : Leaves es (some [])) (back : Completes es' own')
    (s : List Char) :
    Completes (es ++ (s.map .char ++ es')) (own ++ s :: own') := by
  intro g
  rw [Digest.after_append, Digest.after_append, back, Digest.after_chars, opens, front]
  simp

theorem Leaves.append {es' : List Event} {current : Option (List Char)}
    (leaves : Leaves es' current) (es : List Event) : Leaves (es ++ es') current := by
  intro g
  rw [Digest.after_append]
  exact leaves _

/-- **Behind a value that is too short**, a joint is read in the text, and what it completes does
not reach the value; or it is covered, and completes nothing. -/
theorem cases_of_joint {i pending : ℕ} {m m' : Mode} {g : Digest} {v t : List Char}
    {es es' : List Event} {wanted own : List (List Char)}
    (short : Digest.Short i v.length pending g) (joint : Joint t es)
    (completes : Completes es own) (h : run m t = some (m', es')) (want : wanted[i]? = some v)
    (begins : (g.after es').complete <+: wanted) :
    (m' = .text 0 ∧ es' = es ∧ (g.complete ++ g.current.toList).length ≤ i) ∨
      (∃ c, Covered c m') ∧ (g.after es').complete = g.complete ∧ g.complete.length ≤ i := by
  rcases joint.run h with ⟨-, rfl, rfl⟩ | ⟨covered, cs, rfl⟩
  · rw [completes g] at begins
    exact Or.inl ⟨rfl, rfl, short.length_le want ((List.prefix_append _ own).trans begins)⟩
  · have same : (g.after (cs.map .char)).complete = g.complete := by rw [Digest.after_chars]
    have closed : Digest.Short i v.length pending ⟨g.complete, none, g.inArray⟩ :=
      ⟨short.complete, fun _ w here => by cases here⟩
    refine Or.inr ⟨covered, same, ?_⟩
    rw [same] at begins
    have fewer := closed.length_le want (by simpa using begins)
    simpa using fewer

/-- A value that is read as it is, up to the end of the joint behind it. -/
structure ReadAs (i : ℕ) (m m' : Mode) (g : Digest) (v : List Char) (es es' : List Event) :
    Prop where
  before : InSync i m g
  verbatim : Verbatim v
  mode : m' = .text 0
  events : es' = v.map .char ++ es

/-- The strings that are complete behind it. -/
theorem ReadAs.complete {i : ℕ} {m m' : Mode} {g : Digest} {v : List Char} {es es' : List Event}
    {own : List (List Char)} (read : ReadAs i m m' g v es es') (completes : Completes es own) :
    (g.after es').complete = g.complete ++ v :: own := by
  rw [read.events, Digest.after_append, completes, Digest.after_chars, read.before.current]
  simp

/-- Behind it the next value is to be read. -/
theorem ReadAs.next {i : ℕ} {m m' : Mode} {g : Digest} {v : List Char} {es es' : List Event}
    {own : List (List Char)} (read : ReadAs i m m' g v es es') (completes : Completes es own)
    (opens : Leaves es (some [])) : InSync (i + 1 + own.length) m' (g.after es') where
  mode := read.mode
  current := by
    rw [read.events, Digest.after_append]
    exact opens _
  complete := by
    rw [read.complete completes, List.length_append, read.before.complete, List.length_cons]
    omega

/-- **One value and the joint behind it.**  If the value is to be the `i`-th string, it is read
as it is, or is too short. -/
theorem readAs_or_short {i : ℕ} {m m' : Mode} {g : Digest} {v t : List Char}
    {es es' : List Event} {wanted own : List (List Char)}
    (here : g.complete.length < i ∨ InSync i m g) (joint : Joint t es)
    (completes : Completes es own) (h : run m (normalize v ++ t) = some (m', es'))
    (want : wanted[i]? = some v) (begins : (g.after es').complete <+: wanted) :
    ReadAs i m m' g v es es' ∨ ∃ m₁ es₁ es₂, es' = es₁ ++ es₂ ∧
      Digest.Short i v.length m₁.pending (g.after es₁) ∧ run m₁ t = some (m', es₂) := by
  obtain ⟨m₁, es₁, es₂, front, back, rfl⟩ := run_append_eq_some.mp h
  rcases cases_of_value here front (length_normalizeFrom_le false v) with
    ⟨sync, lt, amp, free, ⟨n, rfl⟩, rfl⟩ | short
  · left
    rw [joint.run_text n] at back
    cases back
    have read : (g.after ((normalize v).map .char)).complete = g.complete ∧
        (g.after ((normalize v).map .char)).current = some (normalize v) := by
      rw [Digest.after_chars, sync.current]
      exact ⟨rfl, rfl⟩
    rw [Digest.after_append, completes, read.1, read.2] at begins
    have same : normalize v = v := by
      obtain ⟨rest, whole⟩ := begins
      rw [← whole, ← sync.complete] at want
      simpa using want
    rw [same] at lt amp free
    exact ⟨sync, ⟨lt, amp, normalize_eq_self_iff.mp same, free⟩, rfl, by rw [same]⟩
  · exact Or.inr ⟨m₁, es₁, es₂, rfl, short, back⟩

/-- If it is too short, the next value is still to come after the joint. -/
theorem readAs_or_behind {i : ℕ} {m m' : Mode} {g : Digest} {v t : List Char}
    {es es' : List Event} {wanted own : List (List Char)}
    (here : g.complete.length < i ∨ InSync i m g) (joint : Joint t es)
    (completes : Completes es own) (h : run m (normalize v ++ t) = some (m', es'))
    (want : wanted[i]? = some v) (begins : (g.after es').complete <+: wanted) :
    ReadAs i m m' g v es es' ∨ (g.after es').complete.length < i + 1 + own.length := by
  rcases readAs_or_short here joint completes h want begins with
    read | ⟨m₁, es₁, es₂, rfl, short, back⟩
  · exact Or.inl read
  · right
    rw [Digest.after_append] at begins ⊢
    rcases cases_of_joint short joint completes back want begins with
      ⟨rfl, rfl, fewer⟩ | ⟨-, same, fewer⟩
    · rw [completes, List.length_append]
      omega
    · rw [same]
      omega

/-- A value without markup that is written twice is two strings. -/
theorem complete_of_twice {i : ℕ} {m m' : Mode} {g : Digest} {u t t' : List Char}
    {es es' e : List Event} (sync : InSync i m g) (lt : '<' ∉ u) (amp : '&' ∉ u)
    (joint : Joint t es) (joint' : Joint t' es') (completes : Completes es [])
    (completes' : Completes es' []) (leaves : Leaves es (some []))
    (h : run m (u ++ (t ++ (u ++ t'))) = some (m', e)) :
    (g.after e).complete = g.complete ++ [u, u] := by
  rcases run_text lt amp (Nat.zero_le 2) with ⟨-, k, -, ran⟩ | ⟨-, failed⟩
  · have whole : run m (u ++ (t ++ (u ++ t'))) =
        some (.text 0, u.map .char ++ (es ++ (u.map .char ++ es'))) := by
      rw [sync.mode, run_append_of_run ran, run_append_of_run (joint.run_text k),
        run_append_of_run ran, joint'.run_text k]
      rfl
    rw [whole] at h
    cases h
    rw [Digest.after_append, Digest.after_append, Digest.after_append, completes',
      Digest.after_chars, leaves, completes, Digest.after_chars, sync.current]
    simp
  · rw [sync.mode, run_append, failed] at h
    cases h

/-- What stands at one place at most is counted once at most. -/
theorem count_le_one {α : Type*} [BEq α] [LawfulBEq α] {l : List α} {x : α} {n : ℕ}
    (only : ∀ j, j ≠ n → l[j]? ≠ some x) : l.count x ≤ 1 := by
  induction l generalizing n with
  | nil => exact Nat.zero_le 1
  | cons y l ih =>
      rw [List.count_cons]
      cases n with
      | zero =>
          have absent : x ∉ l := by
            intro mem
            obtain ⟨j, here⟩ := List.mem_iff_getElem?.mp mem
            exact only (j + 1) (Nat.succ_ne_zero j) here
          rw [List.count_eq_zero_of_not_mem absent]
          split_ifs <;> omega
      | succ n =>
          have other : y ≠ x := by
            rintro rfl
            exact only 0 (Nat.succ_ne_zero n).symm rfl
          rw [if_neg (by simpa using other)]
          exact ih fun j apart => only (j + 1) fun same => apart (Nat.succ.inj same)

/-- The strings from the `b`-th on do not include this one. -/
def Lacks (b : ℕ) (v : List Char) (strings : List (List Char)) : Prop :=
  ∀ j, b ≤ j → strings[j]? ≠ some v

theorem Lacks.append {b : ℕ} {v : List Char} {strings : List (List Char)} {w : Option (List Char)}
    (lacks : Lacks b v strings) (other : b ≤ strings.length → w ≠ some v) :
    Lacks b v (strings ++ w.toList) := by
  intro j from_ here
  rw [List.getElem?_append] at here
  split_ifs at here with inside
  · exact lacks j from_ here
  · cases w with
    | none => simp at here
    | some w =>
        obtain ⟨first, value⟩ := List.getElem?_eq_some_iff.mp here
        simp only [Option.toList_some, List.length_singleton] at first
        refine other (by omega) ?_
        simpa using value

/-- **A value is read once at most**, where nothing but it is left to read: of the strings that
begin behind its first character, none is as long. -/
theorem count_le_one_of_value {b : ℕ} {m : Mode} {n : ℕ} {g : Digest} {v t t' : List Char}
    {es es' e : List Event} (joint : Joint t es) (joint' : Joint t' es')
    (completes : Completes es []) (completes' : Completes es' [])
    (lacks : Lacks b v g.complete) (current : b ≤ g.complete.length → g.current ≠ some v)
    (h : run m (t ++ (normalize v ++ t')) = some (.text n, e)) :
    ((g.after e).complete.drop b).count v ≤ 1 := by
  obtain ⟨m₁, e₁, e', front, rest, rfl⟩ := run_append_eq_some.mp h
  obtain ⟨m₂, e₂, e₃, middle, back, rfl⟩ := run_append_eq_some.mp rest
  rw [Digest.after_append, Digest.after_append]
  have before : Lacks b v (g.after e₁).complete := by
    rcases joint.run front with ⟨-, -, rfl⟩ | ⟨-, cs, rfl⟩
    · rw [completes g, List.append_nil]
      exact lacks.append current
    · rw [Digest.after_chars]
      exact lacks
  have short := (Digest.short_of_lt (g := g.after e₁) (Nat.lt_succ_self _) m₁.pending).run middle
  rw [Nat.zero_add] at short
  have fits : (normalize v).length ≤ v.length := length_normalizeFrom_le false v
  obtain ⟨more, grown⟩ := Digest.prefix_after (g.after e₁) e₂
  -- the string that was open before the value is the only one that may be as long
  have only : ∀ j, b ≤ j → j ≠ (g.after e₁).complete.length →
      ((g.after e₁).after e₂).complete[j]? ≠ some v := by
    intro j from_ apart here
    by_cases old : j < (g.after e₁).complete.length
    · rw [← grown, List.getElem?_append_left old] at here
      exact before j from_ here
    · have less := short.complete j v (by omega) here
      exact Nat.lt_irrefl _ (Nat.lt_of_lt_of_le less fits)
  rcases joint'.run back with ⟨-, -, rfl⟩ | ⟨⟨c, covered⟩, -⟩
  · rw [completes', List.append_nil]
    have one : ∀ j, j ≠ (g.after e₁).complete.length - b →
        ((((g.after e₁).after e₂).complete ++
          ((g.after e₁).after e₂).current.toList).drop b)[j]? ≠ some v := by
      intro j apart here
      rw [List.getElem?_drop, List.getElem?_append] at here
      split_ifs at here with inside
      · exact only (b + j) (Nat.le_add_right b j) (by omega) here
      · cases open_ : ((g.after e₁).after e₂).current with
        | none => simp [open_] at here
        | some w =>
            rw [open_] at here
            obtain ⟨first, value⟩ := List.getElem?_eq_some_iff.mp here
            simp only [Option.toList_some, List.length_singleton] at first
            have same : w = v := by simpa using value
            have grows := congrArg List.length grown
            rw [List.length_append] at grows
            have less := short.current (by omega) w open_
            rw [same] at less
            omega
    exact count_le_one one
  · cases covered

end Plist

end PumaDev
