import Mathlib.Data.List.Basic
import Mathlib.Data.List.Infix
import Mathlib.Tactic.Common

/-!
# Reading XML

An XML 1.0 processor as a machine that takes one character at a time and emits events: tags,
and the characters of the text between them.  References and CDATA sections are resolved,
comments and processing instructions are passed over.  Line ends are normalized before
anything is read.  `Nested` is what is asked of the events as a whole: one element, with
balanced tags.

Documents with an internal DTD subset are not read; so the only entities are the predefined
ones.

The machine never emits more characters than it has read (`step_cases`), and a text that
follows `<` or `&` comes out shorter than it is.  `run_text` is about the texts that come out
as they are.
-/

namespace PumaDev

namespace Xml

/-! ## Characters -/

/-- The code point lies in one of the ranges. -/
def within (ranges : List (ℕ × ℕ)) (c : Char) : Bool :=
  ranges.any fun r => r.1 ≤ c.toNat && c.toNat ≤ r.2

/-- `Char`: what may stand in a document. -/
def isChar (c : Char) : Bool :=
  within [(0x9, 0xA), (0xD, 0xD), (0x20, 0xD7FF), (0xE000, 0xFFFD), (0x10000, 0x10FFFF)] c

/-- `S`. -/
def isSpace (c : Char) : Bool := c = ' ' || c = '\t' || c = '\n' || c = '\r'

/-- `NameStartChar`. -/
def isNameStart (c : Char) : Bool :=
  within [(0x3A, 0x3A), (0x41, 0x5A), (0x5F, 0x5F), (0x61, 0x7A), (0xC0, 0xD6), (0xD8, 0xF6),
    (0xF8, 0x2FF), (0x370, 0x37D), (0x37F, 0x1FFF), (0x200C, 0x200D), (0x2070, 0x218F),
    (0x2C00, 0x2FEF), (0x3001, 0xD7FF), (0xF900, 0xFDCF), (0xFDF0, 0xFFFD),
    (0x10000, 0xEFFFF)] c

/-- `NameChar`. -/
def isNameChar (c : Char) : Bool :=
  isNameStart c || within [(0x2D, 0x2E), (0x30, 0x39), (0xB7, 0xB7), (0x300, 0x36F),
    (0x203F, 0x2040)] c

/-- A name of an element, an attribute or a target. -/
abbrev Name := List Char

/-- The value of a digit. -/
def digit (base : ℕ) (c : Char) : Option ℕ :=
  if '0' ≤ c ∧ c ≤ '9' then some (c.toNat - 0x30)
  else if base = 16 ∧ 'a' ≤ c ∧ c ≤ 'f' then some (c.toNat - 0x57)
  else if base = 16 ∧ 'A' ≤ c ∧ c ≤ 'F' then some (c.toNat - 0x37)
  else none

/-- `CharRef`, from its digits. -/
def charRef (base : ℕ) (digits : List Char) : Option Char :=
  if digits = [] then none
  else (digits.foldlM (fun n d => (digit base d).map (n * base + ·)) 0).bind fun n =>
    if n.isValidChar ∧ isChar (Char.ofNat n) then some (Char.ofNat n) else none

/-- What a reference stands for. -/
def resolve (name : List Char) : Option Char :=
  if name = "lt".toList then some '<'
  else if name = "gt".toList then some '>'
  else if name = "amp".toList then some '&'
  else if name = "apos".toList then some '\''
  else if name = "quot".toList then some '"'
  else match name with
    | '#' :: 'x' :: digits => charRef 16 digits
    | '#' :: digits => charRef 10 digits
    | _ => none

/-! ## The machine -/

/-- What a document is made of. -/
inductive Event where
  | start (name : Name)
  | stop (name : Name)
  /-- A character of the text. -/
  | char (c : Char)
  /-- What follows is written as a reference or in a CDATA section. -/
  | quoted
  | doctype
  deriving DecidableEq

/-- The two kinds of quotes. -/
inductive Quote where
  | double
  | single
  deriving DecidableEq

/-- The quote a character is. -/
def quoteOf (c : Char) : Option Quote :=
  if c = '"' then some .double else if c = '\'' then some .single else none

/-- Where in a start tag. -/
inductive TagPos where
  | name
  | space
  | attr (name : Name)
  | equals
  | quote
  | value (quote : Quote)
  | reference (quote : Quote) (name : List Char)
  | ended
  deriving DecidableEq

/-- Where in a document. -/
inductive Mode where
  /-- In the text between tags, behind this many closing brackets, of which two are told
  from one. -/
  | text (brackets : ℕ)
  | reference (name : List Char)
  /-- Behind `<`. -/
  | markup
  /-- Behind `<!` and this word. -/
  | bang (word : List Char)
  | startTag (name : Name) (seen : List Name) (pos : TagPos)
  | stopTag (name : Name) (spaced : Bool)
  /-- Only `>` may follow: the end of an empty element, or of an instruction. -/
  | last (element : Option Name)
  | comment (dashes : ℕ)
  /-- In a CDATA section, behind this many closing brackets that may end it. -/
  | cdata (brackets : ℕ)
  /-- Behind `<?`, in the target. -/
  | target (name : Name)
  | instruction (question : Bool)
  | doctype (quote : Option Quote)
  deriving DecidableEq

/-- The end of a start tag, or of an empty element. -/
def closeTag (name : Name) (c : Char) : Option (Mode × List Event) :=
  if c = '>' then some (.text 0, [.start name])
  else if c = '/' then some (.last (some name), [])
  else none

/-- One character inside a start tag. -/
def stepTag (name : Name) (seen : List Name) (pos : TagPos) (c : Char) :
    Option (Mode × List Event) :=
  match pos with
  | .name =>
      if isNameChar c then some (.startTag (name ++ [c]) seen .name, [])
      else if isSpace c then some (.startTag name seen .space, [])
      else closeTag name c
  | .space =>
      if isSpace c then some (.startTag name seen .space, [])
      else if isNameStart c then some (.startTag name seen (.attr [c]), [])
      else closeTag name c
  | .attr a =>
      if isNameChar c then some (.startTag name seen (.attr (a ++ [c])), [])
      else if seen.any fun b => b = a then none
      else if isSpace c then some (.startTag name (a :: seen) .equals, [])
      else if c = '=' then some (.startTag name (a :: seen) .quote, [])
      else none
  | .equals =>
      if isSpace c then some (.startTag name seen .equals, [])
      else if c = '=' then some (.startTag name seen .quote, [])
      else none
  | .quote =>
      if isSpace c then some (.startTag name seen .quote, [])
      else (quoteOf c).map fun q => (.startTag name seen (.value q), [])
  | .value q =>
      if c = '<' then none
      else if quoteOf c = some q then some (.startTag name seen .ended, [])
      else if c = '&' then some (.startTag name seen (.reference q []), [])
      else some (.startTag name seen (.value q), [])
  | .reference q r =>
      if c = ';' then
        if (resolve r).isSome then some (.startTag name seen (.value q), []) else none
      else if isNameChar c || c = '#' then
        some (.startTag name seen (.reference q (r ++ [c])), [])
      else none
  | .ended =>
      if isSpace c then some (.startTag name seen .space, [])
      else closeTag name c

/-- One character behind `<!`. -/
def stepBang (word : List Char) : Option (Mode × List Event) :=
  if word = "--".toList then some (.comment 0, [])
  else if word = "[CDATA[".toList then some (.cdata 0, [.quoted])
  else if word = "DOCTYPE".toList then some (.doctype none, [.doctype])
  else if word.isPrefixOf "--".toList || word.isPrefixOf "[CDATA[".toList ||
      word.isPrefixOf "DOCTYPE".toList then
    some (.bang word, [])
  else none

/-- The target of a processing instruction may not be the name of the declaration. -/
def isTarget (name : Name) : Bool := name ≠ [] && name.map Char.toLower ≠ "xml".toList

/-- One character. -/
def step (m : Mode) (c : Char) : Option (Mode × List Event) :=
  match m with
  | .text n =>
      if c = '<' then some (.markup, [])
      else if c = '&' then some (.reference [], [.quoted])
      else if c = '>' ∧ n = 2 then none
      else some (.text (if c = ']' then min (n + 1) 2 else 0), [.char c])
  | .reference name =>
      if c = ';' then (resolve name).map fun d => (.text 0, [.char d])
      else if isNameChar c || c = '#' then some (.reference (name ++ [c]), [])
      else none
  | .markup =>
      if c = '/' then some (.stopTag [] false, [])
      else if c = '!' then some (.bang [], [])
      else if c = '?' then some (.target [], [])
      else if isNameStart c then some (.startTag [c] [] .name, [])
      else none
  | .bang word => stepBang (word ++ [c])
  | .startTag name seen pos => stepTag name seen pos c
  | .stopTag name spaced =>
      if c = '>' ∧ name ≠ [] then some (.text 0, [.stop name])
      else if isSpace c ∧ name ≠ [] then some (.stopTag name true, [])
      else if !spaced && (isNameStart c || (isNameChar c && name ≠ [])) then
        some (.stopTag (name ++ [c]) false, [])
      else none
  | .last element =>
      if c = '>' then
        some (.text 0, element.elim [] fun name => [.start name, .stop name])
      else none
  | .comment n =>
      if c = '-' then if n < 2 then some (.comment (n + 1), []) else none
      else if n < 2 then some (.comment 0, [])
      else if c = '>' then some (.text 0, [])
      else none
  | .cdata n =>
      if c = ']' then
        if n < 2 then some (.cdata (n + 1), []) else some (.cdata 2, [.char ']'])
      else if c = '>' ∧ n = 2 then some (.text 0, [])
      else some (.cdata 0, (List.replicate n ']' ++ [c]).map .char)
  | .target name =>
      if isNameStart c || (isNameChar c && name ≠ []) then some (.target (name ++ [c]), [])
      else if !isTarget name then none
      else if c = '?' then some (.last none, [])
      else if isSpace c then some (.instruction false, [])
      else none
  | .instruction question =>
      if c = '>' ∧ question then some (.text 0, [])
      else some (.instruction (c = '?'), [])
  | .doctype none =>
      if c = '>' then some (.text 0, [])
      else if c = '<' ∨ c = '[' then none
      else some (.doctype (quoteOf c), [])
  | .doctype (some q) => some (.doctype (if quoteOf c = some q then none else some q), [])

/-- A text. -/
def run (m : Mode) : List Char → Option (Mode × List Event)
  | [] => some (m, [])
  | c :: t => (step m c).bind fun here => (run here.1 t).map fun there =>
      (there.1, here.2 ++ there.2)

/-- Line ends, behind a carriage return or not. -/
def normalizeFrom (cr : Bool) : List Char → List Char
  | [] => []
  | c :: t =>
      if c = '\r' then '\n' :: normalizeFrom true t
      else if cr && c = '\n' then normalizeFrom false t
      else c :: normalizeFrom false t

/-- Every line end is a line feed. -/
def normalize (t : List Char) : List Char := normalizeFrom false t

/-- A document, past the `<?xml` of its declaration. -/
def runDocument (t : List Char) : Option (Mode × List Event) :=
  match t with
  | '<' :: '?' :: 'x' :: 'm' :: 'l' :: c :: rest =>
      if isSpace c then run (.instruction false) rest else run (.text 0) t
  | _ => run (.text 0) t

/-- The events of a document. -/
def events (t : List Char) : Option (List Event) :=
  if t.all isChar then
    match runDocument (normalize t) with
    | some (.text _, es) => some es
    | _ => none
  else none

theorem events_eq_some {t : List Char} {es : List Event} :
    events t = some es ↔
      t.all isChar = true ∧ ∃ n, runDocument (normalize t) = some (.text n, es) := by
  unfold events
  constructor
  · intro h
    split_ifs at h with chars
    split at h
    · next n es' ran =>
        cases h
        exact ⟨chars, n, ran⟩
    · cases h
  · rintro ⟨chars, n, ran⟩
    rw [if_pos chars, ran]

/-! ## The nesting -/

/-- How far a document is. -/
inductive Place where
  | prolog
  /-- Behind the document type. -/
  | declared
  | body
  deriving DecidableEq

/-- One event, with these elements open. -/
def nest (here : Place × List Name) : Event → Option (Place × List Name)
  | .start n =>
      if here.1 = .body ∧ here.2 = [] then none else some (.body, n :: here.2)
  | .stop n =>
      match here.2 with
      | [] => none
      | name :: stack => if name = n then some (here.1, stack) else none
  | .char c => if here.2 = [] ∧ !isSpace c then none else some here
  | .quoted => if here.2 = [] then none else some here
  | .doctype => if here.1 = .prolog then some (.declared, here.2) else none

/-- Some events. -/
def nests (here : Place × List Name) (es : List Event) : Option (Place × List Name) :=
  es.foldlM nest here

/-- The events are those of one element, with balanced tags. -/
def Nested (es : List Event) : Prop := nests (.prolog, []) es = some (.body, [])

/-- The text is a well-formed document. -/
def WellFormed (t : List Char) : Prop := ∃ es, events t = some es ∧ Nested es

/-- Some events after others. -/
theorem nests_append (here : Place × List Name) (es fs : List Event) :
    nests here (es ++ fs) = (nests here es).bind fun there => nests there fs := by
  simp only [nests, List.foldlM_append, Option.bind_eq_bind]

/-- The text of an element. -/
theorem nests_chars {here : Place × List Name} (inside : here.2 ≠ []) (s : List Char) :
    nests here (s.map .char) = some here := by
  induction s with
  | nil => rfl
  | cons c s ih =>
      have same : nest here (.char c) = some here := if_neg fun h => inside h.1
      show (nest here (.char c)).bind (fun there => nests there (s.map .char)) = some here
      rw [same]
      exact ih

/-! ## What a character does -/

/-- The characters that are read and not yet emitted. -/
def Mode.pending : Mode → ℕ
  | .cdata n => n
  | _ => 0

/-- None of the events is a character. -/
def Silent (es : List Event) : Prop := ∀ c, .char c ∉ es

@[simp] theorem silent_nil : Silent [] := fun _ => List.not_mem_nil

theorem closeTag_silent {name : Name} {c : Char} {m : Mode} {es : List Event}
    (h : closeTag name c = some (m, es)) : Silent es ∧ m.pending = 0 := by
  unfold closeTag at h
  split_ifs at h <;> cases h <;> simp [Silent, Mode.pending]

theorem stepTag_silent {name : Name} {seen : List Name} {pos : TagPos} {c : Char} {m : Mode}
    {es : List Event} (h : stepTag name seen pos c = some (m, es)) :
    Silent es ∧ m.pending = 0 := by
  cases pos <;> simp only [stepTag] at h <;> split_ifs at h <;>
    first
    | exact closeTag_silent h
    | (cases h; exact ⟨silent_nil, rfl⟩)
    | (obtain ⟨q, -, value⟩ := Option.map_eq_some_iff.mp h
       cases value
       exact ⟨silent_nil, rfl⟩)

theorem stepBang_silent {word : List Char} {m : Mode} {es : List Event}
    (h : stepBang word = some (m, es)) : Silent es ∧ m.pending = 0 := by
  unfold stepBang at h
  split_ifs at h <;> cases h <;> simp [Silent, Mode.pending]

/-- **One character.**  It brings forth no more characters than have been read; or something
else, and then none of them is left behind. -/
theorem step_cases {m m' : Mode} {c : Char} {es : List Event} (h : step m c = some (m', es)) :
    (∃ cs : List Char, es = cs.map .char ∧ cs.length + m'.pending ≤ m.pending + 1) ∨
      Silent es ∧ m'.pending = 0 := by
  cases m with
  | startTag => exact Or.inr (stepTag_silent h)
  | bang => exact Or.inr (stepBang_silent h)
  | text n =>
      simp only [step] at h
      split_ifs at h <;> cases h
      · exact Or.inr ⟨silent_nil, rfl⟩
      · exact Or.inr (by simp [Silent, Mode.pending])
      · exact Or.inl ⟨[c], rfl, by simp [Mode.pending]⟩
      · exact Or.inl ⟨[c], rfl, by simp [Mode.pending]⟩
  | reference name =>
      simp only [step] at h
      split_ifs at h
      · obtain ⟨d, -, value⟩ := Option.map_eq_some_iff.mp h
        cases value
        exact Or.inl ⟨[d], rfl, by simp [Mode.pending]⟩
      · cases h
        exact Or.inr ⟨silent_nil, rfl⟩
  | cdata n =>
      simp only [step] at h
      split_ifs at h <;> cases h
      · exact Or.inl ⟨[], rfl, by simp [Mode.pending]⟩
      · exact Or.inl ⟨[']'], rfl, by simp only [Mode.pending, List.length_singleton]; omega⟩
      · exact Or.inr ⟨silent_nil, rfl⟩
      · exact Or.inl ⟨List.replicate n ']' ++ [c], rfl, by simp [Mode.pending]⟩
  | last element =>
      simp only [step] at h
      split_ifs at h
      cases h
      refine Or.inr ⟨?_, rfl⟩
      cases element <;> simp [Silent]
  | doctype quote =>
      right
      cases quote <;> simp only [step] at h
      · split_ifs at h <;> cases h <;> exact ⟨silent_nil, rfl⟩
      · cases h
        exact ⟨silent_nil, rfl⟩
  | stopTag =>
      simp only [step] at h
      split_ifs at h <;> cases h <;> exact Or.inr (by simp [Silent, Mode.pending])
  | markup | comment | target | instruction =>
      simp only [step] at h
      split_ifs at h <;> cases h <;> exact Or.inr ⟨silent_nil, rfl⟩

/-! ## Texts -/

@[simp] theorem run_nil (m : Mode) : run m [] = some (m, []) := rfl

theorem run_cons_of_step {m m' : Mode} {c : Char} {es : List Event}
    (h : step m c = some (m', es)) (t : List Char) :
    run m (c :: t) = (run m' t).map fun there => (there.1, es ++ there.2) := by
  simp [run, h]

theorem run_cons_eq_some {m n : Mode} {c : Char} {t : List Char} {es : List Event} :
    run m (c :: t) = some (n, es) ↔ ∃ m' es₁ es₂, step m c = some (m', es₁) ∧
      run m' t = some (n, es₂) ∧ es = es₁ ++ es₂ := by
  simp only [run, Option.bind_eq_some_iff, Option.map_eq_some_iff, Prod.exists, Prod.mk.injEq]
  constructor
  · rintro ⟨m', es₁, here, n', es₂, there, rfl, rfl⟩
    exact ⟨m', es₁, es₂, here, there, rfl⟩
  · rintro ⟨m', es₁, es₂, here, there, rfl⟩
    exact ⟨m', es₁, here, n, es₂, there, rfl, rfl⟩

/-- **One text after another.** -/
theorem run_append (m : Mode) (s t : List Char) :
    run m (s ++ t) = (run m s).bind fun here => (run here.1 t).map fun there =>
      (there.1, here.2 ++ there.2) := by
  induction s generalizing m with
  | nil => simp
  | cons c s ih =>
      cases here : step m c with
      | none => simp [run, here]
      | some p =>
          simp only [List.cons_append, run_cons_of_step here, ih, Option.map_bind,
            Option.bind_map]
          congr 1
          funext q
          simp [Option.map_map, Function.comp_def, List.append_assoc]

theorem run_append_of_run {m n : Mode} {s : List Char} {es : List Event}
    (h : run m s = some (n, es)) (t : List Char) :
    run m (s ++ t) = (run n t).map fun there => (there.1, es ++ there.2) := by
  rw [run_append, h]
  rfl

theorem run_append_eq_some {m n : Mode} {s t : List Char} {es : List Event} :
    run m (s ++ t) = some (n, es) ↔ ∃ m' es₁ es₂, run m s = some (m', es₁) ∧
      run m' t = some (n, es₂) ∧ es = es₁ ++ es₂ := by
  rw [run_append]
  simp only [Option.bind_eq_some_iff, Option.map_eq_some_iff, Prod.exists, Prod.mk.injEq]
  constructor
  · rintro ⟨m', es₁, here, n', es₂, there, rfl, rfl⟩
    exact ⟨m', es₁, es₂, here, there, rfl⟩
  · rintro ⟨m', es₁, es₂, here, there, rfl⟩
    exact ⟨m', es₁, here, n, es₂, there, rfl, rfl⟩

/-! ### Without markup -/

/-- What may not stand in a text as it is. -/
def sectionEnd : List Char := [']', ']', '>']

/-- What is behind a bracket that belongs to no end of a section. -/
theorem sectionEnd_infix_cons {n : ℕ} {c : Char} {s : List Char} (few : n ≤ 2) (other : c ≠ ']')
    (open_ : ¬ (c = '>' ∧ n = 2)) :
    sectionEnd <:+: List.replicate n ']' ++ c :: s ↔ sectionEnd <:+: s := by
  obtain rfl | rfl | rfl : n = 0 ∨ n = 1 ∨ n = 2 := by omega
  all_goals
    simp only [sectionEnd, List.replicate, List.nil_append, List.cons_append, List.infix_cons_iff,
      List.cons_prefix_cons, Ne.symm other, false_and, and_false, false_or, true_and]
  simp only [and_true] at open_
  simp [Ne.symm open_]

/-- Three brackets are no better than two. -/
theorem sectionEnd_infix_bracket {n : ℕ} {s : List Char} (few : n ≤ 2) :
    sectionEnd <:+: List.replicate n ']' ++ ']' :: s ↔
      sectionEnd <:+: List.replicate (min (n + 1) 2) ']' ++ s := by
  obtain rfl | rfl | rfl : n = 0 ∨ n = 1 ∨ n = 2 := by omega
  · rfl
  · rfl
  · show sectionEnd <:+: ']' :: ']' :: ']' :: s ↔ sectionEnd <:+: ']' :: ']' :: s
    rw [List.infix_cons_iff]
    simp [sectionEnd]

/-- **A text without markup** is emitted as it is, unless the end of a CDATA section stands in
it. -/
theorem run_text {s : List Char} (lt : '<' ∉ s) (amp : '&' ∉ s) {n : ℕ} (few : n ≤ 2) :
    (¬ sectionEnd <:+: List.replicate n ']' ++ s ∧
      ∃ k ≤ 2, run (.text n) s = some (.text k, s.map .char)) ∨
    (sectionEnd <:+: List.replicate n ']' ++ s ∧ run (.text n) s = none) := by
  induction s generalizing n with
  | nil =>
      refine Or.inl ⟨fun long => ?_, n, few, rfl⟩
      have length := long.length_le
      simp [sectionEnd] at length
      omega
  | cons c s ih =>
      rw [List.mem_cons, not_or] at lt amp
      have notLt : c ≠ '<' := fun h => lt.1 h.symm
      have notAmp : c ≠ '&' := fun h => amp.1 h.symm
      by_cases closes : c = '>' ∧ n = 2
      · obtain ⟨rfl, rfl⟩ := closes
        exact Or.inr ⟨⟨[], s, rfl⟩, by simp [run, step]⟩
      · have here : step (.text n) c =
            some (.text (if c = ']' then min (n + 1) 2 else 0), [.char c]) := by
          simp only [step, notLt, notAmp, closes, if_false]
        have next : sectionEnd <:+: List.replicate n ']' ++ c :: s ↔ sectionEnd <:+:
            List.replicate (if c = ']' then min (n + 1) 2 else 0) ']' ++ s := by
          split_ifs with bracket
          · subst bracket
            exact sectionEnd_infix_bracket few
          · exact sectionEnd_infix_cons few bracket closes
        have fewer : (if c = ']' then min (n + 1) 2 else 0) ≤ 2 := by
          split_ifs
          · exact Nat.min_le_right _ _
          · exact Nat.zero_le 2
        rw [next, run_cons_of_step here]
        rcases ih lt.2 amp.2 fewer with ⟨free, k, small, ran⟩ | ⟨found, failed⟩
        · exact Or.inl ⟨free, k, small, by rw [ran]; rfl⟩
        · exact Or.inr ⟨found, by rw [failed]; rfl⟩

/-! ### Where nothing is markup -/

/-- In a comment, a CDATA section, a processing instruction or a literal, and about to leave
it only if the last character is the one before the end. -/
inductive Covered (last : Char) : Mode → Prop
  | comment {n : ℕ} (ending : 0 < n → last = '-') : Covered last (.comment n)
  | cdata {n : ℕ} (ending : 0 < n → last = ']') : Covered last (.cdata n)
  | instruction {q : Bool} (ending : q = true → last = '?') : Covered last (.instruction q)
  | literal {q : Quote} : Covered last (.doctype (some q))

/-- The character does not end what covers it. -/
def keeps (last c : Char) : Bool :=
  quoteOf c = none && (c ≠ '>' || (last ≠ '-' && last ≠ ']' && last ≠ '?'))

/-- No character of the text, behind the last one, ends what covers it. -/
def inert (last : Char) : List Char → Bool
  | [] => true
  | c :: t => keeps last c && inert c t

/-- A covered character is emitted or passed over. -/
theorem Covered.step {last c : Char} {m m' : Mode} {es : List Event} (covered : Covered last m)
    (kept : keeps last c = true) (h : step m c = some (m', es)) :
    Covered c m' ∧ ∃ cs : List Char, es = cs.map .char := by
  simp only [keeps, Bool.and_eq_true, Bool.or_eq_true, decide_eq_true_eq] at kept
  obtain ⟨noQuote, stays⟩ := kept
  cases covered with
  | comment ending =>
      simp only [Xml.step] at h
      split_ifs at h with dash few few close
      · cases h
        exact ⟨.comment fun _ => dash, [], rfl⟩
      · cases h
        exact ⟨.comment fun h => absurd h (Nat.lt_irrefl 0), [], rfl⟩
      · have dashed := ending (by omega)
        simp [close, dashed] at stays
  | cdata ending =>
      simp only [Xml.step] at h
      split_ifs at h with bracket few close
      · cases h
        exact ⟨.cdata fun _ => bracket, [], rfl⟩
      · cases h
        exact ⟨.cdata fun _ => bracket, [']'], rfl⟩
      · have closing := ending (by omega)
        simp [close.1, closing] at stays
      · cases h
        exact ⟨.cdata fun h => absurd h (Nat.lt_irrefl 0), _, rfl⟩
  | instruction ending =>
      simp only [Xml.step] at h
      split_ifs at h with close
      · have questioned := ending close.2
        simp [close.1, questioned] at stays
      · cases h
        exact ⟨.instruction fun h => by simpa using h, [], rfl⟩
  | literal =>
      simp only [Xml.step, noQuote] at h
      cases h
      exact ⟨.literal, [], rfl⟩

/-- So is a covered text. -/
theorem Covered.run {last : Char} {m m' : Mode} {t : List Char} {es : List Event}
    (covered : Covered last m) (stays : inert last t = true) (h : run m t = some (m', es)) :
    (∃ c, Covered c m') ∧ ∃ cs : List Char, es = cs.map .char := by
  induction t generalizing last m es with
  | nil =>
      cases h
      exact ⟨⟨last, covered⟩, [], rfl⟩
  | cons c t ih =>
      simp only [inert, Bool.and_eq_true] at stays
      obtain ⟨n, es₁, es₂, here, there, rfl⟩ := run_cons_eq_some.mp h
      obtain ⟨covered, cs₁, rfl⟩ := covered.step stays.1 here
      obtain ⟨still, cs₂, rfl⟩ := ih covered stays.2 there
      exact ⟨still, cs₁ ++ cs₂, by simp⟩

/-- **A tag**, wherever it stands: it begins in the text, or something covers it. -/
theorem step_lt {m m' : Mode} {es : List Event} (h : step m '<' = some (m', es)) :
    (∃ n, m = .text n ∧ m' = .markup ∧ es = []) ∨
      Covered '<' m' ∧ ∃ cs : List Char, es = cs.map .char := by
  cases m with
  | text n =>
      cases h
      exact Or.inl ⟨n, rfl, rfl, rfl⟩
  | comment n =>
      have step : step (.comment n) '<' = if n < 2 then some (.comment 0, []) else none := rfl
      rw [step] at h
      split_ifs at h
      cases h
      exact Or.inr ⟨.comment fun h => absurd h (Nat.lt_irrefl 0), [], rfl⟩
  | cdata n =>
      cases h
      exact Or.inr ⟨.cdata fun h => absurd h (Nat.lt_irrefl 0), _, rfl⟩
  | instruction q =>
      cases h
      exact Or.inr ⟨.instruction fun h => by simp at h, [], rfl⟩
  | doctype quote =>
      cases quote with
      | none => cases h
      | some q =>
          cases h
          exact Or.inr ⟨.literal, [], rfl⟩
  | reference name => cases h
  | markup => cases h
  | bang word =>
      have unknown : ∀ w : List Char, '<' ∉ w → (word ++ ['<']).isPrefixOf w = false := by
        intro w absent
        by_contra found
        rw [Bool.not_eq_false, List.isPrefixOf_iff_prefix] at found
        exact absent (found.subset (by simp))
      have differs : ∀ w : List Char, '<' ∉ w → word ++ ['<'] ≠ w := by
        rintro w absent rfl
        simp at absent
      simp only [step, stepBang, unknown _ (by decide : '<' ∉ "--".toList),
        unknown _ (by decide : '<' ∉ "[CDATA[".toList),
        unknown _ (by decide : '<' ∉ "DOCTYPE".toList),
        differs _ (by decide : '<' ∉ "--".toList), differs _ (by decide : '<' ∉ "[CDATA[".toList),
        differs _ (by decide : '<' ∉ "DOCTYPE".toList)] at h
      cases h
  | startTag name seen pos =>
      cases pos with
      | attr a =>
          have step : step (.startTag name seen (.attr a)) '<' =
            if seen.any fun b => b = a then none else none := rfl
          rw [step, ite_self] at h
          cases h
      | _ => cases h
  | stopTag name spaced =>
      cases spaced <;> simp [step, isSpace, isNameChar, isNameStart, within] at h
  | last element => cases h
  | target name => simp [step, isSpace, isNameChar, isNameStart, within] at h

/-- A text that begins with a tag is read as it is, or is covered as a whole. -/
theorem run_lt {m m' : Mode} {t : List Char} {es : List Event} (stays : inert '<' t = true)
    (h : run m ('<' :: t) = some (m', es)) :
    (∃ n, m = .text n ∧ run (.text 0) ('<' :: t) = some (m', es)) ∨
      (∃ c, Covered c m') ∧ ∃ cs : List Char, es = cs.map .char := by
  obtain ⟨k, es₁, es₂, here, there, rfl⟩ := run_cons_eq_some.mp h
  rcases step_lt here with ⟨n, rfl, rfl, rfl⟩ | ⟨covered, cs₁, rfl⟩
  · exact Or.inl ⟨n, rfl, run_cons_eq_some.mpr ⟨.markup, [], es₂, rfl, there, rfl⟩⟩
  · obtain ⟨still, cs₂, rfl⟩ := covered.run stays there
    exact Or.inr ⟨still, cs₁ ++ cs₂, by simp⟩

/-! ## Texts that come out as they are -/

/-- A text that a document can have as it is, and that is read as it is. -/
structure Verbatim (s : List Char) : Prop where
  lt : '<' ∉ s
  amp : '&' ∉ s
  cr : '\r' ∉ s
  free : ¬ sectionEnd <:+: s

instance (s : List Char) : Decidable (Verbatim s) :=
  decidable_of_iff ('<' ∉ s ∧ '&' ∉ s ∧ '\r' ∉ s ∧ ¬ sectionEnd <:+: s)
    ⟨fun h => ⟨h.1, h.2.1, h.2.2.1, h.2.2.2⟩, fun h => ⟨h.lt, h.amp, h.cr, h.free⟩⟩

/-- A text between tags is read as it is. -/
theorem Verbatim.run {s : List Char} (verbatim : Verbatim s) :
    ∃ k, run (.text 0) s = some (.text k, s.map .char) := by
  rcases run_text verbatim.lt verbatim.amp (Nat.zero_le 2) with ⟨-, k, -, ran⟩ | ⟨found, -⟩
  · exact ⟨k, ran⟩
  · exact absurd found verbatim.free

/-! ### Line ends -/

theorem cr_notMem_normalizeFrom (cr : Bool) (s : List Char) : '\r' ∉ normalizeFrom cr s := by
  induction s generalizing cr with
  | nil => exact List.not_mem_nil
  | cons c s ih =>
      unfold normalizeFrom
      split_ifs with isCr isLf
      · simp [ih]
      · exact ih false
      · simp [ih, Ne.symm isCr]

/-- A text without carriage returns is left alone, whatever follows. -/
theorem normalizeFrom_append_of_notMem {s : List Char} (absent : '\r' ∉ s) (t : List Char) :
    normalizeFrom false (s ++ t) = s ++ normalizeFrom false t := by
  induction s with
  | nil => rfl
  | cons c s ih =>
      rw [List.mem_cons, not_or] at absent
      simp [normalizeFrom, Ne.symm absent.1, ih absent.2]

theorem normalizeFrom_eq_self {s : List Char} (absent : '\r' ∉ s) :
    normalizeFrom false s = s := by
  have alone := normalizeFrom_append_of_notMem absent []
  rw [List.append_nil] at alone
  exact alone.trans (List.append_nil s)

/-- **What normalization leaves alone**: a text without carriage returns. -/
theorem normalize_eq_self_iff {s : List Char} : normalize s = s ↔ '\r' ∉ s := by
  constructor
  · intro same
    rw [← same]
    exact cr_notMem_normalizeFrom false s
  · exact normalizeFrom_eq_self

theorem length_normalizeFrom_le (cr : Bool) (s : List Char) :
    (normalizeFrom cr s).length ≤ s.length := by
  induction s generalizing cr with
  | nil => exact Nat.le_refl 0
  | cons c s ih =>
      unfold normalizeFrom
      split_ifs <;> simp only [List.length_cons]
      · exact Nat.succ_le_succ (ih true)
      · exact Nat.le_succ_of_le (ih false)
      · exact Nat.succ_le_succ (ih false)

/-- Lines that end before a character that is no line end are normalized by themselves. -/
theorem normalizeFrom_append {cr : Bool} {s t : List Char} {c : Char} (lf : c ≠ '\n')
    (notCr : c ≠ '\r') :
    normalizeFrom cr (s ++ c :: t) = normalizeFrom cr s ++ c :: normalizeFrom false t := by
  induction s generalizing cr with
  | nil => simp [normalizeFrom, lf, notCr]
  | cons d s ih =>
      simp only [List.cons_append, normalizeFrom, ih]
      split_ifs <;> rfl

/-! ## Between two values -/

/-- A text that begins with a tag and is read up to a place in the text, with these events, or
is covered as a whole. -/
structure Joint (t : List Char) (es : List Event) : Prop where
  tag : t.head? = some '<'
  stays : inert '<' t.tail = true
  cr : '\r' ∉ t
  reads : run (.text 0) t = some (.text 0, es)

/-- A tag ends nothing that covers it. -/
theorem inert_append_tag (last : Char) (s t : List Char) :
    inert last (s ++ '<' :: t) = (inert last s && inert '<' t) := by
  induction s generalizing last with
  | nil =>
      have kept : keeps last '<' = true := by simp [keeps, quoteOf]
      simp [inert, kept]
  | cons c s ih => simp [inert, ih, Bool.and_assoc]

/-- Nor does a digit. -/
theorem keeps_digit {last c : Char} (digit : c = '-' ∨ c.isDigit = true) :
    keeps last c = true := by
  have plain : quoteOf c = none ∧ c ≠ '>' := by
    rcases digit with rfl | digit
    · decide
    · unfold quoteOf
      refine ⟨?_, by rintro rfl; cases digit⟩
      split_ifs with double single
      · subst double
        cases digit
      · subst single
        cases digit
      · rfl
  simp [keeps, plain]

theorem inert_digits {last : Char} {t : List Char}
    (digits : ∀ c ∈ t, c = '-' ∨ c.isDigit = true) : inert last t = true := by
  induction t generalizing last with
  | nil => rfl
  | cons c t ih =>
      rw [inert, keeps_digit (digits c List.mem_cons_self), Bool.true_and]
      exact ih fun d mem => digits d (List.mem_cons_of_mem _ mem)

theorem inert_append_digits {last : Char} (s : List Char) {t : List Char}
    (digits : ∀ c ∈ t, c = '-' ∨ c.isDigit = true) : inert last (s ++ t) = inert last s := by
  induction s generalizing last with
  | nil => exact inert_digits digits
  | cons c s ih => simp [inert, ih]

/-- A number is read as it is. -/
theorem verbatim_of_digits {s : List Char} (digits : ∀ c ∈ s, c = '-' ∨ c.isDigit = true) :
    Verbatim s := by
  have absent : ∀ c, c ≠ '-' → c.isDigit = false → c ∉ s := by
    intro c dash noDigit mem
    rcases digits c mem with same | digit
    · exact dash same
    · rw [noDigit] at digit
      cases digit
  exact ⟨absent '<' (by decide) rfl, absent '&' (by decide) rfl, absent '\r' (by decide) rfl,
    fun found => absent ']' (by decide) rfl (found.subset (by simp [sectionEnd]))⟩

/-- **A number between two joints** makes one of them. -/
theorem Joint.append {t t' s : List Char} {es es' : List Event} (front : Joint t es)
    (back : Joint t' es') (digits : ∀ c ∈ s, c = '-' ∨ c.isDigit = true) :
    Joint (t ++ (s ++ t')) (es ++ (s.map .char ++ es')) := by
  have verbatim := verbatim_of_digits digits
  cases t with
  | nil => cases front.tag
  | cons c t =>
      cases t' with
      | nil => cases back.tag
      | cons c' t' =>
          cases front.tag
          cases back.tag
          refine ⟨rfl, ?_, ?_, ?_⟩
          · have stays := front.stays
            have stays' := back.stays
            simp only [List.tail_cons] at stays stays'
            rw [List.cons_append, List.tail_cons, ← List.append_assoc, inert_append_tag,
              inert_append_digits t digits, stays, stays']
            rfl
          · simp only [List.mem_append, not_or]
            exact ⟨front.cr, verbatim.cr, back.cr⟩
          · obtain ⟨k, ran⟩ := verbatim.run
            have tagged : run (.text k) ('<' :: t') = run (.text 0) ('<' :: t') := rfl
            rw [run_append_of_run front.reads, run_append_of_run ran, tagged, back.reads]
            rfl

/-- A joint is read in the text, or is covered. -/
theorem Joint.run {t : List Char} {es es' : List Event} {m m' : Mode} (joint : Joint t es)
    (h : run m t = some (m', es')) :
    ((∃ n, m = .text n) ∧ m' = .text 0 ∧ es' = es) ∨
      (∃ c, Covered c m') ∧ ∃ cs : List Char, es' = cs.map .char := by
  cases t with
  | nil => cases joint.tag
  | cons c t =>
      cases joint.tag
      rcases run_lt joint.stays h with ⟨n, rfl, ran⟩ | covered
      · have same := joint.reads.symm.trans ran
        cases same
        exact Or.inl ⟨⟨n, rfl⟩, rfl, rfl⟩
      · exact Or.inr covered

/-- A joint is read in the text, whatever number of brackets is before it. -/
theorem Joint.run_text {t : List Char} {es : List Event} (joint : Joint t es) (n : ℕ) :
    Xml.run (.text n) t = some (.text 0, es) := by
  have reads := joint.reads
  cases t with
  | nil => cases joint.tag
  | cons c t =>
      cases joint.tag
      exact reads

/-- **Lines before a joint** and behind it are normalized apart. -/
theorem Joint.normalize {t : List Char} {es : List Event} (joint : Joint t es)
    (s rest : List Char) :
    Xml.normalize (s ++ (t ++ rest)) = Xml.normalize s ++ (t ++ Xml.normalize rest) := by
  have alone : normalizeFrom false (t ++ rest) = t ++ normalizeFrom false rest :=
    normalizeFrom_append_of_notMem joint.cr rest
  cases t with
  | nil => cases joint.tag
  | cons c t =>
      cases joint.tag
      have lines : ∀ r, normalizeFrom false ('<' :: r) = '<' :: normalizeFrom false r := fun _ => rfl
      show normalizeFrom false (s ++ '<' :: (t ++ rest)) = _
      rw [normalizeFrom_append (by decide) (by decide), ← lines]
      exact congrArg (normalizeFrom false s ++ ·) alone

end Xml

end PumaDev
