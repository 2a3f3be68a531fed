import Mathlib.Algebra.Order.Ring.Nat
import Mathlib.Data.List.Basic
import Mathlib.Tactic.Common

/-!
# Reading a shell command

A POSIX shell cuts its input into tokens before it does anything else: operators, ends
of lines, and **words**.  Backslashes and two kinds of quotes take the meaning from the
characters behind or between them, and are removed.  What is left of a word is a list of
pieces, each a character that stands for itself or one that is still **active**: it
begins an expansion, or has a meaning in a pattern.

What an expansion or a pattern is replaced by is not described here.  A word **denotes**
a text if that is what it is passed on as, whatever variables and files there are: it has
the characters of the text, begins no expansion and is no pattern.  The lemmas below are
about a text that is pasted into a command without quotes: `plain_of_head` says that it
comes out as one word that denotes it only if it is plain, provided that the command goes
on in a way that does not help (`Uncovered`).
-/

namespace PumaDev

namespace Shell

/-- A character of a word, after quote removal. -/
inductive Piece where
  | lit (c : Char)
  | active (c : Char)
  deriving DecidableEq

/-- A word, as its pieces. -/
abbrev Word := List Piece

/-- A token.  Operators of several characters are several tokens. -/
inductive Token where
  | word (w : Word)
  | operator (c : Char)
  | newline
  deriving DecidableEq

/-- Where the reader is. -/
inductive Mode where
  | between
  | comment
  /-- Behind a backslash that no word has begun with yet. -/
  | escapeBetween
  | word
  | escape
  | double
  | doubleEscape
  | single
  deriving DecidableEq

/-- The mode, and the pieces of the word that is being read. -/
structure State where
  mode : Mode
  word : Word
  deriving DecidableEq

def isBlank (c : Char) : Bool := c = ' ' || c = '\t'

def isOperator (c : Char) : Bool := c ∈ "&|;<>()".toList

/-- What ends a word outside quotes. -/
def isDelimiter (c : Char) : Bool := isBlank c || c = '\n' || isOperator c

/-- What begins an expansion, in double quotes as well. -/
def isExpansion (c : Char) : Bool := c ∈ "$`".toList

/-- What has a meaning in a pattern. -/
def isPattern (c : Char) : Bool := c ∈ "*?[]!^".toList

/-- The quotes and the backslash. -/
def isQuote (c : Char) : Bool := c ∈ "'\"\\".toList

/-- A character outside quotes that is no quote itself. -/
def pieceOf (c : Char) : Piece := if isExpansion c || isPattern c then .active c else .lit c

/-- The tokens that end with a delimiter. -/
def delimiterTokens (c : Char) : List Token :=
  if isBlank c then [] else if c = '\n' then [.newline] else [.operator c]

/-- The next character of a word, outside quotes. -/
def inWord (w : Word) (c : Char) : State × List Token :=
  if isDelimiter c then (⟨.between, []⟩, .word w :: delimiterTokens c)
  else if c = '\'' then (⟨.single, w⟩, [])
  else if c = '"' then (⟨.double, w⟩, [])
  else if c = '\\' then (⟨.escape, w⟩, [])
  else (⟨.word, w ++ [pieceOf c]⟩, [])

/-- One character: the state it leads to, and the tokens it completes. -/
def step (s : State) (c : Char) : State × List Token :=
  match s.mode with
  | .between =>
      if isDelimiter c then (s, delimiterTokens c)
      else if c = '#' then (⟨.comment, []⟩, [])
      else if c = '~' then (⟨.word, [.active '~']⟩, [])
      else if c = '\\' then (⟨.escapeBetween, []⟩, [])
      else inWord [] c
  | .comment => if c = '\n' then (⟨.between, []⟩, [.newline]) else (s, [])
  | .escapeBetween => if c = '\n' then (⟨.between, []⟩, []) else (⟨.word, [.lit c]⟩, [])
  | .word => inWord s.word c
  | .escape => if c = '\n' then (⟨.word, s.word⟩, []) else (⟨.word, s.word ++ [.lit c]⟩, [])
  | .double =>
      if c = '"' then (⟨.word, s.word⟩, [])
      else if c = '\\' then (⟨.doubleEscape, s.word⟩, [])
      else if isExpansion c then (⟨.double, s.word ++ [.active c]⟩, [])
      else (⟨.double, s.word ++ [.lit c]⟩, [])
  | .doubleEscape =>
      if c = '\n' then (⟨.double, s.word⟩, [])
      else if isExpansion c || c = '"' || c = '\\' then (⟨.double, s.word ++ [.lit c]⟩, [])
      else (⟨.double, s.word ++ [.lit '\\', .lit c]⟩, [])
  | .single =>
      if c = '\'' then (⟨.word, s.word⟩, []) else (⟨.single, s.word ++ [.lit c]⟩, [])

/-- Reading a text: the state at its end, and the tokens that are complete. -/
def run : State → List Char → State × List Token
  | s, [] => (s, [])
  | s, c :: rest => ((run (step s c).1 rest).1, (step s c).2 ++ (run (step s c).1 rest).2)

/-- The tokens of a whole text; there are none if a quote is not closed. -/
def tokens (text : List Char) : Option (List Token) :=
  match run ⟨.between, []⟩ text with
  | (⟨.between, _⟩, ts) | (⟨.comment, _⟩, ts) => some ts
  | (⟨.word, w⟩, ts) => some (ts ++ [.word w])
  | _ => none

/-! ## What a word denotes -/

def Piece.char : Piece → Char
  | .lit c | .active c => c

/-- The characters of a word. -/
def Word.chars (w : Word) : List Char := w.map Piece.char

/-- A text that has been quoted. -/
def lits (t : List Char) : Word := t.map .lit

/-- A text that has not. -/
def bare (t : List Char) : Word := t.map pieceOf

/-- A closing bracket is reached before a slash. -/
def reaches : Word → Bool
  | [] => false
  | p :: rest => p.char ≠ '/' && (p = .active ']' || reaches rest)

/-- Behind an opening bracket, and a negation: there is a first character, which may be a
closing bracket itself, and the bracket is closed behind it. -/
def encloses : Word → Bool
  | [] => false
  | p :: rest => p.char ≠ '/' && reaches rest

/-- What follows an opening bracket makes it a bracket expression. -/
def closes : Word → Bool
  | [] => false
  | p :: rest =>
      if p = .active '!' || p = .active '^' then encloses rest else encloses (p :: rest)

/-- A bracket expression begins somewhere. -/
def hasBracket : Word → Bool
  | [] => false
  | p :: rest => (p = .active '[' && closes rest) || hasBracket rest

/-- A character that is replaced, or makes a word a pattern, wherever it is active. -/
def isReplaced (c : Char) : Bool := isExpansion c || c ∈ "*?~".toList

/-- The word is passed on as the text, whatever variables and files there are. -/
structure Denotes (w : Word) (t : List Char) : Prop where
  chars : w.chars = t
  inert : ∀ c, .active c ∈ w → isReplaced c = false
  bracket : hasBracket w = false

/-- Is the character of no significance in a word that is not a pattern? -/
def isOrdinary (c : Char) : Bool :=
  !(isDelimiter c || isQuote c || isExpansion c || c ∈ "*?".toList)

/-- A text that need not be quoted inside a word. -/
def IsPlain (t : List Char) : Prop :=
  (∀ c ∈ t, isOrdinary c = true) ∧ hasBracket (bare t) = false

instance (t : List Char) : Decidable (IsPlain t) :=
  haveI : Decidable (∀ c ∈ t, isOrdinary c = true) := List.decidableBAll _ t
  inferInstanceAs (Decidable (_ ∧ _))

/-! ## Runs -/

/-- A text that ends outside quotes. -/
theorem tokens_of_between {t : List Char} {w : Word} {ts : List Token}
    (reads : run ⟨.between, []⟩ t = (⟨.between, w⟩, ts)) : tokens t = some ts := by
  rw [tokens, reads]

/-- A text that ends inside its last word. -/
theorem tokens_of_word {t : List Char} {w : Word} {ts : List Token}
    (reads : run ⟨.between, []⟩ t = (⟨.word, w⟩, ts)) : tokens t = some (ts ++ [.word w]) := by
  rw [tokens, reads]

/-- The tokens of a text are those it completes, and perhaps a last word. -/
theorem run_of_tokens {t : List Char} {ts : List Token} (reads : tokens t = some ts) :
    ∃ last, last.length ≤ 1 ∧ ts = (run ⟨.between, []⟩ t).2 ++ last := by
  unfold tokens at reads
  split at reads
  · next ran =>
      cases reads
      exact ⟨[], Nat.zero_le 1, by rw [ran, List.append_nil]⟩
  · next ran =>
      cases reads
      exact ⟨[], Nat.zero_le 1, by rw [ran, List.append_nil]⟩
  · next ran =>
      cases reads
      exact ⟨[_], le_refl 1, by rw [ran]⟩
  · cases reads

@[simp] theorem run_nil (s : State) : run s [] = (s, []) := rfl

theorem run_cons (s : State) (c : Char) (rest : List Char) :
    run s (c :: rest) =
      ((run (step s c).1 rest).1, (step s c).2 ++ (run (step s c).1 rest).2) := rfl

/-- One text is read after the other. -/
theorem run_append (s : State) (t u : List Char) :
    run s (t ++ u) = ((run (run s t).1 u).1, (run s t).2 ++ (run (run s t).1 u).2) := by
  induction t generalizing s with
  | nil => rfl
  | cons c t ih => rw [List.cons_append, run_cons, run_cons, ih, List.append_assoc]

theorem run_append_of {s s' : State} {t u : List Char} {ts : List Token}
    (front : run s t = (s', ts)) :
    run s (t ++ u) = ((run s' u).1, ts ++ (run s' u).2) := by
  rw [run_append, front]

theorem run_seq {s s' s'' : State} {t u : List Char} {ts us : List Token}
    (front : run s t = (s', ts)) (back : run s' u = (s'', us)) :
    run s (t ++ u) = (s'', ts ++ us) := by
  rw [run_append_of front, back]

/-- A text whose characters all go into the word, each as a piece of its own. -/
theorem run_pieces (w : Word) {mode : Mode} {piece : Char → Piece} {t : List Char}
    (each : ∀ c ∈ t, ∀ v, step ⟨mode, v⟩ c = (⟨mode, v ++ [piece c]⟩, [])) :
    run ⟨mode, w⟩ t = (⟨mode, w ++ t.map piece⟩, []) := by
  induction t generalizing w with
  | nil => simp
  | cons c t ih =>
      obtain ⟨here, later⟩ := List.forall_mem_cons.mp each
      rw [run_cons, here]
      dsimp only
      rw [ih _ later]
      simp

/-- A delimiter ends the word that is being read. -/
theorem run_delimiter (w : Word) {c : Char} {t : List Char} {s : State} {ts : List Token}
    (delimiter : isDelimiter c = true) (rest : run ⟨.between, []⟩ t = (s, ts)) :
    run ⟨.word, w⟩ (c :: t) = (s, .word w :: (delimiterTokens c ++ ts)) := by
  have ends : step ⟨.word, w⟩ c = (⟨.between, []⟩, .word w :: delimiterTokens c) :=
    if_pos delimiter
  rw [run_cons, ends]
  dsimp only
  rw [rest, List.cons_append]

/-- What an ordinary character is not. -/
theorem isOrdinary_iff {c : Char} :
    isOrdinary c = true ↔
      isDelimiter c = false ∧ isQuote c = false ∧ isExpansion c = false ∧ c ∉ "*?".toList := by
  simp [isOrdinary, and_assoc]

/-- A character that is neither a delimiter nor a quote goes into the word. -/
theorem step_word_of_not_isQuote {w : Word} {c : Char} (other : isQuote c = false)
    (inside : isDelimiter c = false) :
    step ⟨.word, w⟩ c = (⟨.word, w ++ [pieceOf c]⟩, []) := by
  have apart : ∀ q ∈ "'\"\\".toList, c ≠ q := by
    rintro q mem rfl
    have isQ : isQuote c = true := by simpa [isQuote] using mem
    rw [other] at isQ
    cases isQ
  simp [step, inWord, inside, apart '\'' (by decide), apart '"' (by decide),
    apart '\\' (by decide)]

/-- **Ordinary characters are read as they are.** -/
theorem run_bare (w : Word) {t : List Char} (ordinary : ∀ c ∈ t, isOrdinary c = true) :
    run ⟨.word, w⟩ t = (⟨.word, w ++ bare t⟩, []) := by
  refine run_pieces w fun c mem v => ?_
  obtain ⟨inside, other, -, -⟩ := isOrdinary_iff.mp (ordinary c mem)
  exact step_word_of_not_isQuote other inside

/-- In double quotes other characters are as well. -/
theorem run_double (w : Word) {t : List Char} (inert : ∀ c ∈ t, c ∉ "\"\\$`".toList) :
    run ⟨.double, w⟩ t = (⟨.double, w ++ lits t⟩, []) := by
  refine run_pieces w fun c mem v => ?_
  have apart : c ≠ '"' ∧ c ≠ '\\' ∧ c ≠ '$' ∧ c ≠ '`' := by simpa using inert c mem
  simp [step, isExpansion, apart]

/-- **In single quotes every character is read as it is**, but the quote. -/
theorem run_single (w : Word) {t : List Char} (open_ : '\'' ∉ t) :
    run ⟨.single, w⟩ t = (⟨.single, w ++ lits t⟩, []) := by
  refine run_pieces w fun c mem v => ?_
  have other : c ≠ '\'' := fun quote => open_ (quote ▸ mem)
  exact if_neg other

/-! ## Plain texts -/

@[simp] theorem Word.chars_append (v w : Word) : Word.chars (v ++ w) = v.chars ++ w.chars :=
  List.map_append

@[simp] theorem Word.chars_cons (p : Piece) (w : Word) :
    Word.chars (p :: w) = p.char :: w.chars := rfl

@[simp] theorem Word.chars_nil : Word.chars [] = [] := rfl

@[simp] theorem Piece.char_lit (c : Char) : (Piece.lit c).char = c := rfl

@[simp] theorem Piece.char_active (c : Char) : (Piece.active c).char = c := rfl

@[simp] theorem char_pieceOf (c : Char) : (pieceOf c).char = c := by
  unfold pieceOf
  split <;> rfl

@[simp] theorem chars_bare (t : List Char) : (bare t).chars = t := by
  simp [bare, Word.chars, Function.comp_def]

@[simp] theorem chars_lits (t : List Char) : (lits t).chars = t := by
  simp [lits, Word.chars, Function.comp_def, Piece.char]

@[simp] theorem bare_append (t u : List Char) : bare (t ++ u) = bare t ++ bare u :=
  List.map_append

@[simp] theorem bare_cons (c : Char) (t : List Char) : bare (c :: t) = pieceOf c :: bare t := rfl

/-- A slash ends the search for a closing bracket. -/
theorem reaches_append_slash (a b : Word) : reaches (a ++ .lit '/' :: b) = reaches a := by
  induction a with
  | nil => rfl
  | cons p a ih => simp only [List.cons_append, reaches, ih]

theorem closes_append_slash (a b : Word) : closes (a ++ .lit '/' :: b) = closes a := by
  have first : ∀ w : Word, encloses (w ++ .lit '/' :: b) = encloses w := by
    intro w
    cases w with
    | nil => rfl
    | cons p w => simp only [List.cons_append, encloses, reaches_append_slash]
  cases a with
  | nil => rfl
  | cons p a => simp only [List.cons_append, closes, first, ← first (p :: a)]

/-- **No bracket expression reaches across a slash.** -/
theorem hasBracket_append_slash (a b : Word) :
    hasBracket (a ++ .lit '/' :: b) = (hasBracket a || hasBracket b) := by
  induction a with
  | nil => rfl
  | cons p a ih =>
      simp only [List.cons_append, hasBracket, closes_append_slash, ih, Bool.or_assoc]

/-- What begins behind other pieces begins behind those of them that open nothing. -/
theorem hasBracket_append {a : Word} (b : Word) (opens : .active '[' ∉ a) :
    hasBracket (a ++ b) = hasBracket b := by
  induction a with
  | nil => rfl
  | cons p a ih =>
      obtain ⟨here, later⟩ := not_or.mp (mt List.mem_cons.mpr opens)
      simp [hasBracket, Ne.symm here, ih later]

/-- A plain text denotes itself. -/
theorem IsPlain.denotes {t : List Char} (plain : IsPlain t) : Denotes (bare t) t where
  chars := chars_bare t
  inert := by
    intro c active
    obtain ⟨d, mem, same⟩ := List.mem_map.mp active
    have isC : d = c := by simpa using congrArg Piece.char same
    subst isC
    obtain ⟨-, -, expands, wildcard⟩ := isOrdinary_iff.mp (plain.1 d mem)
    have notTilde : d ≠ '~' := by
      rintro rfl
      cases same
    have apart : d ≠ '*' ∧ d ≠ '?' := by simpa using wildcard
    simp [isReplaced, expands, apart.1, apart.2, notTilde]
  bracket := plain.2

/-- A quoted text denotes itself. -/
theorem denotes_lits (t : List Char) : Denotes (lits t) t where
  chars := chars_lits t
  inert c active := by
    obtain ⟨d, -, same⟩ := List.mem_map.mp active
    cases same
  bracket := by
    have quoted : .active '[' ∉ lits t := by simp [lits]
    have none_ := hasBracket_append [] quoted
    rwa [List.append_nil] at none_

/-- Plain texts with a slash between them are plain. -/
theorem isPlain_append_slash {a b : List Char} :
    IsPlain (a ++ '/' :: b) ↔ IsPlain a ∧ IsPlain b := by
  have slash : isOrdinary '/' = true := by decide
  have piece : pieceOf '/' = .lit '/' := by decide
  simp only [IsPlain, bare_append, bare_cons, piece, hasBracket_append_slash, Bool.or_eq_false_iff,
    List.forall_mem_append, List.forall_mem_cons, slash, true_and]
  exact and_and_and_comm

/-- In front of a text, characters that open nothing do not matter. -/
theorem isPlain_append {a b : List Char} (ordinary : ∀ c ∈ a, isOrdinary c = true)
    (opens : '[' ∉ a) : IsPlain (a ++ b) ↔ IsPlain b := by
  have opens' : .active '[' ∉ bare a := by
    intro mem
    obtain ⟨c, inside, same⟩ := List.mem_map.mp mem
    have isBracket : c = '[' := by simpa using congrArg Piece.char same
    exact opens (isBracket ▸ inside)
  rw [IsPlain, IsPlain, bare_append, hasBracket_append _ opens', List.forall_mem_append]
  exact and_congr_left' (and_iff_right ordinary)

/-! ## The first word that is complete -/

/-- The reader is inside a word. -/
def Mode.Inside : Mode → Prop
  | .word | .escape | .double | .doubleEscape | .single => True
  | .between | .comment | .escapeBetween => False

/-- Inside a word, a character either ends it or goes on with it. -/
theorem step_inside {s : State} (inside : s.mode.Inside) (c : Char) :
    (s.mode = .word ∧ isDelimiter c = true ∧
        step s c = (⟨.between, []⟩, .word s.word :: delimiterTokens c)) ∨
      ((step s c).2 = [] ∧ (step s c).1.mode.Inside) := by
  obtain ⟨mode, w⟩ := s
  cases mode with
  | between | comment | escapeBetween => exact inside.elim
  | word =>
      by_cases delimiter : isDelimiter c = true
      · exact Or.inl ⟨rfl, delimiter, if_pos delimiter⟩
      · right
        simp only [step, inWord, if_neg delimiter]
        split_ifs <;> exact ⟨rfl, trivial⟩
  | escape | double | doubleEscape | single =>
      right
      simp only [step]
      split_ifs <;> exact ⟨rfl, trivial⟩

/-- Where nothing is completed, it goes on. -/
theorem inside_step {s : State} (inside : s.mode.Inside) {c : Char}
    (silent : (step s c).2 = []) : (step s c).1.mode.Inside := by
  rcases step_inside inside c with ⟨-, -, ends⟩ | ⟨-, inside'⟩
  · rw [ends] at silent
    cases silent
  · exact inside'

/-- A text completes nothing exactly if none of its characters does. -/
theorem run_cons_silent {s s' : State} {c : Char} {t : List Char} :
    run s (c :: t) = (s', []) ↔ (step s c).2 = [] ∧ run (step s c).1 t = (s', []) := by
  rw [run_cons, Prod.mk.injEq, List.append_eq_nil_iff, Prod.ext_iff]
  exact and_left_comm

/-- **The first word that is completed** has been read up to a delimiter. -/
theorem split_of_head {s : State} (inside : s.mode.Inside) {t : List Char} {w : Word}
    {ts : List Token} (first : (run s t).2 = .word w :: ts) :
    ∃ r c rest, t = r ++ c :: rest ∧ isDelimiter c = true ∧ run s r = (⟨.word, w⟩, []) := by
  induction t generalizing s with
  | nil => cases first
  | cons c t ih =>
      rw [run_cons] at first
      rcases step_inside inside c with ⟨isWord, delimiter, ends⟩ | ⟨silent, inside'⟩
      · rw [ends, List.cons_append, List.cons.injEq] at first
        obtain ⟨mode, v⟩ := s
        cases isWord
        cases first.1
        exact ⟨[], c, t, rfl, delimiter, rfl⟩
      · rw [silent, List.nil_append] at first
        obtain ⟨r, d, rest, rfl, delimiter, reads⟩ := ih inside' first
        refine ⟨c :: r, d, rest, rfl, delimiter, ?_⟩
        rw [run_cons, reads, silent]
        rfl

/-- Nothing is completed on the way to a state inside the word. -/
theorem inside_of_silent {s : State} (inside : s.mode.Inside) {t : List Char}
    (silent : (run s t).2 = []) : (run s t).1.mode.Inside := by
  induction t generalizing s with
  | nil => exact inside
  | cons c t ih =>
      rw [run_cons, List.append_eq_nil_iff] at silent
      exact ih (inside_step inside silent.1) silent.2

/-- A word only grows. -/
theorem prefix_step {s : State} (inside : s.mode.Inside) {c : Char}
    (silent : (step s c).2 = []) : s.word <+: (step s c).1.word := by
  obtain ⟨mode, w⟩ := s
  cases mode with
  | between | comment | escapeBetween => exact inside.elim
  | word =>
      simp only [step, inWord] at silent ⊢
      split_ifs at silent ⊢ <;> first | exact List.prefix_rfl | exact List.prefix_append _ _
  | escape | double | doubleEscape | single =>
      simp only [step]
      split_ifs <;> first | exact List.prefix_rfl | exact List.prefix_append _ _

theorem prefix_of_silent {s s' : State} {t : List Char} (inside : s.mode.Inside)
    (silent : run s t = (s', [])) : s.word <+: s'.word := by
  induction t generalizing s with
  | nil =>
      cases silent
      exact List.prefix_rfl
  | cons c t ih =>
      obtain ⟨quiet, later⟩ := run_cons_silent.mp silent
      exact (prefix_step inside quiet).trans (ih (inside_step inside quiet) later)

/-- So the first word that is completed begins with what has been read of it. -/
theorem prefix_of_head {s : State} (inside : s.mode.Inside) {t : List Char} {w : Word}
    {ts : List Token} (first : (run s t).2 = .word w :: ts) : s.word <+: w := by
  obtain ⟨r, -, -, -, -, reads⟩ := split_of_head inside first
  exact prefix_of_silent inside reads

/-- What is active in front stays active. -/
theorem active_of_front {s s' : State} {front rest : List Char} {w : Word} {ts : List Token}
    {c : Char} (reads : run s front = (s', [])) (inside : s'.mode.Inside)
    (active : .active c ∈ s'.word) (first : (run s (front ++ rest)).2 = .word w :: ts) :
    .active c ∈ w := by
  rw [run_append_of reads, List.nil_append] at first
  exact (prefix_of_head inside first).subset active

/-- A comment completes no word. -/
theorem comment_ne_word (t : List Char) (w : Word) (ts : List Token) :
    (run ⟨.comment, []⟩ t).2 ≠ .word w :: ts := by
  induction t with
  | nil => nofun
  | cons c t ih =>
      rw [run_cons]
      by_cases ends : c = '\n'
      · rw [show step ⟨.comment, []⟩ c = _ from if_pos ends]
        nofun
      · rw [show step ⟨.comment, []⟩ c = _ from if_neg ends]
        exact ih

/-! ## What is lost -/

/-- The weight of a word, by its characters; a backslash that has been read in double
quotes may still become one of them. -/
def weight (wt : Char → ℕ) (s : State) : ℕ :=
  (s.word.chars.map wt).sum + if s.mode = .doubleEscape then wt '\\' else 0

/-- A character adds no more than its own weight. -/
theorem weight_step_le (wt : Char → ℕ) {s : State} (inside : s.mode.Inside) {c : Char}
    (silent : (step s c).2 = []) : weight wt (step s c).1 ≤ weight wt s + wt c := by
  obtain ⟨mode, w⟩ := s
  cases mode with
  | between | comment | escapeBetween => exact inside.elim
  | word =>
      simp only [step, inWord] at silent ⊢
      split_ifs at silent ⊢ <;> simp [weight]
  | escape | double | doubleEscape | single =>
      simp only [step]
      split_ifs <;> simp_all [weight] <;> omega

/-- Nor does a text. -/
theorem weight_run_le (wt : Char → ℕ) {s s' : State} (inside : s.mode.Inside) {t : List Char}
    (silent : run s t = (s', [])) : weight wt s' ≤ weight wt s + (t.map wt).sum := by
  induction t generalizing s with
  | nil =>
      cases silent
      simp
  | cons c t ih =>
      obtain ⟨quiet, later⟩ := run_cons_silent.mp silent
      have here := weight_step_le wt inside quiet
      have rest := ih (inside_step inside quiet) later
      rw [List.map_cons, List.sum_cons]
      omega

theorem not_isDelimiter_of_silent {w : Word} {c : Char} (silent : (step ⟨.word, w⟩ c).2 = []) :
    isDelimiter c = false := by
  by_contra delimiter
  rw [Bool.not_eq_false] at delimiter
  rw [show step ⟨.word, w⟩ c = _ from if_pos delimiter] at silent
  cases silent

theorem step_word_of_isQuote {w : Word} {c : Char} (quote : isQuote c = true) :
    ∃ mode : Mode, mode.Inside ∧ mode ≠ .doubleEscape ∧ step ⟨.word, w⟩ c = (⟨mode, w⟩, []) := by
  have which : c = '\'' ∨ c = '"' ∨ c = '\\' := by simpa [isQuote] using quote
  rcases which with rfl | rfl | rfl
  · exact ⟨.single, trivial, nofun, rfl⟩
  · exact ⟨.double, trivial, nofun, rfl⟩
  · exact ⟨.escape, trivial, nofun, rfl⟩

/-- **The first quote is lost.** -/
theorem weight_lt_of_quote (wt : Char → ℕ) (quotes : ∀ q, isQuote q = true → wt q = 1)
    {w : Word} {s : State} {t : List Char} (silent : run ⟨.word, w⟩ t = (s, []))
    (quoted : ∃ q ∈ t, isQuote q = true) :
    weight wt s + 1 ≤ weight wt ⟨.word, w⟩ + (t.map wt).sum := by
  induction t generalizing w with
  | nil => simp at quoted
  | cons c t ih =>
      obtain ⟨quiet, later⟩ := run_cons_silent.mp silent
      rw [List.map_cons, List.sum_cons]
      cases quote : isQuote c with
      | true =>
          obtain ⟨mode, inside, notEscape, moves⟩ := step_word_of_isQuote (w := w) quote
          rw [moves] at later
          have rest := weight_run_le wt inside later
          have unchanged : weight wt ⟨mode, w⟩ = weight wt ⟨.word, w⟩ := by
            simp [weight, notEscape]
          have one := quotes c quote
          dsimp only at rest
          omega
      | false =>
          have moves := step_word_of_not_isQuote (w := w) quote (not_isDelimiter_of_silent quiet)
          have here := weight_step_le wt (s := ⟨.word, w⟩) trivial quiet
          rw [moves] at later here
          have quoted' : ∃ q ∈ t, isQuote q = true := by
            obtain ⟨q, mem, isQ⟩ := quoted
            rcases List.mem_cons.mp mem with rfl | mem
            · rw [quote] at isQ
              cases isQ
            · exact ⟨q, mem, isQ⟩
          have rest := ih later quoted'
          dsimp only at here
          omega

/-- Without quotes, every character is a piece and none is a delimiter. -/
theorem run_word_of_no_quote {w : Word} {s : State} {t : List Char}
    (silent : run ⟨.word, w⟩ t = (s, [])) (unquoted : ∀ c ∈ t, isQuote c = false) :
    s = ⟨.word, w ++ bare t⟩ ∧ ∀ c ∈ t, isDelimiter c = false := by
  induction t generalizing w with
  | nil =>
      cases silent
      simp [bare]
  | cons c t ih =>
      obtain ⟨here, later⟩ := List.forall_mem_cons.mp unquoted
      obtain ⟨quiet, rest⟩ := run_cons_silent.mp silent
      have notDelimiter := not_isDelimiter_of_silent quiet
      rw [step_word_of_not_isQuote here notDelimiter] at rest
      obtain ⟨final, others⟩ := ih rest later
      refine ⟨?_, List.forall_mem_cons.mpr ⟨notDelimiter, others⟩⟩
      rw [final]
      simp [bare]

/-! ## Pasting a text into a command -/

/-- The quotes of a text, by their number. -/
def quoteWeight (c : Char) : ℕ := if isQuote c then 1 else 0

/-- What follows a pasted text does not cover up for it.  It begins with a delimiter; and
when the text has left a quote or a backslash open, the word that is completed then has an
expansion in it, or no more quotes among its characters than there were. -/
structure Uncovered (rest : List Char) : Prop where
  delimiter : ∃ c rest', rest = c :: rest' ∧ isDelimiter c = true
  open_ : ∀ s : State, (s.mode = .escape ∨ s.mode = .double ∨ s.mode = .doubleEscape) →
    ∀ w ts, (run s rest).2 = .word w :: ts →
      (∃ c, isExpansion c = true ∧ .active c ∈ w) ∨
        weight quoteWeight ⟨.word, w⟩ ≤ weight quoteWeight s

/-- In double quotes a delimiter is read as it is, and a backslash in front of it is not
forgotten. -/
theorem step_double_of_isDelimiter {mode : Mode} (double : mode = .double ∨ mode = .doubleEscape)
    (w : Word) {c : Char} (delimiter : isDelimiter c = true) :
    ∃ w', step ⟨mode, w⟩ c = (⟨.double, w'⟩, []) := by
  have which : c ∈ " \t\n&|;<>()".toList := by
    simpa [isDelimiter, isBlank, isOperator, or_assoc] using delimiter
  have cases_ : " \t\n&|;<>()".toList.all
      (fun d => isExpansion d = false ∧ d ≠ '"' ∧ d ≠ '\\') = true := by decide
  obtain ⟨inert, notQuote, notBackslash⟩ := of_decide_eq_true (List.all_eq_true.mp cases_ c which)
  rcases double with rfl | rfl
  · exact ⟨w ++ [.lit c], by simp [step, inert, notQuote, notBackslash]⟩
  · by_cases line : c = '\n'
    · exact ⟨w, if_pos line⟩
    · exact ⟨w ++ [.lit '\\', .lit c], by simp [step, inert, notQuote, notBackslash, line]⟩

/-- What begins with a delimiter does not cover up for a text if what is next begins an
expansion, read in double quotes, and a backslash gains it nothing. -/
theorem Uncovered.of_front {c : Char} {front rest : List Char} (delimiter : isDelimiter c = true)
    (expands : ∀ w, ∃ s, run ⟨.double, w⟩ front = (s, []) ∧ s.mode.Inside ∧ .active '$' ∈ s.word)
    (escape : ∀ v w ts, (run ⟨.escape, v⟩ (c :: (front ++ rest))).2 = .word w :: ts →
      weight quoteWeight ⟨.word, w⟩ ≤ weight quoteWeight ⟨.escape, v⟩) :
    Uncovered (c :: (front ++ rest)) where
  delimiter := ⟨c, _, rfl, delimiter⟩
  open_ := by
    intro s opened w ts first
    obtain ⟨mode, v⟩ := s
    rcases opened with rfl | double
    · exact Or.inr (escape v w ts first)
    · obtain ⟨v', moves⟩ := step_double_of_isDelimiter double v delimiter
      rw [run_cons, moves] at first
      obtain ⟨s, reads, inside, active⟩ := expands v'
      exact Or.inl ⟨'$', rfl, active_of_front reads inside active first⟩

theorem weight_word (wt : Char → ℕ) (w : Word) :
    weight wt ⟨.word, w⟩ = (w.chars.map wt).sum := by
  simp [weight]

/-- Only a single quote opens single quotes. -/
theorem not_single_of_silent {s : State} {t : List Char} (closed : s.mode ≠ .single)
    (noSingle : '\'' ∉ t) : (run s t).1.mode ≠ .single := by
  induction t generalizing s with
  | nil => exact closed
  | cons c t ih =>
      obtain ⟨here, later⟩ := not_or.mp (mt List.mem_cons.mpr noSingle)
      refine ih ?_ later
      obtain ⟨mode, w⟩ := s
      cases mode with
      | single => exact absurd rfl closed
      | between | comment | escapeBetween | word | escape | double | doubleEscape =>
          simp only [step, inWord]
          split_ifs <;> simp_all

/-- **A pasted text does not leave a quote open** and come out with all its quotes. -/
theorem word_of_head {v w : Word} {t rest : List Char} {ts : List Token} {s : State}
    (uncovered : Uncovered rest) (noSingle : '\'' ∉ t)
    (reads : run ⟨.word, v⟩ t = (s, [])) (first : (run s rest).2 = .word w :: ts)
    (quotes : (v.chars.map quoteWeight).sum + (t.map quoteWeight).sum ≤
      (w.chars.map quoteWeight).sum)
    (inert : ∀ c, .active c ∈ w → isReplaced c = false) : s.mode = .word := by
  by_contra notWord
  have inside : s.mode.Inside := by
    have silent : (run ⟨.word, v⟩ t).2 = [] := by rw [reads]
    have ends := inside_of_silent (s := ⟨.word, v⟩) trivial silent
    rwa [reads] at ends
  have notSingle : s.mode ≠ .single := by
    have ends := not_single_of_silent (s := ⟨.word, v⟩) nofun noSingle
    rwa [reads] at ends
  have opened : s.mode = .escape ∨ s.mode = .double ∨ s.mode = .doubleEscape := by
    obtain ⟨mode, w⟩ := s
    cases mode <;> simp_all [Mode.Inside]
  rcases uncovered.open_ s opened _ _ first with ⟨c, expands, active⟩ | heavy
  · have replaced := inert c active
    rw [isReplaced, expands] at replaced
    cases replaced
  · have quoted : ∃ q ∈ t, isQuote q = true := by
      by_contra none_
      have unquoted : ∀ c ∈ t, isQuote c = false := fun c mem =>
        Bool.eq_false_iff.mpr fun isQ => none_ ⟨c, mem, isQ⟩
      have final := (run_word_of_no_quote reads unquoted).1
      rw [final] at notWord
      exact notWord rfl
    have lost := weight_lt_of_quote quoteWeight (fun q isQ => if_pos isQ) reads quoted
    rw [weight_word] at heavy lost
    omega

/-- So a word that has read the text and all its quotes ends with it. -/
theorem ends_of_head {v w : Word} {t more rest : List Char} {ts : List Token} {d : Char}
    {later : List Char} (uncovered : Uncovered rest) (noSingle : '\'' ∉ t)
    (reads : run ⟨.word, v⟩ (t ++ more) = (⟨.word, w⟩, [])) (behind : rest = more ++ d :: later)
    (first : (run ⟨.word, v⟩ (t ++ rest)).2 = .word w :: ts)
    (quotes : (v.chars.map quoteWeight).sum + (t.map quoteWeight).sum ≤
      (w.chars.map quoteWeight).sum)
    (inert : ∀ c, .active c ∈ w → isReplaced c = false) : more = [] := by
  rw [run_append, Prod.mk.injEq, List.append_eq_nil_iff] at reads
  obtain ⟨-, quiet, quiet'⟩ := reads
  rcases front : run ⟨.word, v⟩ t with ⟨s, tokens⟩
  rw [front] at quiet quiet'
  dsimp only at quiet quiet'
  subst quiet
  rw [run_append_of front, List.nil_append] at first
  have isWord := word_of_head uncovered noSingle front first quotes inert
  obtain ⟨mode, w⟩ := s
  cases isWord
  -- what follows begins with a delimiter, so nothing more has been read
  obtain ⟨c, rest', rfl, delimits⟩ := uncovered.delimiter
  cases more with
  | nil => rfl
  | cons c' more =>
      rw [List.cons_append, List.cons.injEq] at behind
      rw [run_cons, ← behind.1, show step ⟨.word, w⟩ c = _ from if_pos delimits] at quiet'
      cases quiet'

/-- Outside quotes, an expansion or a wildcard is active. -/
theorem pieceOf_of_special {c : Char} (special : isExpansion c = true ∨ c ∈ "*?".toList) :
    pieceOf c = .active c ∧ isReplaced c = true := by
  rcases special with expands | wildcard
  · simp [pieceOf, isReplaced, expands]
  · have which : c = '*' ∨ c = '?' := by simpa using wildcard
    rcases which with rfl | rfl <;> decide

/-- **A pasted text that comes out as it is has no special characters.**  Let a text be
read inside a word, behind the pieces `v`, and let the word that is completed have the
characters of `v` and of the text, and nothing that is replaced.  Without a single quote
in the text, and if what follows does not cover up for it, every character of it is
ordinary, and the word is `v` and the text as it is written. -/
theorem ordinary_of_head {v w : Word} {t rest : List Char} {ts : List Token}
    (uncovered : Uncovered rest) (noSingle : '\'' ∉ t)
    (first : (run ⟨.word, v⟩ (t ++ rest)).2 = .word w :: ts)
    (chars : w.chars = v.chars ++ t) (inert : ∀ c, .active c ∈ w → isReplaced c = false) :
    (∀ c ∈ t, isOrdinary c = true) ∧ w = v ++ bare t := by
  obtain ⟨r, d, later, split, delimiter, reads⟩ :=
    split_of_head (s := ⟨.word, v⟩) trivial first
  -- the word has been read to the end of the text, no less and no more
  have whole : run ⟨.word, v⟩ t = (⟨.word, w⟩, []) := by
    rcases List.append_eq_append_iff.mp split with ⟨more, rfl, behind⟩ | ⟨more, longer, -⟩
    · have quotes : (v.chars.map quoteWeight).sum + (t.map quoteWeight).sum ≤
          (w.chars.map quoteWeight).sum := by
        rw [chars, List.map_append, List.sum_append]
      have none_ := ends_of_head uncovered noSingle reads behind first quotes inert
      rwa [none_, List.append_nil] at reads
    · have enough := weight_run_le (fun _ => 1) (s := ⟨.word, v⟩) trivial reads
      rw [weight_word, weight_word, chars, longer] at enough
      have none_ : more = [] := by
        have lengths : (r ++ more).length ≤ r.length := by simpa using enough
        rw [List.length_append] at lengths
        exact List.eq_nil_of_length_eq_zero (by omega)
      rw [longer, none_, List.append_nil]
      exact reads
  have unquoted : ∀ c ∈ t, isQuote c = false := by
    intro c mem
    by_contra quoted
    have lost := weight_lt_of_quote (fun _ => 1) (fun _ _ => rfl) whole
      ⟨c, mem, by simpa using quoted⟩
    rw [weight_word, weight_word, chars, List.map_append, List.sum_append] at lost
    omega
  obtain ⟨final, noDelimiter⟩ := run_word_of_no_quote whole unquoted
  have pieces : w = v ++ bare t := congrArg State.word final
  refine ⟨fun c mem => ?_, pieces⟩
  -- a character that is replaced would be active
  have kept : ¬ (isExpansion c = true ∨ c ∈ "*?".toList) := by
    intro special
    obtain ⟨active, replaced⟩ := pieceOf_of_special special
    have inWord : Piece.active c ∈ w := by
      rw [pieces, List.mem_append, ← active]
      exact Or.inr (List.mem_map_of_mem mem)
    rw [inert c inWord] at replaced
    cases replaced
  rw [not_or, Bool.not_eq_true] at kept
  exact isOrdinary_iff.mpr ⟨noDelimiter c mem, unquoted c mem, kept⟩

/-- **A pasted text that comes out as one word that denotes it is plain.** -/
theorem plain_of_head {v t rest : List Char} {w : Word} {ts : List Token}
    (ordinary : ∀ c ∈ v, isOrdinary c = true) (opens : '[' ∉ v) (uncovered : Uncovered rest)
    (noSingle : '\'' ∉ t)
    (first : (run ⟨.word, bare v⟩ (t ++ rest)).2 = .word w :: ts) (denotes : Denotes w (v ++ t)) :
    IsPlain t := by
  obtain ⟨special, pieces⟩ := ordinary_of_head uncovered noSingle first
    (by rw [denotes.chars, chars_bare]) denotes.inert
  have whole : IsPlain (v ++ t) := by
    refine ⟨List.forall_mem_append.mpr ⟨ordinary, special⟩, ?_⟩
    rw [bare_append, ← pieces]
    exact denotes.bracket
  exact (isPlain_append ordinary opens).mp whole

/-! ## Where a word may begin -/

/-- A text with which a word can begin: no comment, and no tilde that is replaced. -/
def beginsWord : List Char → Bool
  | [] => false
  | c :: _ => c ≠ '#' && c ≠ '~'

/-- A plain text is read as it is where a word may begin. -/
theorem run_begin {t : List Char} (plain : IsPlain t) (begins : beginsWord t = true) :
    run ⟨.between, []⟩ t = (⟨.word, bare t⟩, []) := by
  cases t with
  | nil => cases begins
  | cons c t =>
      obtain ⟨here, later⟩ := List.forall_mem_cons.mp plain.1
      obtain ⟨inside, other, -, -⟩ := isOrdinary_iff.mp here
      have apart : c ≠ '#' ∧ c ≠ '~' := by simpa [beginsWord] using begins
      have backslash : c ≠ '\\' := by
        rintro rfl
        cases other
      have enters : step ⟨.between, []⟩ c = (⟨.word, [pieceOf c]⟩, []) := by
        simp only [step, inside, apart.1, apart.2, backslash]
        exact step_word_of_not_isQuote (w := []) other inside
      rw [run_cons, enters]
      dsimp only
      rw [run_bare _ later]
      rfl

/-- In front of what follows, the text has characters that are skipped, and then the
first word begins. -/
def Begins (t rest : List Char) (w : Word) (ts : List Token) : Prop :=
  ∃ skipped c t', t = skipped ++ c :: t' ∧ c ≠ '#' ∧ (c = '~' → .active '~' ∈ w) ∧
    (c ≠ '~' → (run ⟨.word, []⟩ (c :: t' ++ rest)).2 = .word w :: ts)

theorem Begins.skip {t rest : List Char} {w : Word} {ts : List Token} (skipped : List Char)
    (begins : Begins t rest w ts) : Begins (skipped ++ t) rest w ts := by
  obtain ⟨s, c, t', rfl, found⟩ := begins
  exact ⟨skipped ++ s, c, t', (List.append_assoc ..).symm, found⟩

/-- Where a word may begin, a character is skipped, or completes a token that is no word,
or has a meaning of its own, or is read as it is inside a word. -/
theorem step_between_cases (c : Char) :
    step ⟨.between, []⟩ c = (⟨.between, []⟩, []) ∨
      (∃ t, step ⟨.between, []⟩ c = (⟨.between, []⟩, [t]) ∧ ∀ w, t ≠ .word w) ∨
      c = '#' ∨ c = '~' ∨ c = '\\' ∨
      (c ≠ '#' ∧ c ≠ '~' ∧ step ⟨.between, []⟩ c = step ⟨.word, []⟩ c) := by
  by_cases delimiter : isDelimiter c = true
  · rw [show step ⟨.between, []⟩ c = _ from if_pos delimiter, delimiterTokens]
    by_cases blank : isBlank c = true
    · exact Or.inl (by rw [if_pos blank])
    · rw [if_neg blank]
      by_cases line : c = '\n'
      · exact Or.inr (Or.inl ⟨.newline, by rw [if_pos line], nofun⟩)
      · exact Or.inr (Or.inl ⟨.operator c, by rw [if_neg line], nofun⟩)
  · by_cases special : c = '#' ∨ c = '~' ∨ c = '\\'
    · rcases special with hash | tilde | backslash
      · exact Or.inr (Or.inr (Or.inl hash))
      · exact Or.inr (Or.inr (Or.inr (Or.inl tilde)))
      · exact Or.inr (Or.inr (Or.inr (Or.inr (Or.inl backslash))))
    · simp only [not_or] at special
      obtain ⟨hash, tilde, backslash⟩ := special
      have same : step ⟨.between, []⟩ c = step ⟨.word, []⟩ c := by
        simp only [step, delimiter, hash, tilde, backslash]
        rfl
      exact Or.inr (Or.inr (Or.inr (Or.inr (Or.inr ⟨hash, tilde, same⟩))))

/-- **Where the first word begins.**  If no word begins in what follows the text, it
begins in the text. -/
theorem begins_of_head {t rest : List Char} {w : Word} {ts : List Token}
    (closed : ∀ mode, mode = .between ∨ mode = .escapeBetween →
      ∀ w ts, (run ⟨mode, []⟩ rest).2 ≠ .word w :: ts)
    (first : (run ⟨.between, []⟩ (t ++ rest)).2 = .word w :: ts) : Begins t rest w ts := by
  induction length : t.length using Nat.strong_induction_on generalizing t with
  | h n ih =>
      cases t with
      | nil => exact absurd first (closed .between (Or.inl rfl) w ts)
      | cons c t =>
          rw [List.length_cons] at length
          rw [List.cons_append, run_cons] at first
          rcases step_between_cases c with
            skips | ⟨token, completes, noWord⟩ | rfl | rfl | rfl | ⟨hash, tilde, same⟩
          · rw [skips] at first
            exact (ih t.length (by omega) first rfl).skip [c]
          · rw [completes] at first
            exact absurd (List.cons.inj first).1 (noWord w)
          · exact absurd first (comment_ne_word _ w ts)
          · refine ⟨[], '~', t, rfl, by decide, fun _ => ?_, fun other => absurd rfl other⟩
            exact (prefix_of_head (s := ⟨.word, [.active '~']⟩) trivial first).subset (by simp)
          · cases t with
            | nil => exact absurd first (closed .escapeBetween (Or.inr rfl) w ts)
            | cons d t =>
                rw [List.cons_append] at first
                by_cases continuation : d = '\n'
                · subst continuation
                  rw [List.length_cons] at length
                  exact (ih t.length (by omega) first rfl).skip ['\\', '\n']
                · refine ⟨[], '\\', d :: t, rfl, by decide, nofun, fun _ => ?_⟩
                  have outside : step (step ⟨.between, []⟩ '\\').1 d =
                      (⟨.word, [.lit d]⟩, []) := if_neg continuation
                  have inside : step (step ⟨.word, []⟩ '\\').1 d =
                      (⟨.word, [.lit d]⟩, []) := if_neg continuation
                  rw [run_cons, outside] at first
                  rw [List.cons_append, List.cons_append, run_cons, run_cons, inside]
                  exact first
          · refine ⟨[], c, t, rfl, hash, fun h => absurd h tilde, fun _ => ?_⟩
            rwa [List.cons_append, run_cons, ← same]

/-- **A pasted text that comes out as a word of its own that denotes it is plain**, and a
word can begin with it. -/
theorem plain_of_begin {t rest : List Char} {w : Word} {ts : List Token}
    (uncovered : Uncovered rest)
    (closed : ∀ mode, mode = .between ∨ mode = .escapeBetween →
      ∀ w ts, (run ⟨mode, []⟩ rest).2 ≠ .word w :: ts)
    (noSingle : '\'' ∉ t) (first : (run ⟨.between, []⟩ (t ++ rest)).2 = .word w :: ts)
    (denotes : Denotes w t) : beginsWord t = true ∧ IsPlain t := by
  obtain ⟨skipped, c, t', rfl, hash, tilde, reads⟩ := begins_of_head closed first
  have notTilde : c ≠ '~' := fun isTilde => by
    have replaced := denotes.inert '~' (tilde isTilde)
    cases replaced
  have first' := reads notTilde
  cases skipped with
  | nil =>
      have plain : IsPlain (c :: t') :=
        plain_of_head (v := []) (by simp) (by simp) uncovered noSingle first' denotes
      exact ⟨by simp [beginsWord, hash, notTilde], plain⟩
  | cons b skipped =>
      -- the word would have to make up for what was skipped
      obtain ⟨r, d, later, split, -, ends⟩ := split_of_head (s := ⟨.word, []⟩) trivial first'
      have enough := weight_run_le (fun _ => 1) (s := ⟨.word, []⟩) trivial ends
      have long : (c :: t').length < r.length := by
        rw [weight_word, weight_word, denotes.chars] at enough
        simp at enough ⊢
        omega
      rcases List.append_eq_append_iff.mp split with ⟨more, rfl, behind⟩ | ⟨more, longer, -⟩
      · have quotes : (Word.chars [] |>.map quoteWeight).sum + ((c :: t').map quoteWeight).sum ≤
            (w.chars.map quoteWeight).sum := by
          rw [denotes.chars]
          simp
          omega
        have noSingle' : '\'' ∉ c :: t' := fun mem => noSingle (List.mem_append_right _ mem)
        have none_ := ends_of_head uncovered noSingle' ends behind first' quotes denotes.inert
        simp [none_] at long
      · rw [longer, List.length_append] at long
        omega

/-- A text weighs no less than its beginning. -/
theorem sum_map_le_of_prefix (wt : Char → ℕ) {a b : List Char} (isPrefix : a <+: b) :
    (a.map wt).sum ≤ (b.map wt).sum := by
  obtain ⟨rest, rfl⟩ := isPrefix
  rw [List.map_append, List.sum_append]
  exact Nat.le_add_right _ _

/-- A text that is read to the end of the quotes it opens gives at least one of them up. -/
theorem quoteWeight_run_le {v w : Word} {t : List Char}
    (reads : run ⟨.word, v⟩ t = (⟨.word, w⟩, [])) :
    weight quoteWeight ⟨.word, w⟩ ≤
      weight quoteWeight ⟨.word, v⟩ + ((t.map quoteWeight).sum - 1) := by
  by_cases quoted : ∃ q ∈ t, isQuote q = true
  · have lost := weight_lt_of_quote quoteWeight (fun q isQ => if_pos isQ) reads quoted
    omega
  · have none_ : (t.map quoteWeight).sum = 0 := by
      refine List.sum_eq_zero_iff_forall_eq_nat.mpr fun n mem => ?_
      obtain ⟨c, inText, rfl⟩ := List.mem_map.mp mem
      exact if_neg fun isQ => quoted ⟨c, inText, isQ⟩
    have light := weight_run_le quoteWeight (s := ⟨.word, v⟩) trivial reads
    omega

/-- **A text in single quotes that comes out as it is has none.** -/
theorem noSingle_of_head {t : List Char} {w : Word} {ts : List Token}
    (first : (run ⟨.single, []⟩ (t ++ ['\'', '\n'])).2 = .word w :: ts) (chars : w.chars = t) :
    '\'' ∉ t := by
  intro mem
  obtain ⟨r, d, later, split, -, reads⟩ := split_of_head (s := ⟨.single, []⟩) trivial first
  obtain ⟨a, b, rfl, noSingle⟩ := List.eq_append_cons_of_mem mem
  rw [List.append_assoc] at split
  rcases List.append_eq_append_iff.mp split with ⟨more, rfl, behind⟩ | ⟨more, rfl, -⟩
  · rw [run_append_of (run_single [] noSingle), Prod.mk.injEq, List.nil_append] at reads
    cases more with
    | nil =>
        -- still in the quotes
        have final := congrArg State.mode reads.1
        cases final
    | cons c more =>
        rw [List.cons_append, List.cons_append, List.cons.injEq] at behind
        obtain ⟨rfl, behind⟩ := behind
        have rest : run ⟨.word, lits a⟩ more = (⟨.word, w⟩, []) := Prod.ext reads.1 reads.2
        have isPrefix : more <+: b ++ ['\''] := by
          have lengths := congrArg List.length behind
          have start : more <+: b ++ ['\'', '\n'] := ⟨d :: later, behind.symm⟩
          refine List.prefix_of_prefix_length_le start ⟨['\n'], by simp⟩ ?_
          simp only [List.length_append, List.length_cons, List.length_nil] at lengths ⊢
          omega
        -- the first quote is lost, and what has been read has one more at the most
        have heavy : weight quoteWeight ⟨.word, w⟩ =
            weight quoteWeight ⟨.word, lits a⟩ + (1 + (b.map quoteWeight).sum) := by
          rw [weight_word, weight_word, chars, chars_lits, List.map_append, List.sum_append,
            List.map_cons, List.sum_cons]
          rfl
        have enough : (more.map quoteWeight).sum ≤ (b.map quoteWeight).sum + 1 := by
          have within := sum_map_le_of_prefix quoteWeight isPrefix
          rwa [List.map_append, List.sum_append] at within
        have light := quoteWeight_run_le rest
        omega
  · have noSingle' : '\'' ∉ r := fun inside => noSingle (List.mem_append_left _ inside)
    rw [run_single [] noSingle'] at reads
    cases congrArg State.mode (congrArg Prod.fst reads)

end Shell

end PumaDev
