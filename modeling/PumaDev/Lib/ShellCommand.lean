import PumaDev.Lib.Shell

/-!
# Calling a shell

`sh -c` takes one operand as its command string; what follows are positional parameters,
which the command string may look at and which are no arguments of the command.

The words of a command string and what separates them are no longer than the string
(`sum_words_le`).  So a command whose words are themselves the operands of the call is
run only if there is one word, and this one needs no quotes: `runsCommand_iff`.
-/

namespace PumaDev

namespace Shell

/-! ## The length of a text and of its words -/

/-- The characters of a word and one that ends it. -/
def wordCost : Token → ℕ
  | .word w => w.length + 1
  | .operator _ | .newline => 0

/-- What is spent on words. -/
def cost (ts : List Token) : ℕ := (ts.map wordCost).sum

@[simp] theorem cost_nil : cost [] = 0 := rfl

@[simp] theorem cost_append (ts us : List Token) : cost (ts ++ us) = cost ts + cost us := by
  simp [cost]

@[simp] theorem cost_cons (t : Token) (ts : List Token) : cost (t :: ts) = wordCost t + cost ts :=
  by simp [cost]

theorem cost_delimiterTokens (c : Char) : cost (delimiterTokens c) = 0 := by
  unfold delimiterTokens
  split_ifs <;> rfl

/-- What has been read of a word that is not complete. -/
def pending (s : State) : ℕ :=
  match s.mode with
  | .between | .comment | .escapeBetween => 0
  | .word | .escape | .double | .single => s.word.length
  | .doubleEscape => s.word.length + 1

@[simp] theorem pending_word (w : Word) : pending ⟨.word, w⟩ = w.length := rfl

@[simp] theorem pending_between (w : Word) : pending ⟨.between, w⟩ = 0 := rfl

/-- A character is spent once. -/
theorem cost_step_le (s : State) (c : Char) :
    cost (step s c).2 + pending (step s c).1 ≤ pending s + 1 := by
  obtain ⟨mode, w⟩ := s
  have ends := cost_delimiterTokens c
  cases mode <;> simp only [step, inWord] <;> split_ifs <;>
    (simp [pending, wordCost, ends]; try omega)

/-- So is a text. -/
theorem cost_run_le (s : State) (t : List Char) :
    cost (run s t).2 + pending (run s t).1 ≤ pending s + t.length := by
  induction t generalizing s with
  | nil => simp
  | cons c t ih =>
      have here := cost_step_le s c
      have rest := ih (step s c).1
      rw [run_cons, cost_append, List.length_cons]
      dsimp only
      omega

/-- A whole text is read to a place where a word may begin, or inside the last word. -/
theorem tokens_cases {t : List Char} {ts : List Token} (reads : tokens t = some ts) :
    (run ⟨.between, []⟩ t).2 = ts ∨
      ∃ w us, run ⟨.between, []⟩ t = (⟨.word, w⟩, us) ∧ ts = us ++ [.word w] := by
  unfold tokens at reads
  split at reads
  · next ran =>
      cases reads
      exact Or.inl (by rw [ran])
  · next ran =>
      cases reads
      exact Or.inl (by rw [ran])
  · next w us ran =>
      cases reads
      exact Or.inr ⟨w, us, ran, rfl⟩
  · cases reads

/-- **The words of a text** and what separates them are no longer than the text. -/
theorem sum_words_le {t : List Char} {ts : List Token} (reads : tokens t = some ts) :
    cost ts ≤ t.length + 1 := by
  have enough := cost_run_le ⟨.between, []⟩ t
  rcases tokens_cases reads with rfl | ⟨w, us, ran, rfl⟩
  · rw [pending_between] at enough
    omega
  · rw [ran, pending_between, pending_word] at enough
    simp only [cost_append, cost_cons, cost_nil, wordCost] at enough ⊢
    omega

/-- Inside a word, what completes nothing costs nothing. -/
theorem silent_of_cost {s : State} (inside : s.mode.Inside) {t : List Char}
    (free : cost (run s t).2 = 0) : (run s t).2 = [] := by
  induction t generalizing s with
  | nil => rfl
  | cons c t ih =>
      rw [run_cons, cost_append] at free
      rcases step_inside inside c with ⟨-, -, ends⟩ | ⟨silent, inside'⟩
      · rw [ends] at free
        simp [wordCost] at free
      · rw [run_cons, silent, List.nil_append]
        exact ih inside' (by omega)

theorem weight_one (w : Word) : weight (fun _ => 1) ⟨.word, w⟩ = w.length := by
  rw [weight_word]
  induction w with
  | nil => rfl
  | cons p w ih =>
      simp only [Word.chars, List.map_cons, List.sum_cons, List.length_cons] at ih ⊢
      omega

/-- Where a word may begin, the first character of a text that is one whole word is the first
character of the word. -/
theorem begins_of_pending {c : Char} (begins : 1 ≤ pending (step ⟨.between, []⟩ c).1) :
    c ≠ '#' ∧ isDelimiter c = false ∧ isQuote c = false ∧
      step ⟨.between, []⟩ c = (⟨.word, [if c = '~' then .active '~' else pieceOf c]⟩, []) := by
  by_cases delimiter : isDelimiter c = true
  · rw [show step ⟨.between, []⟩ c = _ from if_pos delimiter] at begins
    simp [pending] at begins
  · rw [Bool.not_eq_true] at delimiter
    by_cases hash : c = '#'
    · subst hash
      cases begins
    · by_cases tilde : c = '~'
      · subst tilde
        exact ⟨hash, rfl, rfl, rfl⟩
      · cases quote : isQuote c with
        | true =>
            have which : c = '\'' ∨ c = '"' ∨ c = '\\' := by simpa [isQuote] using quote
            rcases which with rfl | rfl | rfl <;> cases begins
        | false =>
            have backslash : c ≠ '\\' := by
              rintro rfl
              cases quote
            refine ⟨hash, delimiter, rfl, ?_⟩
            simp only [step, delimiter, hash, tilde, backslash, if_false, Bool.false_eq_true]
            exact step_word_of_not_isQuote (w := []) quote delimiter

/-- **A text that is as long as one of its words** and comes out as it is: it is that word, is
plain, and a word can begin with it. -/
theorem plain_of_word {t : List Char} {ts : List Token} {w : Word} (reads : tokens t = some ts)
    (mem : .word w ∈ ts) (denotes : Denotes w t) :
    IsPlain t ∧ beginsWord t = true := by
  have long : w.length = t.length := by
    have lengths := congrArg List.length denotes.chars
    simpa [Word.chars] using lengths
  have spent : ∀ us, .word w ∈ us → t.length + 1 ≤ cost us := by
    intro us mem
    obtain ⟨us, vs, rfl⟩ := List.append_of_mem mem
    rw [cost_append, cost_cons, wordCost, long]
    omega
  have enough := cost_run_le ⟨.between, []⟩ t
  rw [pending_between] at enough
  -- the word is not complete before the end of the text
  obtain ⟨us, ran, free⟩ : ∃ us, run ⟨.between, []⟩ t = (⟨.word, w⟩, us) ∧ cost us = 0 := by
    rcases tokens_cases reads with rfl | ⟨w', us, ran, rfl⟩
    · have much := spent _ mem
      omega
    · rw [ran] at enough
      rw [pending_word] at enough
      dsimp only at enough
      rcases List.mem_append.mp mem with earlier | last
      · have much := spent _ earlier
        omega
      · cases List.mem_singleton.mp last
        exact ⟨us, ran, by omega⟩
  cases t with
  | nil =>
      cases ran
  | cons c t =>
      have rest := cost_run_le (step ⟨.between, []⟩ c).1 t
      rw [run_cons] at ran
      have final : (run (step ⟨.between, []⟩ c).1 t).1 = ⟨.word, w⟩ := congrArg Prod.fst ran
      have all : (step ⟨.between, []⟩ c).2 ++ (run (step ⟨.between, []⟩ c).1 t).2 = us :=
        congrArg Prod.snd ran
      rw [← all, cost_append] at free
      rw [final, pending_word] at rest
      rw [List.length_cons] at long
      obtain ⟨hash, delimiter, quote, enters⟩ := begins_of_pending (c := c) (by omega)
      rw [enters] at final free
      dsimp only at final free
      have silent : (run ⟨.word, [if c = '~' then .active '~' else pieceOf c]⟩ t).2 = [] :=
        silent_of_cost (s := ⟨.word, _⟩) trivial (by omega)
      have reads' : run ⟨.word, [if c = '~' then .active '~' else pieceOf c]⟩ t =
          (⟨.word, w⟩, []) := Prod.ext final silent
      have unquoted : ∀ d ∈ t, isQuote d = false := by
        intro d mem
        by_contra quoted
        have lost := weight_lt_of_quote (fun _ => 1) (fun _ _ => rfl) reads'
          ⟨d, mem, by simpa using quoted⟩
        rw [weight_one, weight_one] at lost
        simp at lost
        omega
      obtain ⟨whole, apart⟩ := run_word_of_no_quote reads' unquoted
      have pieces : w = [if c = '~' then .active '~' else pieceOf c] ++ bare t :=
        congrArg State.word whole
      have tilde : c ≠ '~' := by
        rintro rfl
        have replaced := denotes.inert '~' (by rw [pieces]; simp)
        cases replaced
      have bareWord : w = bare (c :: t) := by simpa [tilde, bare] using pieces
      refine ⟨⟨?_, bareWord ▸ denotes.bracket⟩, by simp [beginsWord, hash, tilde]⟩
      intro d mem
      -- a character that is replaced would be active
      have kept : ¬ (isExpansion d = true ∨ d ∈ "*?".toList) := by
        intro special
        obtain ⟨active, replaced⟩ := pieceOf_of_special special
        have inWord : Piece.active d ∈ w := by
          rw [bareWord, ← active]
          exact List.mem_map_of_mem mem
        rw [denotes.inert d inWord] at replaced
        cases replaced
      rw [not_or, Bool.not_eq_true] at kept
      rcases List.mem_cons.mp mem with rfl | later
      · exact isOrdinary_iff.mpr ⟨delimiter, quote, kept⟩
      · exact isOrdinary_iff.mpr ⟨apart d later, unquoted d later, kept⟩

/-! ## What a command string runs -/

/-- The reserved words. -/
def reservedWords : List String :=
  ["!", "\x7b", "\x7d", "case", "do", "done", "elif", "else", "esac", "fi", "for", "if", "in",
    "then", "until", "while"]

/-- The first word as it is written, as far as it has no quotes. -/
def firstWord (t : List Char) : List Char :=
  (t.dropWhile fun c => isBlank c || c = '\n').takeWhile fun c => !isDelimiter c

/-- The command begins with a reserved word. -/
def isReserved (t : List Char) : Bool := reservedWords.any fun r => r.toList = firstWord t

/-- A character of a variable's name. -/
def isNameChar (c : Char) : Bool := c.isAlphanum || c = '_'

/-- The command begins with an assignment. -/
def isAssignment (t : List Char) : Bool :=
  match firstWord t with
  | [] => false
  | c :: rest => isNameChar c && !c.isDigit && (rest.dropWhile isNameChar).head? = some '='

/-- The text is one simple command and blank lines: it runs this command with these arguments,
whatever variables and files there are. -/
structure RunsCommand (t : List Char) (argv : List (List Char)) : Prop where
  words : ∃ (before after : ℕ) (ws : List Word),
    tokens t = some (List.replicate before .newline ++ ws.map .word ++
      List.replicate after .newline) ∧ List.Forall₂ Denotes ws argv
  reserved : isReserved t = false
  assignment : isAssignment t = false

/-- A text that a shell reads as the name of a command, and as nothing else. -/
structure IsCommandWord (t : List Char) : Prop where
  plain : IsPlain t
  begins : beginsWord t = true
  reserved : isReserved t = false
  assignment : isAssignment t = false

/-- Words cost as much as the texts they denote. -/
theorem cost_words {ws : List Word} {argv : List (List Char)}
    (each : List.Forall₂ Denotes ws argv) :
    cost (ws.map .word) = (argv.map fun a => a.length + 1).sum := by
  induction each with
  | nil => rfl
  | @cons w t ws argv denotes _ ih =>
      have long : w.length = t.length := by
        have lengths := congrArg List.length denotes.chars
        simpa [Word.chars] using lengths
      rw [List.map_cons, cost_cons, ih, wordCost, long, List.map_cons, List.sum_cons]

/-- **A command that is one of its own words** runs what it is to run only if it is the only
word, and a plain one. -/
theorem runsCommand_iff {t : List Char} {argv : List (List Char)} (mem : t ∈ argv) :
    RunsCommand t argv ↔ argv = [t] ∧ IsCommandWord t := by
  constructor
  · rintro ⟨⟨before, after, ws, reads, each⟩, reserved, assignment⟩
    have enough := sum_words_le reads
    rw [cost_append, cost_append, cost_words each] at enough
    obtain ⟨earlier, later, rfl⟩ := List.append_of_mem mem
    rw [List.map_append, List.map_cons, List.sum_append, List.sum_cons] at enough
    have alone : earlier = [] ∧ later = [] := by
      constructor
      · cases earlier with
        | nil => rfl
        | cons a earlier =>
            rw [List.map_cons, List.sum_cons] at enough
            omega
      · cases later with
        | nil => rfl
        | cons a later =>
            rw [List.map_cons, List.sum_cons] at enough
            omega
    obtain ⟨rfl, rfl⟩ := alone
    cases each with
    | @cons w _ ws _ denotes _ =>
        have inside : Token.word w ∈ List.replicate before .newline ++ (w :: ws).map .word ++
            List.replicate after .newline := by simp
        obtain ⟨plain, begins⟩ := plain_of_word reads inside denotes
        exact ⟨rfl, plain, begins, reserved, assignment⟩
  · rintro ⟨rfl, plain, begins, reserved, assignment⟩
    refine ⟨⟨0, 0, [bare t], ?_, .cons plain.denotes .nil⟩, reserved, assignment⟩
    exact tokens_of_word (run_begin plain begins)

/-! ## Options and operands -/

/-- An argument in front of the operands that is no operand. -/
def isOption : List Char → Bool
  | '-' :: _ | '+' :: _ => true
  | _ => false

/-- Whether there is an option `-c`, and the operands: `pending` arguments belong to options
`-o`. -/
def operands (pending : ℕ) (c : Bool) : List (List Char) → Bool × List (List Char)
  | [] => (c, [])
  | a :: rest =>
      match pending with
      | pending + 1 => operands pending c rest
      | 0 =>
          if a = ['-', '-'] ∨ a = ['-'] then (c, rest)
          else if isOption a then
            operands (a.count 'o') (c || a.head? = some '-' && a.contains 'c') rest
          else (c, a :: rest)

/-- The command string of a call with these arguments. -/
def commandString (args : List (List Char)) : Option (List Char) :=
  match operands 0 false args with
  | (true, t :: _) => some t
  | _ => none

/-- A plain option flag: options that have no argument, and do not change where the commands
are read from. -/
structure IsFlag (a : List Char) : Prop where
  option : ∃ sign letters, a = sign :: letters ∧ (sign = '-' ∨ sign = '+') ∧ letters ≠ []
  letters : ∀ letter ∈ a.tail, letter.isAlpha = true ∧ letter ≠ 'c' ∧ letter ≠ 'o' ∧ letter ≠ 's'

/-- Flags are passed over. -/
theorem operands_flags {flags : List (List Char)} (each : ∀ a ∈ flags, IsFlag a) (c : Bool)
    (args : List (List Char)) : operands 0 c (flags ++ args) = operands 0 c args := by
  induction flags with
  | nil => rfl
  | cons a flags ih =>
      obtain ⟨flag, others⟩ := List.forall_mem_cons.mp each
      obtain ⟨sign, letters, rfl, which, some_⟩ := flag.option
      have option : isOption (sign :: letters) = true := by
        rcases which with rfl | rfl <;> rfl
      have apart : ¬ (sign :: letters = ['-', '-'] ∨ sign :: letters = ['-']) := by
        rintro (dashes | dash)
        · obtain ⟨rfl, rfl⟩ := List.cons.inj dashes
          have alpha := (flag.letters '-' (by simp)).1
          revert alpha
          decide
        · exact some_ (List.cons.inj dash).2
      have noC : 'c' ∉ letters := fun mem => (flag.letters 'c' mem).2.1 rfl
      have noO : 'o' ∉ letters := fun mem => (flag.letters 'o' mem).2.2.1 rfl
      have count : (sign :: letters).count 'o' = 0 := by
        rw [List.count_eq_zero]
        rcases which with rfl | rfl <;> simp [noO]
      have seen : (sign :: letters).contains 'c' = false := by
        rcases which with rfl | rfl <;> simp [noC]
      rw [List.cons_append, operands, if_neg apart, if_pos option, count, seen, Bool.and_false,
        Bool.or_false]
      exact ih others

/-- The option `-c` may be followed by more options. -/
theorem operands_c (args : List (List Char)) :
    operands 0 false (['-', 'c'] :: args) = operands 0 true args := rfl

/-- The operands are the last arguments. -/
theorem operands_suffix (pending : ℕ) (c : Bool) (args : List (List Char)) :
    (operands pending c args).2 <:+ args := by
  induction args generalizing pending c with
  | nil => exact List.suffix_rfl
  | cons a rest ih =>
      cases pending with
      | succ pending => exact (ih pending c).trans (List.suffix_cons a rest)
      | zero =>
          simp only [operands]
          split
          · exact List.suffix_cons a rest
          · split
            · exact (ih _ _).trans (List.suffix_cons a rest)
            · exact List.suffix_rfl

theorem operands_fst (pending : ℕ) (args : List (List Char)) :
    (operands pending true args).1 = true := by
  induction args generalizing pending with
  | nil => rfl
  | cons a rest ih =>
      cases pending with
      | succ pending => exact ih pending
      | zero =>
          simp only [operands]
          split
          · rfl
          · split
            · exact ih _
            · rfl

/-- Behind flags and `-c`, the command string is the first operand. -/
theorem commandString_flags {flags : List (List Char)} (each : ∀ a ∈ flags, IsFlag a)
    (args : List (List Char)) :
    commandString (flags ++ ['-', 'c'] :: args) = (operands 0 true args).2.head? := by
  have found := operands_fst 0 args
  rw [commandString, operands_flags each, operands_c]
  generalize operands 0 true args = parsed at found ⊢
  obtain ⟨c, rest⟩ := parsed
  cases found
  cases rest <;> rfl

/-- **When a shell runs what it is given behind `-c`**: if it is a single operand that needs
no quotes. -/
theorem commandString_runs_iff {flags : List (List Char)} (each : ∀ a ∈ flags, IsFlag a)
    (argv : List (List Char)) :
    (∃ t, commandString (flags ++ ['-', 'c'] :: argv) = some t ∧ RunsCommand t argv) ↔
      ∃ t, argv = [t] ∧ isOption t = false ∧ IsCommandWord t := by
  rw [commandString_flags each]
  constructor
  · rintro ⟨t, first, runs⟩
    have mem : t ∈ argv :=
      (operands_suffix 0 true argv).subset (List.mem_of_mem_head? first)
    obtain ⟨rfl, word⟩ := (runsCommand_iff mem).mp runs
    refine ⟨t, rfl, ?_, word⟩
    by_contra option
    rw [Bool.not_eq_false] at option
    simp only [operands, option, if_true] at first
    split at first <;> cases first
  · rintro ⟨t, rfl, operand, word⟩
    refine ⟨t, ?_, (runsCommand_iff List.mem_cons_self).mpr ⟨rfl, word⟩⟩
    have apart : ¬ (t = ['-', '-'] ∨ t = ['-']) := by
      rintro (rfl | rfl) <;> cases operand
    simp [operands, apart, operand]

end Shell

end PumaDev
