import PumaDev.Lib.JsonText

/-!
# Laying JSON out

White space is put into a JSON text behind opening brackets, commas and colons and before
closing brackets; what white space there was is left out.  Whether a character is punctuation
depends on where the reader is: inside a string literal it is not.  So the layout goes along
with the reader.

`parse_indent` says that the text is read as the same value.  The reader of the new text is
always in the state of the reader of the old one, with one exception: where a number has been
ended by white space that is left out, it still waits for the end of the number (`Waits`).
-/

namespace PumaDev

namespace Json

/-- The reader is inside a string literal. -/
def Mode.inString : Mode → Bool
  | .str .. | .esc .. | .hex .. => true
  | _ => false

/-- The document has ended, or may end here with a number. -/
def Scan.atEnd (s : Scan) : Bool :=
  match s.mode with
  | .done _ => true
  | .num _ => s.stack.isEmpty
  | _ => false

/-- How far into the layout we are: the depth, and whether the white space behind an opening
bracket is still owed. -/
structure Margin where
  depth : ℕ
  owed : Bool

/-- What is written for a character that is no white space, outside of string literals;
`newline` is the white space that begins a line at a depth. -/
def layOut (newline : ℕ → List Char) (m : Margin) (c : Char) : List Char × Margin :=
  if c = '}' ∨ c = ']' then
    if m.owed then ([c], { m with owed := false })
    else (newline (m.depth - 1) ++ [c], { m with depth := m.depth - 1 })
  else
    -- what comes first behind a bracket begins a line
    let front := if m.owed then newline (m.depth + 1) else []
    let depth := if m.owed then m.depth + 1 else m.depth
    if c = '{' ∨ c = '[' then (front ++ [c], ⟨depth, true⟩)
    else if c = ',' then (front ++ c :: newline depth, ⟨depth, false⟩)
    else if c = ':' then (front ++ [c, ' '], ⟨depth, false⟩)
    else (front ++ [c], ⟨depth, false⟩)

/-- The text, laid out from here on; `none` if it is no JSON. -/
def indentFrom (newline : ℕ → List Char) (s : Scan) (m : Margin) :
    List Char → Option (List Char)
  | [] => some []
  | c :: rest =>
      match read s c with
      | none => none
      | some t =>
          if s.mode.inString ∨ (isSpace c ∧ s.atEnd) then
            (indentFrom newline t m rest).map (c :: ·)
          else if isSpace c then indentFrom newline t m rest
          else
            (indentFrom newline t (layOut newline m c).2 rest).map ((layOut newline m c).1 ++ ·)

/-- The text, laid out. -/
def indent (newline : ℕ → List Char) (text : List Char) : Option (List Char) :=
  if (parse text).isSome then indentFrom newline ⟨[], .value⟩ ⟨0, false⟩ text else none

/-- White space only. -/
def AllSpace (w : List Char) : Prop := ∀ c ∈ w, isSpace c = true

/-! ## Where white space changes nothing -/

/-- White space may stand here. -/
def Scan.Roomy (s : Scan) : Prop := ∀ c, isSpace c = true → read s c = some s

theorem Scan.Roomy.scan {s : Scan} (roomy : s.Roomy) {w : List Char} (space : AllSpace w)
    (rest : List Char) : scan s (w ++ rest) = Json.scan s rest := by
  induction w with
  | nil => rfl
  | cons c w ih =>
      rw [List.cons_append, scan_of_read (roomy c (space c List.mem_cons_self))]
      exact ih fun d mem => space d (List.mem_cons_of_mem _ mem)

/-- What comes behind a finished value. -/
theorem read_deliver (v : Json) (stack : List Frame) (c : Char) :
    read (deliver v stack) c = afterValue (deliver v stack) c := by
  cases stack with
  | nil => rfl
  | cons frame stack => cases frame <;> rfl

theorem roomy_deliver (v : Json) (stack : List Frame) : (deliver v stack).Roomy := by
  intro c space
  rw [read_deliver, afterValue, if_pos space]

/-- A number goes on with no white space, comma or bracket. -/
theorem number_read_eq_none (a : Number) {c : Char}
    (ends : isSpace c = true ∨ c = ',' ∨ c = '}' ∨ c = ']') : a.read c = none := by
  have other : isDigit c = false ∧ c ≠ '.' ∧ c ≠ 'e' ∧ c ≠ 'E' ∧ c ≠ '0' ∧ c ≠ '+' ∧ c ≠ '-' := by
    simp only [isSpace, Bool.or_eq_true, decide_eq_true_eq] at ends
    rcases ends with (((rfl | rfl) | rfl) | rfl) | rfl | rfl | rfl <;> decide
  obtain ⟨digit, point, small, capital, zero, plus, minus⟩ := other
  have none_ : a.extend c = none := by
    simp [Number.extend, point, small, capital]
  unfold Number.read
  split <;> simp [digit, zero, plus, minus, none_]

/-- The end of a number. -/
theorem read_number_end (stack : List Frame) (a : Number) {c : Char}
    (ends : isSpace c = true ∨ c = ',' ∨ c = '}' ∨ c = ']') :
    read ⟨stack, .num a⟩ c = a.finish.bind fun v => read (deliver v stack) c := by
  simp only [read_deliver]
  simp only [read, number_read_eq_none a ends]

/-- What is left of a literal name has letters only. -/
def Mode.Literals : Mode → Prop
  | .lit rest _ => ∀ c ∈ rest, c ∈ ['r', 'u', 'e', 'a', 'l', 's']
  | _ => True

theorem literals_deliver (v : Json) (stack : List Frame) : (deliver v stack).mode.Literals := by
  cases stack with
  | nil => trivial
  | cons frame stack => cases frame <;> trivial

theorem literals_push {frame : Frame} {stack : List Frame} {mode : Mode} {t : Scan}
    (h : push frame stack mode = some t) : t.mode = mode := by
  unfold push at h
  split at h
  · cases h
    rfl
  · cases h

theorem literals_close {c : Char} {stack : List Frame} {t : Scan} (h : close c stack = some t) :
    t.mode.Literals := by
  unfold close at h
  split at h
  · split at h
    · cases h
      exact literals_deliver _ _
    · cases h
  · split at h
    · cases h
      exact literals_deliver _ _
    · cases h
  · cases h

theorem literals_beginValue {stack : List Frame} {c : Char} {t : Scan}
    (h : beginValue stack c = some t) : t.mode.Literals := by
  unfold beginValue at h
  split_ifs at h
  · cases h
    trivial
  · rw [literals_push h]
    trivial
  · rw [literals_push h]
    trivial
  · cases h
    trivial
  · cases h
    show ∀ c ∈ _, _
    decide
  · cases h
    show ∀ c ∈ _, _
    decide
  · cases h
    show ∀ c ∈ _, _
    decide
  · obtain ⟨a, -, rfl⟩ := Option.map_eq_some_iff.mp h
    trivial

theorem literals_afterValue {s t : Scan} {c : Char} (literals : s.mode.Literals)
    (h : afterValue s c = some t) : t.mode.Literals := by
  unfold afterValue at h
  split at h
  · cases h
    exact literals
  · split at h
    · split at h
      · cases h
        trivial
      · exact literals_close h
    · split at h
      · cases h
        trivial
      · exact literals_close h
    · cases h

/-- **Reading keeps to letters** in literal names. -/
theorem literals_read {s t : Scan} {c : Char} (literals : s.mode.Literals)
    (h : read s c = some t) : t.mode.Literals := by
  rcases s with ⟨stack, mode⟩
  unfold read at h
  cases mode with
  | value => exact literals_beginValue h
  | valueOrEnd =>
      dsimp only at h
      split_ifs at h
      · cases h
        trivial
      · exact literals_close h
      · exact literals_beginValue h
  | keyOrEnd =>
      dsimp only at h
      split_ifs at h
      · cases h
        trivial
      · exact literals_close h
      · cases h
        trivial
  | key | colon =>
      dsimp only at h
      split_ifs at h
      · cases h
        trivial
      · cases h
        trivial
  | afterValue | done => exact literals_afterValue literals h
  | str isKey acc =>
      dsimp only [readString] at h
      split_ifs at h
      · unfold endString at h
        split at h
        · split at h
          · cases h
            trivial
          · cases h
        · cases h
          exact literals_deliver _ _
      · cases h
        trivial
      · cases h
        trivial
  | esc isKey acc =>
      dsimp only at h
      split_ifs at h
      · cases h
        trivial
      · obtain ⟨d, -, rfl⟩ := Option.map_eq_some_iff.mp h
        trivial
  | hex isKey acc missing n =>
      obtain ⟨d, -, rfl⟩ := Option.map_eq_some_iff.mp h
      split <;> trivial
  | lit rest v =>
      cases rest with
      | nil => cases h
      | cons d more =>
          dsimp only at h
          split_ifs at h
          · cases h
            exact literals_deliver _ _
          · cases h
            exact fun e mem => literals e (List.mem_cons_of_mem _ mem)
  | num a =>
      dsimp only at h
      split at h
      · cases h
        trivial
      · obtain ⟨v, -, after⟩ := Option.bind_eq_some_iff.mp h
        exact literals_afterValue (literals_deliver v stack) after

/-- The modes in which white space may stand. -/
def Mode.Roomy : Mode → Prop
  | .value | .valueOrEnd | .keyOrEnd | .key | .colon | .afterValue | .done _ => True
  | _ => False

theorem roomy_of_mode {s : Scan} (h : s.mode.Roomy) : s.Roomy := by
  intro c space
  rcases s with ⟨stack, mode⟩
  cases mode with
  | value | valueOrEnd | keyOrEnd | key | colon | afterValue | done =>
      simp [read, beginValue, afterValue, space]
  | _ => cases h

/-- **Before a closing bracket** white space changes nothing that could be read. -/
theorem scan_space_closer {s t : Scan} {c : Char} (closer : c = '}' ∨ c = ']')
    (plain : s.mode.inString = false) (literals : s.mode.Literals) (reads : read s c = some t)
    {w : List Char} (space : AllSpace w) : scan s (w ++ [c]) = some t := by
  have single : scan s [c] = some t := by rw [scan_of_read reads, scan_nil]
  by_cases roomy : s.mode.Roomy
  · rw [(roomy_of_mode roomy).scan space, single]
  · rcases s with ⟨stack, mode⟩
    cases mode with
    | str | esc | hex => cases plain
    | num a =>
        cases w with
        | nil => exact single
        | cons b w =>
            -- the number ends at the white space instead of at the bracket
            rw [read_number_end stack a (Or.inr (Or.inr closer))] at reads
            obtain ⟨v, ended, last⟩ := Option.bind_eq_some_iff.mp reads
            have first : read ⟨stack, .num a⟩ b = some (deliver v stack) := by
              rw [read_number_end stack a (Or.inl (space b List.mem_cons_self)), ended,
                Option.bind_some, roomy_deliver v stack b (space b List.mem_cons_self)]
            rw [List.cons_append, scan_of_read first, (roomy_deliver v stack).scan
              fun d mem => space d (List.mem_cons_of_mem _ mem), scan_of_read last, scan_nil]
    | lit rest v =>
        -- no letter of a literal is a bracket
        exfalso
        cases rest with
        | nil => cases reads
        | cons d more =>
            have letter := literals d List.mem_cons_self
            have apart : c ≠ d := by
              rintro rfl
              rcases closer with rfl | rfl <;> revert letter <;> decide
            simp [read, apart] at reads
    | _ => exact absurd trivial roomy

/-- **Behind a comma or a colon** white space may stand. -/
theorem roomy_read {s t : Scan} {c : Char} (mark : c = ',' ∨ c = ':')
    (plain : s.mode.inString = false) (literals : s.mode.Literals) (reads : read s c = some t) :
    t.Roomy := by
  have noSpace : isSpace c = false := by rcases mark with rfl | rfl <;> decide
  have noClose : ∀ stack, close c stack = none := by
    intro stack
    rcases mark with rfl | rfl <;> (unfold close; split <;> simp)
  have noValue : ∀ stack, beginValue stack c = none := by
    intro stack
    rcases mark with rfl | rfl <;> rfl
  have behind : ∀ s' : Scan, afterValue s' c = some t → t.Roomy := by
    intro s' h
    unfold afterValue at h
    rw [noSpace, if_neg Bool.false_ne_true] at h
    split at h
    · split at h
      · cases h
        exact roomy_of_mode trivial
      · rw [noClose] at h
        cases h
    · split at h
      · cases h
        exact roomy_of_mode trivial
      · rw [noClose] at h
        cases h
    · cases h
  rcases s with ⟨stack, mode⟩
  cases mode with
  | str | esc | hex => cases plain
  | value =>
      rw [show read ⟨stack, .value⟩ c = beginValue stack c from rfl, noValue] at reads
      cases reads
  | valueOrEnd =>
      simp only [read, noSpace, noClose, noValue, Bool.false_eq_true, if_false, ite_self] at reads
      cases reads
  | keyOrEnd =>
      have apart : c ≠ '"' := by rcases mark with rfl | rfl <;> decide
      simp only [read, noSpace, noClose, apart, Bool.false_eq_true, if_false, ite_self] at reads
      cases reads
  | key =>
      have apart : c ≠ '"' := by rcases mark with rfl | rfl <;> decide
      simp only [read, noSpace, apart, Bool.false_eq_true, if_false] at reads
      cases reads
  | colon =>
      simp only [read, noSpace, Bool.false_eq_true, if_false] at reads
      split at reads
      · cases reads
        exact roomy_of_mode trivial
      · cases reads
  | afterValue | done => exact behind _ reads
  | lit rest v =>
      exfalso
      cases rest with
      | nil => cases reads
      | cons d more =>
          have letter := literals d List.mem_cons_self
          have apart : c ≠ d := by
            rintro rfl
            rcases mark with rfl | rfl <;> revert letter <;> decide
          simp [read, apart] at reads
  | num a =>
      simp only [read] at reads
      split at reads
      · next more =>
          rcases mark with rfl | rfl
          · rw [number_read_eq_none a (Or.inr (Or.inl rfl))] at more
            cases more
          · -- a colon is in no number either
            unfold Number.read at more
            split at more <;> simp [isDigit, Number.extend] at more
      · obtain ⟨v, -, after⟩ := Option.bind_eq_some_iff.mp reads
        exact behind _ after

/-- An opening bracket has just been read. -/
def Mode.Opened : Mode → Prop
  | .valueOrEnd | .keyOrEnd => True
  | _ => False

theorem Mode.Opened.eq {mode : Mode} (opened : mode.Opened) :
    mode = .valueOrEnd ∨ mode = .keyOrEnd := by
  cases mode with
  | valueOrEnd => exact Or.inl rfl
  | keyOrEnd => exact Or.inr rfl
  | _ => cases opened

theorem Mode.Opened.roomy {mode : Mode} (opened : mode.Opened) : mode.Roomy := by
  rcases opened.eq with rfl | rfl <;> trivial

/-- **An opening bracket** opens a container. -/
theorem opened_read {s t : Scan} {c : Char} (opener : c = '{' ∨ c = '[')
    (plain : s.mode.inString = false) (literals : s.mode.Literals) (reads : read s c = some t) :
    t.mode.Opened := by
  have noSpace : isSpace c = false := by rcases opener with rfl | rfl <;> decide
  have other : c ≠ ',' ∧ c ≠ ':' ∧ c ≠ '"' ∧ c ≠ '}' ∧ c ≠ ']' := by
    rcases opener with rfl | rfl <;> decide
  obtain ⟨comma, colon, quote, brace, bracket⟩ := other
  have opens : ∀ stack, beginValue stack c = some t → t.mode.Opened := by
    intro stack h
    rcases opener with rfl | rfl
    · have mode := literals_push (show push (.obj [] []) stack .keyOrEnd = some t from h)
      rw [mode]
      trivial
    · have mode := literals_push (show push (.arr []) stack .valueOrEnd = some t from h)
      rw [mode]
      trivial
  have behind : ∀ s' : Scan, afterValue s' c ≠ some t := by
    intro s' h
    unfold afterValue close at h
    rw [noSpace, if_neg Bool.false_ne_true] at h
    split at h
    · simp [comma, brace, bracket] at h
      split at h <;> cases h
    · simp [comma, brace, bracket] at h
      split at h <;> cases h
    · cases h
  rcases s with ⟨stack, mode⟩
  cases mode with
  | str | esc | hex => cases plain
  | value => exact opens stack reads
  | valueOrEnd =>
      simp only [read, noSpace, bracket, Bool.false_eq_true, if_false] at reads
      exact opens stack reads
  | keyOrEnd | key | colon =>
      simp [read, noSpace, brace, quote, colon] at reads
  | afterValue | done => exact absurd reads (behind _)
  | lit rest v =>
      exfalso
      cases rest with
      | nil => cases reads
      | cons d more =>
          have letter := literals d List.mem_cons_self
          have apart : c ≠ d := by
            rintro rfl
            rcases opener with rfl | rfl <;> revert letter <;> decide
          simp [read, apart] at reads
  | num a =>
      simp only [read] at reads
      split at reads
      · next more =>
          unfold Number.read at more
          rcases opener with rfl | rfl <;> (split at more <;> simp [isDigit, Number.extend] at more)
      · obtain ⟨v, -, after⟩ := Option.bind_eq_some_iff.mp reads
        exact absurd after (behind _)

/-! ## The layout and the reader -/

/-- `s'` is where the reader of the new text is when the reader of the old one is at `s`. -/
inductive Waits : Scan → Scan → Prop where
  | same (s : Scan) : Waits s s
  | number {stack : List Frame} {a : Number} {v : Json} (ended : a.finish = some v) :
      Waits ⟨stack, .num a⟩ (deliver v stack)

theorem mode_deliver (v : Json) (stack : List Frame) :
    (deliver v stack).mode.inString = false ∧ ¬ (deliver v stack).mode.Opened := by
  cases stack with
  | nil => exact ⟨rfl, id⟩
  | cons frame stack => cases frame <;> exact ⟨rfl, id⟩

/-- A document that ends here ends there. -/
theorem Waits.finish {s' s : Scan} (waits : Waits s' s) : s'.finish = s.finish := by
  cases waits with
  | same => rfl
  | @number stack a v ended =>
      cases stack with
      | nil => exact ended
      | cons frame stack => cases frame <;> rfl

theorem Waits.plain {s' s : Scan} (waits : Waits s' s) (plain : s.mode.inString = false) :
    s'.mode.inString = false := by
  cases waits with
  | same => exact plain
  | number => rfl

theorem Waits.literals {s' s : Scan} (waits : Waits s' s) (literals : s.mode.Literals) :
    s'.mode.Literals := by
  cases waits with
  | same => exact literals
  | number => trivial

/-- Behind a finished value come a comma and a closing bracket. -/
theorem mark_of_deliver {v : Json} {stack : List Frame} {c : Char} {t : Scan}
    (noSpace : isSpace c = false) (reads : read (deliver v stack) c = some t) :
    c = ',' ∨ c = '}' ∨ c = ']' := by
  rw [read_deliver, afterValue, noSpace, if_neg Bool.false_ne_true] at reads
  cases stack with
  | nil => cases reads
  | cons frame stack =>
      cases frame <;>
        (simp only [deliver, close] at reads
         by_cases comma : c = ','
         · exact Or.inl comma
         · rw [if_neg comma] at reads
           split at reads
           · next closes => exact Or.inr (by tauto)
           · cases reads)

/-- What is no white space is read as before. -/
theorem Waits.read {s' s t : Scan} (waits : Waits s' s) {c : Char} (noSpace : isSpace c = false)
    (reads : Json.read s c = some t) : Json.read s' c = some t := by
  cases waits with
  | same => exact reads
  | number ended =>
      rw [read_number_end _ _ (Or.inr (mark_of_deliver noSpace reads)), ended, Option.bind_some,
        reads]

/-- **One character, laid out.** -/
theorem scan_layOut {newline : ℕ → List Char} (space : ∀ d, AllSpace (newline d)) {s' s t : Scan}
    {m : Margin} {c : Char} (waits : Waits s' s) (plain : s.mode.inString = false)
    (literals : s.mode.Literals) (owes : m.owed = true → s.mode.Opened)
    (noSpace : isSpace c = false) (reads : read s c = some t) :
    scan s' (layOut newline m c).1 = some t ∧
      ((layOut newline m c).2.owed = true → t.mode.Opened) := by
  have reads' := waits.read noSpace reads
  have single : scan s' [c] = some t := by rw [scan_of_read reads', scan_nil]
  unfold layOut
  by_cases closer : c = '}' ∨ c = ']'
  · rw [if_pos closer]
    split
    · exact ⟨single, nofun⟩
    · next none_ =>
        exact ⟨scan_space_closer closer (waits.plain plain) (waits.literals literals) reads'
          (space _), fun owed => absurd owed none_⟩
  · rw [if_neg closer]
    -- nothing is owed but behind a bracket, where white space may stand
    have front : ∀ rest, scan s' ((if m.owed then newline (m.depth + 1) else []) ++ rest) =
        scan s' rest := by
      intro rest
      split
      · next owed =>
          cases waits with
          | same => exact (roomy_of_mode (owes owed).roomy).scan (space _) rest
          | number => exact absurd (owes owed) (mode_deliver _ _).2
      · rfl
    dsimp only
    split
    · next opener =>
        exact ⟨(front _).trans single, fun _ => opened_read opener plain literals reads⟩
    · split
      · next comma =>
          have roomy := roomy_read (Or.inl comma) plain literals reads
          refine ⟨?_, nofun⟩
          rw [front, scan_of_read reads', ← List.append_nil (newline _), roomy.scan (space _),
            scan_nil]
      · split
        · next colon =>
            have roomy := roomy_read (Or.inr colon) plain literals reads
            refine ⟨?_, nofun⟩
            rw [front, scan_of_read reads', scan_of_read (roomy ' ' rfl), scan_nil]
        · exact ⟨(front _).trans single, nofun⟩

/-- White space that is left out. -/
theorem Waits.skip {s' s t : Scan} (waits : Waits s' s) (plain : s.mode.inString = false)
    (literals : s.mode.Literals) {c : Char} (space : isSpace c = true)
    (reads : Json.read s c = some t) : Waits s' t ∧ (s.mode.Opened → t = s) := by
  by_cases roomy : s.mode.Roomy
  · rw [roomy_of_mode roomy c space] at reads
    cases reads
    exact ⟨waits, fun _ => rfl⟩
  · refine ⟨?_, fun opened => absurd opened.roomy roomy⟩
    cases waits with
    | number ended =>
        rw [roomy_deliver _ _ c space] at reads
        cases reads
        exact .number ended
    | same =>
        rcases s' with ⟨stack, mode⟩
        cases mode with
        | str | esc | hex => cases plain
        | num a =>
            rw [read_number_end stack a (Or.inl space)] at reads
            obtain ⟨v, ended, last⟩ := Option.bind_eq_some_iff.mp reads
            rw [roomy_deliver v stack c space] at last
            cases last
            exact .number ended
        | lit rest v =>
            exfalso
            cases rest with
            | nil => cases reads
            | cons d more =>
                have letter := literals d List.mem_cons_self
                have apart : c ≠ d := by
                  rintro rfl
                  have visible : ∀ e ∈ ['r', 'u', 'e', 'a', 'l', 's'], isSpace e = false := by
                    decide
                  rw [visible c letter] at space
                  cases space
                simp [Json.read, apart] at reads
        | _ => exact absurd trivial roomy

/-- White space behind the document stays. -/
theorem Waits.trailing {s' s t : Scan} (waits : Waits s' s) {c : Char}
    (space : isSpace c = true) (reads : Json.read s c = some t) : Json.read s' c = some t := by
  cases waits with
  | same => exact reads
  | number ended => rw [read_number_end _ _ (Or.inl space), ended, Option.bind_some, reads]

/-- **The rest of a text, laid out.** -/
theorem scan_indentFrom {newline : ℕ → List Char} (space : ∀ d, AllSpace (newline d))
    (text : List Char) {s' s t : Scan} {m : Margin} (waits : Waits s' s)
    (literals : s.mode.Literals) (owes : m.owed = true → s.mode.Opened)
    (scans : scan s text = some t) :
    ∃ out t', indentFrom newline s m text = some out ∧ scan s' out = some t' ∧ Waits t' t := by
  induction text generalizing s' s m with
  | nil =>
      cases scans
      exact ⟨[], s', rfl, rfl, waits⟩
  | cons c rest ih =>
      rw [scan_cons] at scans
      obtain ⟨u, reads, later⟩ := Option.bind_eq_some_iff.mp scans
      have literals' := literals_read literals reads
      by_cases inside : s.mode.inString = true
      · -- a string literal is copied
        have same : s' = s := by
          cases waits with
          | same => rfl
          | number => exact absurd inside (by rw [(mode_deliver _ _).1]; exact Bool.false_ne_true)
        have none_ : m.owed ≠ true := by
          intro owed
          rcases (owes owed).eq with mode | mode <;> (rw [mode] at inside; cases inside)
        subst same
        obtain ⟨out, t', written, scans', waits'⟩ :=
          ih (m := m) (.same u) literals' (fun owed => absurd owed none_) later
        refine ⟨c :: out, t', ?_, ?_, waits'⟩
        · rw [indentFrom, reads]
          simp [inside, written]
        · rw [scan_of_read reads, scans']
      · have plain : s.mode.inString = false := Bool.eq_false_iff.mpr inside
        by_cases blank : isSpace c = true
        · by_cases ended : s.atEnd = true
          · have none_ : m.owed ≠ true := by
              intro owed
              rw [Scan.atEnd] at ended
              rcases (owes owed).eq with mode | mode <;> (rw [mode] at ended; cases ended)
            obtain ⟨out, t', written, scans', waits'⟩ :=
              ih (m := m) (.same u) literals' (fun owed => absurd owed none_) later
            refine ⟨c :: out, t', ?_, ?_, waits'⟩
            · rw [indentFrom, reads]
              simp [blank, ended, written]
            · rw [scan_of_read (waits.trailing blank reads), scans']
          · obtain ⟨waitsOn, stays⟩ := waits.skip plain literals blank reads
            obtain ⟨out, t', written, scans', waits'⟩ := ih (m := m) waitsOn literals'
              (fun owed => by rw [stays (owes owed)]; exact owes owed) later
            refine ⟨out, t', ?_, scans', waits'⟩
            rw [indentFrom, reads]
            simp [plain, blank, ended, written]
        · have noSpace : isSpace c = false := Bool.eq_false_iff.mpr blank
          obtain ⟨laid, owes'⟩ := scan_layOut space waits plain literals owes noSpace reads
          obtain ⟨out, t', written, scans', waits'⟩ := ih (.same u) literals' owes' later
          refine ⟨(layOut newline m c).1 ++ out, t', ?_, ?_, waits'⟩
          · rw [indentFrom, reads]
            simp [plain, noSpace, written]
          · rw [scan_append, laid, Option.bind_some, scans']

/-- **Laying a document out does not change what it says.** -/
theorem parse_indent {newline : ℕ → List Char} (space : ∀ d, AllSpace (newline d))
    {text : List Char} {v : Json} (parses : parse text = some v) :
    ∃ out, indent newline text = some out ∧ parse out = some v := by
  have parsed := parses
  unfold parse at parses
  obtain ⟨t, scans, ends⟩ := Option.bind_eq_some_iff.mp parses
  obtain ⟨out, t', written, scans', waits⟩ := scan_indentFrom (m := ⟨0, false⟩) space text
    (.same ⟨[], .value⟩) trivial nofun scans
  refine ⟨out, ?_, ?_⟩
  · rw [indent, parsed, Option.isSome_some, if_pos rfl, written]
  · rw [parse, scans', Option.bind_some, waits.finish, ends]

end Json

end PumaDev
