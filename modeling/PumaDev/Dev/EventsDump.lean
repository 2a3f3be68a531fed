import PumaDev.Dev.RpcEvents
import PumaDev.Lib.Framing

/-!
# The dump of the events

`Events.WriteTo` writes the buffered lines one after another, and whoever reads
the dump cuts it at the newlines.  That gives the events back if no line has a
newline but the one `Add` ends it with, whatever the values are: a value is any
Go string, valid UTF-8 or not.  So the line is modelled a second time, on bytes.

* `Events.lineBytes` is the text `Add` builds, from `ByteArg`s.
* `lineBytes_encode` says that on texts it is the line of `Events.line`.
* `add_events` says that a call of `Add` appends its line, whatever becomes of
  the broadcast behind it.

`writeTo_framed` is the round trip: the dump, cut at the newlines, is the last
1024 events in the order they were added.
-/

namespace PumaDev

/-- An argument of `Events.Add`, a string with its bytes. -/
inductive ByteArg where
  | str (s : Bytes)
  | int (n : ℤ)
  deriving DecidableEq

namespace Fmt

/-- The verb `%s`. -/
def verbSBytes : ByteArg → Bytes
  | .str s => s
  | .int n => Utf8.encode ("%!s(int=".toList ++ Strconv.itoa n ++ [')'])

/-- The verb `%#v`. -/
def verbSharpVBytes (T : PrintTable) : ByteArg → Bytes
  | .str s => Strconv.quoteBytes T s
  | .int n => Utf8.encode (Strconv.itoa n)

end Fmt

/-! ## The line on bytes -/

namespace Events

open Utf8

/-- What the loop of `Events.Add` writes; `none` is the panic of an index past
the end of `args`. -/
def fieldBytes (T : PrintTable) : List ByteArg → Option Bytes
  | [] => some []
  | [_] => none
  | k :: v :: rest => (fieldBytes T rest).map fun tail =>
      encode [',', '"'] ++ Fmt.verbSBytes k ++ encode ['"', ':'] ++
        Fmt.verbSharpVBytes T v ++ tail

/-- The line `Events.Add` builds at the time `now`. -/
def lineBytes (T : PrintTable) (now name : Bytes) (args : List ByteArg) : Option Bytes :=
  (fieldBytes T args).map fun body =>
    encode ('{' :: "\"time\":\"".toList) ++ now ++ encode "\",\"event\":\"".toList ++ name ++
      encode ['"'] ++ body ++ encode ['}', '\n']

end Events

/-- The argument with the bytes of its text. -/
def Arg.toBytes : Arg → ByteArg
  | .str s => .str (Utf8.encode s)
  | .int n => .int n

namespace Events

open Utf8

theorem fieldBytes_encode (T : PrintTable) (args : List Arg) :
    fieldBytes T (args.map Arg.toBytes) = (fields T args).map encode := by
  fun_induction fields T args with
  | case1 => rfl
  | case2 => rfl
  | case3 k v rest ih =>
      have key : Fmt.verbSBytes k.toBytes = encode (Fmt.verbS k) := by cases k <;> rfl
      have value : Fmt.verbSharpVBytes T v.toBytes = encode (Fmt.verbSharpV T v) := by
        cases v with
        | str s => exact Strconv.quoteBytes_encode T s
        | int n => rfl
      rw [List.map_cons, List.map_cons, fieldBytes, ih, key, value, Option.map_map,
        Option.map_map]
      congr 1
      funext tail
      simp

/-- **On texts the line on bytes is the line.** -/
theorem lineBytes_encode (T : PrintTable) (now name : GoString) (args : List Arg) :
    lineBytes T (encode now) (encode name) (args.map Arg.toBytes) =
      (line T now name args).map encode := by
  rw [lineBytes, fieldBytes_encode, line, Option.map_map, Option.map_map]
  congr 1
  funext body
  simp

/-- A call of `Add` appends its line to the buffer, whatever becomes of the
broadcast behind it. -/
theorem add_events (T : PrintTable) (now name : GoString) (args : List Arg) (s : EventState) :
    (add T now name args s).state.events =
      match line T now name args with
      | none => s.events
      | some str => s.events.append str := by
  unfold add
  cases line T now name args with
  | none => rfl
  | some str =>
      dsimp only
      cases s.rpcService.handleEvent str [] <;> rfl

end Events

/-! ## Calls without newlines of their own -/

/-- A text on one line. -/
structure OneLine where
  bytes : Bytes
  no_newline : newline ∉ bytes

/-- A call of `Events.Add`: what the code itself puts into the line is on one
line; a value is any string or integer. -/
structure ByteCall where
  now : OneLine
  name : OneLine
  /-- The keys and values, in order. -/
  pairs : List (OneLine × ByteArg)

namespace ByteCall

open Utf8

/-- The arguments after the event's name. -/
def args (c : ByteCall) : List ByteArg := c.pairs.flatMap fun p => [.str p.1.bytes, p.2]

/-- The line of the call. -/
def line (T : PrintTable) (c : ByteCall) : Option Bytes :=
  Events.lineBytes T c.now.bytes c.name.bytes c.args

/-- What a call does to the buffer of `Events`; the panic on an odd number of
arguments leaves it. -/
def record (T : PrintTable) (events : LineBuffer Bytes) (c : ByteCall) : LineBuffer Bytes :=
  match c.line T with
  | none => events
  | some str => events.append str

/-- **A value never brings a newline into its line.** -/
theorem newline_not_mem_verbSharpVBytes (T : PrintTable) (a : ByteArg) :
    newline ∉ Fmt.verbSharpVBytes T a := by
  cases a with
  | str s => exact Strconv.newline_not_mem_quoteBytes T s
  | int n =>
      have digits : ∀ k : ℕ, '\n' ∉ Nat.toDigits 10 k := fun k mem =>
        absurd (Nat.isDigit_of_mem_toDigits (by decide) (by decide) mem) (by decide)
      rw [Fmt.verbSharpVBytes, newline_mem_encode]
      cases n with
      | ofNat n => exact digits n
      | negSucc n => simp [Strconv.itoa, digits]

/-- The loop writes the pairs without a newline. -/
theorem fieldBytes_pairs (T : PrintTable) (pairs : List (OneLine × ByteArg)) :
    ∃ body, Events.fieldBytes T (pairs.flatMap fun p => [.str p.1.bytes, p.2]) = some body ∧
      newline ∉ body := by
  induction pairs with
  | nil => exact ⟨[], rfl, List.not_mem_nil⟩
  | cons p rest ih =>
      obtain ⟨tail, written, free⟩ := ih
      refine ⟨encode [',', '"'] ++ p.1.bytes ++ encode ['"', ':'] ++
        Fmt.verbSharpVBytes T p.2 ++ tail, ?_, ?_⟩
      · rw [List.flatMap_cons]
        show Events.fieldBytes T (.str p.1.bytes :: p.2 :: rest.flatMap _) = _
        rw [Events.fieldBytes, written, Option.map_some]
        rfl
      · simp only [List.mem_append, not_or]
        exact ⟨⟨⟨⟨by decide, p.1.no_newline⟩, by decide⟩,
          newline_not_mem_verbSharpVBytes T p.2⟩, free⟩

/-- **The line of a call ends with its only newline.** -/
theorem line_eq (T : PrintTable) (c : ByteCall) :
    ∃ event, c.line T = some (event ++ [newline]) ∧ newline ∉ event := by
  obtain ⟨body, written, free⟩ := fieldBytes_pairs T c.pairs
  refine ⟨encode ('{' :: "\"time\":\"".toList) ++ c.now.bytes ++ encode "\",\"event\":\"".toList ++
    c.name.bytes ++ encode ['"'] ++ body ++ encode ['}'], ?_, ?_⟩
  · rw [line, Events.lineBytes, args, written, Option.map_some]
    have brace : encode ['}', '\n'] = encode ['}'] ++ [newline] := by decide
    rw [brace, ← List.append_assoc]
  · simp only [List.mem_append, not_or]
    exact ⟨⟨⟨⟨⟨⟨by decide, c.now.no_newline⟩, by decide⟩, c.name.no_newline⟩, by decide⟩,
      free⟩, by decide⟩

end ByteCall

namespace Events

/-- The buffer after a sequence of calls on a fresh `Events`. -/
def addAll (T : PrintTable) (calls : List ByteCall) : LineBuffer Bytes :=
  calls.foldl (ByteCall.record T) .zero

/-- Every call appends an event and the newline behind it. -/
theorem exists_events (T : PrintTable) (calls : List ByteCall) :
    ∃ events : List Bytes,
      calls.map (ByteCall.line T) = events.map (fun event => some (event ++ [newline])) ∧
        (∀ event ∈ events, newline ∉ event) ∧
        addAll T calls = (events.map (· ++ [newline])).foldl LineBuffer.append .zero := by
  induction calls using List.reverseRecOn with
  | nil => exact ⟨[], rfl, by simp, rfl⟩
  | append_singleton calls c ih =>
      obtain ⟨events, lines, free, buffer⟩ := ih
      obtain ⟨event, line, fresh⟩ := c.line_eq T
      refine ⟨events ++ [event], ?_, ?_, ?_⟩
      · rw [List.map_append, List.map_append, lines, List.map_singleton, List.map_singleton, line]
      · intro e mem
        rcases List.mem_append.mp mem with earlier | last
        · exact free e earlier
        · rw [List.mem_singleton.mp last]
          exact fresh
      · have step : addAll T (calls ++ [c]) = ByteCall.record T (addAll T calls) c :=
          List.foldl_append
        rw [step, ByteCall.record, line, buffer, List.map_append, List.foldl_append]
        rfl

/-- **The dump is correctly framed.**  Whatever the values are, the text that
`WriteTo` writes to a writer that never fails is the last 1024 events in the
order they were added, each with a newline behind it; and cutting the text at
the newlines gives these events back. -/
theorem writeTo_framed (T : PrintTable) (ε : Type) (calls : List ByteCall) :
    ∃ events : List Bytes,
      calls.map (ByteCall.line T) = events.map (fun event => some (event ++ [newline])) ∧
      ∃ text : Bytes,
        (addAll T calls).writeTo (LineBuffer.accepting ε) [] = ((text, text.length), none) ∧
          text = (events.rtake 1024).flatMap (· ++ [newline]) ∧
          text.splitOn newline = events.rtake 1024 ++ [[]] := by
  obtain ⟨events, lines, free, buffer⟩ := exists_events T calls
  have held : (addAll T calls).contents = (events.rtake defaultSize).map (· ++ [newline]) := by
    rw [buffer, LineBuffer.contents_foldl, History.rtake_map]
  have inside : ∀ event ∈ events.rtake 1024, newline ∉ event := fun event mem =>
    free event ((History.rtake_suffix events 1024).mem mem)
  have flat : (addAll T calls).contents.flatten =
      Framing.terminated newline (events.rtake 1024) := by
    rw [held, Framing.terminated, List.flatMap_def]
    rfl
  refine ⟨events, lines, _, ?_, rfl, Framing.splitOn_terminated inside⟩
  rw [LineBuffer.writeTo_accepting, flat, List.nil_append]
  rfl

end Events

/-! ## Calls with texts -/

/-- A plain text is on one line. -/
def PlainText.toOneLine (t : PlainText) : OneLine where
  bytes := Utf8.encode t.text
  no_newline mem :=
    absurd (t.plain '\n' (Utf8.newline_mem_encode.mp mem)) (by decide)

/-- The call, with the bytes of its texts. -/
def Call.toBytes (c : Call) : ByteCall where
  now := c.now.toOneLine
  name := c.name.toOneLine
  pairs := c.pairs.map fun p => (p.1.toOneLine, p.2.toBytes)

theorem Call.line_toBytes (T : PrintTable) (c : Call) :
    c.toBytes.line T = (c.line T).map Utf8.encode := by
  have args : c.toBytes.args = c.args.map Arg.toBytes := by
    simp [ByteCall.args, Call.args, toBytes, List.flatMap_map, List.map_flatMap, Arg.toBytes,
      PlainText.toOneLine]
  rw [ByteCall.line, args, Call.line, ← Events.lineBytes_encode]
  rfl

namespace Events

/-- A run of `Add` appends the lines of the calls. -/
theorem events_foldl_add (T : PrintTable) (calls : List Call) (s : EventState) :
    (calls.foldl (fun s c => (add T c.now.text c.name.text c.args s).state) s).events =
      (calls.map fun c => c.text T).foldl LineBuffer.append s.events := by
  induction calls generalizing s with
  | nil => rfl
  | cons c rest ih =>
      have line : Events.line T c.now.text c.name.text c.args = some (c.text T) := c.line_eq T
      rw [List.foldl_cons, ih, add_events, line]
      rfl

theorem foldl_record_toBytes (T : PrintTable) (calls : List Call) (lb : LineBuffer Bytes) :
    (calls.map Call.toBytes).foldl (ByteCall.record T) lb =
      ((calls.map fun c => c.text T).map Utf8.encode).foldl LineBuffer.append lb := by
  induction calls generalizing lb with
  | nil => rfl
  | cons c rest ih =>
      have one : ByteCall.record T lb c.toBytes = lb.append (Utf8.encode (c.text T)) := by
        rw [ByteCall.record, c.line_toBytes, c.line_eq]
        rfl
      rw [List.map_cons, List.foldl_cons, one, ih]
      rfl

/-- **On texts the buffer of bytes is the buffer of lines**, whatever becomes of
the broadcasts. -/
theorem contents_addAll_toBytes (T : PrintTable) (svc : RpcService) (calls : List Call) :
    (addAll T (calls.map Call.toBytes)).contents =
      ((calls.foldl (fun s c => (add T c.now.text c.name.text c.args s).state)
        ⟨.zero, svc⟩).events.contents).map Utf8.encode := by
  rw [events_foldl_add, addAll, foldl_record_toBytes, LineBuffer.contents_foldl,
    LineBuffer.contents_foldl, History.rtake_map]

end Events

end PumaDev
