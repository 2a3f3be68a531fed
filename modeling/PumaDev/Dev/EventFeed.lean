import PumaDev.Dev.EventRouting
import PumaDev.Lib.JsonBlank
import PumaDev.Websockets.Page

/-!
# What the page shows of the events

`Events.Add` writes an event as a line of JSON, `handleEvent` hands the line to the hub if it
can be decoded, `Broadcast` puts it on one line, the hub queues it for each client,
`writePump` packs what is queued into frames, and the page cuts the frames at their newlines.

`page_shows_events` is about all of these together, for every interleaving: the page shows the
events, from one of them on, each once and in order and as the object it was; apart from the
answers to the page's own messages it shows nothing else; and while it is connected, it misses
none.
-/

namespace PumaDev

open Websockets

/-! ## One line -/

/-- Nothing that `strings.TrimSpace` cuts off is visible in ASCII. -/
theorem invisible_of_isSpace {c : Char} (space : Strings.isSpace c = true) : Json.Invisible c := by
  rw [Strings.isSpace, Bool.or_eq_true, Bool.and_eq_true, decide_eq_true_eq, decide_eq_true_eq,
    decide_eq_true_eq] at space
  rcases space with listed | ⟨large, -⟩
  · exact (by decide : ∀ d ∈ ['\t', '\n', '\x0b', '\x0c', '\r', ' ', '\x85', '\xa0', '\u1680',
      '\u2028', '\u2029', '\u202f', '\u205f', '\u3000'], Json.Invisible d) c listed
  · exact Or.inr ((by decide : 0x7f ≤ 0x2000).trans large)

/-- **`Broadcast` keeps the meaning** of a JSON text. -/
theorem parse_oneLine_of_parse {data : GoString} {v : Json} (parsed : Json.parse data = some v) :
    Json.parse (oneLine data) = some v :=
  Json.parse_dropWhile_reverse (fun _ => invisible_of_isSpace)
    (Json.parse_dropWhile (fun _ => invisible_of_isSpace) (Json.parse_oneLine parsed))

/-! ## The events -/

/-- An event, and when it is added. -/
structure Emission where
  now : PlainText
  call : EventCall

namespace Emission

variable (T : PrintTable)

/-- The line that `Events.Add` writes. -/
def line (e : Emission) : GoString := (e.call.toCall e.now).text T

/-- `handleEvent` can decode the line; what it cannot decode is logged and goes nowhere. -/
def reported (e : Emission) : Bool := (unmarshalMap (e.line T)).isSome

/-- What the page makes of the event. -/
def object (e : Emission) : Json := .obj (e.call.toCall e.now).entries

/-- What is sent to the page. -/
def sentLine (e : Emission) : GoString := oneLine (e.line T)

/-- **The line is read as the event.** -/
theorem parse_sentLine {e : Emission} (reported : e.reported T = true) :
    Json.parse (e.sentLine T) = some e.object := by
  refine parse_oneLine_of_parse ?_
  rw [Emission.reported, line, Call.unmarshalMap_text] at reported
  rw [line, Call.parse_text]
  split at reported
  · next safe => rw [if_pos safe, object]
  · cases reported

end Emission

/-- `Events.Add` for one event after another, in the order in which the hub takes them. -/
def emit (T : PrintTable) : List Emission → EventState → Outcome EventState
  | [], s => .returned s
  | e :: es, s =>
      match e.call.add T e.now s with
      | .returned s' => emit T es s'
      | stopped => stopped

/-- One event, with a hub that runs. -/
theorem add_withHub (T : PrintTable) (e : Emission) {taken : List Message} {s : EventState}
    (running : s.rpcService = .withHub taken) :
    ∃ messages : List Message, e.call.add T e.now s =
        .returned ⟨s.events.append (e.line T), .withHub (taken ++ messages)⟩ ∧
      messages.map Message.payload =
        ([e].filter (Emission.reported T)).map (Emission.sentLine T) := by
  have line := (e.call.toCall e.now).line_eq T
  cases decodes : unmarshalMap (e.line T) with
  | none =>
      refine ⟨[], ?_, by simp [Emission.reported, decodes]⟩
      have built : Events.line T e.now.text e.call.name.text (e.call.toCall e.now).args =
          some (e.line T) := line
      have dropped : (RpcService.withHub taken).handleEvent (e.line T) [] =
          .returned (.withHub taken) := by
        rw [RpcService.handleEvent, decodes]
      rw [EventCall.add, Events.add, built]
      simp only [dropped, running, List.append_nil]
  | some obj =>
      have wellFormed : e.call.WellFormed T e.now := by
        rw [EventCall.WellFormed, line, Option.bind_some]
        exact Option.ne_none_iff_exists'.mpr ⟨obj, decodes⟩
      obtain ⟨tags, outcome⟩ := EventCall.add_of_wellFormed wellFormed s
      refine ⟨[⟨e.sentLine T, tags⟩], ?_, by simp [Emission.reported, decodes]⟩
      rw [outcome, running]
      rfl

/-- **The messages** that the hub is given are the lines of the events that can be decoded. -/
theorem emit_withHub (T : PrintTable) (es : List Emission) {taken : List Message} {s : EventState}
    (running : s.rpcService = .withHub taken) :
    ∃ (fed : EventState) (messages : List Message), emit T es s = .returned fed ∧
      fed.rpcService = .withHub (taken ++ messages) ∧
      messages.map Message.payload =
        (es.filter (Emission.reported T)).map (Emission.sentLine T) := by
  induction es generalizing s taken with
  | nil => exact ⟨s, [], rfl, by rw [running, List.append_nil], rfl⟩
  | cons e es ih =>
      obtain ⟨first, added, payload⟩ := add_withHub T e running
      obtain ⟨fed, later, rest, left, payloads⟩ :=
        @ih (taken ++ first) ⟨s.events.append (e.line T), .withHub (taken ++ first)⟩ rfl
      refine ⟨fed, first ++ later, ?_, by rw [left, List.append_assoc], ?_⟩
      · rw [emit, added]
        exact rest
      · rw [List.map_append, payload, payloads, ← List.map_append, ← List.filter_append]
        rfl

/-! ## What a page shows -/

/-- What some of the texts stand for takes their places. -/
theorem exists_map_eq {α β : Type} (f : α → β) {sent : List (Option β)} {meant : List α}
    (same : meant.map f = sent.reduceOption) :
    ∃ shown : List (Option α), shown.reduceOption = meant ∧ shown.map (Option.map f) = sent := by
  induction sent generalizing meant with
  | nil => exact ⟨[], (List.map_eq_nil_iff.mp same).symm, rfl⟩
  | cons o sent ih =>
      cases o with
      | none =>
          obtain ⟨shown, reduces, maps⟩ := ih (by rwa [List.reduceOption_cons_of_none] at same)
          exact ⟨none :: shown, by rwa [List.reduceOption_cons_of_none], by simp [maps]⟩
      | some b =>
          rw [List.reduceOption_cons_of_some] at same
          obtain ⟨a, rest, rfl, image, later⟩ := List.map_eq_cons_iff.mp same
          obtain ⟨shown, reduces, maps⟩ := ih later
          exact ⟨some a :: shown, by rw [List.reduceOption_cons_of_some, reduces],
            by simp [maps, image]⟩

/-- What is sent to the page: the line of an event, or the answer to a message of its own. -/
def shownBytes (T : PrintTable) (shown : Option Emission) : Bytes :=
  sentBytes (shown.map (Emission.sentLine T))

/-- **From `Events.Add` to the page.**  Let the hub be given the events `es`, and let every
client be served as `rpcEventsConnectWS` does, with the subscription `*`.  In every interleaving
of the program with the `writePump` of a client, as long as nothing panics and no write of this
client fails: what the page has read, with what is still queued for it, is a stretch of the
events that can be decoded, each once and in order, with the answers to its own messages in
between; each of them is read as the object it was; and there is none behind the stretch when
the client is registered and the hub is back in its select. -/
theorem page_shows_events {T : PrintTable} {c : ClientId} {ls : List PageLabel} {s : Page}
    {es : List Emission} {buffer : LineBuffer GoString} {fed : EventState}
    (run : (pageMachine c).exec (pageMachine c).init ls = some s) (alive : s.hub.fault = none)
    (succeeds : ∀ l ∈ ls, l.Succeeds)
    (served : ∀ onMessage subscriptions, .program (.serve onMessage subscriptions) ∈ ls →
      "*".toList ∈ subscriptions)
    (emitted : emit T es ⟨buffer, .withHub []⟩ = .returned fed)
    (taken : fed.rpcService = .withHub (broadcasts ls)) :
    ∃ (shown : List (Option Emission)) (before after : List Emission),
      s.read ++ s.queued c = shown.map (shownBytes T) ∧
      es.filter (Emission.reported T) = before ++ shown.reduceOption ++ after ∧
      (∀ e ∈ shown.reduceOption, Json.parse (e.sentLine T) = some e.object) ∧
      (c ∈ s.hub.members → s.hub.pc = .run .select → after = []) := by
  obtain ⟨books, steps, sent, -, follows⟩ := follows_of_exec run alive succeeds
  obtain ⟨front, behind, stretch, complete⟩ :=
    follows.gapFree.exists_stretch (follows.starred served).2
  -- what the hub was given are the lines of the events
  obtain ⟨fed', messages, emitted', left, payloads⟩ :=
    emit_withHub T es (s := ⟨buffer, .withHub []⟩) rfl
  have given : (broadcasts ls).map Message.payload =
      (es.filter (Emission.reported T)).map (Emission.sentLine T) := by
    cases emitted.symm.trans emitted'
    rw [taken] at left
    have same : broadcasts ls = messages := by simpa [RpcService.withHub] using left
    rw [same, payloads]
  rw [follows.received, given, follows.enqueued, List.append_assoc] at stretch
  obtain ⟨before, rest, split, -, later⟩ := List.map_eq_append_iff.mp stretch
  obtain ⟨meant, after, rfl, middle, last⟩ := List.map_eq_append_iff.mp later
  obtain ⟨shown, reduces, maps⟩ := exists_map_eq _ middle
  refine ⟨shown, before, after, ?_, by rw [split, reduces, List.append_assoc], fun e mem => ?_,
    fun here select => ?_⟩
  · rw [follows.reads, ← maps, List.map_map]
    rfl
  · have among : e ∈ es.filter (Emission.reported T) := by
      rw [split, ← reduces]
      exact List.mem_append_right _ (List.mem_append_left _ mem)
    exact Emission.parse_sentLine T (List.mem_filter.mp among).2
  · rw [← follows.hub] at here select
    exact List.map_eq_nil_iff.mp (last.trans (complete here select))

/-- A lookup that fails, which is an event. -/
def someEmission : Emission := ⟨someTime, someLookup⟩

/-- The event reaches a page. -/
def someFeed : List PageLabel :=
  [.program (.serve true ["*".toList]), .program (.register 0), .program (.hub 0),
    .program (.broadcast (someEmission.line .asciiOnly) ["general".toList]), .program (.hub 0),
    .program (.hub 0), .pump (.receive true), .pump .count, .pump (.flush true)]

/-- The page has it, and nothing is missing. -/
theorem page_shows_someEmission : ∃ (s : Page) (shown : List (Option Emission))
    (before : List Emission), (pageMachine 0).exec (pageMachine 0).init someFeed = some s ∧
      s.read = shown.map (shownBytes .asciiOnly) ∧
      [someEmission] = before ++ shown.reduceOption ∧ s.read.length = 1 := by
  have facts : ((pageMachine 0).exec (pageMachine 0).init someFeed).map
      (fun s => (s.hub.fault, s.read.length, s.queued 0, decide (0 ∈ s.hub.members),
        decide (s.hub.pc = .run .select))) = some (none, 1, [], true, true) := by decide +kernel
  obtain ⟨s, run, seen⟩ := Option.map_eq_some_iff.mp facts
  simp only [Prod.mk.injEq, decide_eq_true_eq] at seen
  obtain ⟨alive, read, queued, member, select⟩ := seen
  obtain ⟨fed, -, emitted, -, -⟩ :=
    @emit_withHub .asciiOnly [someEmission] [] ⟨.zero, .withHub []⟩ rfl
  have taken : (emit .asciiOnly [someEmission] ⟨.zero, .withHub []⟩).state.rpcService =
      .withHub (broadcasts someFeed) := by decide +kernel
  have reported : someEmission.reported .asciiOnly = true := by decide +kernel
  rw [emitted] at taken
  obtain ⟨shown, before, after, reads, split, -, complete⟩ := page_shows_events run alive
    (by decide) (by simp [someFeed]) emitted taken
  rw [queued, List.append_nil] at reads
  rw [complete member select, List.append_nil, List.filter_cons_of_pos reported,
    List.filter_nil] at split
  exact ⟨s, shown, before, run, reads, split, read⟩

end PumaDev
