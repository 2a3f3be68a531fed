import PumaDev.Dev.RpcEvents

/-!
# Where an event goes

`handleEvent` decodes the line of an event into a `map[string]any` and adds what it finds
under `app` and `tags` to the tags of the caller.  A decoded array is a `[]any`, and the
assertion `obj["tags"].([]string)` panics for every one, the empty one included; and a line
that JSON allows is not decoded, and goes nowhere, if a number in it does not fit a float64.

`routes_iff` says which lines are broadcast as they should be: those without `tags` that are
decoded.
-/

namespace PumaDev

/-- The field of an object: of several members with one key, the last counts. -/
def Json.field (entries : List (GoString × Json)) (k : String) : Option Json :=
  (Registry.ofList entries).lookup k.toList

/-- A line that is an object, with a string as `app` and an array of strings as `tags`, where it
has them. -/
structure IsEventLine (line : GoString) (app : Option GoString)
    (eventTags : Option (List GoString)) (entries : List (GoString × Json)) : Prop where
  parse : Json.parse line = some (.obj entries)
  app : Json.field entries "app" = app.map .str
  tags : Json.field entries "tags" = eventTags.map fun tags => .arr (tags.map .str)

/-- The object is decoded. -/
def Decodable (entries : List (GoString × Json)) : Prop :=
  Unmarshal.depth (.obj entries) ≤ Unmarshal.maxNestingDepth ∧
    Unmarshal.fits (.obj entries) = true

/-- A service with a hub that runs and has taken these messages. -/
def RpcService.withHub (taken : List Message) : RpcService := ⟨some ⟨true, taken, []⟩⟩

/-- The tags of an event: those of the caller, the app or `general`, and its own. -/
def routedTags (tags : List GoString) (app : Option GoString)
    (eventTags : Option (List GoString)) : List GoString :=
  tags ++ app.getD "general".toList :: eventTags.getD []

/-- With a hub that runs, an event line is broadcast once, with its tags; and what is neither an
object nor `null` is dropped. -/
structure Routes (taken : List Message) (line : GoString) (tags : List GoString) : Prop where
  event : ∀ app eventTags entries, IsEventLine line app eventTags entries →
    (RpcService.withHub taken).handleEvent line tags =
      .returned (.withHub (taken ++
        [⟨Websockets.oneLine line, routedTags tags app eventTags⟩]))
  other : (∀ entries, Json.parse line ≠ some (.obj entries)) → Json.parse line ≠ some .null →
    (RpcService.withHub taken).handleEvent line tags = .returned (.withHub taken)

/-- What is decoded of an object. -/
theorem unmarshalMap_of_obj {line : GoString} {entries : List (GoString × Json)}
    (parsed : Json.parse line = some (.obj entries)) :
    (Decodable entries ∧ ∃ obj, unmarshalMap line = some obj ∧
        ∀ k : String, obj.lookup k.toList = (Json.field entries k).bind Unmarshal.value) ∨
      (¬ Decodable entries ∧ unmarshalMap line = none) := by
  rw [unmarshalMap, parsed]
  dsimp only
  by_cases shallow : Unmarshal.depth (.obj entries) ≤ Unmarshal.maxNestingDepth
  · rw [if_pos shallow]
    cases decoded : Unmarshal.members entries with
    | none =>
        have unfit := Unmarshal.isSome_members entries
        rw [decoded] at unfit
        refine Or.inr ⟨fun decodable => ?_, rfl⟩
        have fit := decodable.2
        rw [Unmarshal.fits, ← unfit] at fit
        cases fit
    | some members =>
        have fit := Unmarshal.isSome_members entries
        rw [decoded] at fit
        have each := Unmarshal.members_eq_some_iff.mp decoded
        exact Or.inl ⟨⟨shallow, fit.symm⟩, _, rfl,
          fun k => Unmarshal.lookup_ofList_of_forall₂ each k.toList⟩
  · rw [if_neg shallow]
    exact Or.inr ⟨fun decodable => shallow decodable.1, rfl⟩

/-- An array of strings is decoded as it is, into a `[]any`. -/
theorem value_strings (texts : List GoString) :
    Unmarshal.value (.arr (texts.map .str)) = some (.slice (texts.map .str)) := by
  have items : Unmarshal.values (texts.map .str) = some (texts.map .str) := by
    induction texts with
    | nil => rfl
    | cons text rest ih => rw [List.map_cons, Unmarshal.values, ih]; rfl
  rw [Unmarshal.value, items]
  rfl

/-- **What becomes of an event line**: it is dropped if it is not decoded, and else it panics if
it has tags. -/
theorem handleEvent_of_event {line : GoString} {app : Option GoString}
    {eventTags : Option (List GoString)} {entries : List (GoString × Json)}
    (event : IsEventLine line app eventTags entries) (taken : List Message)
    (tags : List GoString) :
    (¬ Decodable entries ∧ (RpcService.withHub taken).handleEvent line tags =
        .returned (.withHub taken)) ∨
      (Decodable entries ∧ (RpcService.withHub taken).handleEvent line tags =
        match eventTags with
        | none => .returned (.withHub (taken ++
            [⟨Websockets.oneLine line, routedTags tags app none⟩]))
        | some _ => .panicked (.withHub taken)) := by
  rcases unmarshalMap_of_obj event.parse with ⟨decodable, obj, decodes, fields⟩ | ⟨dropped, none_⟩
  · refine Or.inr ⟨decodable, ?_⟩
    have foundApp : obj.lookup "app".toList = app.map .str := by
      rw [fields "app", event.app]
      cases app <;> rfl
    have foundTags : obj.lookup "tags".toList =
        eventTags.map fun texts => .slice (texts.map .str) := by
      rw [fields "tags", event.tags]
      cases eventTags with
      | none => rfl
      | some texts => exact value_strings texts
    rw [RpcService.handleEvent, decodes]
    dsimp only
    rw [foundApp, foundTags]
    cases app <;> cases eventTags <;> rfl
  · refine Or.inl ⟨dropped, ?_⟩
    rw [RpcService.handleEvent, none_]

/-- **When events are routed.**  With a hub that runs, for every line and all tags of the
caller: an event line is broadcast once, with the tags of the caller, the app or `general`,
and the tags of the line, without a panic, and anything but an object or `null` is dropped, if
and only if the line, if it is an event line, has no tags and is decoded. -/
theorem routes_iff (taken : List Message) (line : GoString) (tags : List GoString) :
    Routes taken line tags ↔
      ∀ app eventTags entries, IsEventLine line app eventTags entries →
        eventTags = none ∧ Decodable entries := by
  constructor
  · intro routes app eventTags entries event
    have routed := routes.event app eventTags entries event
    rcases handleEvent_of_event event taken tags with ⟨-, dropped⟩ | ⟨decodable, handled⟩
    · -- nothing is broadcast
      rw [dropped] at routed
      have same : taken = taken ++ [_] :=
        congrArg HubView.taken (Option.some.inj (congrArg RpcService.wsChannel
          (Outcome.returned.inj routed)))
      have longer := congrArg List.length same
      rw [List.length_append, List.length_singleton] at longer
      omega
    · cases eventTags with
      | none => exact ⟨rfl, decodable⟩
      | some texts =>
          rw [handled] at routed
          cases routed
  · intro plain
    constructor
    · intro app eventTags entries event
      obtain ⟨rfl, decodable⟩ := plain app eventTags entries event
      rcases handleEvent_of_event event taken tags with ⟨dropped, -⟩ | ⟨-, handled⟩
      · exact absurd decodable dropped
      · exact handled
    · intro noObject noNull
      have refused : unmarshalMap line = none := by
        unfold unmarshalMap
        split
        · next entries parsed => exact absurd parsed (noObject entries)
        · next parsed => exact absurd parsed noNull
        · rfl
      rw [RpcService.handleEvent, refused]

/-- An event with a tag of its own: `handleEvent` panics. -/
theorem not_routes_tags :
    ¬ Routes [] "\x7b\"app\":\"blog\",\"tags\":[\"deploy\"]\x7d".toList [] := by
  intro routes
  have event : IsEventLine "\x7b\"app\":\"blog\",\"tags\":[\"deploy\"]\x7d".toList
      (some "blog".toList) (some ["deploy".toList])
      [("app".toList, .str "blog".toList), ("tags".toList, .arr [.str "deploy".toList])] :=
    ⟨by rfl, by rfl, by rfl⟩
  have routed := routes.event _ _ _ event
  rcases handleEvent_of_event event [] [] with ⟨-, dropped⟩ | ⟨-, handled⟩
  · rw [dropped] at routed
    cases routed
  · rw [handled] at routed
    cases routed

end PumaDev
