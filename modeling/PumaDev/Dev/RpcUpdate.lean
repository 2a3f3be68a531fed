import PumaDev.Dev.RpcConsole
import PumaDev.Go.Bytes
import PumaDev.Go.Duration
import PumaDev.Lib.Machine

/-!
# `PATCH /apps`

The request sets the idle time of the pool.  Its handler reads the body, decodes it,
parses the duration and checks its range; each of these may fail, and then the request is
answered 422 and nothing has changed.

But the body is read by way of `GetBody`, which is for clients: in a request that a
server receives it is nil, and calling it is a panic.  So the handler is right for
requests that nobody sends it (`updatesAtomically_of_getBody`), and never for those that it
receives (`not_updatesAtomically`).
-/

namespace PumaDev

/-! ## Decoding the body -/

/-- Does the key name the field `idleTimeout`?  Upper and lower case are not told
apart. -/
def isIdleTimeout (key : GoString) : Bool := key.map Char.toLower = "idletimeout".toList

/-- One member of the object is stored in the field: a null unsets it, a string sets it,
and anything else is an error, which is reported at the end. -/
def storeMember (field : Option GoString × Bool) (member : GoString × Json) :
    Option GoString × Bool :=
  if isIdleTimeout member.1 then
    match member.2 with
    | .null => (none, field.2)
    | .str s => (some s, field.2)
    | _ => (field.1, true)
  else field

/-- `json.Unmarshal` of an `rpcUpdateAppPoolRequest`: its `IdleTimeout`, or `none` for an
error. -/
def unmarshalUpdate (body : Bytes) : Option (Option GoString) :=
  match Json.parse (Utf8.runes 0 body) with
  | none => none
  | some .null => some none
  | some (.obj members) =>
      let stored := members.foldl storeMember (none, false)
      if stored.2 then none else some stored.1
  | some _ => none

/-! ## The handler -/

/-- A request, as far as its body goes.  A body that cannot be read to its end is an
error. -/
structure UpdateRequest where
  /-- What `io.ReadAll` gives of `Body`. -/
  body : Except GoString Bytes
  /-- `GetBody`, where it is not nil: an error, or what `io.ReadAll` gives of its reader. -/
  getBody : Option (Except GoString (Except GoString Bytes))

/-- A request that a server receives has no `GetBody`. -/
structure ServerRequest extends UpdateRequest where
  noGetBody : getBody = none

/-- How a handler ends: with a status and perhaps an error, or in a panic.  The response
is nil. -/
inductive Handled where
  | returns (status : ℕ) (err : Option GoString)
  | panics
  deriving DecidableEq

/-- `rpcParseJsonRequestBody`, where `jsonError` is the message of `json.Unmarshal`; `none`
is a panic. -/
def rpcParseJsonRequestBody (jsonError : Bytes → GoString) (r : UpdateRequest) :
    Option (Except GoString (Option GoString)) :=
  match r.getBody with
  | none => none
  | some (.error err) => some (.error err)
  | some (.ok (.error err)) => some (.error err)
  | some (.ok (.ok body)) =>
      if body = [] then some (.ok none)
      else
        match unmarshalUpdate body with
        | none => some (.error (jsonError body))
        | some idleTimeout => some (.ok idleTimeout)

/-- `RpcService.rpcUpdateAppPool`, with `pool.IdleTime` before and after. -/
def rpcUpdateAppPool (jsonError : Bytes → GoString) (r : UpdateRequest) (idleTime : ℤ) :
    ℤ × Handled :=
  match rpcParseJsonRequestBody jsonError r with
  | none => (idleTime, .panics)
  | some (.error err) => (idleTime, .returns 422 (some err))
  | some (.ok none) => (idleTime, .returns 200 none)
  | some (.ok (some idleTimeout)) =>
      match Time.parseDuration idleTimeout with
      | .error err => (idleTime, .returns 422 (some (err.text idleTimeout)))
      | .ok timeout =>
          if timeout < Time.minute then
            (idleTime, .returns 422 (some "idleTimeout must be at least 1 minute".toList))
          else (timeout, .returns 200 none)

/-- What the client gets. -/
inductive HttpAnswer where
  | sent (status : ℕ) (body : GoString)
  /-- A handler that panics: the server closes the connection. -/
  | closed
  deriving DecidableEq

/-- `RpcService.wrapHandler`, for a handler whose response is nil.  A status that has been
written stays, whatever `http.NotFound` says; without one it is 200. -/
def wrapHandler : Handled → HttpAnswer
  | .panics => .closed
  | .returns status err =>
      let status := if err ≠ none ∧ status = 0 then 500 else status
      let status := if 0 < status then status else 200
      match err with
      | none => .sent status []
      | some err =>
          if err = notFoundErr then .sent status "404 page not found\n".toList
          else .sent status err

/-- A `PATCH` is served. -/
def serveUpdate (jsonError : Bytes → GoString) (r : UpdateRequest) (idleTime : ℤ) :
    ℤ × HttpAnswer :=
  ((rpcUpdateAppPool jsonError r idleTime).1, wrapHandler (rpcUpdateAppPool jsonError r idleTime).2)

/-! ## What it is meant to do -/

/-- The body is an object whose `idleTimeout` is a duration of at least one minute. -/
def Sets (body : Bytes) (d : ℤ) : Prop :=
  ∃ s, unmarshalUpdate body = some (some s) ∧ Time.parseDuration s = .ok d ∧ Time.minute ≤ d

/-- The body is empty, or it lacks `idleTimeout`. -/
def Lacks (body : Bytes) : Prop := body = [] ∨ unmarshalUpdate body = some none

/-- The answer has the status. -/
def HttpAnswer.HasStatus (status : ℕ) (answer : HttpAnswer) : Prop :=
  ∃ text, answer = .sent status text

/-- **The idle time is updated atomically**: it is set and the answer is 200, or it is left
alone, with 200 where that was asked for and 422 otherwise; and there is an answer. -/
structure UpdatesAtomically (body : Except GoString Bytes) (idleTime : ℤ)
    (served : ℤ × HttpAnswer) : Prop where
  sets : ∀ text d, body = .ok text → Sets text d → served.2.HasStatus 200 ∧ served.1 = d
  keeps : ∀ text, body = .ok text → Lacks text →
    served.2.HasStatus 200 ∧ served.1 = idleTime
  refuses : (∀ text, body = .ok text → ¬ Lacks text ∧ ∀ d, ¬ Sets text d) →
    served.2.HasStatus 422 ∧ served.1 = idleTime
  answers : served.2 ≠ .closed

variable (jsonError : Bytes → GoString)

/-! ## What it does -/

/-- **A request that a server receives makes the handler panic**, before it has read
anything. -/
theorem serveUpdate_of_server (r : ServerRequest) (idleTime : ℤ) :
    serveUpdate jsonError r.toUpdateRequest idleTime = (idleTime, .closed) := by
  simp [serveUpdate, rpcUpdateAppPool, rpcParseJsonRequestBody, r.noGetBody, wrapHandler]

/-- **No request that a server receives is answered.** -/
theorem not_updatesAtomically (r : ServerRequest) (idleTime : ℤ) :
    ¬ UpdatesAtomically r.body idleTime
      (serveUpdate jsonError r.toUpdateRequest idleTime) := by
  intro updates
  have answers := updates.answers
  rw [serveUpdate_of_server] at answers
  exact answers rfl

/-- What a handler returns is answered with its status. -/
theorem hasStatus_wrapHandler {status : ℕ} (set : 0 < status) (err : Option GoString) :
    (wrapHandler (.returns status err)).HasStatus status := by
  have kept : ¬ (err ≠ none ∧ status = 0) := fun h => set.ne' h.2
  simp only [wrapHandler, if_neg kept, if_pos set]
  cases err with
  | none => exact ⟨_, rfl⟩
  | some err =>
      dsimp only
      split <;> exact ⟨_, rfl⟩

/-- Where the body is read and decoded, the handler ends in one of three ways. -/
theorem rpcUpdateAppPool_cases {r : UpdateRequest} {parsed : Except GoString (Option GoString)}
    (parse : rpcParseJsonRequestBody jsonError r = some parsed) (idleTime : ℤ) :
    (parsed = .ok none ∧ rpcUpdateAppPool jsonError r idleTime = (idleTime, .returns 200 none)) ∨
      (∃ s d, parsed = .ok (some s) ∧ Time.parseDuration s = .ok d ∧ Time.minute ≤ d ∧
        rpcUpdateAppPool jsonError r idleTime = (d, .returns 200 none)) ∨
      (parsed ≠ .ok none ∧
        (∀ s d, parsed = .ok (some s) → Time.parseDuration s = .ok d → d < Time.minute) ∧
        ∃ err, rpcUpdateAppPool jsonError r idleTime = (idleTime, .returns 422 (some err))) := by
  rw [rpcUpdateAppPool, parse]
  rcases parsed with err | _ | s
  · exact Or.inr (Or.inr ⟨nofun, nofun, err, rfl⟩)
  · exact Or.inl ⟨rfl, rfl⟩
  · dsimp only
    cases duration : Time.parseDuration s with
    | error err =>
        refine Or.inr (Or.inr ⟨nofun, ?_, _, rfl⟩)
        intro s' d same parsed
        cases same
        rw [duration] at parsed
        cases parsed
    | ok timeout =>
        dsimp only
        split
        · next short =>
            refine Or.inr (Or.inr ⟨nofun, ?_, _, rfl⟩)
            intro s' d same parsed
            cases same
            rw [duration] at parsed
            cases parsed
            exact short
        · next long => exact Or.inr (Or.inl ⟨s, timeout, rfl, duration, not_lt.mp long, rfl⟩)

/-- The empty text is no JSON. -/
theorem unmarshalUpdate_nil : unmarshalUpdate [] = none := rfl

/-- What the body says, as far as it can be read. -/
theorem parse_of_getBody {r : UpdateRequest} (same : r.getBody = some (.ok r.body)) :
    ∃ parsed, rpcParseJsonRequestBody jsonError r = some parsed ∧
      (parsed = .ok none ↔ ∃ text, r.body = .ok text ∧ Lacks text) ∧
      ∀ s, parsed = .ok (some s) ↔
        ∃ text, r.body = .ok text ∧ unmarshalUpdate text = some (some s) := by
  unfold rpcParseJsonRequestBody
  rw [same]
  cases read : r.body with
  | error err => exact ⟨.error err, rfl, by simp, by simp⟩
  | ok text =>
      dsimp only
      by_cases empty : text = []
      · rw [if_pos empty]
        subst empty
        exact ⟨.ok none, rfl, by simp [Lacks], by simp [unmarshalUpdate_nil]⟩
      · rw [if_neg empty]
        cases decoded : unmarshalUpdate text with
        | none => exact ⟨_, rfl, by simp [Lacks, empty, decoded], by simp [decoded]⟩
        | some idleTimeout =>
            exact ⟨.ok idleTimeout, rfl, by simp [Lacks, empty, decoded], by simp [decoded]⟩

/-- **With the body behind `GetBody` the handler does what it is meant to do.** -/
theorem updatesAtomically_of_getBody {r : UpdateRequest} (same : r.getBody = some (.ok r.body))
    (idleTime : ℤ) :
    UpdatesAtomically r.body idleTime (serveUpdate jsonError r idleTime) := by
  obtain ⟨parsed, parse, lacks, gives⟩ := parse_of_getBody jsonError same
  have status : ∀ code err, 0 < code → ∀ i, rpcUpdateAppPool jsonError r idleTime =
      (i, .returns code err) → (serveUpdate jsonError r idleTime).2.HasStatus code ∧
        (serveUpdate jsonError r idleTime).1 = i := by
    intro code err set i ends
    rw [serveUpdate, ends]
    exact ⟨hasStatus_wrapHandler set err, rfl⟩
  have answered : ∀ code, (serveUpdate jsonError r idleTime).2.HasStatus code →
      (serveUpdate jsonError r idleTime).2 ≠ .closed := by
    rintro code ⟨text, sent⟩ closed
    rw [sent] at closed
    cases closed
  rcases rpcUpdateAppPool_cases jsonError parse idleTime with
    ⟨isNone, ends⟩ | ⟨s, d, isSome, duration, long, ends⟩ | ⟨notNone, short, err, ends⟩
  · have served := status 200 none (by decide) _ ends
    obtain ⟨text, body, lack⟩ := lacks.mp isNone
    refine ⟨?_, fun _ _ _ => served, ?_, answered _ served.1⟩
    · rintro text' d body' ⟨s, decoded, -, -⟩
      have isSome := (gives s).mpr ⟨text', body', decoded⟩
      rw [isNone] at isSome
      cases isSome
    · intro neither
      exact absurd lack (neither text body).1
  · have served := status 200 none (by decide) _ ends
    obtain ⟨text, body, decoded⟩ := (gives s).mp isSome
    refine ⟨?_, ?_, ?_, answered _ served.1⟩
    · rintro text' d' body' ⟨s', decoded', duration', -⟩
      have isSome' := (gives s').mpr ⟨text', body', decoded'⟩
      rw [isSome] at isSome'
      cases isSome'
      rw [duration] at duration'
      cases duration'
      exact served
    · intro text' body' lack
      have isNone := lacks.mpr ⟨text', body', lack⟩
      rw [isSome] at isNone
      cases isNone
    · intro neither
      exact absurd ⟨s, decoded, duration, long⟩ ((neither text body).2 d)
  · have served := status 422 (some err) (by decide) _ ends
    refine ⟨?_, ?_, fun _ => served, answered _ served.1⟩
    · rintro text d body ⟨s, decoded, duration, long⟩
      have small := short s d ((gives s).mpr ⟨text, body, decoded⟩) duration
      exact absurd long (not_le.mpr small)
    · intro text body lack
      exact absurd (lacks.mpr ⟨text, body, lack⟩) notNone

/-- A body that sets the idle time to five minutes. -/
def fiveMinutes : ServerRequest where
  body := .ok (Utf8.encode "\x7b\"idleTimeout\":\"5m\"\x7d".toList)
  getBody := none
  noGetBody := rfl

/-- It is not answered. -/
theorem not_updatesAtomically_fiveMinutes :
    Sets (Utf8.encode "\x7b\"idleTimeout\":\"5m\"\x7d".toList) (5 * Time.minute) ∧
      ¬ UpdatesAtomically fiveMinutes.body (15 * Time.minute)
        (serveUpdate (fun _ => []) fiveMinutes.toUpdateRequest (15 * Time.minute)) := by
  constructor
  · refine ⟨"5m".toList, ?_, by decide +kernel, by decide⟩
    rw [unmarshalUpdate, Utf8.runes_encode]
    decide +kernel
  · exact fun updates => updates.answers rfl

/-! ## Runs of requests -/

/-- The idle time, from one request to the next. -/
def updateMachine (idleTime : ℤ) : Machine ℤ UpdateRequest where
  init := idleTime
  step idleTime r := some (serveUpdate jsonError r idleTime).1

/-- One request leaves the idle time alone, or sets it to at least one minute. -/
theorem idleTime_of_serve (r : UpdateRequest) (idleTime : ℤ) :
    (serveUpdate jsonError r idleTime).1 = idleTime ∨
      Time.minute ≤ (serveUpdate jsonError r idleTime).1 := by
  cases parse : rpcParseJsonRequestBody jsonError r with
  | none =>
      left
      rw [serveUpdate, rpcUpdateAppPool, parse]
  | some parsed =>
      rw [serveUpdate]
      rcases rpcUpdateAppPool_cases jsonError parse idleTime with
        ⟨-, ends⟩ | ⟨s, d, -, -, long, ends⟩ | ⟨-, -, err, ends⟩
      · exact Or.inl (congrArg Prod.fst ends)
      · rw [ends]
        exact Or.inr long
      · exact Or.inl (congrArg Prod.fst ends)

/-- **In every run the idle time is what it was, or at least one minute.** -/
theorem idleTime_of_run (idleTime : ℤ) (run : List UpdateRequest) :
    ∀ i ∈ (updateMachine jsonError idleTime).visited idleTime run,
      i = idleTime ∨ Time.minute ≤ i := by
  refine Machine.inv_of_step _ (fun i r i' held served => ?_) run (Or.inl rfl)
  cases served
  rcases idleTime_of_serve jsonError r i with same | long
  · rwa [same]
  · exact Or.inr long

/-- **And where a server receives the requests, it is what it was.** -/
theorem idleTime_of_serverRun (idleTime : ℤ) {run : List UpdateRequest}
    (received : ∀ r ∈ run, r.getBody = none) :
    ∀ i ∈ (updateMachine jsonError idleTime).visited idleTime run, i = idleTime := by
  have guarded : (updateMachine jsonError idleTime).Guarded (fun _ r => r.getBody = none)
      idleTime run := Machine.guarded_of_forall _ (fun r mem _ => received r mem) idleTime
  refine Machine.inv_of_guarded _ (fun i r i' held noGetBody served => ?_) run rfl guarded
  cases served
  have closed := serveUpdate_of_server jsonError ⟨r, noGetBody⟩ i
  rw [closed]
  exact held

end PumaDev
