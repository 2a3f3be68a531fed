import PumaDev.Dev.Events
import PumaDev.LineBuffer
import PumaDev.Websockets.Hub

/-!
# Emitting an event

Every event goes three ways: into the buffer of the pool, to the hub of the
websocket clients, and back to the caller as a string.  `Events.add` is the
whole call, with the global RPC service it reaches as part of the state.

The service's hub has three lives: there is none before `StartRPC` has run,
there is one whose goroutine has not been scheduled yet, and there is one that
runs and takes what it is sent.  `Outcome` keeps apart what a call can come to:
it returns, it panics, or it waits for a receiver that is not there yet; in the
end the receiver comes, and the call returns (`await`).

* `EventCall` lists the calls that the pool and its apps make, with the names
  and keys each of them passes.
* `add_of_wellFormed` says what a call whose line can be decoded does in each of
  the three lives.
* `startup` is the start of the process on one platform, interleaved with any
  calls: the macOS main starts the RPC service, the Linux main never does.

`safe_iff_hubRuns` is the result: such a call returns after appending its line
exactly when the hub exists and runs, and panics exactly when there is none.
-/

namespace PumaDev

/-- The hub, as those who broadcast see it. -/
structure HubView where
  /-- `Hub.Run` has been entered. -/
  running : Bool
  /-- The messages it has taken from its `send` channel, oldest first. -/
  taken : List Message
  /-- The messages of the callers that wait for it to run, in the order in which they came. -/
  waiting : List Message
  deriving DecidableEq

/-- The part of `RpcService` that events reach. -/
structure RpcService where
  wsChannel : Option HubView
  deriving DecidableEq

/-- There is a hub, and it runs. -/
def RpcService.HubRuns (svc : RpcService) : Prop :=
  ∃ hub, svc.wsChannel = some hub ∧ hub.running = true

/-- `Hub.Run` is entered, and takes what has been waiting for it: the callers go on. -/
def HubView.run (hub : HubView) : HubView := ⟨true, hub.taken ++ hub.waiting, []⟩

/-- The hub of the service comes to run, if there is one. -/
def RpcService.runHub (svc : RpcService) : RpcService := ⟨svc.wsChannel.map HubView.run⟩

/-- What a call comes to, and the state it leaves. -/
inductive Outcome (σ : Type) where
  | returned (s : σ)
  | panicked (s : σ)
  | blocked (s : σ)

/-- The state a call leaves. -/
def Outcome.state {σ : Type} : Outcome σ → σ
  | .returned s => s
  | .panicked s => s
  | .blocked s => s

/-- The process as the emitters of events share it. -/
structure EventState where
  /-- The buffer of `AppPool.Events`. -/
  events : LineBuffer GoString
  /-- The global `rpcService`. -/
  rpcService : RpcService

namespace RpcService

/-- `Hub.Broadcast`: the send needs a hub, and waits for it to receive. -/
def broadcast (svc : RpcService) (data : GoString) (tags : List GoString) :
    Outcome RpcService :=
  let payload := Websockets.oneLine data
  match svc.wsChannel with
  | none => .panicked svc
  | some hub =>
      if hub.running then
        .returned ⟨some { hub with taken := hub.taken ++ [⟨payload, tags⟩] }⟩
      else .blocked ⟨some { hub with waiting := hub.waiting ++ [⟨payload, tags⟩] }⟩

/-- `RpcService.handleEvent`. -/
def handleEvent (svc : RpcService) (event : GoString) (tags : List GoString) :
    Outcome RpcService :=
  match unmarshalMap event with
  | none => .returned svc
  | some obj =>
      -- a value that is not a string panics in the type assertion
      let tags := match obj.lookup "app".toList with
        | none | some .null => some (tags ++ ["general".toList])
        | some (.str app) => some (tags ++ [app])
        | some _ => none
      match tags with
      | none => .panicked svc
      | some tags =>
          match obj.lookup "tags".toList with
          | none | some .null => svc.broadcast event tags
          -- no decoded value is a `[]string`
          | some _ => .panicked svc

end RpcService

/-- `Events.Add`. -/
def Events.add (T : PrintTable) (now name : GoString) (args : List Arg)
    (s : EventState) : Outcome EventState :=
  match Events.line T now name args with
  | none => .panicked s
  | some str =>
      let appended := s.events.append str
      match s.rpcService.handleEvent str [] with
      | .returned svc => .returned ⟨appended, svc⟩
      | .panicked svc => .panicked ⟨appended, svc⟩
      | .blocked svc => .blocked ⟨appended, svc⟩

/-! ## The calls -/

/-- The events of an app (`App.eventAdd` and `RpcService.handleLog`). -/
inductive AppEvent where
  | bootingApp (socket : GoString)
  | waitingOnApp
  | dyingOnStart
  | appReady
  | proxyCreated (destination : GoString)
  | consoleLog (message : GoString)
  | idleApp (lastUsed : GoString)
  | purgingApp
  | killingApp (pid : ℤ) (reason : GoString)
  | killingError (pid : ℤ) (error : GoString)
  | shutdown
  deriving DecidableEq

/-- The events of the pool (`lookupApp`, `Purge`) and of its apps. -/
inductive EventCall where
  | appLookup (path : GoString)
  | badSymlink (path dest : GoString)
  | errorStartingApp (appName error : GoString)
  | appsPurged
  | app (appName : GoString) (event : AppEvent)
  deriving DecidableEq

namespace AppEvent

/-- The name the event is added under. -/
def name : AppEvent → PlainText
  | bootingApp _ => .of "booting_app" (by decide)
  | waitingOnApp => .of "waiting_on_app" (by decide)
  | dyingOnStart => .of "dying_on_start" (by decide)
  | appReady => .of "app_ready" (by decide)
  | proxyCreated _ => .of "proxy_created" (by decide)
  | consoleLog _ => .consoleLog
  | idleApp _ => .of "idle_app" (by decide)
  | purgingApp => .of "purging_app" (by decide)
  | killingApp .. => .of "killing_app" (by decide)
  | killingError .. => .of "killing_error" (by decide)
  | shutdown => .of "shutdown" (by decide)

/-- The keys and values after `"app", a.Name`. -/
def pairs : AppEvent → List (PlainText × Arg)
  | bootingApp socket => [(.of "socket" (by decide), .str socket)]
  | waitingOnApp | dyingOnStart | appReady | purgingApp | shutdown => []
  | proxyCreated destination => [(.of "destination" (by decide), .str destination)]
  | consoleLog message => [(.message, .str message)]
  | idleApp lastUsed => [(.of "last_used" (by decide), .str lastUsed)]
  | killingApp pid reason =>
      [(.of "pid" (by decide), .int pid), (.of "reason" (by decide), .str reason)]
  | killingError pid error =>
      [(.of "pid" (by decide), .int pid), (.of "error" (by decide), .str error)]

end AppEvent

namespace EventCall

/-- The name the event is added under. -/
def name : EventCall → PlainText
  | appLookup _ => .of "app_lookup" (by decide)
  | badSymlink .. => .of "bad_symlink" (by decide)
  | errorStartingApp .. => .of "error_starting_app" (by decide)
  | appsPurged => .of "apps_purged" (by decide)
  | app _ event => event.name

/-- The keys and values of the call; `App.eventAdd` puts the app's name before
those of the event. -/
def pairs : EventCall → List (PlainText × Arg)
  | appLookup path => [(.of "path" (by decide), .str path)]
  | badSymlink path dest =>
      [(.of "path" (by decide), .str path), (.of "dest" (by decide), .str dest)]
  | errorStartingApp appName error =>
      [(.app, .str appName), (.of "error" (by decide), .str error)]
  | appsPurged => []
  | app appName event => (.app, .str appName) :: event.pairs

/-- The keys of a call are distinct, and none of them is one that `Add` or the
router gives a meaning of its own. -/
theorem nodup_keys (e : EventCall) :
    ("time".toList :: "event".toList :: "tags".toList ::
      e.pairs.map fun p => p.1.text).Nodup := by
  cases e with
  | app appName event => cases event <;> exact of_decide_eq_true rfl
  | _ => exact of_decide_eq_true rfl

/-- The call at the time `now`. -/
def toCall (e : EventCall) (now : PlainText) : Call where
  now := now
  name := e.name
  pairs := e.pairs
  distinct := by
    have keys := e.nodup_keys
    simp only [List.nodup_cons, List.mem_cons, not_or] at keys ⊢
    exact ⟨⟨keys.1.1, keys.1.2.2⟩, keys.2.1.2, keys.2.2.2⟩

/-- Whoever routes the event by its `app` finds a string there. -/
theorem str_of_app_mem (e : EventCall) {p : PlainText × Arg} (mem : p ∈ e.pairs)
    (key : p.1.text = "app".toList) : ∃ s, p.2 = .str s := by
  cases e with
  | app appName event =>
      rcases List.mem_cons.mp mem with rfl | inEvent
      · exact ⟨appName, rfl⟩
      · have keys := (app appName event).nodup_keys
        simp only [pairs, List.map_cons, List.nodup_cons] at keys
        exact absurd (List.mem_map.mpr ⟨p, inEvent, key⟩) keys.2.2.2.1
  | appsPurged => cases mem
  | _ =>
      simp only [pairs, List.mem_cons, List.not_mem_nil, or_false] at mem
      rcases mem with rfl | rfl <;> exact ⟨_, rfl⟩

/-- The call, made at the time `now`. -/
def add (T : PrintTable) (now : PlainText) (e : EventCall) (s : EventState) :
    Outcome EventState :=
  Events.add T now.text e.name.text (e.toCall now).args s

/-- The call's arguments come in pairs and its line is one that `json.Unmarshal`
takes. -/
def WellFormed (T : PrintTable) (now : PlainText) (e : EventCall) : Prop :=
  ((e.toCall now).line T).bind unmarshalMap ≠ none

/-- The call returns, and has appended its line to the buffer. -/
def Safe (T : PrintTable) (now : PlainText) (e : EventCall) (s : EventState) : Prop :=
  ∃ s', e.add T now s = .returned s' ∧
    s'.events = s.events.append ((e.toCall now).text T)

/-- The call panics. -/
def Panics (T : PrintTable) (now : PlainText) (e : EventCall) (s : EventState) : Prop :=
  ∃ s', e.add T now s = .panicked s'

/-- What a well-formed line is decoded to, entry by entry. -/
theorem lookup_of_decodes {T : PrintTable} {now : PlainText} {e : EventCall}
    {obj : Registry GoString GoAny} (decodes : unmarshalMap ((e.toCall now).text T) = some obj)
    {k : GoString} {v : GoAny} (found : obj.lookup k = some v) :
    ∃ j, (k, j) ∈ (e.toCall now).entries ∧ Unmarshal.value j = some v := by
  rw [Call.unmarshalMap_text] at decodes
  split at decodes
  · obtain ⟨decoded, members, rfl⟩ := Option.map_eq_some_iff.mp decodes
    have each := Unmarshal.members_eq_some_iff.mp members
    have mem := (Registry.lookup_ofList ((e.toCall now).nodup_keys each)).mp found
    obtain ⟨⟨k', j⟩, inEntries, sameKey, value⟩ := Unmarshal.exists_of_mem_decoded each mem
    cases sameKey
    exact ⟨j, inEntries, value⟩
  · cases decodes

/-- **Routing.**  A well-formed line has no `tags` and no `app` but a string, so
handling it is broadcasting it. -/
theorem handleEvent_of_decodes {T : PrintTable} {now : PlainText} {e : EventCall}
    {obj : Registry GoString GoAny} (decodes : unmarshalMap ((e.toCall now).text T) = some obj)
    (svc : RpcService) : ∃ tags, svc.handleEvent ((e.toCall now).text T) [] =
      svc.broadcast ((e.toCall now).text T) tags := by
  have keys := e.nodup_keys
  simp only [List.nodup_cons, List.mem_cons, not_or] at keys
  -- an entry under a key of the call itself is one of its pairs
  have ofPairs : ∀ {k : GoString} {j : Json}, (k, j) ∈ (e.toCall now).entries →
      k ≠ "time".toList → k ≠ "event".toList → ∃ p ∈ e.pairs, p.1.text = k ∧ p.2.json = j := by
    intro k j mem notTime notEvent
    rcases List.mem_cons.mp mem with same | mem
    · exact absurd (congrArg Prod.fst same) notTime
    rcases List.mem_cons.mp mem with same | mem
    · exact absurd (congrArg Prod.fst same) notEvent
    obtain ⟨p, inPairs, same⟩ := List.mem_map.mp mem
    exact ⟨p, inPairs, congrArg Prod.fst same, congrArg Prod.snd same⟩
  have noTags : obj.lookup "tags".toList = none := by
    cases found : obj.lookup "tags".toList with
    | none => rfl
    | some v =>
        obtain ⟨j, mem, -⟩ := lookup_of_decodes decodes found
        obtain ⟨p, inPairs, key, -⟩ := ofPairs mem (by decide) (by decide)
        exact absurd (List.mem_map.mpr ⟨p, inPairs, key⟩) keys.2.2.1
  rw [RpcService.handleEvent, decodes]
  simp only [noTags]
  cases found : obj.lookup "app".toList with
  | none => exact ⟨_, rfl⟩
  | some v =>
      obtain ⟨j, mem, value⟩ := lookup_of_decodes decodes found
      obtain ⟨p, inPairs, key, json⟩ := ofPairs mem (by decide) (by decide)
      obtain ⟨s, text⟩ := e.str_of_app_mem inPairs key
      rw [text] at json
      cases json
      cases value
      exact ⟨_, rfl⟩

/-- **A well-formed call** appends its line; the rest is up to the hub. -/
theorem add_of_wellFormed {T : PrintTable} {now : PlainText} {e : EventCall}
    (wellFormed : e.WellFormed T now) (s : EventState) :
    ∃ tags, e.add T now s =
      match s.rpcService.broadcast ((e.toCall now).text T) tags with
      | .returned svc => .returned ⟨s.events.append ((e.toCall now).text T), svc⟩
      | .panicked svc => .panicked ⟨s.events.append ((e.toCall now).text T), svc⟩
      | .blocked svc => .blocked ⟨s.events.append ((e.toCall now).text T), svc⟩ := by
  have line := (e.toCall now).line_eq T
  obtain ⟨obj, decodes⟩ : ∃ obj, unmarshalMap ((e.toCall now).text T) = some obj := by
    rw [WellFormed, line, Option.bind_some] at wellFormed
    exact Option.ne_none_iff_exists'.mp wellFormed
  obtain ⟨tags, routed⟩ := handleEvent_of_decodes decodes s.rpcService
  refine ⟨tags, ?_⟩
  have built : Events.line T now.text e.name.text (e.toCall now).args =
      some ((e.toCall now).text T) := line
  rw [add, Events.add, built]
  simp only [routed]

/-- **One call.**  A well-formed call is safe exactly when there is a hub that
runs. -/
theorem safe_iff {T : PrintTable} {now : PlainText} {e : EventCall}
    (wellFormed : e.WellFormed T now) (s : EventState) :
    e.Safe T now s ↔ s.rpcService.HubRuns := by
  obtain ⟨tags, outcome⟩ := add_of_wellFormed wellFormed s
  rw [Safe, outcome, RpcService.HubRuns]
  cases channel : s.rpcService.wsChannel with
  | none => simp [RpcService.broadcast, channel]
  | some hub =>
      cases running : hub.running with
      | false => simp [RpcService.broadcast, channel, running]
      | true => simp [RpcService.broadcast, channel, running]

/-- It panics exactly when there is no hub; otherwise it returns or waits for one that
has not started to run. -/
theorem panics_iff {T : PrintTable} {now : PlainText} {e : EventCall}
    (wellFormed : e.WellFormed T now) (s : EventState) :
    e.Panics T now s ↔ s.rpcService.wsChannel = none := by
  obtain ⟨tags, outcome⟩ := add_of_wellFormed wellFormed s
  rw [Panics, outcome]
  cases channel : s.rpcService.wsChannel with
  | none => simp [RpcService.broadcast, channel]
  | some hub =>
      cases running : hub.running with
      | false => simp [RpcService.broadcast, channel, running]
      | true => simp [RpcService.broadcast, channel, running]

/-- The texts of the call hold no character that Go escapes in a way JSON does not know. -/
def JsonSafe (T : PrintTable) (e : EventCall) : Prop := ∀ p ∈ e.pairs, p.2.JsonSafe T

/-- `Events.Add`, until it is over: a caller that waits goes on when the hub, whose goroutine
`StartRPC` has started, comes to run.  An error is a panic, with the state it leaves. -/
def await (T : PrintTable) (now : PlainText) (e : EventCall) (s : EventState) :
    Except EventState EventState :=
  match e.add T now s with
  | .returned s => .ok s
  | .blocked s => .ok { s with rpcService := s.rpcService.runHub }
  | .panicked s => .error s

/-- **A call comes back** if there is a hub, be it one that does not run yet; or if its line
cannot be decoded, for then it never gets to the hub. -/
theorem await_iff {T : PrintTable} {now : PlainText} {e : EventCall} {s : EventState} :
    (∃ s', e.await T now s = .ok s') ↔
      s.rpcService.wsChannel ≠ none ∨ ¬ e.WellFormed T now := by
  by_cases wellFormed : e.WellFormed T now
  · obtain ⟨tags, outcome⟩ := add_of_wellFormed wellFormed s
    rw [await, outcome]
    cases channel : s.rpcService.wsChannel with
    | none => simp [RpcService.broadcast, channel, wellFormed]
    | some hub =>
        cases running : hub.running <;> simp [RpcService.broadcast, channel, running]
  · have dropped : s.rpcService.handleEvent ((e.toCall now).text T) [] =
        .returned s.rpcService := by
      have none_ : unmarshalMap ((e.toCall now).text T) = none := by
        rwa [WellFormed, Call.line_eq, Option.bind_some, not_not] at wellFormed
      rw [RpcService.handleEvent, none_]
    have built : Events.line T now.text e.name.text (e.toCall now).args =
        some ((e.toCall now).text T) := (e.toCall now).line_eq T
    rw [await, add, Events.add, built]
    simp [dropped, wellFormed]

end EventCall

/-! ## The start of the process -/

/-- The platforms that have a main of their own. -/
inductive Platform where
  | linux
  | darwin
  deriving DecidableEq

/-- What happens while the process starts, in any order. -/
inductive StartupStep where
  /-- `HTTPServer.StartRPC` creates the hub; only the macOS main calls it. -/
  | startRPC
  /-- The goroutine `StartRPC` started enters `Hub.Run`. -/
  | runHub
  /-- Somebody emits an event. -/
  | emit (now : PlainText) (e : EventCall)

/-- The start of the process.  A panic in a request handler is recovered by the
HTTP server, so what a panicking call has appended stays. -/
def startup (T : PrintTable) (platform : Platform) : Machine EventState StartupStep where
  init := ⟨.zero, ⟨none⟩⟩
  step s
    | .startRPC =>
        if platform = .darwin ∧ s.rpcService.wsChannel = none then
          some { s with rpcService := ⟨some ⟨false, [], []⟩⟩ }
        else none
    | .runHub =>
        match s.rpcService.wsChannel with
        | some hub =>
            if hub.running then none else some { s with rpcService := s.rpcService.runHub }
        | none => none
    | .emit now e => some (e.add T now s).state

/-- Broadcasting neither creates a hub nor loses it. -/
theorem RpcService.isSome_broadcast (svc : RpcService) (data : GoString)
    (tags : List GoString) :
    (svc.broadcast data tags).state.wsChannel.isSome = svc.wsChannel.isSome := by
  unfold broadcast
  cases channel : svc.wsChannel with
  | none => simp [Outcome.state, channel]
  | some hub => cases running : hub.running <;> simp [Outcome.state, running]

theorem RpcService.isSome_handleEvent (svc : RpcService) (event : GoString)
    (tags : List GoString) :
    (svc.handleEvent event tags).state.wsChannel.isSome = svc.wsChannel.isSome := by
  unfold handleEvent
  split
  · rfl
  · dsimp only
    split
    · rfl
    · split
      · exact svc.isSome_broadcast event _
      · exact svc.isSome_broadcast event _
      · rfl

/-- Neither does emitting an event, whatever comes of it. -/
theorem EventCall.isSome_add (T : PrintTable) (now : PlainText) (e : EventCall)
    (s : EventState) : (e.add T now s).state.rpcService.wsChannel.isSome =
      s.rpcService.wsChannel.isSome := by
  have handled := s.rpcService.isSome_handleEvent ((e.toCall now).text T) []
  have built : Events.line T now.text e.name.text (e.toCall now).args =
      some ((e.toCall now).text T) := (e.toCall now).line_eq T
  rw [add, Events.add, built]
  dsimp only
  cases outcome : s.rpcService.handleEvent ((e.toCall now).text T) [] <;>
    simpa [Outcome.state, outcome] using handled

/-- Nor does waiting for the hub to run. -/
theorem EventCall.isSome_await {T : PrintTable} {now : PlainText} {e : EventCall}
    {s s' : EventState} (returned : e.await T now s = .ok s') :
    s'.rpcService.wsChannel.isSome = s.rpcService.wsChannel.isSome := by
  have added := e.isSome_add T now s
  rw [await] at returned
  cases outcome : e.add T now s with
  | returned s₁ =>
      rw [outcome] at added returned
      cases returned
      exact added
  | blocked s₁ =>
      rw [outcome] at added returned
      cases returned
      simpa [RpcService.runHub, Outcome.state] using added
  | panicked s₁ =>
      rw [outcome] at returned
      cases returned

/-- A hub is there only after the macOS main has started the service. -/
theorem darwin_of_isSome {T : PrintTable} {platform : Platform} (steps : List StartupStep) :
    ∀ s ∈ (startup T platform).visited (startup T platform).init steps,
      s.rpcService.wsChannel.isSome → platform = .darwin := by
  refine (startup T platform).inv_of_step (fun s i t inv hstep created => ?_) steps ?_
  · cases i with
    | startRPC =>
        simp only [startup] at hstep
        split at hstep
        · next enabled => exact enabled.1
        · cases hstep
    | runHub =>
        refine inv ?_
        simp only [startup] at hstep
        split at hstep
        · next channel => simp [channel]
        · cases hstep
    | emit now e =>
        simp only [startup, Option.some.injEq] at hstep
        rw [← hstep, EventCall.isSome_add] at created
        exact inv created
  · intro created
    cases created

/-- **Emitting is safe once the hub runs, and not before.**  In every state the
process can be in while it starts, on either platform, a well-formed call
returns after appending its line if and only if there is a hub and it runs, and
panics if and only if there is none.  To have one takes the macOS main: the Linux
main never starts the service. -/
theorem safe_iff_hubRuns (T : PrintTable) (platform : Platform) (steps : List StartupStep) :
    ∀ s ∈ (startup T platform).visited (startup T platform).init steps,
      (∀ (now : PlainText) (e : EventCall), e.WellFormed T now →
        (e.Safe T now s ↔ s.rpcService.HubRuns) ∧
        (e.Panics T now s ↔ s.rpcService.wsChannel = none)) ∧
      (s.rpcService.wsChannel ≠ none → platform = .darwin) := by
  intro s mem
  refine ⟨fun now e wellFormed => ⟨EventCall.safe_iff wellFormed s,
    EventCall.panics_iff wellFormed s⟩, fun created => ?_⟩
  exact darwin_of_isSome steps s mem (Option.isSome_iff_ne_none.mpr created)

/-- The lookup of an app, at some moment. -/
def someLookup : EventCall := .appLookup "/home/u/.puma-dev/blog".toList

/-- That moment. -/
def someTime : PlainText := .of "2024-05-01 10:00:05 +0000 UTC" (by decide)

theorem wellFormed_someLookup : someLookup.WellFormed PrintTable.asciiOnly someTime := by
  have safe : (someLookup.toCall someTime).JsonSafe PrintTable.asciiOnly := by decide
  rw [EventCall.WellFormed, Call.line_eq, Option.bind_some, Call.unmarshalMap_text,
    if_pos safe]
  exact fun none => absurd none (by simp [Unmarshal.members, Unmarshal.value, Call.entries,
    EventCall.toCall, someLookup, EventCall.pairs, Arg.json])

/-- After the macOS main has started the service, a lookup is reported safely. -/
theorem safe_someLookup : someLookup.Safe PrintTable.asciiOnly someTime
    ⟨.zero, ⟨some ⟨true, [], []⟩⟩⟩ := by
  have reached : (startup PrintTable.asciiOnly .darwin).exec
      (startup PrintTable.asciiOnly .darwin).init [.startRPC, .runHub] =
        some ⟨.zero, ⟨some ⟨true, [], []⟩⟩⟩ := rfl
  exact ((safe_iff_hubRuns PrintTable.asciiOnly .darwin [.startRPC, .runHub] _
    (Machine.mem_visited_of_exec _ reached)).1
      someTime someLookup wellFormed_someLookup).1.mpr ⟨⟨true, [], []⟩, rfl, rfl⟩

/-- On Linux the first lookup panics: there is no hub to dereference. -/
theorem panicked_someLookup :
    someLookup.WellFormed PrintTable.asciiOnly someTime ∧
      ¬ someLookup.Safe PrintTable.asciiOnly someTime
        (startup PrintTable.asciiOnly .linux).init ∧
      someLookup.Panics PrintTable.asciiOnly someTime
        (startup PrintTable.asciiOnly .linux).init := by
  refine ⟨wellFormed_someLookup, fun safe => ?_, ?_⟩
  · obtain ⟨hub, channel, -⟩ := (EventCall.safe_iff wellFormed_someLookup _).mp safe
    cases channel
  · exact (EventCall.panics_iff wellFormed_someLookup _).mpr rfl

end PumaDev
