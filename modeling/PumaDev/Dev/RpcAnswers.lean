import PumaDev.Dev.RpcFind
import PumaDev.Dev.RpcUpdate
import PumaDev.Dev.Status
import PumaDev.Go.Marshal

/-!
# The answers of the RPC service

A handler returns a status, a value and an error, and `wrapHandler` writes the answer: the
text of the error, or the value as indented JSON.  What the client reads from the JSON is the
value (`reads_wrapResponse`), so nothing that an app is called or prints can make it say
something else.

The items are objects that say more than those of the index: `fullMembers` begins with the
members that `GET /apps` lists for the app.
-/

namespace PumaDev

namespace Marshal

/-- A text. -/
def text (s : GoString) : Input := .str (Utf8.encode s)

@[simp] theorem read_text (s : GoString) : (text s).read = .str s := by
  rw [text, Input.read, Utf8.runes_encode]

@[simp] theorem read_int (n : ℤ) : (Input.int n).read = .num n 0 := rfl

@[simp] theorem read_bool (b : Bool) : (Input.bool b).read = .bool b := rfl

/-- A `JsonObj`: its members in the order they are set. -/
abbrev Members := List (GoString × Input)

/-- A member that is set only under a condition. -/
def Members.when (set : Prop) [Decidable set] (key : GoString) (value : Input) : Members :=
  if set then [(key, value)] else []

/-- The map itself. -/
def obj (ms : Members) : Input := .map (ms.map fun m => (Utf8.encode m.1, m.2))

/-- The members as they are read. -/
def Members.read (ms : Members) : JsonObj := ms.map fun m => (m.1, m.2.read)

@[simp] theorem Members.read_cons (m : GoString × Input) (ms : Members) :
    Members.read (m :: ms) = (m.1, m.2.read) :: Members.read ms := rfl

@[simp] theorem Members.read_append (ms ms' : Members) :
    Members.read (ms ++ ms') = Members.read ms ++ Members.read ms' := List.map_append

@[simp] theorem Members.read_when (set : Prop) [Decidable set] (key : GoString) (value : Input) :
    Members.read (Members.when set key value) = JsonObj.when set key value.read := by
  unfold Members.when JsonObj.when
  split_ifs <;> rfl

/-- **A map is read with its members**, in the order of their keys. -/
theorem read_obj (ms : Members) :
    ∃ members, (obj ms).read = .obj members ∧ members.Perm (Members.read ms) := by
  refine ⟨_, rfl, ?_⟩
  rw [readMembers_eq, List.map_map]
  refine ((List.perm_insertionSort _ _).map _).trans (List.Perm.of_eq ?_)
  rw [List.map_map]
  refine List.map_congr_left fun m _ => ?_
  show (Utf8.runes 0 (Utf8.encode m.1), m.2.read) = _
  rw [Utf8.runes_encode]

/-- How deep a slice is. -/
theorem depth_slice_le {items : List Input} {n : ℕ} (each : ∀ v ∈ items, v.depth ≤ n) :
    (Input.slice items).depth ≤ n + 1 := by
  rw [Input.depth, Nat.succ_le_succ_iff]
  induction items with
  | nil => exact Nat.zero_le n
  | cons v rest ih =>
      rw [depthAll]
      exact max_le (each v List.mem_cons_self) (ih fun v' mem => each v' (List.mem_cons_of_mem _ mem))

/-- How deep a map is. -/
theorem depth_obj_le {ms : Members} {n : ℕ} (each : ∀ m ∈ ms, m.2.depth ≤ n) :
    (obj ms).depth ≤ n + 1 := by
  rw [obj, Input.depth, Nat.succ_le_succ_iff]
  induction ms with
  | nil => exact Nat.zero_le n
  | cons m rest ih =>
      rw [List.map_cons, depthMembers]
      exact max_le (each m List.mem_cons_self) (ih fun m' mem => each m' (List.mem_cons_of_mem _ mem))

end Marshal

open Marshal (Input Members)

/-! ## What `ToJson` says -/

/-- `os.ProcessState`, as far as it is reported. -/
structure ProcessState where
  exitCode : ℤ
  exited : Bool
  success : Bool
  systemTime : ℤ
  userTime : ℤ

/-- What `App.ToJson(true)` finds in an app beside what is fixed. -/
structure AppSight where
  /-- `os.Environ()`, when the app was launched. -/
  environ : List Bytes
  /-- `Command.Path`. -/
  path : GoString
  status : AppStatus
  lastLogLine : Bytes
  /-- `Command.ProcessState`, which is nil until the process has been waited for. -/
  processState : Option ProcessState

/-- `StatusLabels`. -/
def AppStatus.label : AppStatus → GoString
  | booting => "booting".toList
  | running => "running".toList
  | dead => "dead".toList

/-- Is the byte in the cutset `"\n\r\t "`? -/
def inCutset (b : UInt8) : Bool := b = 10 || b = 13 || b = 9 || b = 32

/-- `strings.Trim(s, "\n\r\t ")`. -/
def trimLogLine (s : Bytes) : Bytes := (s.dropWhile inCutset).rdropWhile inCutset

namespace App

/-- `App.ToJson(false)`, as it is encoded. -/
def members (app : App) : Members :=
  ("id".toList, Marshal.text app.name) :: ("name".toList, Marshal.text app.name) ::
    (Members.when (0 < app.host.length) "host".toList (Marshal.text app.host) ++
      ("scheme".toList, Marshal.text app.scheme) ::
      (Members.when (0 < app.port) "port".toList (.int app.port) ++
        Members.when app.isPublic "public".toList (.bool app.isPublic) ++
        Members.when (app.address ≠ []) "address".toList (Marshal.text app.address) ++
        [("directory".toList, Marshal.text app.dir)]))

/-- It is the object of the list. -/
theorem read_members (app : App) : Members.read app.members = app.toJson := by
  have nothing : Members.read [] = [] := rfl
  simp only [members, toJson, Members.read_cons, Members.read_append, Members.read_when, nothing,
    Marshal.read_text, Marshal.read_int, Marshal.read_bool]

/-- The command of an app.  `command["extraFiles"]` is looked at before it is set, so it is
never set. -/
def commandMembers (command : Command) (sight : AppSight) : Members :=
  ("environment".toList,
      Input.slice (sight.environ.map .str ++ command.env.map Marshal.text)) ::
    ("directory".toList, Marshal.text command.dir) ::
    ("arguments".toList, .slice ((command.shell :: command.args).map Marshal.text)) ::
    ("path".toList, Marshal.text sight.path) ::
    Members.when (0 < command.pid) "pid".toList (.int command.pid)

/-- The process of an app, once it has been waited for. -/
def resultMembers (state : ProcessState) : Members :=
  [("exitCode".toList, .int state.exitCode), ("exited".toList, .bool state.exited),
    ("success".toList, .bool state.success), ("systemTime".toList, .int state.systemTime),
    ("userTime".toList, .int state.userTime)]

/-- What `App.ToJson(true)` adds.  Nothing ever sets `booting`. -/
def moreMembers (app : App) (sight : AppSight) : Members :=
  ("booting".toList, .bool false) :: ("status".toList, Marshal.text sight.status.label) ::
    (Members.when (sight.lastLogLine ≠ []) "lastLogLine".toList
        (.str (trimLogLine sight.lastLogLine)) ++
      match app.command with
      | none => [("command".toList, .null)]
      | some command =>
          ("command".toList, Marshal.obj (commandMembers command sight)) ::
            match sight.processState with
            | none => []
            | some state => [("result".toList, Marshal.obj (resultMembers state))])

/-- `App.ToJson(true)`. -/
def fullMembers (app : App) (sight : AppSight) : Members := app.members ++ app.moreMembers sight

/-! ### How deep they are -/

theorem depth_of_mem_when {set : Prop} [Decidable set] {key : GoString} {value : Input} {n : ℕ}
    (le : value.depth ≤ n) : ∀ m ∈ Members.when set key value, m.2.depth ≤ n := by
  intro m mem
  unfold Members.when at mem
  split_ifs at mem
  · rw [List.mem_singleton.mp mem]
    exact le
  · cases mem

theorem depth_of_mem_members (app : App) : ∀ m ∈ app.members, m.2.depth ≤ 0 := by
  intro m mem
  simp only [members, List.mem_cons, List.mem_append, List.not_mem_nil, or_false] at mem
  rcases mem with rfl | rfl | mem | rfl | ((mem | mem) | mem) | rfl
  all_goals first | exact le_rfl | exact depth_of_mem_when le_rfl m mem

/-- The command is one level deep, and has slices in it. -/
theorem depth_commandMembers (command : Command) (sight : AppSight) :
    (Marshal.obj (commandMembers command sight)).depth ≤ 2 := by
  have strings : ∀ l : List Input, (∀ v ∈ l, v.depth ≤ 0) → (Input.slice l).depth ≤ 1 :=
    fun l each => Marshal.depth_slice_le each
  have texts : ∀ l : List GoString, ∀ v ∈ l.map Marshal.text, v.depth ≤ 0 := by
    intro l v mem
    obtain ⟨s, -, rfl⟩ := List.mem_map.mp mem
    exact le_rfl
  refine Marshal.depth_obj_le fun m mem => ?_
  simp only [commandMembers, List.mem_cons] at mem
  rcases mem with rfl | rfl | rfl | rfl | mem
  · refine strings _ fun v mem => ?_
    rcases List.mem_append.mp mem with inherited | added
    · obtain ⟨s, -, rfl⟩ := List.mem_map.mp inherited
      exact le_rfl
    · exact texts _ v added
  · exact Nat.zero_le 1
  · exact strings _ (texts (command.shell :: command.args))
  · exact Nat.zero_le 1
  · exact depth_of_mem_when (Nat.zero_le 1) m mem

theorem depth_resultMembers (state : ProcessState) :
    (Marshal.obj (resultMembers state)).depth ≤ 1 := by
  refine Marshal.depth_obj_le fun m mem => ?_
  simp only [resultMembers, List.mem_cons, List.not_mem_nil, or_false] at mem
  rcases mem with rfl | rfl | rfl | rfl | rfl <;> exact le_rfl

theorem depth_of_mem_moreMembers (app : App) (sight : AppSight) :
    ∀ m ∈ app.moreMembers sight, m.2.depth ≤ 2 := by
  intro m mem
  simp only [moreMembers, List.mem_cons, List.mem_append] at mem
  rcases mem with rfl | rfl | mem | mem
  · exact Nat.zero_le 2
  · exact Nat.zero_le 2
  · exact depth_of_mem_when (Nat.zero_le 2) m mem
  · split at mem
    · rw [List.mem_singleton.mp mem]
      exact Nat.zero_le 2
    · rcases List.mem_cons.mp mem with rfl | mem
      · exact depth_commandMembers _ sight
      · split at mem
        · cases mem
        · rw [List.mem_singleton.mp mem]
          exact (depth_resultMembers _).trans (by decide)

theorem depth_members (app : App) : (Marshal.obj app.members).depth ≤ 1 :=
  Marshal.depth_obj_le app.depth_of_mem_members

theorem depth_fullMembers (app : App) (sight : AppSight) :
    (Marshal.obj (app.fullMembers sight)).depth ≤ 3 := by
  refine Marshal.depth_obj_le fun m mem => ?_
  rcases List.mem_append.mp mem with first | more
  · exact (app.depth_of_mem_members m first).trans (by decide)
  · exact app.depth_of_mem_moreMembers sight m more

end App

/-! ## The answer of a handler -/

/-- What a handler returns. -/
structure HandlerResult where
  status : ℕ
  response : Option Input
  err : Option GoString

/-- `RpcService.wrapHandler`, for any handler.  A response without a status is written with
the status 0, which `WriteHeader` refuses with a panic. -/
def wrapResponse (result : HandlerResult) : HttpAnswer :=
  match result.err, result.response with
  | some err, _ => wrapHandler (.returns result.status (some err))
  | none, none => wrapHandler (.returns result.status none)
  | none, some response =>
      match Marshal.marshalIndent response with
      | none => wrapHandler (.returns result.status none)
      | some text => if result.status = 0 then .closed else .sent result.status text

/-- The answer has the status, and its body is JSON that is read as the value. -/
def HttpAnswer.Says (answer : HttpAnswer) (status : ℕ) (value : Json) : Prop :=
  ∃ text, answer = .sent status text ∧ Json.parse text = some value

/-- **What a handler responds is what the client reads.** -/
theorem says_wrapResponse {status : ℕ} {response : Input} (set : status ≠ 0)
    (noInt : ∀ n, response ≠ .int n) (fits : response.depth ≤ Json.maxNestingDepth) :
    (wrapResponse ⟨status, some response, none⟩).Says status response.read := by
  obtain ⟨text, encoded, reads⟩ := Marshal.parse_marshalIndent response noInt fits
  refine ⟨text, ?_, reads⟩
  simp only [wrapResponse, encoded, if_neg set]

end PumaDev
