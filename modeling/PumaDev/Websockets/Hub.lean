import PumaDev.Go.Strings
import PumaDev.Lib.Channel
import PumaDev.Lib.Machine

/-!
# The hub of the websocket clients

One goroutine, `Hub.Run`, owns the set of registered clients.  Each client has
three goroutines of its own: `readPump` forwards what the peer sends into the
channel `recv`, `listen` takes it from there and answers through the channel
`send`, and `writePump` drains `send` to the peer.  Clients are registered and
unregistered, and messages broadcast, by a rendezvous with the hub.

Only the hub closes the channels of a client, when it unregisters the client or
when the client's `send` is full.  Closing is three steps of the hub — forget the
client, close `recv`, close `send` — and every other goroutine may move between
them.  A send to a closed channel and a second close end the process; the state
records that as a `Fault`, and nothing happens after it.

The labels are the steps of all goroutines, and of the peers.  Where the hub
ranges over its clients, the label picks the next one, as Go's map iteration
does.
-/

namespace PumaDev

/-- A message for the websocket clients. -/
structure Message where
  payload : GoString
  tags : List GoString
  deriving DecidableEq

namespace Websockets

/-- `maxMessageSize`. -/
def maxMessageSize : ℕ := 2048

/-- The address of a client. -/
abbrev ClientId := ℕ

/-- The points of `readPump`. -/
inductive ReaderPc where
  /-- `Serve` has not registered the client yet. -/
  | unborn
  /-- Before `ReadMessage`. -/
  | reading
  /-- Before `c.recv <- message`. -/
  | forwarding (message : GoString)
  /-- Before `c.Hub.unregister <- c`. -/
  | leaving
  | done
  deriving DecidableEq

/-- The points of `listen`. -/
inductive ListenerPc where
  | unborn
  /-- Before the receive from `recv`. -/
  | waiting
  /-- Inside the callback, before its `Send`. -/
  | replying
  | done
  deriving DecidableEq

/-- The points of `writePump`. -/
inductive WriterPc where
  | unborn
  | running
  | done
  deriving DecidableEq

/-- `Client`, with its goroutines. -/
structure Client where
  subscriptions : List GoString
  /-- `none` when the client is served without `OnMessage`. -/
  recv : Option (Chan GoString)
  send : Chan GoString
  reader : ReaderPc
  listener : ListenerPc
  writer : WriterPc

namespace Client

/-- The client that `Serve` builds. -/
def new (onMessage : Bool) (subscriptions : List GoString) : Client where
  subscriptions := ["errors".toList, "broadcast".toList] ++ subscriptions
  recv := if onMessage then some (.make (maxMessageSize * 4)) else none
  send := .make (maxMessageSize * 4)
  reader := .unborn
  listener := .unborn
  writer := .unborn

/-- The goroutines that `Serve` starts once the client is registered. -/
def started (k : Client) : Client :=
  { k with
    reader := .reading
    listener := if k.recv.isSome then .waiting else .done
    writer := .running }

/-- `Client.IsSubscribed`. -/
def isSubscribed (k : Client) (names : List GoString) : Bool :=
  "*".toList ∈ k.subscriptions || names.any (· ∈ k.subscriptions)

end Client

/-- The channels of the hub itself. -/
inductive Shared where
  | register
  | unregister
  | send
  | stop
  deriving DecidableEq

/-- Why the process ended. -/
inductive Fault where
  | sendToRecv
  | sendToSend
  | closeRecv
  | closeSend
  | sendToHub (channel : Shared)
  deriving DecidableEq

/-- Where the hub goes on after it has closed a client. -/
inductive Resume where
  /-- The select of `Run`. -/
  | select
  /-- The loop of `broadcast`, with the clients it has still to visit. -/
  | broadcast (message : Message) (todo : List ClientId)
  /-- The loop of `shutdown`. -/
  | shutdown (todo : List ClientId)
  deriving DecidableEq

/-- The steps of `Client.close`. -/
inductive CloseStage where
  | delete
  | recv
  | send
  deriving DecidableEq

/-- The points of `Hub.Run`. -/
inductive HubPc where
  | run (at_ : Resume)
  /-- A client was received from `register`: before it is added. -/
  | insert (c : ClientId)
  /-- A client was received from `unregister`: before it is looked up. -/
  | check (c : ClientId)
  /-- Inside `Client.close`. -/
  | close (stage : CloseStage) (c : ClientId) (next : Resume)
  /-- At the start of `shutdown`, with the hub's channels that are left to close. -/
  | closeShared (left : List Shared)
  | stopped
  deriving DecidableEq

/-- The hub, its clients and the process they live in. -/
structure State where
  /-- The keys of `h.clients`. -/
  members : List ClientId
  pc : HubPc
  /-- The channels of the hub that are closed. -/
  shut : List Shared
  /-- Every client ever served, by its address. -/
  conns : List Client
  /-- Set when the process has panicked. -/
  fault : Option Fault

/-- A step of some goroutine, or of a peer. -/
inductive Label where
  /-- `Serve` accepts a connection. -/
  | serve (onMessage : Bool) (subscriptions : List GoString)
  /-- `Serve` registers its client and starts the client's goroutines. -/
  | register (c : ClientId)
  /-- Somebody calls `Broadcast`. -/
  | broadcast (data : GoString) (tags : List GoString)
  /-- Somebody calls `Stop`. -/
  | stop
  /-- `readPump` unregisters its client and ends. -/
  | unregister (c : ClientId)
  /-- `UnregisterAll`, on a purge, unregisters a client it has met in `h.clients`. -/
  | purge (c : ClientId)
  /-- The hub's next step on its own; where it ranges over clients, with `pick`. -/
  | hub (pick : ClientId)
  /-- A message arrives from the peer. -/
  | peer (c : ClientId) (raw : GoString)
  /-- The connection is gone. -/
  | peerGone (c : ClientId)
  /-- `readPump` sends to `recv`. -/
  | forward (c : ClientId)
  /-- `listen` receives from `recv`. -/
  | listen (c : ClientId)
  /-- The callback of `listen` answers with `Send`. -/
  | reply (c : ClientId)
  /-- `writePump` receives from `send`. -/
  | drain (c : ClientId)
  /-- `writePump` ends on an error. -/
  | writerStops (c : ClientId)
  deriving DecidableEq

/-- What `readPump` and `Broadcast` make of a text. -/
def oneLine (data : GoString) : GoString :=
  Strings.trimSpace (Strings.replaceByte data '\n' ' ')

/-- The answer of `rpcEventsConnectWS` to any message. -/
def replyText : GoString := "Incoming websocket messages unsupported".toList

namespace State

/-- The client under an address changes. -/
def setClient (s : State) (c : ClientId) (k : Client) : State :=
  { s with conns := s.conns.set c k }

@[simp] theorem members_setClient (s : State) (c : ClientId) (k : Client) :
    (s.setClient c k).members = s.members := rfl

@[simp] theorem pc_setClient (s : State) (c : ClientId) (k : Client) :
    (s.setClient c k).pc = s.pc := rfl

@[simp] theorem fault_setClient (s : State) (c : ClientId) (k : Client) :
    (s.setClient c k).fault = s.fault := rfl

/-- The process panics. -/
def panics (s : State) (fault : Fault) : State := { s with fault := some fault }

/-- A rendezvous with the hub: it needs the hub in its select, and is a fault
once the channel is closed. -/
def rendezvous (s : State) (channel : Shared) (t : State) : Option State :=
  if channel ∈ s.shut then some (s.panics (.sendToHub channel))
  else if s.pc = .run .select then some t
  else none

/-- One step of the hub on its own. -/
def hubStep (s : State) (pick : ClientId) : Option State :=
  match s.pc with
  | .run .select => none
  | .stopped => none
  | .insert c =>
      some { s with members := c :: s.members.filter (· ≠ c), pc := .run .select }
  | .check c =>
      some { s with pc := if c ∈ s.members then .close .delete c .select else .run .select }
  | .run (.broadcast _ []) => some { s with pc := .run .select }
  | .run (.broadcast message todo) =>
      if pick ∈ todo then
        let left := todo.filter (· ≠ pick)
        match s.conns[pick]? with
        | none => none
        | some k =>
            if k.isSubscribed message.tags then
              match k.send.offer message.payload with
              | .sent send =>
                  some ({ s with pc := .run (.broadcast message left) }.setClient pick
                    { k with send := send })
              | .full => some { s with pc := .close .delete pick (.broadcast message left) }
              | .fault => some (s.panics .sendToSend)
            else some { s with pc := .run (.broadcast message left) }
      else none
  | .run (.shutdown []) => some { s with pc := .stopped }
  | .run (.shutdown todo) =>
      if pick ∈ todo then
        some { s with pc := .close .delete pick (.shutdown (todo.filter (· ≠ pick))) }
      else none
  | .close .delete c next =>
      some { s with members := s.members.filter (· ≠ c), pc := .close .recv c next }
  | .close .recv c next =>
      match s.conns[c]? with
      | none => none
      | some k =>
          match k.recv with
          | none => some { s with pc := .close .send c next }
          | some recv =>
              match recv.close with
              | none => some (s.panics .closeRecv)
              | some closed => some ({ s with pc := .close .send c next }.setClient c
                  { k with recv := some closed })
  | .close .send c next =>
      match s.conns[c]? with
      | none => none
      | some k =>
          match k.send.close with
          | none => some (s.panics .closeSend)
          | some closed =>
              some ({ s with pc := .run next }.setClient c { k with send := closed })
  | .closeShared [] => some { s with pc := .run (.shutdown s.members) }
  | .closeShared (channel :: left) =>
      some { s with shut := channel :: s.shut, pc := .closeShared left }

/-- One step of a goroutine of one client, or of its peer. -/
def clientStep (s : State) (k : Client) : Label → Option State
  | .register c =>
      if k.reader = .unborn then
        s.rendezvous .register ({ s with pc := .insert c }.setClient c k.started)
      else none
  | .unregister c =>
      if k.reader = .leaving then
        s.rendezvous .unregister ({ s with pc := .check c }.setClient c { k with reader := .done })
      else none
  | .purge c =>
      -- the hub may have dropped the client since: `Run` looks it up again
      if k.reader ≠ .unborn then s.rendezvous .unregister { s with pc := .check c } else none
  | .peer c raw =>
      if k.reader = .reading then
        match k.recv with
        | some _ => some (s.setClient c { k with reader := .forwarding (oneLine raw) })
        -- without `OnMessage` the message is logged and dropped
        | none => some s
      else none
  | .peerGone c =>
      if k.reader = .reading then some (s.setClient c { k with reader := .leaving }) else none
  | .forward c =>
      match k.reader, k.recv with
      | .forwarding message, some recv =>
          match recv.offer message with
          | .sent recv' =>
              some (s.setClient c { k with recv := some recv', reader := .reading })
          | .full => none
          | .fault => some (s.panics .sendToRecv)
      | _, _ => none
  | .listen c =>
      match k.listener, k.recv with
      | .waiting, some recv =>
          match recv.take with
          | .got _ recv' =>
              some (s.setClient c { k with recv := some recv', listener := .replying })
          | .empty => none
          | .closed => some (s.setClient c { k with listener := .done })
      | _, _ => none
  | .reply c =>
      if k.listener = .replying then
        match k.send.offer replyText with
        | .sent send => some (s.setClient c { k with send := send, listener := .waiting })
        | .full => some (s.setClient c { k with listener := .done })
        | .fault => some (s.panics .sendToSend)
      else none
  | .drain c =>
      if k.writer = .running then
        match k.send.take with
        | .got _ send => some (s.setClient c { k with send := send })
        | .empty => none
        | .closed => some (s.setClient c { k with writer := .done })
      else none
  | .writerStops c =>
      if k.writer = .running then some (s.setClient c { k with writer := .done }) else none
  | _ => none

end State

/-- The client a label is about. -/
def Label.client : Label → Option ClientId
  | register c | unregister c | purge c | peer c _ | peerGone c | forward c | listen c
  | reply c | drain c | writerStops c => some c
  | _ => none

/-- One step; `none` when it is not enabled, or the process has ended. -/
def State.step (s : State) (l : Label) : Option State :=
  if s.fault.isSome then none
  else
    match l with
    | .serve onMessage subscriptions =>
        some { s with conns := s.conns ++ [.new onMessage subscriptions] }
    | .broadcast data tags =>
        s.rendezvous .send { s with pc := .run (.broadcast ⟨oneLine data, tags⟩ s.members) }
    | .stop =>
        s.rendezvous .stop { s with pc := .closeShared [.register, .unregister, .send, .stop] }
    | .hub pick => s.hubStep pick
    | l => l.client.bind fun c => s.conns[c]?.bind fun k => s.clientStep k l

/-- A hub whose `Run` has just been entered. -/
def hubMachine : Machine State Label where
  init := ⟨[], .run .select, [], [], none⟩
  step := State.step

end Websockets

end PumaDev
