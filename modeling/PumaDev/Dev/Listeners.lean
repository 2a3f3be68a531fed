import PumaDev.Go.Strings
import PumaDev.Lib.SharedLoop

/-!
# The listeners

Three loops start a goroutine for each of their listeners: `RpcService.start`,
and on macOS `HTTPServer.Serve` and `HTTPServer.ServeTLS`.  The module declares
go 1.18, so a loop's variable is one cell for all iterations.  The goroutine of
`start` gets a pointer to it, which `serveListener` dereferences; the others
refer to it in their closure.  Either way the listener that is served is the one
in the cell when the goroutine comes to read it.

`servedOnce_iff` is the exact condition for every listener to be served by one
goroutine, over every schedule that lets the loop and its goroutines through.
-/

namespace PumaDev

/-- The loops that start serving. -/
inductive ListenLoop where
  /-- `RpcService.start`. -/
  | rpcStart
  /-- `HTTPServer.Serve` on launchd's sockets. -/
  | serve
  /-- `HTTPServer.ServeTLS` on launchd's sockets. -/
  | serveTLS
  deriving DecidableEq

/-- What `Serve` is called with. -/
inductive Served (L : Type) where
  | plain (listener : L)
  /-- The listener of `tls.NewListener`. -/
  | tls (listener : L)
  deriving DecidableEq

namespace ListenLoop

variable {L : Type}

/-- What the loop serves for a listener: `ServeTLS` replaces each of them first. -/
def wrap : ListenLoop → L → Served L
  | .rpcStart, l | .serve, l => .plain l
  | .serveTLS, l => .tls l

theorem wrap_injective (loop : ListenLoop) : Function.Injective (loop.wrap : L → Served L) := by
  intro l l' same
  cases loop <;> cases same <;> rfl

/-- The loop over the listeners, with its goroutines. -/
def machine (loop : ListenLoop) (listeners : List L) :
    Machine (SharedLoop (Served L)) SharedLoop.Label := sharedLoop (listeners.map loop.wrap)

/-- Every listener has been passed to `Serve` by exactly one goroutine. -/
def ServedOnce (loop : ListenLoop) (listeners : List L) (s : SharedLoop (Served L)) : Prop :=
  ∀ l ∈ listeners, ∃! g, s.Reads g (loop.wrap l)

/-- **When every listener is served.**  Whatever the loop, the listeners and the
schedule: once the loop is over and all its goroutines have called `Serve`, every
listener has been passed to it by exactly one of them if and only if the listeners are
distinct and each goroutine read the loop's variable before the loop went on. -/
theorem servedOnce_iff {loop : ListenLoop} {listeners : List L}
    {schedule : List SharedLoop.Label} {s : SharedLoop (Served L)}
    (run : (loop.machine listeners).exec (loop.machine listeners).init schedule = some s)
    (complete : s.Complete) :
    loop.ServedOnce listeners s ↔
      listeners.Nodup ∧
        (loop.machine listeners).Guarded SharedLoop.InTime (loop.machine listeners).init
          schedule := by
  have tracks : SharedLoop.Tracks (listeners.map loop.wrap) s :=
    (loop.machine listeners).exec_induction
      (P := fun _ u => SharedLoop.Tracks (listeners.map loop.wrap) u) (.start _)
      (fun _ _ _ _ before step => before.next step) run
  have inTime := SharedLoop.guarded_iff (.start (listeners.map loop.wrap))
    (fun r mem => absurd mem (List.not_mem_nil)) run
  calc loop.ServedOnce listeners s
      ↔ ∀ x ∈ listeners.map loop.wrap, ∃! g, s.Reads g x := by
        rw [List.forall_mem_map]
        rfl
    _ ↔ (listeners.map loop.wrap).Nodup ∧ ∀ r ∈ s.reads, r.iteration = r.goroutine :=
        SharedLoop.eachOnce_iff tracks complete
    _ ↔ listeners.Nodup ∧ (loop.machine listeners).Guarded SharedLoop.InTime
          (loop.machine listeners).init schedule := by
        rw [List.nodup_map_iff loop.wrap_injective, ← inTime]
        rfl

/-- The listeners of the RPC service. -/
def rpcListeners : List GoString := ["unix".toList, "tcp4".toList]

/-- Each goroutine of `start` runs as soon as it is started. -/
def atOnce : List SharedLoop.Label := [.advance, .go, .read 0, .advance, .go, .read 1]

/-- Where that leads. -/
def servedAtOnce : SharedLoop (Served GoString) :=
  ⟨[], some (.plain "tcp4".toList), 2, 2,
    [⟨0, 0, .plain "unix".toList⟩, ⟨1, 1, .plain "tcp4".toList⟩]⟩

theorem servedOnce_atOnce : rpcStart.ServedOnce rpcListeners servedAtOnce := by
  have run : (rpcStart.machine rpcListeners).exec (rpcStart.machine rpcListeners).init atOnce =
      some servedAtOnce := rfl
  exact (servedOnce_iff run ⟨rfl, rfl, rfl⟩).mpr ⟨by decide, by decide⟩

/-- Both goroutines of `start` run after its loop. -/
def afterwards : List SharedLoop.Label := [.advance, .go, .advance, .go, .read 0, .read 1]

/-- Where that leads. -/
def servedAfterwards : SharedLoop (Served GoString) :=
  ⟨[], some (.plain "tcp4".toList), 2, 2,
    [⟨0, 1, .plain "tcp4".toList⟩, ⟨1, 1, .plain "tcp4".toList⟩]⟩

/-- The TCP listener is served twice, and the socket not at all. -/
theorem not_servedOnce_afterwards :
    ¬ ∀ (loop : ListenLoop) (listeners : List GoString) (schedule : List SharedLoop.Label)
        (s : SharedLoop (Served GoString)),
      listeners.Nodup →
      (loop.machine listeners).exec (loop.machine listeners).init schedule = some s →
      s.Complete → loop.ServedOnce listeners s := by
  intro always
  obtain ⟨g, ⟨r, mem, -, value⟩, -⟩ :=
    always rpcStart rpcListeners afterwards servedAfterwards (by decide) rfl ⟨rfl, rfl, rfl⟩
      "unix".toList (by decide)
  have tcp : ∀ r ∈ servedAfterwards.reads, r.value ≠ .plain "unix".toList := by
    simp [servedAfterwards]
  exact tcp r mem value

end ListenLoop

end PumaDev
