import Mathlib.Data.Finset.Filter
import Mathlib.Data.Finset.Lattice.Lemmas
import Mathlib.Data.Finset.SDiff
import PumaDev.Lib.Registry
import PumaDev.Lib.Responder
import PumaDev.Websockets.Hub

/-!
# Subscriptions

A client keeps the names it is subscribed to in a map, under which a name may also stand with
the value false: `IsSubscribed` inserts one for every name it asks for and does not find.  A name
that stands there as false and one that does not stand there at all are the same to everything
that is asked later, so the names that stand as true are a view of the map, and in it
`IsSubscribed` is silent (`view_names`).

A name is one of them exactly when the last call that names it in a `Subscribe` or an
`Unsubscribe` is a `Subscribe`; the wildcard is a name like any other.  The clients of the hub
are asked only, and so answer by what `Serve` has subscribed them to (`isSubscribed_new`).
-/

namespace PumaDev

namespace Websockets

/-- The map of a client. -/
abbrev SubscriptionMap := Registry GoString Bool

namespace SubscriptionMap

/-- `GetOrInsert`: the map, the value under the key and whether it has been there. -/
def getOrInsert (m : SubscriptionMap) (key : GoString) (value : Bool) :
    SubscriptionMap × Bool × Bool :=
  match m.lookup key with
  | some actual => (m, actual, true)
  | none => (m.insert key value, value, false)

/-- `Client.Subscribe`. -/
def subscribe (m : SubscriptionMap) (names : List GoString) : SubscriptionMap :=
  names.foldl (fun m name => m.insert name true) m

/-- `Client.Unsubscribe`. -/
def unsubscribe (m : SubscriptionMap) (names : List GoString) : SubscriptionMap :=
  names.foldl (fun m name => m.erase name) m

/-- The loop of `Client.IsSubscribed`. -/
def anySubscribed (m : SubscriptionMap) : List GoString → SubscriptionMap × Bool
  | [] => (m, false)
  | name :: names =>
      let found := getOrInsert m name false
      if found.2.1 then (found.1, true) else anySubscribed found.1 names

/-- `Client.IsSubscribed`: the map it leaves behind, and its answer. -/
def isSubscribed (m : SubscriptionMap) (names : List GoString) : SubscriptionMap × Bool :=
  let wildcard := getOrInsert m "*".toList false
  if wildcard.2.1 then (wildcard.1, true) else anySubscribed wildcard.1 names

end SubscriptionMap

/-- A call on the subscriptions of a client. -/
inductive SubscriptionCall where
  | subscribe (names : List GoString)
  | unsubscribe (names : List GoString)
  | isSubscribed (names : List GoString)
  deriving DecidableEq

/-- The map of a client, from `hashmap.New` on. -/
def subscriptionMap : Responder SubscriptionMap SubscriptionCall Bool where
  init := ∅
  call m
    | .subscribe names => (m.subscribe names, none)
    | .unsubscribe names => (m.unsubscribe names, none)
    | .isSubscribed names => ((m.isSubscribed names).1, some (m.isSubscribed names).2)

/-! ## The set of names -/

/-- What the map is for: a set of names. -/
def subscriptionSet : Responder (Finset GoString) SubscriptionCall Bool where
  init := ∅
  call s
    | .subscribe names => (s ∪ names.toFinset, none)
    | .unsubscribe names => (s \ names.toFinset, none)
    | .isSubscribed names => (s, some (decide ("*".toList ∈ s ∨ ∃ name ∈ names, name ∈ s)))

namespace SubscriptionMap

/-- The names that stand as true. -/
def names (m : SubscriptionMap) : Finset GoString :=
  m.keys.toFinset.filter fun name => m.lookup name = some true

@[simp] theorem mem_names {m : SubscriptionMap} {name : GoString} :
    name ∈ m.names ↔ m.lookup name = some true := by
  rw [names, Finset.mem_filter, List.mem_toFinset, and_iff_right_iff_imp]
  intro found
  exact AList.mem_keys.mp (AList.lookup_isSome.mp (by rw [found]; rfl))

/-- **Asking for a name** leaves the names as they are. -/
theorem names_getOrInsert (m : SubscriptionMap) (key : GoString) :
    (m.getOrInsert key false).1.names = m.names := by
  unfold getOrInsert
  cases found : m.lookup key with
  | some actual => rfl
  | none =>
      ext name
      rw [mem_names, mem_names, Registry.lookup_insert_eq_some]
      constructor
      · rintro (⟨-, wrong⟩ | ⟨-, old⟩)
        · cases wrong
        · exact old
      · intro old
        refine Or.inr ⟨?_, old⟩
        rintro rfl
        rw [found] at old
        cases old

theorem value_getOrInsert (m : SubscriptionMap) (key : GoString) :
    (m.getOrInsert key false).2.1 = decide (key ∈ m.names) := by
  unfold getOrInsert
  cases found : m.lookup key with
  | some actual => cases actual <;> simp [found]
  | none => simp [found]

theorem names_subscribe (m : SubscriptionMap) (added : List GoString) :
    (m.subscribe added).names = m.names ∪ added.toFinset := by
  induction added generalizing m with
  | nil => exact (Finset.union_empty _).symm
  | cons key added ih =>
      have first : names (m.insert key true) = m.names ∪ {key} := by
        ext name
        rw [mem_names, Registry.lookup_insert_eq_some, Finset.mem_union, Finset.mem_singleton,
          mem_names]
        by_cases same : name = key <;> simp [same]
      show (subscribe (m.insert key true) added).names = _
      rw [ih, first, List.toFinset_cons, Finset.union_assoc, Finset.insert_eq]

theorem names_unsubscribe (m : SubscriptionMap) (removed : List GoString) :
    (m.unsubscribe removed).names = m.names \ removed.toFinset := by
  induction removed generalizing m with
  | nil => exact Finset.sdiff_empty.symm
  | cons key removed ih =>
      have first : names (m.erase key) = m.names \ {key} := by
        ext name
        rw [mem_names, Registry.lookup_erase_eq_some, Finset.mem_sdiff, Finset.mem_singleton,
          mem_names, and_comm]
      show (unsubscribe (m.erase key) removed).names = _
      rw [ih, first, List.toFinset_cons, sdiff_sdiff_left, Finset.insert_eq, Finset.sup_eq_union]

/-- The loop, whose map keeps its names wherever it ends. -/
theorem anySubscribed_eq (m : SubscriptionMap) (asked : List GoString) :
    (m.anySubscribed asked).1.names = m.names ∧
      (m.anySubscribed asked).2 = decide (∃ name ∈ asked, name ∈ m.names) := by
  induction asked generalizing m with
  | nil => exact ⟨rfl, by simp [anySubscribed]⟩
  | cons key asked ih =>
      have kept := names_getOrInsert m key
      have value := value_getOrInsert m key
      unfold anySubscribed
      dsimp only
      by_cases here : key ∈ m.names
      · rw [decide_eq_true here] at value
        rw [if_pos value]
        exact ⟨kept, (decide_eq_true ⟨key, List.mem_cons_self, here⟩).symm⟩
      · rw [decide_eq_false here] at value
        rw [if_neg (by rw [value]; exact Bool.false_ne_true)]
        obtain ⟨names, answer⟩ := ih (m.getOrInsert key false).1
        rw [kept] at names answer
        refine ⟨names, answer.trans (decide_eq_decide.mpr ?_)⟩
        rw [List.exists_mem_cons_iff]
        exact (or_iff_right here).symm

/-- The wildcard is asked for like a name, before the others. -/
theorem isSubscribed_eq_anySubscribed (m : SubscriptionMap) (asked : List GoString) :
    m.isSubscribed asked = m.anySubscribed ("*".toList :: asked) := rfl

/-- **What `IsSubscribed` does**: it keeps the names, and answers whether the wildcard or one of
those it is asked for is among them. -/
theorem isSubscribed_eq (m : SubscriptionMap) (asked : List GoString) :
    (m.isSubscribed asked).1.names = m.names ∧ (m.isSubscribed asked).2 =
      decide ("*".toList ∈ m.names ∨ ∃ name ∈ asked, name ∈ m.names) := by
  obtain ⟨kept, answer⟩ := m.anySubscribed_eq ("*".toList :: asked)
  rw [isSubscribed_eq_anySubscribed]
  exact ⟨kept, answer.trans (decide_eq_decide.mpr (List.exists_mem_cons_iff _ _ _))⟩

end SubscriptionMap

open Responder

/-- **The names are a view of the map.** -/
theorem view_names : View subscriptionMap subscriptionSet SubscriptionMap.names where
  init := rfl
  call m i := by
    cases i with
    | subscribe names => exact Prod.ext (m.names_subscribe names).symm rfl
    | unsubscribe names => exact Prod.ext (m.names_unsubscribe names).symm rfl
    | isSubscribed names =>
        obtain ⟨kept, answer⟩ := m.isSubscribed_eq names
        exact Prod.ext kept.symm (congrArg some answer.symm)

/-- In it, asking is silent. -/
theorem silent_isSubscribed (names : List GoString) :
    subscriptionSet.Silent (.isSubscribed names) := fun _ => rfl

/-! ## Which names are subscribed -/

/-- The call is a `Subscribe` with this name. -/
def SubscriptionCall.Subscribes (name : GoString) : SubscriptionCall → Prop
  | subscribe names => name ∈ names
  | unsubscribe _ | isSubscribed _ => False

/-- The call is an `Unsubscribe` with this name. -/
def SubscriptionCall.Unsubscribes (name : GoString) : SubscriptionCall → Prop
  | unsubscribe names => name ∈ names
  | subscribe _ | isSubscribed _ => False

/-- Of the calls that affect the name, the last one is a `Subscribe`. -/
def LastSubscribed (name : GoString) (calls : List SubscriptionCall) : Prop :=
  LastSets (SubscriptionCall.Subscribes name) (SubscriptionCall.Unsubscribes name) calls

/-- A name is in the set exactly when it was subscribed last. -/
theorem mem_after_iff (name : GoString) (calls : List SubscriptionCall) :
    name ∈ subscriptionSet.after subscriptionSet.init calls ↔ LastSubscribed name calls := by
  refine lastSets_iff (P := (name ∈ ·)) (Finset.notMem_empty name) (fun s i => ?_) calls
  cases i with
  | subscribe names =>
      simp only [subscriptionSet, Finset.mem_union, List.mem_toFinset,
        SubscriptionCall.Subscribes, SubscriptionCall.Unsubscribes, not_false_iff, true_and]
      exact or_comm
  | unsubscribe names =>
      simp only [subscriptionSet, Finset.mem_sdiff, List.mem_toFinset,
        SubscriptionCall.Subscribes, SubscriptionCall.Unsubscribes, false_or]
      exact and_comm
  | isSubscribed names =>
      simp only [subscriptionSet, SubscriptionCall.Subscribes, SubscriptionCall.Unsubscribes,
        not_false_iff, true_and, false_or]

/-- **Subscriptions are a set, and asking does not change it.**  Wherever it stands in a sequence
of calls on the map of a client, `IsSubscribed` answers whether the wildcard or one of its names
was subscribed last; and without it every later answer is the same. -/
theorem isSubscribed_iff_lastSubscribed (before later : List SubscriptionCall)
    (names : List GoString) :
    ∃ answer rest,
      (answer = true ↔
        LastSubscribed "*".toList before ∨ ∃ name ∈ names, LastSubscribed name before) ∧
      subscriptionMap.answers subscriptionMap.init (before ++ .isSubscribed names :: later) =
        subscriptionMap.answers subscriptionMap.init before ++ answer :: rest ∧
      subscriptionMap.answers subscriptionMap.init (before ++ later) =
        subscriptionMap.answers subscriptionMap.init before ++ rest := by
  refine ⟨((subscriptionMap.after subscriptionMap.init before).isSubscribed names).2, _, ?_,
    view_names.answers_of_silent (silent_isSubscribed names) _ before later,
    answers_append _ _ before later⟩
  rw [(SubscriptionMap.isSubscribed_eq _ names).2, decide_eq_true_iff, view_names.after,
    view_names.init, mem_after_iff]
  simp only [mem_after_iff]

/-! ## The clients of the hub -/

/-- **A client that `Serve` has built** answers by its first subscriptions, whatever it has been
asked before. -/
theorem isSubscribed_new (onMessage : Bool) (subscriptions : List GoString)
    (asked : List (List GoString)) (names : List GoString) :
    ((subscriptionMap.after subscriptionMap.init
      (.subscribe (Client.new onMessage subscriptions).subscriptions ::
        asked.map .isSubscribed)).isSubscribed names).2 =
      (Client.new onMessage subscriptions).isSubscribed names := by
  have silent : ∀ i ∈ asked.map SubscriptionCall.isSubscribed, subscriptionSet.Silent i := by
    intro i mem
    obtain ⟨names, -, rfl⟩ := List.mem_map.mp mem
    exact silent_isSubscribed names
  rw [(SubscriptionMap.isSubscribed_eq _ names).2, view_names.after, after_cons,
    after_of_silent silent, view_names.init]
  have reached : (subscriptionSet.call subscriptionSet.init
      (.subscribe (Client.new onMessage subscriptions).subscriptions)).1 =
      (Client.new onMessage subscriptions).subscriptions.toFinset := Finset.empty_union _
  rw [reached, Client.isSubscribed, Bool.eq_iff_iff]
  simp only [List.mem_toFinset, decide_eq_true_eq, Bool.or_eq_true, List.any_eq_true,
    -String.reduceToList]

end Websockets

end PumaDev
