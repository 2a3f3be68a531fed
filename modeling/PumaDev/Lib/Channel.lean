import Mathlib.Data.List.Basic
import Mathlib.Tactic.Common

/-!
# Buffered channels

A channel is a bounded queue that can be closed once.  What sets it apart from a
queue is what happens at the edges: a send to a closed channel and a second
close are faults, a closed channel still hands out what it holds, and only an
empty one reports that it is closed.

`Chan.offer` and `Chan.take` say which edge a send or a receive is at, and leave
it to the caller whether a full or an empty channel makes it wait or take
another branch.  The bound on the queue is a field, so that no channel ever
holds more than its capacity.
-/

namespace PumaDev

universe u

/-- A buffered channel. -/
structure Chan (α : Type u) where
  capacity : ℕ
  /-- What it holds, oldest first. -/
  buf : List α
  closed : Bool
  bounded : buf.length ≤ capacity

namespace Chan

variable {α : Type u}

/-- A new channel. -/
def make (capacity : ℕ) : Chan α := ⟨capacity, [], false, Nat.zero_le _⟩

/-- What an attempt to send meets. -/
inductive Offered (α : Type u) where
  /-- There was room. -/
  | sent (c : Chan α)
  | full
  /-- The channel is closed, and sending to it is a fault. -/
  | fault

/-- Try to send. -/
def offer (c : Chan α) (v : α) : Offered α :=
  if c.closed then .fault
  else if room : c.buf.length < c.capacity then
    .sent ⟨c.capacity, c.buf ++ [v], c.closed, by simpa using Nat.succ_le_of_lt room⟩
  else .full

/-- What an attempt to receive meets. -/
inductive Taken (α : Type u) where
  | got (v : α) (c : Chan α)
  | empty
  /-- The channel is closed, and everything it held is gone. -/
  | closed

/-- Try to receive. -/
def take (c : Chan α) : Taken α :=
  match h : c.buf with
  | v :: rest =>
      .got v ⟨c.capacity, rest, c.closed, by
        have bound := c.bounded
        rw [h, List.length_cons] at bound
        omega⟩
  | [] => if c.closed then .closed else .empty

/-- Close; `none` is the fault of closing twice. -/
def close (c : Chan α) : Option (Chan α) :=
  if c.closed then none else some { c with closed := true }

@[simp] theorem closed_make (capacity : ℕ) : (make capacity : Chan α).closed = false := rfl

/-- Only a closed channel is a fault to send to. -/
theorem offer_eq_fault_iff {c : Chan α} {v : α} : c.offer v = .fault ↔ c.closed = true := by
  unfold offer
  split
  · next closed => simp [closed]
  · next isOpen => split <;> simp [isOpen]

/-- An attempt to send that is no fault finds the channel open. -/
theorem open_of_offer {c : Chan α} (v : α) (h : c.offer v ≠ .fault) : c.closed = false :=
  Bool.eq_false_iff.mpr fun closed => h (offer_eq_fault_iff.mpr closed)

/-- Sending does not close. -/
theorem closed_of_sent {c c' : Chan α} {v : α} (h : c.offer v = .sent c') :
    c'.closed = c.closed := by
  have isOpen : c.closed = false := open_of_offer v (by simp [h])
  rw [offer, if_neg (by simp [isOpen])] at h
  split at h
  · cases h
    rfl
  · cases h

/-- What is sent goes behind what the channel holds. -/
theorem buf_of_sent {c c' : Chan α} {v : α} (h : c.offer v = .sent c') :
    c.buf.length < c.capacity ∧ c'.buf = c.buf ++ [v] := by
  unfold offer at h
  split at h
  · cases h
  · split at h
    · next room =>
        cases h
        exact ⟨room, rfl⟩
    · cases h

/-- What does not fit finds the channel at its capacity. -/
theorem capacity_le_of_full {c : Chan α} {v : α} (h : c.offer v = .full) :
    c.capacity ≤ c.buf.length := by
  unfold offer at h
  split at h
  · cases h
  · split at h
    · cases h
    · next noRoom => exact Nat.le_of_not_lt noRoom

/-- Receiving does not close. -/
theorem closed_of_got {c c' : Chan α} {v : α} (h : c.take = .got v c') :
    c'.closed = c.closed := by
  unfold take at h
  split at h
  · cases h
    rfl
  · split at h <;> cases h

/-- What is received was the oldest. -/
theorem buf_of_got {c c' : Chan α} {v : α} (h : c.take = .got v c') : c.buf = v :: c'.buf := by
  unfold take at h
  split at h
  · next held =>
      cases h
      exact held
  · split at h <;> cases h

theorem capacity_of_got {c c' : Chan α} {v : α} (h : c.take = .got v c') :
    c'.capacity = c.capacity := by
  unfold take at h
  split at h
  · cases h
    rfl
  · split at h <;> cases h

/-- Only a closed channel without anything left reports that it is closed. -/
theorem of_take_closed {c : Chan α} (h : c.take = .closed) : c.closed = true ∧ c.buf = [] := by
  unfold take at h
  split at h
  · cases h
  · next none_ =>
      split at h
      · next closed => exact ⟨closed, none_⟩
      · cases h

/-- Where nothing is left, a receive reports that the channel is closed. -/
theorem take_of_closed {c : Chan α} (closed : c.closed = true) (none_ : c.buf = []) :
    c.take = .closed := by
  unfold take
  split
  · next held => simp [none_] at held
  · rw [if_pos closed]

/-- What a channel holds can be received. -/
theorem take_of_cons {c : Chan α} {v : α} {rest : List α} (held : c.buf = v :: rest) :
    ∃ c', c.take = .got v c' ∧ c'.buf = rest ∧ c'.closed = c.closed := by
  cases h : c.take with
  | got w c' =>
      have front := buf_of_got h
      rw [held, List.cons.injEq] at front
      exact ⟨c', front.1 ▸ rfl, front.2.symm, closed_of_got h⟩
  | empty =>
      unfold take at h
      split at h
      · cases h
      · next none_ => simp [held] at none_
  | closed =>
      have none_ := (of_take_closed h).2
      simp [held] at none_

/-- Closing keeps what a channel holds. -/
theorem of_close {c c' : Chan α} (h : c.close = some c') :
    c.closed = false ∧ c'.closed = true ∧ c'.buf = c.buf := by
  unfold close at h
  split at h
  · cases h
  · next isOpen =>
      cases h
      exact ⟨Bool.eq_false_iff.mpr isOpen, rfl, rfl⟩

/-- An open channel can be closed. -/
theorem close_of_open {c : Chan α} (isOpen : c.closed = false) :
    c.close = some { c with closed := true } := by
  rw [close, isOpen, if_neg (by simp)]

/-! ## One channel seen as another -/

variable {β : Type u}

/-- A channel is what can be seen of it. -/
theorem eq_of {c c' : Chan α} (capacity : c.capacity = c'.capacity) (buf : c.buf = c'.buf)
    (closed : c.closed = c'.closed) : c = c' := by
  cases c
  cases c'
  simp_all

/-- The same channel, with other values. -/
def map (f : α → β) (c : Chan α) : Chan β :=
  ⟨c.capacity, c.buf.map f, c.closed, by simpa using c.bounded⟩

@[simp] theorem map_make (f : α → β) (capacity : ℕ) : (make capacity).map f = make capacity := rfl

/-- What there is room for in the one, there is room for in the other. -/
theorem offer_map {f : α → β} {c c' : Chan α} {v : α} (h : c.offer v = .sent c') :
    (c.map f).offer (f v) = .sent (c'.map f) := by
  have isOpen := open_of_offer v (by rw [h]; exact nofun)
  obtain ⟨room, buf⟩ := buf_of_sent h
  have room' : (c.map f).buf.length < (c.map f).capacity := by simpa [map] using room
  have open' : (c.map f).closed = false := isOpen
  rw [offer, if_neg (by simp [open']), dif_pos room']
  rw [offer, if_neg (by simp [isOpen]), dif_pos room] at h
  cases h
  exact congrArg Offered.sent (eq_of rfl (by simp [map]) rfl)

theorem close_map {f : α → β} {c c' : Chan α} (h : c.close = some c') :
    (c.map f).close = some (c'.map f) := by
  have isOpen := (of_close h).1
  rw [close_of_open isOpen] at h
  cases h
  exact close_of_open (c := c.map f) isOpen

/-- The last `n` values only. -/
def keep (c : Chan α) (n : ℕ) : Chan α :=
  ⟨c.capacity, c.buf.drop (c.buf.length - n), c.closed, by
    have bound := c.bounded
    rw [List.length_drop]
    omega⟩

end Chan

end PumaDev
