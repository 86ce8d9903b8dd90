/-
# The task queue

A queue hands items from a producer to any number of consumers, first in first
out. It may be bounded, and its input can be closed. An operation that would have
to wait is not enabled and answers `blocked`: adding to a full open queue, taking
from an empty open one. An empty closed queue has ended for every consumer.
-/

namespace ParallelLoop

/-- Items waiting to be taken. They stand in two lists, so that both ends are at hand: the
oldest items in front, and behind them the others with the newest one first. -/
structure TaskQueue (α : Type) where
  front : List α
  back : List α
  /-- Number of waiting items. -/
  size : Nat
  /-- Whether the input side has been closed. -/
  closed : Bool
  /-- How many items may wait; without it the queue is never full. -/
  capacity : Option Nat
  size_eq : size = front.length + back.length
  deriving DecidableEq, Repr

/-- What came of adding an item to a queue. -/
inductive Offer (α : Type)
  | accepted (queue : TaskQueue α)
  /-- The input is closed; the item comes back. -/
  | rejected (item : α)
  /-- The queue is full. -/
  | blocked

/-- What came of taking an item from a queue. -/
inductive Taken (α : Type)
  | item (item : α) (queue : TaskQueue α)
  /-- The input is closed and everything has been taken. -/
  | ended
  /-- Nothing is waiting yet. -/
  | blocked

namespace TaskQueue

variable {α : Type}

/-- The waiting items, oldest first. -/
def items (queue : TaskQueue α) : List α := queue.front ++ queue.back.reverse

/-- An empty open queue. At least one item may wait in it. -/
def new (capacity : Option Nat) : TaskQueue α :=
  { front := [], back := [], size := 0, closed := false, capacity := capacity.map (max 1)
    size_eq := rfl }

/-- An empty open queue that is never full. -/
def unbounded : TaskQueue α := new none

/-- No further item may wait. -/
def isFull (queue : TaskQueue α) : Bool :=
  match queue.capacity with
  | some capacity => decide (capacity ≤ queue.size)
  | none => false

/-- Nothing is waiting. -/
def isEmpty (queue : TaskQueue α) : Bool := queue.size == 0

/-- Adds an item behind the waiting ones. -/
def offer (queue : TaskQueue α) (item : α) : Offer α :=
  if queue.closed then .rejected item
  else if queue.isFull then .blocked
  else .accepted { queue with
    back := item :: queue.back
    size := queue.size + 1
    size_eq := by simp [queue.size_eq, Nat.add_assoc] }

/-- Takes the oldest item. Once nothing is in front, the items behind are turned over. -/
def take (queue : TaskQueue α) : Taken α :=
  match h : queue.front with
  | item :: front =>
    .item item { queue with
      front
      size := queue.size - 1
      size_eq := by simp [queue.size_eq, h] }
  | [] =>
    match h' : queue.back.reverse with
    | item :: front =>
      .item item { queue with
        front
        back := []
        size := queue.size - 1
        size_eq := by
          have := congrArg List.length h'
          simp_all [queue.size_eq] }
    | [] => if queue.closed then .ended else .blocked

/-- Closes the input side. -/
def close (queue : TaskQueue α) : TaskQueue α := { queue with closed := true }

theorem length_items (queue : TaskQueue α) : queue.items.length = queue.size := by
  simp [items, queue.size_eq]

@[simp] theorem items_new (capacity : Option Nat) : (new capacity : TaskQueue α).items = [] := rfl

@[simp] theorem items_close (queue : TaskQueue α) : queue.close.items = queue.items := rfl

/-- An accepted item waits behind the others. -/
theorem items_of_offer {queue next : TaskQueue α} {item : α}
    (accepted : queue.offer item = .accepted next) : next.items = queue.items ++ [item] := by
  unfold offer at accepted
  split at accepted
  · simp at accepted
  · split at accepted
    · simp at accepted
    · cases accepted
      simp [items]

/-- The item that is taken was the first one waiting. -/
theorem items_of_take {queue next : TaskQueue α} {item : α}
    (taken : queue.take = .item item next) : queue.items = item :: next.items := by
  unfold take at taken
  split at taken
  next front h => cases taken; simp [items, h]
  next h =>
    split at taken
    next front h' => cases taken; simp [items, h, h']
    next => split at taken <;> simp at taken

end TaskQueue

end ParallelLoop
