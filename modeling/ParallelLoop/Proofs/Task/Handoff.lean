/-
# The queue among its threads

Any number of threads share a queue and make requests of it: to add an item, to take one, to
close the input. The queue serves one request at a time, in whatever order the threads come to
it, and a request that would have to wait is not served. `TaskQueue.Serves` is every history
that can come about so, with who asked for what and what the queue answered.

`TaskQueue.Accounts` says what such a history and the queue it has led to have to do with each
other. Serving a request keeps it, which is the only place where the operations of the queue are
opened; what the queue promises its threads is read off it.
-/

import ParallelLoop.Proofs.Task.Schedule

namespace ParallelLoop

namespace TaskQueue

variable {α : Type}

/-! ## Requests and histories -/

/-- What a thread asks of a queue. -/
inductive Request (α : Type)
  | enqueue (item : α)
  | dequeue
  | close

/-- What the queue answers. -/
inductive Reply (α : Type)
  | accepted
  /-- The input is closed, and the item comes back. -/
  | rejected (item : α)
  | item (item : α)
  /-- The stream of items has ended. -/
  | ended
  /-- The input is closed, by this request or by one before it. -/
  | closed (first : Bool)

/-- The answer to a request, and the queue after it. A request that has to wait gets none. -/
def serve (queue : TaskQueue α) : Request α → Option (Reply α × TaskQueue α)
  | .enqueue item =>
    match queue.offer item with
    | .accepted next => some (.accepted, next)
    | .rejected back => some (.rejected back, queue)
    | .blocked => none
  | .dequeue =>
    match queue.take with
    | .item item next => some (.item item, next)
    | .ended => some (.ended, queue)
    | .blocked => none
  | .close => some (.closed !queue.closed, queue.close)

/-- A request that was served. -/
structure Turn (α : Type) where
  thread : Nat
  request : Request α
  reply : Reply α

/-- The requests that were served, the newest one first. -/
abbrev History (α : Type) := List (Turn α)

/-- The histories of a queue whose threads take turns in any order, and the queues they lead to. -/
inductive Serves (start : TaskQueue α) : History α → TaskQueue α → Prop
  | refl : Serves start [] start
  | step {history : History α} {queue next : TaskQueue α} {reply : Reply α} (thread : Nat)
      (request : Request α) (before : Serves start history queue)
      (served : queue.serve request = some (reply, next)) :
      Serves start (⟨thread, request, reply⟩ :: history) next

/-- The item that a turn has added. -/
def Turn.accepted? : Turn α → Option α
  | ⟨_, .enqueue item, .accepted⟩ => some item
  | _ => none

/-- The item that a turn has taken. -/
def Turn.delivered? : Turn α → Option α
  | ⟨_, .dequeue, .item item⟩ => some item
  | _ => none

/-- The answer of a turn that has closed the input. -/
def Turn.closing? : Turn α → Option Bool
  | ⟨_, .close, .closed first⟩ => some first
  | _ => none

/-- The accepted items, in order of acceptance. -/
def accepted (history : History α) : List α := (history.filterMap Turn.accepted?).reverse

/-- The items that were taken, in the order in which they were. -/
def delivered (history : History α) : List α := (history.filterMap Turn.delivered?).reverse

/-- The answers to those who closed the input, in order. -/
def closings (history : History α) : List Bool := (history.filterMap Turn.closing?).reverse

theorem reverse_filterMap_cons {β : Type} (read : Turn α → Option β) (turn : Turn α)
    (history : History α) : ((turn :: history).filterMap read).reverse =
      (history.filterMap read).reverse ++ (read turn).toList := by
  cases here : read turn <;> simp [here]

theorem accepted_cons (turn : Turn α) (history : History α) :
    accepted (turn :: history) = accepted history ++ turn.accepted?.toList :=
  reverse_filterMap_cons ..

theorem delivered_cons (turn : Turn α) (history : History α) :
    delivered (turn :: history) = delivered history ++ turn.delivered?.toList :=
  reverse_filterMap_cons ..

theorem closings_cons (turn : Turn α) (history : History α) :
    closings (turn :: history) = closings history ++ turn.closing?.toList :=
  reverse_filterMap_cons ..

/-! ## What one request does -/

variable {queue next : TaskQueue α} {request : Request α} {reply : Reply α} {item : α}
  {history : History α} {capacity : Option Nat}

/-- A closed queue hands every item back. -/
theorem serve_enqueue_of_closed (closed : queue.closed = true) :
    queue.serve (.enqueue item) = some (.rejected item, queue) := by
  simp [serve, offer, closed]

/-- An item has to wait exactly while the queue is open and full. -/
theorem serve_enqueue_eq_none_iff : queue.serve (.enqueue item) = none ↔
    queue.closed = false ∧ ∃ most, queue.capacity = some most ∧ most ≤ queue.items.length := by
  rw [length_items]
  constructor
  · intro waits
    unfold serve at waits
    cases offered : queue.offer item with
    | accepted | rejected => simp [offered] at waits
    | blocked => exact of_offer_blocked offered
  · rintro ⟨isOpen, most, bound, full⟩
    simp [serve, offer, isFull, isOpen, bound, full]

/-- What a queue without items answers to those who want one. -/
theorem serve_dequeue_of_empty (empty : queue.items = []) :
    queue.serve .dequeue = if queue.closed then some (.ended, queue) else none := by
  cases closed : queue.closed <;> simp [serve, take_of_empty empty, closed]

/-- A queue with items never makes anybody wait for one. -/
theorem exists_serve_dequeue (some : queue.items ≠ []) : ∃ item next,
    queue.serve .dequeue = .some (.item item, next) ∧ queue.items = item :: next.items := by
  obtain ⟨item, next, taken⟩ := exists_take some
  exact ⟨item, next, by simp [serve, taken], items_of_take taken⟩

/-- The stream has ended exactly when the queue is closed and empty. -/
theorem serve_dequeue_ended_iff : queue.serve .dequeue = some (.ended, queue) ↔
    queue.closed = true ∧ queue.items = [] := by
  by_cases empty : queue.items = []
  · cases closed : queue.closed <;> simp [serve_dequeue_of_empty empty, closed, empty]
  · obtain ⟨item, next, served, -⟩ := exists_serve_dequeue empty
    simp [served, empty]

theorem serve_dequeue_eq_none_iff :
    queue.serve .dequeue = none ↔ queue.closed = false ∧ queue.items = [] := by
  by_cases empty : queue.items = []
  · cases closed : queue.closed <;> simp [serve_dequeue_of_empty empty, closed, empty]
  · obtain ⟨item, next, served, -⟩ := exists_serve_dequeue empty
    simp [served, empty]

/-- Everything that serving a request can do. -/
theorem of_serve (served : queue.serve request = some (reply, next)) :
    (∃ item, request = .enqueue item ∧ reply = .accepted ∧ queue.offer item = .accepted next) ∨
    (∃ item, request = .enqueue item ∧ reply = .rejected item ∧ queue.closed = true ∧
      next = queue) ∨
    (∃ item, request = .dequeue ∧ reply = .item item ∧ queue.take = .item item next) ∨
    (request = .dequeue ∧ reply = .ended ∧ queue.closed = true ∧ queue.items = [] ∧
      next = queue) ∨
    (request = .close ∧ reply = .closed !queue.closed ∧ next = queue.close) := by
  cases request with
  | enqueue item =>
    cases offered : queue.offer item with
    | accepted after =>
      obtain ⟨rfl, rfl⟩ : .accepted = reply ∧ after = next := by simpa [serve, offered] using served
      exact .inl ⟨item, rfl, rfl, offered⟩
    | rejected back =>
      have closed := of_offer_rejected offered
      obtain ⟨rfl, rfl⟩ : .rejected item = reply ∧ queue = next := by
        simpa [serve_enqueue_of_closed closed] using served
      exact .inr (.inl ⟨item, rfl, rfl, closed, rfl⟩)
    | blocked => simp [serve, offered] at served
  | dequeue =>
    cases answer : queue.take with
    | item item after =>
      obtain ⟨rfl, rfl⟩ : .item item = reply ∧ after = next := by simpa [serve, answer] using served
      exact .inr (.inr (.inl ⟨item, rfl, rfl, rfl⟩))
    | ended =>
      obtain ⟨rfl, rfl⟩ : .ended = reply ∧ queue = next := by simpa [serve, answer] using served
      obtain ⟨empty, closed⟩ := items_of_take_ended answer
      exact .inr (.inr (.inr (.inl ⟨rfl, rfl, closed, empty, rfl⟩)))
    | blocked => simp [serve, answer] at served
  | close =>
    obtain ⟨rfl, rfl⟩ : .closed (!queue.closed) = reply ∧ queue.close = next := by
      simpa [serve] using served
    exact .inr (.inr (.inr (.inr ⟨rfl, rfl, rfl⟩)))

/-! ## What a history says about the queue -/

/-- A queue that was made with a capacity, after a history. -/
structure Accounts (capacity : Option Nat) (history : History α) (queue : TaskQueue α) : Prop where
  order : delivered history ++ queue.items = accepted history
  capacity_eq : queue.capacity = capacity.map (max 1)
  within : ∀ most, queue.capacity = some most → queue.items.length ≤ most
  /-- The input is closed once somebody has closed it, and only the first one is told so. -/
  closings : if queue.closed then ∃ later, closings history = true :: List.replicate later false
    else closings history = []
  /-- Whoever was told of the end was told so by a closed queue without items. -/
  ended : ∀ thread, ⟨thread, .dequeue, .ended⟩ ∈ history → queue.closed = true ∧ queue.items = []

theorem accounts_new (capacity : Option Nat) :
    Accounts capacity [] (new capacity : TaskQueue α) := by
  constructor <;> simp [accepted, delivered, TaskQueue.closings, new, items]

/-- A turn that adds no item, takes none and closes nothing leaves the accounts as they are. -/
theorem Accounts.of_unchanged (accounts : Accounts capacity history queue) {turn : Turn α}
    (adds : turn.accepted? = none) (takes : turn.delivered? = none) (closes : turn.closing? = none)
    (ends : turn.reply = .ended → queue.closed = true ∧ queue.items = []) :
    Accounts capacity (turn :: history) queue where
  order := by
    rw [accepted_cons, delivered_cons, adds, takes]
    simpa using accounts.order
  capacity_eq := accounts.capacity_eq
  within := accounts.within
  closings := by
    rw [closings_cons, closes]
    simpa using accounts.closings
  ended other told := by
    rcases List.mem_cons.mp told with rfl | told
    · exact ends rfl
    · exact accounts.ended other told

/-- An accepted item comes after all others. The queue was open and had room, so nobody has closed it
or was told of the end. -/
theorem Accounts.of_offer (accounts : Accounts capacity history queue)
    (offered : queue.offer item = .accepted next) (thread : Nat) :
    Accounts capacity (⟨thread, .enqueue item, .accepted⟩ :: history) next := by
  obtain ⟨isOpen, stillOpen, sameCapacity, -⟩ := of_offer_accepted offered
  have items := items_of_offer offered
  refine ⟨?order, by rw [sameCapacity, accounts.capacity_eq], ?within, ?closings, ?ended⟩
  case order =>
    rw [accepted_cons, delivered_cons]
    simp only [Turn.accepted?, Turn.delivered?, Option.toList_none, Option.toList_some,
      List.append_nil]
    rw [items, ← List.append_assoc, accounts.order]
  case within =>
    intro most bound
    by_contra above
    -- With a full queue the offer would have waited.
    have waits : queue.serve (.enqueue item) = none := by
      refine serve_enqueue_eq_none_iff.mpr ⟨isOpen, most, by rw [← sameCapacity, bound], ?_⟩
      rw [items, List.length_append, List.length_singleton] at above
      omega
    simp [serve, offered] at waits
  case closings =>
    rw [closings_cons, stillOpen.trans isOpen.symm]
    simpa [Turn.closing?] using accounts.closings
  case ended =>
    intro other told
    have told : ⟨other, .dequeue, .ended⟩ ∈ history := by simpa using told
    have closed := (accounts.ended other told).1
    rw [isOpen] at closed
    cases closed

/-- What was the first item waiting is now the last one taken. -/
theorem Accounts.of_take (accounts : Accounts capacity history queue)
    (taken : queue.take = .item item next) (thread : Nat) :
    Accounts capacity (⟨thread, .dequeue, .item item⟩ :: history) next := by
  obtain ⟨sameClosed, sameCapacity, -⟩ := of_take_item taken
  have items := items_of_take taken
  refine ⟨?order, by rw [sameCapacity, accounts.capacity_eq], ?within, ?closings, ?ended⟩
  case order =>
    rw [accepted_cons, delivered_cons]
    simp only [Turn.accepted?, Turn.delivered?, Option.toList_none, Option.toList_some,
      List.append_nil]
    rw [List.append_assoc, List.singleton_append, ← items, accounts.order]
  case within =>
    intro most bound
    have before := accounts.within most (by rw [← sameCapacity, bound])
    rw [items, List.length_cons] at before
    omega
  case closings =>
    rw [closings_cons, sameClosed]
    simpa [Turn.closing?] using accounts.closings
  case ended =>
    intro other told
    have told : ⟨other, .dequeue, .ended⟩ ∈ history := by simpa using told
    have empty := (accounts.ended other told).2
    rw [items] at empty
    cases empty

/-- The first one to close the input finds it open. -/
theorem Accounts.of_close (accounts : Accounts capacity history queue) (thread : Nat) :
    Accounts capacity (⟨thread, .close, .closed !queue.closed⟩ :: history) queue.close where
  order := by
    rw [accepted_cons, delivered_cons, items_close]
    simpa [Turn.accepted?, Turn.delivered?] using accounts.order
  capacity_eq := accounts.capacity_eq
  within := accounts.within
  closings := by
    have before := accounts.closings
    rw [closings_cons]
    cases closed : queue.closed with
    | false =>
      rw [closed] at before
      exact ⟨0, by rw [show TaskQueue.closings history = [] from before]; rfl⟩
    | true =>
      rw [closed] at before
      obtain ⟨later, before⟩ := before
      exact ⟨later + 1, by rw [before, List.replicate_succ']; rfl⟩
  ended other told := ⟨rfl, (accounts.ended other (by simpa using told)).2⟩

/-- Serving a request keeps the accounts. -/
theorem Accounts.of_serve (accounts : Accounts capacity history queue)
    (served : queue.serve request = some (reply, next)) (thread : Nat) :
    Accounts capacity (⟨thread, request, reply⟩ :: history) next := by
  obtain ⟨item, rfl, rfl, offered⟩ | ⟨item, rfl, rfl, closed, rfl⟩ | ⟨item, rfl, rfl, taken⟩ |
    ⟨rfl, rfl, closed, empty, rfl⟩ | ⟨rfl, rfl, rfl⟩ := TaskQueue.of_serve served
  · exact accounts.of_offer offered thread
  · exact accounts.of_unchanged rfl rfl rfl nofun
  · exact accounts.of_take taken thread
  · exact accounts.of_unchanged rfl rfl rfl fun _ => ⟨closed, empty⟩
  · exact accounts.of_close thread

theorem Serves.accounts (serves : Serves (new capacity) history queue) :
    Accounts capacity history queue := by
  induction serves with
  | refl => exact accounts_new capacity
  | step thread _ _ served ih => exact ih.of_serve served thread

/-- Nobody has closed the input of an open queue. -/
theorem Accounts.closed_iff (accounts : Accounts capacity history queue) :
    queue.closed = true ↔ TaskQueue.closings history ≠ [] := by
  have closings := accounts.closings
  cases closed : queue.closed with
  | false =>
    rw [closed] at closings
    simpa using closings
  | true =>
    rw [closed] at closings
    obtain ⟨later, closings⟩ := closings
    simp [closings]

/-! ## What the queue promises -/

/-- What holds of a queue that was made with a capacity, whatever its threads have done with it
so far. -/
structure Promises (capacity : Option Nat) (history : History α) (queue : TaskQueue α) : Prop where
  /-- Nothing is lost, doubled or moved out of order. -/
  order : delivered history ++ queue.items = accepted history
  bound : ∀ most, capacity = some most → queue.items.length ≤ max 1 most
  /-- Once the input is closed, every item comes back and the queue stays as it is. -/
  rejects : closings history ≠ [] →
    ∀ item, queue.serve (.enqueue item) = some (.rejected item, queue)
  /-- Until then an item is accepted, unless there is no room for it. -/
  accepts : closings history = [] → ∀ item,
    (queue.serve (.enqueue item) = none ↔
      ∃ most, capacity = some most ∧ queue.items.length = max 1 most) ∧
    ∀ reply next, queue.serve (.enqueue item) = some (reply, next) →
      reply = .accepted ∧ next.items = queue.items ++ [item]
  /-- The end is reported exactly when the input is closed and everything was taken. -/
  ends : queue.serve .dequeue = some (.ended, queue) ↔
    closings history ≠ [] ∧ delivered history = accepted history
  /-- Who finds no item in an open queue waits for one. -/
  waits : queue.serve .dequeue = none ↔ closings history = [] ∧ delivered history = accepted history
  /-- Once the end was reported to anybody, it is reported to everybody. -/
  ended : ∀ thread, ⟨thread, .dequeue, .ended⟩ ∈ history →
    queue.serve .dequeue = some (.ended, queue)
  /-- Only the first one to close the input is told so. -/
  first : closings history = [] ∨ ∃ later, closings history = true :: List.replicate later false

/-- A queue keeps its promises in every state that its threads can bring it into. -/
theorem Serves.promises (serves : Serves (new capacity) history queue) :
    Promises capacity history queue := by
  have accounts := serves.accounts
  have closed_iff := accounts.closed_iff
  have empty_iff : queue.items = [] ↔ delivered history = accepted history := by
    simp [← accounts.order]
  have open_iff : queue.closed = false ↔ closings history = [] := by
    rw [← Bool.not_eq_true, closed_iff, not_not]
  have bound most (made : capacity = some most) : queue.items.length ≤ max 1 most :=
    accounts.within _ (by rw [accounts.capacity_eq, made, Option.map_some])
  refine ⟨accounts.order, bound, fun closed item => serve_enqueue_of_closed (closed_iff.mpr closed),
    fun unclosed item => ⟨?_, fun reply next served => ?_⟩, ?_, ?_, fun thread told => ?_, ?_⟩
  · rw [serve_enqueue_eq_none_iff, accounts.capacity_eq, open_iff]
    constructor
    · rintro ⟨-, room, stored, full⟩
      obtain ⟨most, made, rfl⟩ := Option.map_eq_some_iff.mp stored
      exact ⟨most, made, le_antisymm (bound most made) full⟩
    · rintro ⟨most, rfl, full⟩
      exact ⟨unclosed, max 1 most, rfl, full.ge⟩
  · obtain ⟨_, same, rfl, offered⟩ | ⟨_, _, _, closed, _⟩ | ⟨_, same, _⟩ | ⟨same, _⟩ | ⟨same, _⟩ :=
      TaskQueue.of_serve served
    · cases same
      exact ⟨rfl, items_of_offer offered⟩
    · exact absurd unclosed (closed_iff.mp closed)
    all_goals cases same
  · rw [serve_dequeue_ended_iff, closed_iff, empty_iff]
  · rw [serve_dequeue_eq_none_iff, open_iff, empty_iff]
  · exact serve_dequeue_ended_iff.mpr (accounts.ended thread told)
  · have closings := accounts.closings
    split at closings
    next => exact .inr closings
    next => exact .inl closings

/-- Two producers and two consumers at a queue for one item, which they drain after it is closed. -/
theorem promises_drained : ∃ history queue,
    Serves (new (some 0) : TaskQueue Nat) history queue ∧ accepted history = [7, 8] ∧
      closings history = [true, false] ∧ Promises (some 0) history queue := by
  have serves : Serves (new (some 0) : TaskQueue Nat) _ _ :=
    Serves.refl
      |>.step 0 (.enqueue 7) rfl
      |>.step 2 .dequeue rfl
      |>.step 1 (.enqueue 8) rfl
      |>.step 1 .close rfl
      |>.step 0 (.enqueue 9) rfl
      |>.step 0 .close rfl
      |>.step 3 .dequeue rfl
      |>.step 2 .dequeue rfl
  exact ⟨_, _, serves, rfl, rfl, Serves.promises serves⟩

end TaskQueue

end ParallelLoop
