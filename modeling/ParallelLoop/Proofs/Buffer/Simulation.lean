/-
# Buffers over storages that answer alike

A write buffer sees of its storage only what comes of its calls. When two storages are related, and
calls under some keys come to the same in both and leave them related, then a buffer that is used
with these keys cannot tell the one from the other: `BufferPool.Corresponds` says that two buffers
differ in their storages only, and every operation keeps this and comes to the same in both. Which
faults count as the same is left open.

Most of an operation does not touch the storage. What has to be looked at is that the keys of the
entries stay among those that are allowed, since evicting writes under these.
-/

import ParallelLoop.Proofs.Buffer.Refusals

namespace ParallelLoop

/-! ## Results of two computations -/

/-- The same value, or causes that are alike. -/
inductive Outcome.Same {ε α : Type} (alike : ε → ε → Prop) : Except ε α → Except ε α → Prop
  | ok (value : α) : Same alike (.ok value) (.ok value)
  | error {first second : ε} (same : alike first second) : Same alike (.error first) (.error second)

theorem Outcome.Same.refl {ε α : Type} {alike : ε → ε → Prop} (refl : ∀ cause, alike cause cause)
    (outcome : Except ε α) : Same alike outcome outcome := by
  cases outcome with
  | ok value => exact .ok value
  | error cause => exact .error (refl cause)

theorem Outcome.Same.symm {ε α : Type} {alike : ε → ε → Prop}
    (symm : ∀ first second, alike first second → alike second first) {outcome other : Except ε α}
    (same : Same alike outcome other) : Same alike other outcome := by
  cases same with
  | ok value => exact .ok value
  | error same => exact .error (symm _ _ same)

theorem Outcome.Same.trans {ε α : Type} {alike : ε → ε → Prop}
    (trans : ∀ first second third, alike first second → alike second third → alike first third)
    {outcome other last : Except ε α} (first : Same alike outcome other)
    (second : Same alike other last) : Same alike outcome last := by
  cases first with
  | ok value => exact second
  | error same =>
    cases second with
    | error next => exact .error (trans _ _ _ same next)

/-- Failures that differ at most in faults of the storage that are alike. -/
inductive Failure.IsLike (alike : StorageFault → StorageFault → Prop) : Failure → Failure → Prop
  | refl (cause : Failure) : IsLike alike cause cause
  | storage {first second : StorageFault} (key : String) (same : alike first second) :
    IsLike alike (.error (.storage key first)) (.error (.storage key second))

theorem Failure.IsLike.symm {alike : StorageFault → StorageFault → Prop}
    (symm : ∀ first second, alike first second → alike second first) {cause other : Failure}
    (same : IsLike alike cause other) : IsLike alike other cause := by
  cases same with
  | refl => exact .refl _
  | storage key same => exact .storage key (symm _ _ same)

theorem Failure.IsLike.trans {alike : StorageFault → StorageFault → Prop}
    (trans : ∀ first second third, alike first second → alike second third → alike first third)
    {cause other last : Failure} (first : IsLike alike cause other)
    (second : IsLike alike other last) : IsLike alike cause last := by
  cases first with
  | refl => exact second
  | storage key same =>
    cases second with
    | refl => exact .storage key same
    | storage _ next => exact .storage key (trans _ _ _ same next)

/-- Outcomes that are the same, and states that are related. -/
structure SameResult {ε α σ τ : Type} (alike : ε → ε → Prop) (related : σ → τ → Prop)
    (first : Except ε α × σ) (second : Except ε α × τ) : Prop where
  outcome : Outcome.Same alike first.1 second.1
  state : related first.2 second.2

namespace SameResult

variable {σ τ α β : Type} {alike : Failure → Failure → Prop} {related : σ → τ → Prop}
  {s : σ} {t : τ}

/-- Chains come to the same when their first steps do and, from related states on, what follows. -/
theorem bind {first : Change σ α} {second : Change τ α} {next : α → Change σ β}
    {other : α → Change τ β} (start : SameResult alike related (first.result s) (second.result t))
    (rest : ∀ value {after afterOther}, related after afterOther →
      SameResult alike related ((next value).result after) ((other value).result afterOther)) :
    SameResult alike related ((first >>= next).result s) ((second >>= other).result t) := by
  rcases step : first.result s with ⟨outcome, after⟩
  rcases stepOther : second.result t with ⟨outcomeOther, afterOther⟩
  rw [step, stepOther] at start
  obtain ⟨outcomes, states⟩ := start
  cases outcomes with
  | ok value =>
    rw [Change.result_bind step, Change.result_bind stepOther]
    exact rest value states
  | error same =>
    rw [Change.result_bind_error step, Change.result_bind_error stepOther]
    exact ⟨.error same, states⟩

theorem of_pure (states : related s t) (value : α) :
    SameResult alike related ((pure value : Change σ α).result s)
      ((pure value : Change τ α).result t) := ⟨.ok value, states⟩

theorem of_modify {step : σ → σ} {other : τ → τ} (states : related (step s) (other t)) :
    SameResult alike related ((modify step : Change σ PUnit).result s)
      ((modify other : Change τ PUnit).result t) := ⟨.ok _, states⟩

theorem get_bind {next : σ → Change σ β} {other : τ → Change τ β}
    (rest : SameResult alike related ((next s).result s) ((other t).result t)) :
    SameResult alike related ((get >>= next).result s) ((get >>= other).result t) := by
  rwa [Change.result_bind (Change.result_get s), Change.result_bind (Change.result_get t)]

/-- An outcome that does not depend on the state. -/
theorem ofOutcome_bind (refl : ∀ cause, alike cause cause) (states : related s t)
    {outcome : Except Failure α} {next : α → Change σ β} {other : α → Change τ β}
    (rest : ∀ value, outcome = .ok value →
      SameResult alike related ((next value).result s) ((other value).result t)) :
    SameResult alike related ((Change.ofOutcome outcome >>= next).result s)
      ((Change.ofOutcome outcome >>= other).result t) := by
  cases outcome with
  | error cause => exact ⟨.error (refl cause), states⟩
  | ok value => exact rest value rfl

end SameResult

/-! ## Storages -/

/-- Calls under these keys come to the same in storages that are related, and leave them related. -/
structure BlockStorage.Simulates {σ τ : Type} [BlockStorage σ] [BlockStorage τ]
    (keys : String → Prop) (alike : StorageFault → StorageFault → Prop) (related : σ → τ → Prop) :
    Prop where
  write : ∀ {first second} key bytes, keys key → related first second →
    SameResult alike related (write first key bytes) (write second key bytes)
  read : ∀ {first second} key, keys key → related first second →
    SameResult alike related (read first key) (read second key)
  delete : ∀ {first second} key, keys key → related first second →
    SameResult alike related (delete first key) (delete second key)

/-- What is asked of a storage. -/
inductive StorageRequest
  | write (key : String) (bytes : Bytes)
  | read (key : String)
  | delete (key : String)

def StorageRequest.key : StorageRequest → String
  | write key _ | read key | delete key => key

/-- A call of a storage and what came of it. -/
inductive StorageCall
  | write (key : String) (outcome : Except StorageFault Unit)
  | read (key : String) (outcome : Except StorageFault Bytes)
  | delete (key : String) (outcome : Except StorageFault Bool)

/-- The same call with outcomes that are alike. -/
inductive StorageCall.IsLike (alike : StorageFault → StorageFault → Prop) :
    StorageCall → StorageCall → Prop
  | write (key : String) {first second : Except StorageFault Unit}
    (same : Outcome.Same alike first second) : IsLike alike (.write key first) (.write key second)
  | read (key : String) {first second : Except StorageFault Bytes}
    (same : Outcome.Same alike first second) : IsLike alike (.read key first) (.read key second)
  | delete (key : String) {first second : Except StorageFault Bool}
    (same : Outcome.Same alike first second) : IsLike alike (.delete key first) (.delete key second)

namespace BlockStorage

variable {σ τ : Type} [BlockStorage σ] [BlockStorage τ]

/-- Does what is asked. -/
def serve (storage : σ) : StorageRequest → StorageCall × σ
  | .write key bytes =>
    let (outcome, after) := write storage key bytes
    (.write key outcome, after)
  | .read key =>
    let (outcome, after) := read storage key
    (.read key outcome, after)
  | .delete key =>
    let (outcome, after) := delete storage key
    (.delete key outcome, after)

/-- The calls that are made when one thing after the other is asked. -/
def calls (storage : σ) : List StorageRequest → List StorageCall
  | [] => []
  | request :: requests => (serve storage request).1 :: calls (serve storage request).2 requests

variable {keys : String → Prop} {alike : StorageFault → StorageFault → Prop}
  {related : σ → τ → Prop} {first : σ} {second : τ}

theorem Simulates.serve (simulates : Simulates keys alike related) (both : related first second)
    {request : StorageRequest} (allowed : keys request.key) :
    StorageCall.IsLike alike (serve first request).1 (serve second request).1 ∧
      related (serve first request).2 (serve second request).2 := by
  cases request with
  | write key bytes =>
    have same := simulates.write key bytes allowed both
    exact ⟨.write key same.outcome, same.state⟩
  | read key =>
    have same := simulates.read key allowed both
    exact ⟨.read key same.outcome, same.state⟩
  | delete key =>
    have same := simulates.delete key allowed both
    exact ⟨.delete key same.outcome, same.state⟩

/-- Whatever is asked under these keys, the storages answer alike. -/
theorem Simulates.calls (simulates : Simulates keys alike related) (both : related first second)
    {requests : List StorageRequest} (allowed : ∀ request ∈ requests, keys request.key) :
    List.Forall₂ (StorageCall.IsLike alike) (calls first requests) (calls second requests) := by
  induction requests generalizing first second with
  | nil => exact .nil
  | cons request requests ih =>
    rw [List.forall_mem_cons] at allowed
    obtain ⟨same, after⟩ := simulates.serve both allowed.1
    exact .cons same (ih after allowed.2)

end BlockStorage

/-! ## Buffers -/

namespace Residents

variable {residents kept : Residents} {entry : BufferEntry}

/-- Removing entries adds none. -/
theorem sublist_of_remove (done : residents.remove entry = .ok kept) :
    kept.entries.Sublist residents.entries := by
  unfold remove at done
  split at done
  next =>
    cases done
    exact residents.others_sublist entry.key
  next => cases done

theorem mem_of_mem_touch {other : BufferEntry} (member : entry ∈ residents.entries)
    (there : other ∈ (residents.touch entry).entries) : other ∈ residents.entries := by
  rcases List.mem_append.mp there with rest | last
  · exact (residents.others_sublist entry.key).subset rest
  · rwa [List.mem_singleton.mp last]

end Residents

namespace BufferPool

variable {σ τ : Type} {keys : String → Prop} {alike : StorageFault → StorageFault → Prop}
  {related : σ → τ → Prop} {pool : BufferPool σ} {other : BufferPool τ}

/-- The buffer over another storage. -/
def withStorage (pool : BufferPool σ) (storage : τ) : BufferPool τ :=
  { limit := pool.limit, maxEntryBytes := pool.maxEntryBytes, policy := pool.policy
    residents := pool.residents, pages := pool.pages, statistics := pool.statistics
    storage, log := pool.log }

/-- The entries are for these keys. -/
def HoldsOnly (keys : String → Prop) (pool : BufferPool σ) : Prop :=
  ∀ residents, pool.residents = some residents → ∀ entry ∈ residents.entries, keys entry.key

/-- Buffers with entries for these keys that differ in their storages only. These are related. -/
inductive Corresponds (keys : String → Prop) (related : σ → τ → Prop) :
    BufferPool σ → BufferPool τ → Prop
  | intro (pool : BufferPool σ) (storage : τ) (same : related pool.storage storage)
    (inside : pool.HoldsOnly keys) : Corresponds keys related pool (pool.withStorage storage)

/-- Two operations come to the same and leave buffers that correspond. -/
abbrev SameTraffic {α : Type} (keys : String → Prop) (alike : StorageFault → StorageFault → Prop)
    (related : σ → τ → Prop) : Except Failure α × BufferPool σ →
      Except Failure α × BufferPool τ → Prop :=
  SameResult (Failure.IsLike alike) (Corresponds keys related)

theorem Corresponds.residents_eq (both : Corresponds keys related pool other) :
    other.residents = pool.residents := by
  cases both
  rfl

theorem Corresponds.holdsOnly (both : Corresponds keys related pool other) :
    pool.HoldsOnly keys := by
  cases both
  assumption

theorem Corresponds.entries (both : Corresponds keys related pool other) :
    other.entries = pool.entries ∧ ∀ entry ∈ pool.entries, keys entry.key := by
  refine ⟨by cases both; rfl, fun entry there => ?_⟩
  unfold BufferPool.entries at there
  cases given : pool.residents with
  | none =>
    rw [given] at there
    cases there
  | some residents =>
    rw [given] at there
    exact both.holdsOnly residents given entry there

end BufferPool

/-! ## Steps of the operations -/

namespace SameResult

open BufferPool (Corresponds HoldsOnly Operation SameTraffic)

variable {σ τ α β : Type} {keys : String → Prop} {alike : StorageFault → StorageFault → Prop}
  {related : σ → τ → Prop} {pool : BufferPool σ} {other : BufferPool τ}

/-- A step that neither changes the storage nor looks at it. -/
theorem of_change (both : Corresponds keys related pool other)
    {step : BufferPool σ → BufferPool σ} {stepOther : BufferPool τ → BufferPool τ}
    (same : ∀ storage, stepOther (pool.withStorage storage) = (step pool).withStorage storage)
    (storage_eq : (step pool).storage = pool.storage)
    (inside : pool.HoldsOnly keys → (step pool).HoldsOnly keys) :
    SameTraffic keys alike related ((modify step : Operation σ PUnit).result pool)
      ((modify stepOther : Operation τ PUnit).result other) := by
  cases both with
  | intro storage storages held =>
    refine .of_modify ?_
    rw [same storage]
    exact .intro _ storage (storage_eq.symm ▸ storages) (inside held)

theorem say (both : Corresponds keys related pool other) (level : LogLevel) (text : String) :
    SameTraffic keys alike related ((BufferPool.say level text).result pool)
      ((BufferPool.say level text).result other) :=
  of_change both (fun _ => rfl) rfl id

theorem count (both : Corresponds keys related pool other)
    (change : BufferStatistics → BufferStatistics) :
    SameTraffic keys alike related ((BufferPool.count change).result pool)
      ((BufferPool.count change).result other) :=
  of_change both (fun _ => rfl) rfl id

theorem setResidents (both : Corresponds keys related pool other) {residents : Residents}
    (inside : ∀ entry ∈ residents.entries, keys entry.key) :
    SameTraffic keys alike related ((BufferPool.setResidents residents).result pool)
      ((BufferPool.setResidents residents).result other) :=
  of_change both (fun _ => rfl) rfl fun _ _ given => Option.some.inj given ▸ inside

theorem recycle (both : Corresponds keys related pool other) (entry : BufferEntry) :
    SameTraffic keys alike related ((BufferPool.recycle entry).result pool)
      ((BufferPool.recycle entry).result other) :=
  of_change both (fun _ => rfl) rfl id

theorem takePage (both : Corresponds keys related pool other) (size : Nat) :
    SameTraffic keys alike related ((BufferPool.takePage size).result pool)
      ((BufferPool.takePage size).result other) := by
  rw [BufferPool.result_takePage, BufferPool.result_takePage]
  cases both with
  | intro storage storages inside => exact ⟨.ok _, .intro _ storage storages inside⟩

/-- What follows the look for the entries finds the same ones. -/
theorem initialized_bind (both : Corresponds keys related pool other)
    {next : Residents → Operation σ β} {nextOther : Residents → Operation τ β}
    (rest : ∀ residents, pool.residents = some residents →
      (∀ entry ∈ residents.entries, keys entry.key) →
      SameTraffic keys alike related ((next residents).result pool)
        ((nextOther residents).result other)) :
    SameTraffic keys alike related ((Change.inspect BufferPool.initialized >>= next).result pool)
      ((Change.inspect BufferPool.initialized >>= nextOther).result other) := by
  cases given : pool.residents with
  | none =>
    have alsoNone := both.residents_eq.trans given
    rw [Change.result_bind_error (BufferPool.result_initialized_none given),
      Change.result_bind_error (BufferPool.result_initialized_none alsoNone)]
    exact ⟨.error (.refl _), both⟩
  | some residents =>
    have alsoGiven := both.residents_eq.trans given
    rw [Change.result_bind (BufferPool.result_initialized given),
      Change.result_bind (BufferPool.result_initialized alsoGiven)]
    exact rest residents given (both.holdsOnly residents given)

theorem callStorage (both : Corresponds keys related pool other)
    {call : σ → Except StorageFault α × σ} {callOther : τ → Except StorageFault α × τ}
    (calls : ∀ {first second}, related first second →
      SameResult alike related (call first) (callOther second)) (key : String) :
    SameTraffic keys alike related ((BufferPool.callStorage key call).result pool)
      ((BufferPool.callStorage key callOther).result other) := by
  cases both with
  | intro storage storages inside =>
    have answers := calls storages
    rcases called : call pool.storage with ⟨outcome, after⟩
    rcases calledOther : callOther storage with ⟨outcomeOther, afterOther⟩
    rw [called, calledOther] at answers
    obtain ⟨outcomes, states⟩ := answers
    have left : Corresponds keys related { pool with storage := after }
        (({ pool with storage := after } : BufferPool σ).withStorage afterOther) :=
      .intro _ afterOther states inside
    have calledOver : callOther (pool.withStorage storage).storage = _ := calledOther
    rw [BufferPool.result_callStorage called, BufferPool.result_callStorage calledOver]
    cases outcomes with
    | ok value => exact ⟨.ok value, left⟩
    | error same => exact ⟨.error (.storage key same), left⟩

theorem removeEntry (both : Corresponds keys related pool other) (entry : BufferEntry) :
    SameTraffic keys alike related ((BufferPool.removeEntry entry).result pool)
      ((BufferPool.removeEntry entry).result other) := by
  refine initialized_bind both fun residents _ inside => ?_
  refine .ofOutcome_bind .refl both fun kept removed => ?_
  refine .bind (setResidents both fun held there => ?_) fun _ _ _ both => recycle both entry
  exact inside held ((Residents.sublist_of_remove removed).subset there)

theorem discard (both : Corresponds keys related pool other) (key : String) :
    SameTraffic keys alike related ((BufferPool.discard key).result pool)
      ((BufferPool.discard key).result other) := by
  refine initialized_bind both fun residents _ _ => ?_
  split
  next entry _ => exact removeEntry both entry
  next => exact .of_pure both ()

end SameResult

/-! ## Operations -/

namespace BufferPool

variable {σ τ : Type} {keys : String → Prop} {alike : StorageFault → StorageFault → Prop}
  {related : σ → τ → Prop} {pool : BufferPool σ} {other : BufferPool τ} {key : String}
  [BlockStorage σ] [BlockStorage τ] (simulates : BlockStorage.Simulates keys alike related)
include simulates

theorem sameTraffic_evict (both : Corresponds keys related pool other) (needed : Nat)
    {entries : List BufferEntry} (inside : ∀ entry ∈ entries, keys entry.key) :
    SameTraffic keys alike related ((evict needed entries).result pool)
      ((evict needed entries).result other) := by
  induction entries generalizing pool other with
  | nil => exact .of_pure both ()
  | cons victim rest ih =>
    rw [List.forall_mem_cons] at inside
    unfold evict
    refine .get_bind ?_
    -- Both pools are equally full, so they stop evicting at the same entry.
    have room : other.size = pool.size ∧ other.limit = pool.limit := by
      cases both
      exact ⟨rfl, rfl⟩
    rw [room.1, room.2]
    split
    · exact .of_pure both ()
    · refine .bind (.callStorage both (simulates.write _ _ inside.1) _) fun _ _ _ both => ?_
      refine .bind (.removeEntry both victim) fun _ _ _ both => ?_
      refine .bind (.count both _) fun _ _ _ both => ?_
      exact .bind (.say both _ _) fun _ _ _ both => ih both inside.2

/-- A block is written alike. -/
theorem sameTraffic_write (both : Corresponds keys related pool other) (allowed : keys key)
    (block : MatrixBlock) :
    SameTraffic keys alike related ((write key block).result pool)
      ((write key block).result other) := by
  unfold write
  refine .get_bind ?_
  have limits : other.limit = pool.limit ∧ other.maxEntryBytes = pool.maxEntryBytes := by
    cases both
    exact ⟨rfl, rfl⟩
  rw [limits.1, limits.2]
  refine .bind (.discard both key) fun _ after afterOther both => ?_
  split
  · refine .bind (.callStorage both (simulates.write _ _ allowed) _) fun _ _ _ both => ?_
    exact .bind (.count both _) fun _ _ _ both => .say both _ _
  · refine .get_bind ?_
    obtain ⟨same, inside⟩ := both.entries
    rw [same]
    refine .bind (sameTraffic_evict simulates both _ inside) fun _ _ _ both => ?_
    refine .initialized_bind both fun residents _ inside => ?_
    refine .bind (.takePage both _) fun page _ _ both => ?_
    refine .bind (.setResidents both fun entry there => ?_) fun _ _ _ both => .count both _
    -- The entries that stay had their keys before, and the new one has the key of the call.
    rcases List.mem_append.mp there with old | new
    · exact inside entry old
    · rw [List.mem_singleton.mp new]
      exact allowed

theorem sameTraffic_read (both : Corresponds keys related pool other) (allowed : keys key) :
    SameTraffic keys alike related ((read key).result pool) ((read key).result other) := by
  -- Whatever bytes were found, what follows only loads and counts.
  have answer {after : BufferPool σ} {afterOther : BufferPool τ}
      (both : Corresponds keys related after afterOther) (bytes : Bytes)
      (change : BufferStatistics → BufferStatistics) :
      SameTraffic keys alike related
        ((do let block ← Change.ofExcept (load key bytes); count change; return block :
          Operation σ MatrixBlock).result after)
        ((do let block ← Change.ofExcept (load key bytes); count change; return block :
          Operation τ MatrixBlock).result afterOther) := by
    cases load key bytes with
    | error cause => exact ⟨.error (.refl _), both⟩
    | ok block =>
      exact .bind (.of_pure both block) fun found _ _ both =>
        .bind (.count both change) fun _ _ _ both => .of_pure both found
  unfold read
  refine .initialized_bind both fun residents given inside => ?_
  split
  next entry found =>
    refine .get_bind ?_
    have policy : other.policy = pool.policy := by
      cases both
      rfl
    rw [policy]
    split
    · refine .bind (.setResidents both fun held there => ?_) fun _ _ _ both => answer both _ _
      exact inside held (Residents.mem_of_mem_touch (Residents.mem_of_find? found).1 there)
    · exact answer both _ _
  next =>
    exact .bind (.callStorage both (simulates.read _ allowed) _) fun bytes _ _ both =>
      answer both bytes _

theorem sameTraffic_delete (both : Corresponds keys related pool other) (allowed : keys key) :
    SameTraffic keys alike related ((delete key).result pool) ((delete key).result other) := by
  unfold delete
  refine .bind (.discard both key) fun _ _ _ both => ?_
  exact .bind (.callStorage both (simulates.delete _ allowed) _) fun _ _ _ both => .of_pure both ()

/-! ## Runs -/

theorem Corresponds.afterCall (both : Corresponds keys related pool other) {call : BufferCall}
    (allowed : keys call.key) :
    Corresponds keys related (pool.afterCall call) (other.afterCall call) := by
  cases call with
  | write key block => exact (sameTraffic_write simulates both allowed block).state
  | read key => exact (sameTraffic_read simulates both allowed).state
  | delete key => exact (sameTraffic_delete simulates both allowed).state

/-- Steps that are the same, except that each of the storages is changed in its own way. -/
inductive SameStep (keys : String → Prop) (related : σ → τ → Prop) :
    BufferStep σ → BufferStep τ → Prop
  | start : SameStep keys related .start .start
  | cleanup : SameStep keys related .cleanup .cleanup
  | call {call : BufferCall} (allowed : keys call.key) :
    SameStep keys related (.call call) (.call call)
  | storage {change : σ → σ} {changeOther : τ → τ}
    (kept : ∀ {first second}, related first second → related (change first) (changeOther second)) :
    SameStep keys related (.storage change) (.storage changeOther)

theorem Corresponds.afterStep (both : Corresponds keys related pool other) {step : BufferStep σ}
    {stepOther : BufferStep τ} (same : SameStep keys related step stepOther) :
    Corresponds keys related (pool.afterStep step) (other.afterStep stepOther) := by
  cases same with
  | start =>
    cases both with
    | intro storage storages _ =>
      refine .intro (pool.afterStep .start) storage storages fun residents given => ?_
      cases given
      exact fun _ there => absurd there List.not_mem_nil
  | cleanup =>
    cases both with
    | intro storage storages _ =>
      exact .intro (pool.afterStep .cleanup) storage storages fun _ given => nomatch given
  | call allowed => exact both.afterCall simulates allowed
  | storage kept =>
    cases both with
    | intro storage storages inside => exact .intro _ _ (kept storages) inside

theorem Corresponds.afterSteps (both : Corresponds keys related pool other)
    {steps : List (BufferStep σ)} {stepsOther : List (BufferStep τ)}
    (same : List.Forall₂ (SameStep keys related) steps stepsOther) :
    Corresponds keys related (pool.afterSteps steps) (other.afterSteps stepsOther) := by
  induction same generalizing pool other with
  | nil => exact both
  | cons first _ ih => exact ih (both.afterStep simulates first)

end BufferPool

/-! ## The same use of two buffers -/

/-- What is done with a buffer, whatever its storage is. -/
inductive BufferUse
  | start
  | cleanup
  | call (made : BufferCall)

namespace BufferUse

/-- The step of a buffer with any storage. -/
def step {σ : Type} : BufferUse → BufferPool.BufferStep σ
  | start => .start
  | cleanup => .cleanup
  | call made => .call made

/-- Calls are for these keys. -/
def IsFor (keys : String → Prop) : BufferUse → Prop
  | start | cleanup => True
  | call made => keys made.key

end BufferUse

namespace BufferPool

variable {σ τ α : Type} {keys : String → Prop} {alike : StorageFault → StorageFault → Prop}
  {related : σ → τ → Prop} {pool : BufferPool σ} {other : BufferPool τ}

/-- New buffers over storages that are related. -/
theorem corresponds_new [Quantity α] (settings : BufferSettings α) (memory : Nat) {storage : σ}
    {storageOther : τ} (same : related storage storageOther) :
    Corresponds keys related (new settings memory storage) (new settings memory storageOther) :=
  .intro (new settings memory storage) storageOther same fun _ given => nomatch given

variable [BlockStorage σ] [BlockStorage τ]

/-- Nothing but their storages tells these buffers apart when they are used with these keys. -/
structure IsLikeFor (keys : String → Prop) (alike : StorageFault → StorageFault → Prop)
    (pool : BufferPool σ) (other : BufferPool τ) : Prop where
  write_same : ∀ key block, keys key → Outcome.Same (Failure.IsLike alike)
    ((write key block).result pool).1 ((write key block).result other).1
  read_same : ∀ key, keys key → Outcome.Same (Failure.IsLike alike)
    ((read key).result pool).1 ((read key).result other).1
  delete_same : ∀ key, keys key → Outcome.Same (Failure.IsLike alike)
    ((delete key).result pool).1 ((delete key).result other).1
  status_eq : other.status = pool.status
  residents_eq : other.residents = pool.residents
  statistics_eq : other.statistics = pool.statistics
  log_eq : other.log = pool.log

variable (simulates : BlockStorage.Simulates keys alike related)
include simulates

theorem Corresponds.isLikeFor (both : Corresponds keys related pool other) :
    pool.IsLikeFor keys alike other where
  write_same _ block allowed := (sameTraffic_write simulates both allowed block).outcome
  read_same _ allowed := (sameTraffic_read simulates both allowed).outcome
  delete_same _ allowed := (sameTraffic_delete simulates both allowed).outcome
  status_eq := by cases both; rfl
  residents_eq := both.residents_eq
  statistics_eq := by cases both; rfl
  log_eq := by cases both; rfl

theorem Corresponds.afterUses (both : Corresponds keys related pool other)
    {uses : List BufferUse} (allowed : ∀ use ∈ uses, use.IsFor keys) :
    Corresponds keys related (pool.afterSteps (uses.map BufferUse.step))
      (other.afterSteps (uses.map BufferUse.step)) := by
  refine both.afterSteps simulates ?_
  rw [List.forall₂_map_left_iff, List.forall₂_map_right_iff, List.forall₂_same]
  intro use there
  cases use with
  | start => exact .start
  | cleanup => exact .cleanup
  | call made => exact .call (allowed _ there)

end BufferPool

end ParallelLoop
