/-
# The order of eviction

The entries of a write buffer stand in line for their eviction. What the line is follows from the
keys that were used: a key is used by a write that succeeds and, under the policy that counts
reads, by a read that succeeds with its entry. `InOrderOfUse` says that the entries stand in the
order of their last uses, which is also the order of the listing. Every step keeps this, over any
storage: a step takes entries out of the line, which leaves the others in order, and the entry that
it puts at the end is the one of the key that it uses.

When there is no room for a new entry, the line is shortened from the front, and no more than
necessary: `IsShortest` says with how many entries gone there is room. The bytes of these entries
are all that goes to the storage.
-/

import Mathlib.Algebra.BigOperators.Group.List.Basic
import ParallelLoop.Proofs.Buffer.Accounting

namespace ParallelLoop

/-! ## Lines -/

/-- All entries were used, and they stand in the order of their last uses. The uses are listed with
the latest one first, so the place of a key tells how many there were since its own. -/
structure InOrderOfUse (uses : List String) (entries : List BufferEntry) : Prop where
  used : ∀ entry ∈ entries, entry.key ∈ uses
  order : entries.Pairwise fun earlier later => uses.idxOf later.key < uses.idxOf earlier.key

namespace InOrderOfUse

variable {uses : List String} {entries kept : List BufferEntry} {key : String}

theorem nil : InOrderOfUse uses [] := ⟨nofun, .nil⟩

theorem sublist (ordered : InOrderOfUse uses entries) (part : kept.Sublist entries) :
    InOrderOfUse uses kept :=
  ⟨fun entry member => ordered.used entry (part.subset member), ordered.order.sublist part⟩

/-- Using a key that has no entry changes nothing. -/
theorem use (ordered : InOrderOfUse uses entries) (apart : ∀ entry ∈ entries, entry.key ≠ key) :
    InOrderOfUse (key :: uses) entries where
  used entry member := List.mem_cons_of_mem _ (ordered.used entry member)
  order := by
    refine ordered.order.imp_of_mem fun {earlier later} first second older => ?_
    rw [List.idxOf_cons_ne _ (apart later second).symm,
      List.idxOf_cons_ne _ (apart earlier first).symm]
    exact Nat.succ_lt_succ older

/-- The entry of the key that is used goes to the end of the line. -/
theorem use_last {entry : BufferEntry} (ordered : InOrderOfUse uses entries)
    (apart : ∀ other ∈ entries, other.key ≠ entry.key) :
    InOrderOfUse (entry.key :: uses) (entries ++ [entry]) where
  used := List.forall_mem_append.mpr ⟨(ordered.use apart).used, by simp⟩
  order := by
    rw [List.pairwise_append]
    refine ⟨(ordered.use apart).order, List.pairwise_singleton .., ?_⟩
    intro other member last isLast
    rw [List.mem_singleton.mp isLast, List.idxOf_cons_self,
      List.idxOf_cons_ne _ (apart other member).symm]
    exact Nat.succ_pos _

end InOrderOfUse

/-- The least number of entries to be taken from the front of a line so that those left and the
bytes needed stay within the limit. -/
structure IsShortest (limit needed : Nat) (line : List BufferEntry) (count : Nat) : Prop where
  le_length : count ≤ line.length
  room_iff : ∀ gone, ((line.drop gone).map BufferEntry.size).sum + needed ≤ limit ↔ count ≤ gone

namespace IsShortest

variable {limit needed count : Nat} {line : List BufferEntry} {victim : BufferEntry}

theorem zero (room : (line.map BufferEntry.size).sum + needed ≤ limit) :
    IsShortest limit needed line 0 where
  le_length := Nat.zero_le _
  room_iff gone := by
    have total := List.sum_take_add_sum_drop (line.map BufferEntry.size) gone
    rw [← List.map_drop] at total
    exact iff_of_true (by omega) (Nat.zero_le gone)

theorem succ (full : ¬ ((victim :: line).map BufferEntry.size).sum + needed ≤ limit)
    (rest : IsShortest limit needed line count) :
    IsShortest limit needed (victim :: line) (count + 1) where
  le_length := Nat.succ_le_succ rest.le_length
  room_iff gone := by
    cases gone with
    | zero => exact iff_of_false full (Nat.not_succ_le_zero count)
    | succ gone => rw [List.drop_succ_cons, rest.room_iff, Nat.succ_le_succ_iff]

end IsShortest

/-! ## Storing a line -/

namespace BlockStorage

variable {σ : Type} [BlockStorage σ]

/-- The storage takes the bytes of the entries, one after the other. -/
def Takes (storage : σ) : List BufferEntry → Prop
  | [] => True
  | entry :: rest =>
    ∃ after, write storage entry.key entry.bytes = (.ok (), after) ∧ Takes after rest

/-- The storage after the bytes of the entries were written to it, one after the other. -/
def storeAll (storage : σ) (entries : List BufferEntry) : σ :=
  entries.foldl (fun storage entry => (write storage entry.key entry.bytes).2) storage

/-- A storage that never refuses a write takes everything. -/
theorem takes_of_accepts
    (accepts : ∀ (storage : σ) key bytes, (write storage key bytes).1 = .ok ()) (storage : σ)
    (entries : List BufferEntry) : Takes storage entries := by
  induction entries generalizing storage with
  | nil => trivial
  | cons entry rest ih => exact ⟨_, Prod.ext (accepts storage entry.key entry.bytes) rfl, ih _⟩

end BlockStorage

namespace BufferPool

variable {σ α : Type} {pool : BufferPool σ} {residents : Residents} {key : String}
  {block : MatrixBlock} {uses : List String} {limit maxEntryBytes : Nat}

/-! ## Entries in line -/

/-- The entries stand in line, and each has the bytes of a block. -/
structure IsInLine (uses : List String) (pool : BufferPool σ) : Prop where
  ordered : InOrderOfUse uses pool.entries
  loads : ∀ entry ∈ pool.entries, ∃ block, MatrixBlock.decode? entry.bytes = some block

namespace IsInLine

variable {after : BufferPool σ}

theorem of_nil (empty : pool.entries = []) : IsInLine uses pool where
  ordered := empty ▸ .nil
  loads := by simp [empty]

/-- Entries were taken out of the line. -/
theorem shorten (inLine : IsInLine uses pool) (part : after.entries.Sublist pool.entries) :
    IsInLine uses after :=
  ⟨inLine.ordered.sublist part, fun entry member => inLine.loads entry (part.subset member)⟩

/-- Entries of other keys were taken out of the line, and one was added at its end. -/
theorem extend {kept : List BufferEntry} {entry : BufferEntry} (inLine : IsInLine uses pool)
    (part : kept.Sublist pool.entries) (apart : ∀ other ∈ kept, other.key ≠ entry.key)
    (loads : ∃ block, MatrixBlock.decode? entry.bytes = some block)
    (entries_eq : after.entries = kept ++ [entry]) : IsInLine (entry.key :: uses) after where
  ordered := entries_eq ▸ (inLine.ordered.sublist part).use_last apart
  loads := by
    rw [entries_eq, List.forall_mem_append]
    exact ⟨fun other member => inLine.loads other (part.subset member), by simpa using loads⟩

end IsInLine

variable [BlockStorage σ]

/-! ## Evicting -/

/-- Evicting shortens the line from the front. If it succeeds, it shortens the line no more than
necessary and stores what it takes; it only fails when the storage does not take the line. -/
theorem Evicts.line {needed : Nat} {outcome : Except Failure Unit} {after : BufferPool σ}
    {kept : Residents} (evicts : Evicts needed pool residents outcome after kept)
    (fits : needed ≤ pool.limit) : ∃ count, kept.entries = residents.entries.drop count ∧
      ((outcome = .ok () ∧ IsShortest pool.limit needed residents.entries count ∧
          after.storage = BlockStorage.storeAll pool.storage (residents.entries.take count)) ∨
        ((∃ cause, outcome = .error cause) ∧
          ¬ BlockStorage.Takes pool.storage residents.entries)) := by
  -- Each victim is the first of the line, so a step adds one to the count of the steps after it.
  induction evicts with
  | room given sound room =>
    exact ⟨0, rfl, .inl ⟨rfl, .zero (sound.size_eq ▸ sound.room fits room), rfl⟩⟩
  | refused next called =>
    refine ⟨0, rfl, .inr ⟨⟨_, rfl⟩, ?_⟩⟩
    rw [next.order]
    rintro ⟨after, taken, -⟩
    rw [called] at taken
    cases taken
  | spill next called later ih =>
    obtain ⟨count, dropped, ending⟩ := ih fits
    have full := next.full
    rw [next.sound.size_eq] at full
    rw [next.order] at full ⊢
    refine ⟨count + 1, dropped, ending.imp ?_ ?_⟩
    · rintro ⟨rfl, shortest, stored⟩
      refine ⟨rfl, .succ full shortest, ?_⟩
      rw [stored, storage_spilled, List.take_succ_cons, BlockStorage.storeAll,
        BlockStorage.storeAll, List.foldl_cons, called]
    · rintro ⟨failed, refused⟩
      refine ⟨failed, ?_⟩
      rintro ⟨after, taken, takes⟩
      rw [called] at taken
      cases taken
      exact refused takes

/-! ## Operations -/

/-- A block within the limits goes to the end of the line, which is shortened for it. -/
theorem write_line (given : pool.residents = some residents) (sound : residents.IsSound)
    (fits : block.encodedSize ≤ pool.limit) (small : block.encodedSize ≤ pool.maxEntryBytes)
    (key : String) :
    let line := residents.others key
    ∃ outcome after count, (write key block).result pool = (outcome, after) ∧
      ((outcome = .ok () ∧ IsShortest pool.limit block.encodedSize line count ∧
          after.entries = line.drop count ++ [.ofBlock key block] ∧
          after.storage = BlockStorage.storeAll pool.storage (line.take count)) ∨
        ((∃ cause, outcome = .error cause) ∧ after.entries = line.drop count ∧
          ¬ BlockStorage.Takes pool.storage line)) := by
  intro line
  obtain ⟨outcome, after, result, how⟩ := exists_writes given sound key block
  cases how with
  | around large | refused large => omega
  | into _ _ evicts pages =>
    obtain ⟨count, dropped, ⟨-, shortest, stored⟩ | ⟨⟨cause, failed⟩, -⟩⟩ := evicts.line fits
    · refine ⟨_, _, count, result, .inl ⟨rfl, shortest, ?_, stored⟩⟩
      exact congrArg (· ++ [BufferEntry.ofBlock key block]) dropped
    · cases failed
  | stuck _ _ evicts =>
    obtain ⟨count, dropped, ⟨done, -⟩ | ⟨failed, refused⟩⟩ := evicts.line fits
    · cases done
    · have left := (entries_eq evicts.residents_eq.2).trans dropped
      exact ⟨_, _, count, result, .inr ⟨failed, left, refused⟩⟩

/-- A block beyond the limits passes the line. -/
theorem write_beyond (given : pool.residents = some residents) (sound : residents.IsSound)
    (large : pool.limit < block.encodedSize ∨ pool.maxEntryBytes < block.encodedSize)
    (key : String) : ((write key block).result pool).2.entries = residents.others key := by
  obtain ⟨outcome, after, result, how⟩ := exists_writes given sound key block
  rw [result]
  cases how with
  | around | refused => rfl
  | into | stuck => omega

theorem delete_line (given : pool.residents = some residents) (sound : residents.IsSound)
    (key : String) : ((delete key).result pool).2.entries = residents.others key := by
  obtain ⟨outcome, after, result, how⟩ := exists_deletes given sound key
  rw [result]
  cases how with
  | removed | refused => rfl

/-- A read changes the line only under the policy that counts reads, when it finds an entry. -/
theorem read_eq_entries (other : pool.policy = .lru → pool.contains key = false) :
    ((read key).result pool).2.entries = pool.entries := by
  cases given : pool.residents with
  | none => rw [result_read_none given]
  | some residents =>
    obtain ⟨outcome, after, result, how⟩ := exists_reads given key
    rw [result, entries_eq given]
    cases how with
    | hit found =>
      have ignored : pool.policy ≠ .lru := by
        intro counts
        simpa [contains, given, found] using other counts
      refine (entries_eq rfl).trans ?_
      rw [Residents.used, if_neg ignored]
    | fetched | refused => exact entries_eq given

/-- Under that policy the entry goes to the end of the line. -/
theorem read_line (given : pool.residents = some residents) {entry : BufferEntry}
    (found : residents.find? key = some entry) (counts : pool.policy = .lru)
    (loads : MatrixBlock.decode? entry.bytes = some block) :
    ∃ after, (read key).result pool = (.ok block, after) ∧
      after.entries = residents.others entry.key ++ [entry] := by
  obtain ⟨outcome, after, result, how⟩ := exists_reads given key
  cases how with
  | hit held =>
    obtain rfl := Option.some.inj (found.symm.trans held)
    have loaded : load key entry.bytes = .ok block := by rw [load, loads]
    rw [loaded] at result
    refine ⟨_, result, (entries_eq rfl).trans ?_⟩
    rw [Residents.used, if_pos counts]
    rfl
  | fetched absent | refused absent =>
    rw [found] at absent
    cases absent

/-! ## Runs -/

/-- No step changes the policy. -/
theorem policy_afterStep (accounted : pool.IsAccounted limit maxEntryBytes) (step : BufferStep σ) :
    (pool.afterStep step).policy = pool.policy := by
  cases step with
  | start | cleanup | storage => rfl
  | call call =>
    cases given : pool.residents with
    | none => rw [afterStep, (afterCall_of_uninitialized given call).1]
    | some residents =>
      have sound := (accounted.residents residents given).toIsSound
      exact ((serves given sound call).goesOn given).policy_eq

theorem policy_afterSteps (accounted : pool.IsAccounted limit maxEntryBytes)
    (steps : List (BufferStep σ)) : (pool.afterSteps steps).policy = pool.policy := by
  induction steps generalizing pool with
  | nil => rfl
  | cons step steps ih =>
    exact (ih (afterStep_isAccounted accounted step)).trans (policy_afterStep accounted step)

/-- The key that a step uses, if it uses one: that of a write that succeeds or, under the policy
that counts reads, that of a read that succeeds with an entry. -/
def usedKey? (policy : EvictionPolicy) (pool : BufferPool σ) : BufferStep σ → Option String
  | .call (.write key block) =>
    if pool.failure? (.write key block) = none then some key else none
  | .call (.read key) =>
    if policy = .lru ∧ pool.contains key ∧ pool.failure? (.read key) = none then some key else none
  | _ => none

/-- The keys that are used along steps, the latest one first, in front of those used before. -/
def usesAfter (policy : EvictionPolicy) (uses : List String) (pool : BufferPool σ) :
    List (BufferStep σ) → List String
  | [] => uses
  | step :: steps =>
    usesAfter policy ((pool.usedKey? policy step).toList ++ uses) (pool.afterStep step) steps

namespace IsInLine

variable (inLine : IsInLine uses pool)
include inLine

theorem write (given : pool.residents = some residents) (sound : residents.IsSound)
    (storable : block.IsStorable) (key : String) :
    IsInLine ((pool.usedKey? pool.policy (.call (.write key block))).toList ++ uses)
      (pool.afterCall (.write key block)) := by
  have others : (residents.others key).Sublist pool.entries :=
    entries_eq given ▸ residents.others_sublist key
  rw [usedKey?, failure?, afterCall]
  by_cases large : pool.limit < block.encodedSize ∨ pool.maxEntryBytes < block.encodedSize
  · have passed := write_beyond given sound large key
    have shorter := inLine.shorten (passed ▸ others)
    split
    next =>
      refine ⟨shorter.ordered.use fun entry member => ?_, shorter.loads⟩
      rw [passed] at member
      exact Residents.key_ne_of_mem_others member
    next => exact shorter
  · rw [not_or, Nat.not_lt, Nat.not_lt] at large
    -- The new block joins at the end of what the evictions leave of the line.
    obtain ⟨outcome, after, count, written, ending⟩ :=
      write_line given sound large.1 large.2 key
    have part := (List.drop_sublist count (residents.others key)).trans others
    rw [written]
    obtain ⟨rfl, -, entries_eq, -⟩ | ⟨⟨cause, rfl⟩, entries_eq, -⟩ := ending
    · refine inLine.extend part (fun other member => ?_) ⟨block, ?_⟩ entries_eq
      · exact Residents.key_ne_of_mem_others (List.mem_of_mem_drop member)
      · exact MatrixBlock.decode?_encode storable
    · exact inLine.shorten (entries_eq ▸ part)

theorem read (given : pool.residents = some residents) (key : String) :
    IsInLine ((pool.usedKey? pool.policy (.call (.read key))).toList ++ uses)
      (pool.afterCall (.read key)) := by
  rw [usedKey?, failure?, afterCall]
  -- Only under the policy that counts reads does an entry that is found move to the end.
  by_cases counted : pool.policy = .lru ∧ pool.contains key = true
  · obtain ⟨entry, found⟩ : ∃ entry, residents.find? key = some entry := by
      simpa [contains, given, Option.isSome_iff_exists] using counted.2
    obtain ⟨member, rfl⟩ := Residents.mem_of_find? found
    obtain ⟨block, loads⟩ := inLine.loads entry (entries_eq given ▸ member)
    obtain ⟨after, done, moved⟩ := read_line given found counted.1 loads
    rw [done, if_pos ⟨counted.1, counted.2, rfl⟩]
    refine inLine.extend (entries_eq given ▸ residents.others_sublist _) (fun other member => ?_)
      ⟨block, loads⟩ moved
    exact Residents.key_ne_of_mem_others member
  · rw [if_neg fun used => counted ⟨used.1, used.2.1⟩]
    have same : ((BufferPool.read key).result pool).2.entries = pool.entries :=
      read_eq_entries fun lru => by simpa [lru] using counted
    exact inLine.shorten (same ▸ .refl _)

theorem step (accounted : pool.IsAccounted limit maxEntryBytes) {step : BufferStep σ}
    (storable : ∀ call, step = .call call → call.IsStorable) :
    IsInLine ((pool.usedKey? pool.policy step).toList ++ uses) (pool.afterStep step) := by
  cases step with
  | start | cleanup => exact .of_nil rfl
  | storage change => exact inLine.shorten (.refl _)
  | call call =>
    cases given : pool.residents with
    | none =>
      -- Every call fails and leaves the buffer without entries.
      obtain ⟨same, -⟩ := afterCall_of_uninitialized given call
      refine .of_nil ?_
      rw [afterStep, same, entries, given]
      rfl
    | some residents =>
      have sound := (accounted.residents residents given).toIsSound
      cases call with
      | write key block => exact inLine.write given sound (storable _ rfl) key
      | read key => exact inLine.read given key
      | delete key =>
        have left := delete_line given sound key
        refine inLine.shorten ?_
        rw [afterStep, afterCall, left, entries_eq given]
        exact residents.others_sublist key

theorem steps (accounted : pool.IsAccounted limit maxEntryBytes) {steps : List (BufferStep σ)}
    (storable : ∀ call, .call call ∈ steps → call.IsStorable) :
    IsInLine (usesAfter pool.policy uses pool steps) (pool.afterSteps steps) := by
  induction steps generalizing pool uses with
  | nil => exact inLine
  | cons step steps ih =>
    have here : ∀ call, step = .call call → call.IsStorable :=
      fun call same => storable call (same ▸ List.mem_cons_self ..)
    have later := ih (inLine.step accounted here) (afterStep_isAccounted accounted step)
      fun call member => storable call (List.mem_cons_of_mem _ member)
    rwa [policy_afterStep accounted] at later

end IsInLine

/-- However a buffer is used, its entries stand in the order of their last uses; under the policy
that does not count reads, no read changes them. Writing a block within the limits takes the
shortest part from the front of the line of all other keys, stores it and puts the block
at the end, provided that the storage takes the line; so an entry that goes was used longer ago
than any that stays. -/
theorem evicts_longest_unused [Quantity α] (settings : BufferSettings α) (memory : Nat)
    (storage : σ) (steps : List (BufferStep σ))
    (storable : ∀ call, .call call ∈ steps → call.IsStorable) :
    let start := new settings memory storage
    let pool := start.afterSteps steps
    let uses := usesAfter settings.policy [] start steps
    InOrderOfUse uses pool.entries ∧
      (settings.policy = .fifo → ∀ key, (pool.afterCall (.read key)).entries = pool.entries) ∧
      ∀ residents, pool.residents = some residents → ∀ key block,
        block.encodedSize ≤ settings.limit memory →
        block.encodedSize ≤ settings.maxEntryBytes →
        let line := residents.others key
        BlockStorage.Takes pool.storage line → ∃ after count,
          (write key block).result pool = (.ok (), after) ∧
            IsShortest (settings.limit memory) block.encodedSize line count ∧
            after.entries = line.drop count ++ [.ofBlock key block] ∧
            after.storage = BlockStorage.storeAll pool.storage (line.take count) ∧
            ∀ victim ∈ line.take count, ∀ survivor ∈ line.drop count,
              uses.idxOf survivor.key < uses.idxOf victim.key := by
  intro start pool uses
  have initial : start.IsAccounted (settings.limit memory) settings.maxEntryBytes :=
    isAccounted_new settings memory storage
  have accounted := afterSteps_isAccounted initial steps
  have inLine : IsInLine uses pool := IsInLine.steps (.of_nil rfl) initial storable
  have policy_eq : pool.policy = settings.policy := policy_afterSteps initial steps
  refine ⟨inLine.ordered, fun written key => ?_, ?_⟩
  · apply read_eq_entries
    intro counted
    rw [policy_eq, written] at counted
    cases counted
  · intro residents given key block fits small line takes
    rw [← accounted.limit_eq] at fits ⊢
    rw [← accounted.maxEntryBytes_eq] at small
    obtain ⟨outcome, after, count, done, ⟨rfl, shortest, entries_eq, stored⟩ | ⟨-, -, refused⟩⟩ :=
      write_line given (accounted.residents residents given).toIsSound fits small key
    · refine ⟨after, count, done, shortest, entries_eq, stored, ?_⟩
      -- The victims are the front of a line that stands in the order of use.
      have ordered := inLine.ordered.order.sublist
        (BufferPool.entries_eq given ▸ residents.others_sublist key)
      rw [← List.take_append_drop count (residents.others key), List.pairwise_append] at ordered
      exact ordered.2.2
    · exact absurd takes refused

/-- A buffer with room for three entries in which the first of three blocks was read. -/
def threeCells : List (BufferStep MemoryStorage) :=
  let cell : MatrixBlock := { rows := 1, columns := 1, cells := .dense #[7] }
  [.start, .call (.write "a" cell), .call (.write "b" cell), .call (.write "c" cell),
    .call (.read "a")]

/-- A fourth block makes the second one go, which was neither written nor read for longest. -/
theorem evicts_longest_unused_threeCells :
    let cell : MatrixBlock := { rows := 1, columns := 1, cells := .dense #[7] }
    let settings : BufferSettings Rat :=
      { fraction := 1, policy := .lru, pageCache := false, maxEntryBytes := 90 }
    let pool := (new settings 90 MemoryStorage.empty).afterSteps threeCells
    usesAfter .lru [] (new settings 90 MemoryStorage.empty) threeCells = ["a", "c", "b", "a"] ∧
      InOrderOfUse ["a", "c", "b", "a"] pool.entries ∧
      ∃ after, (write "d" cell).result pool = (.ok (), after) ∧
        after.entries.map BufferEntry.key = ["c", "a", "d"] ∧
        after.storage.entries = [("b", cell.encode)] := by
  intro cell settings pool
  have storable : ∀ call, .call call ∈ threeCells → call.IsStorable := by
    intro call member
    simp only [threeCells, List.mem_cons, reduceCtorEq, BufferStep.call.injEq, List.not_mem_nil,
      or_false, false_or] at member
    obtain rfl | rfl | rfl | rfl := member <;> decide
  have used : usesAfter .lru [] (new settings 90 MemoryStorage.empty) threeCells =
      ["a", "c", "b", "a"] := by decide +kernel
  have given : pool.residents = some
      { entries := [.ofBlock "b" cell, .ofBlock "c" cell, .ofBlock "a" cell], size := 84 } := by
    decide +kernel
  obtain ⟨ordered, -, evicts⟩ :=
    evicts_longest_unused settings 90 MemoryStorage.empty threeCells storable
  have takes := BlockStorage.takes_of_accepts (fun (_ : MemoryStorage) _ _ => rfl) pool.storage
  obtain ⟨after, count, done, shortest, entries_eq, stored, -⟩ :=
    evicts _ given "d" cell (by decide +kernel) (by decide) (takes _)
  -- Spilling one of the three cells makes room for the new one, and spilling none does not.
  obtain rfl : count = 1 := by
    have enough := (shortest.room_iff 1).mp (by decide +kernel)
    have needed := mt (shortest.room_iff 0).mpr (by decide +kernel)
    omega
  refine ⟨used, used ▸ ordered, after, done, ?_, ?_⟩
  · rw [entries_eq]
    decide +kernel
  · rw [stored]
    decide +kernel

end BufferPool

end ParallelLoop
