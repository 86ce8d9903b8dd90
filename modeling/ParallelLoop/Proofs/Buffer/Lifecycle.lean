/-
# Blocks across the lifecycles of a buffer

Initializing a buffer again, or cleaning it up, drops its entries without storing them. The keys
then show what storage has under them. For a key that was evicted and written again this is the
block that was evicted, which the later one had replaced: an older block comes back.

To say when that happens, the run is read with a `Chronicle` of each key: the blocks that were
written since the key was last deleted, and how what the key shows stands to them. Only the
steps that drop entries can part the two; from then on the key shows the newest block (storage
had that one), nothing (storage had none) or an older one. `reads_newest_iff` says of a run over a
storage that behaves as a map what every read gives, and that the third case is the only one in
which it gives a block other than the newest.
-/

import ParallelLoop.Proofs.Buffer.Refusals

namespace ParallelLoop

/-! ## The history of a key -/

/-- How what a key shows stands to the blocks that were written under it. -/
inductive Standing
  /-- It shows the newest one, or nothing if there is none. -/
  | current
  /-- It shows nothing, although there was a block. -/
  | lost
  /-- It shows a block that another one had replaced. -/
  | outdated
  deriving DecidableEq, Repr

/-- The history of a key. -/
structure Chronicle where
  /-- The blocks that were written since the key was last deleted, the newest one first. -/
  versions : List MatrixBlock
  standing : Standing
  deriving DecidableEq

namespace Chronicle

variable {σ : Type} {chronicle : Chronicle} {found : Option MatrixBlock} {block : MatrixBlock}

/-- Nothing was written. -/
def empty : Chronicle := { versions := [], standing := .current }

/-- The block that was written last, unless the key was deleted since. -/
def newest? (chronicle : Chronicle) : Option MatrixBlock := chronicle.versions.head?

/-- After a block was written. -/
def push (chronicle : Chronicle) (block : MatrixBlock) : Chronicle :=
  { versions := block :: chronicle.versions, standing := .current }

/-- After the entry, if there is one, was dropped, with what storage has. -/
def drop (chronicle : Chronicle) (entry : Option BufferEntry) (stored : Option Bytes) : Chronicle :=
  match entry, stored with
  | none, _ => chronicle
  | some _, none => { chronicle with standing := .lost }
  | some entry, some bytes =>
    if bytes = entry.bytes then chronicle else { chronicle with standing := .outdated }

/-- After a call that succeeded. -/
def apply (key : String) (chronicle : Chronicle) : BufferCall → Chronicle
  | .write name block => if key = name then chronicle.push block else chronicle
  | .delete name => if key = name then empty else chronicle
  | .read _ => chronicle

/-- The history of a key after one more step. A call that fails leaves it as it is. -/
def afterStep [BlockStorage σ] (contents : σ → String → Option Bytes) (key : String)
    (pool : BufferPool σ) (chronicle : Chronicle) : BufferPool.BufferStep σ → Chronicle
  | .start | .cleanup => chronicle.drop (pool.entry? key) (contents pool.storage key)
  | .call call => if pool.failure? call = none then chronicle.apply key call else chronicle
  | .storage _ => chronicle

/-- The history of a key after steps. -/
def afterSteps [BlockStorage σ] (contents : σ → String → Option Bytes) (key : String)
    (pool : BufferPool σ) (chronicle : Chronicle) : List (BufferPool.BufferStep σ) → Chronicle
  | [] => chronicle
  | step :: rest =>
    afterSteps contents key (pool.afterStep step) (chronicle.afterStep contents key pool step) rest

/-- With this history, a key may show this block, or none. -/
def Gives (chronicle : Chronicle) (found : Option MatrixBlock) : Prop :=
  match chronicle.standing with
  | .current => found = chronicle.newest?
  | .lost => found = none
  | .outdated => ∃ block ∈ chronicle.versions, chronicle.newest? ≠ some block ∧ found = some block

@[simp] theorem versions_drop (chronicle : Chronicle) (entry : Option BufferEntry)
    (stored : Option Bytes) : (chronicle.drop entry stored).versions = chronicle.versions := by
  unfold drop
  split
  next => rfl
  next => rfl
  next => split <;> rfl

theorem mem_of_mem_apply {key : String} {call : BufferCall}
    (member : block ∈ (chronicle.apply key call).versions) :
    block ∈ chronicle.versions ∨ call = .write key block := by
  unfold apply at member
  split at member
  next name written =>
    split at member
    next own =>
      obtain rfl | member := List.mem_cons.mp member
      · exact .inr (own ▸ rfl)
      · exact .inl member
    next => exact .inl member
  next => split at member <;> simp_all [empty]
  next => exact .inl member

theorem mem_apply_of_mem (key : String) (member : block ∈ chronicle.versions) (call : BufferCall) :
    block ∈ (chronicle.apply key call).versions ∨ call = .delete key := by
  unfold apply
  split
  next name written =>
    left
    split
    next => exact List.mem_cons_of_mem _ member
    next => exact member
  next name =>
    split
    next own => exact .inr (own ▸ rfl)
    next => exact .inl member
  next => exact .inl member

theorem standing_apply {key : String} (current : chronicle.standing = .current)
    (call : BufferCall) : (chronicle.apply key call).standing = .current := by
  unfold apply
  split
  next => split <;> simp [push, current]
  next => split <;> simp [empty, current]
  next => exact current

theorem gives_apply {blocks : String → Option MatrixBlock} {key : String}
    (gives : chronicle.Gives (blocks key)) (call : BufferCall) :
    (chronicle.apply key call).Gives (call.apply blocks key) := by
  cases call with
  | read name => exact gives
  | write name block =>
    rw [apply, BufferCall.apply, Function.update_apply]
    split
    next => rfl
    next => exact gives
  | delete name =>
    rw [apply, BufferCall.apply, Function.update_apply]
    split
    next => rfl
    next => exact gives

theorem mem_of_gives (gives : chronicle.Gives (some block)) : block ∈ chronicle.versions := by
  unfold Gives at gives
  split at gives
  next => exact List.mem_of_head? gives.symm
  next => cases gives
  next =>
    obtain ⟨older, member, -, same⟩ := gives
    exact Option.some.inj same ▸ member

/-- What is shown is the newest block, if anything is, unless it is outdated. -/
theorem shows_newest_iff (gives : chronicle.Gives found) :
    (∀ block, found = some block → chronicle.newest? = some block) ↔
      chronicle.standing ≠ .outdated := by
  unfold Gives at gives
  split at gives
  next current => simp [gives, current]
  next lost => simp [gives, lost]
  next outdated =>
    obtain ⟨older, -, replaced, rfl⟩ := gives
    simp [outdated, replaced]

end Chronicle

namespace BufferPool

variable {σ α : Type} {contents : σ → String → Option Bytes} {pool after middle : BufferPool σ}
  {residents kept : Residents} {key : String} {entry : BufferEntry}

theorem entry?_eq (given : pool.residents = some residents) (key : String) :
    pool.entry? key = residents.find? key := by
  unfold entry?
  rw [given, Option.bind_some]

theorem entry?_congr (entries : after.residents = pool.residents) (key : String) :
    after.entry? key = pool.entry? key :=
  congrArg (fun residents => residents.bind fun residents => residents.find? key) entries

theorem visible_of_present (present : pool.entry? key = some entry) :
    pool.visible contents key = some entry.bytes := by
  rw [visible, present, Option.map_some, Option.some_or]

theorem visible_of_absent (absent : pool.entry? key = none) :
    pool.visible contents key = contents pool.storage key := by
  rw [visible, absent, Option.map_none, Option.none_or]

/-- A key that shows nothing has no entry and nothing in storage. -/
theorem absent_of_visible (blank : pool.visible contents key = none) :
    pool.entry? key = none ∧ contents pool.storage key = none := by
  simpa [visible] using blank

/-! ## What is left where

Under which keys storage holds an outdated block does not follow from what the keys show. It
takes a closer look at the entries that move to storage. -/

/-- Every key has its entry and its bytes in storage as before, or it has no entry, and storage has
what the key showed. -/
def Moves (contents : σ → String → Option Bytes) (pool after : BufferPool σ) : Prop :=
  ∀ key, (after.entry? key = pool.entry? key ∧
      contents after.storage key = contents pool.storage key) ∨
    (after.entry? key = none ∧ contents after.storage key = pool.visible contents key)

namespace Moves

theorem of_same (entries : after.residents = pool.residents)
    (stored : contents after.storage = contents pool.storage) : Moves contents pool after :=
  fun key => .inl ⟨entry?_congr entries key, by rw [stored]⟩

theorem visible_eq (moves : Moves contents pool after) (key : String) :
    after.visible contents key = pool.visible contents key := by
  obtain ⟨entry_eq, stored_eq⟩ | ⟨absent, stored_eq⟩ := moves key
  · rw [visible, visible, entry_eq, stored_eq]
  · rw [visible_of_absent absent, stored_eq]

theorem trans (first : Moves contents pool middle) (second : Moves contents middle after) :
    Moves contents pool after := by
  intro key
  obtain ⟨entry_eq, stored_eq⟩ | ⟨absent, stored_eq⟩ := second key
  · obtain ⟨entry_eq', stored_eq'⟩ | ⟨absent', stored_eq'⟩ := first key
    · exact .inl ⟨entry_eq.trans entry_eq', stored_eq.trans stored_eq'⟩
    · exact .inr ⟨entry_eq.trans absent', stored_eq.trans stored_eq'⟩
  · exact .inr ⟨absent, stored_eq.trans (first.visible_eq key)⟩

end Moves

variable [BlockStorage σ]

/-- An entry that is evicted moves to storage. -/
theorem Evicts.moves {needed : Nat} {outcome : Except Failure Unit}
    (evicts : Evicts needed pool residents outcome after kept)
    (isLocal : BlockStorage.IsLocal contents) : Moves contents pool after := by
  induction evicts with
  | room => exact .of_same rfl rfl
  | refused next called => exact .of_same rfl (isLocal.write_refused called)
  | spill next called later ih =>
    refine .trans (fun key => ?_) ih
    rw [entry?_eq (residents_spilled ..), Residents.find?_drop, storage_spilled,
      isLocal.write_accepted called]
    split
    next moved =>
      -- The victim itself: storage has its bytes now.
      have found := (entry?_eq next.given _).trans next.find?_eq
      rw [moved, Function.update_self, visible_of_present found]
      exact .inr ⟨rfl, rfl⟩
    next different =>
      rw [Function.update_of_ne different]
      exact .inl ⟨(entry?_eq next.given _).symm, rfl⟩

/-- What a call leaves under a key: no entry, or what storage had; then the key has the entry that
it had, unless it was written. -/
def Leaves (contents : σ → String → Option Bytes) (pool after : BufferPool σ) (key : String)
    (written : Prop) : Prop :=
  after.entry? key = none ∨ contents after.storage key = contents pool.storage key ∧
    (after.entry? key = pool.entry? key ∨ written)

omit [BlockStorage σ] in
theorem Leaves.imp {written other : Prop} (leaves : Leaves contents pool after key written)
    (weaker : written → other) : Leaves contents pool after key other :=
  leaves.imp_right (.imp_right (.imp_right weaker))

section Calls

variable (isMap : BlockStorage.IsMap contents) (given : pool.residents = some residents)
  {name : String}
include isMap given

omit [BlockStorage σ] isMap in
/-- The key has no entry any more, and storage has what it had under all others. -/
theorem leaves_of_cleared (left : after.residents = some (residents.clear name))
    (same : ∀ other, other ≠ name → contents after.storage other = contents pool.storage other)
    (key : String) (written : Prop) : Leaves contents pool after key written := by
  rw [Leaves, entry?_eq left, Residents.find?_clear]
  split
  next => exact .inl rfl
  next apart => exact .inr ⟨same key apart, .inl (entry?_eq given key).symm⟩

/-- Entries of other keys stay or move to storage when room is made for the one that is written. -/
theorem Writes.leaves {block : MatrixBlock} {outcome : Except Failure Unit}
    (writes : Writes name block pool residents outcome after) (key : String) :
    Leaves contents pool after key (key = name) := by
  have isLocal := isMap.isLocal
  cases writes with
  | around _ called | refused _ called =>
    exact leaves_of_cleared given rfl (fun other => isLocal.write_other called) key _
  | @into spilled kept _ _ evicts pages =>
    have fresh := evicts.find?_eq_none (residents.find?_clear_self name)
    have left := evicts.residents_eq.2
    by_cases own : key = name
    · -- The key had no entry when room was made for its block, so none of it moved.
      refine .inr ⟨?_, .inr own⟩
      have shows := evicts.shown_eq isLocal name
      rw [shown_clear_self, shown, fresh] at shows
      exact own ▸ shows
    have other : (kept.add (.ofBlock name block)).find? key = kept.find? key :=
      (Residents.find?_add fresh key).trans (if_neg own)
    obtain ⟨same, stored⟩ | ⟨gone, -⟩ := evicts.moves isLocal key
    · rw [entry?_eq left, entry?_eq (residents_cleared ..), Residents.find?_clear, if_neg own]
        at same
      refine .inr ⟨stored, .inl ?_⟩
      rw [entry?_eq rfl, entry?_eq given]
      exact other.trans same
    · rw [entry?_eq left] at gone
      exact .inl (other.trans gone)
  | stuck _ _ evicts => cases evicts.eq_ok isMap

theorem Deletes.leaves {outcome : Except Failure Unit}
    (deletes : Deletes name pool residents outcome after) (key : String) :
    Leaves contents pool after key False := by
  cases deletes with
  | removed called | refused called =>
    exact leaves_of_cleared given rfl (fun other => isMap.isLocal.delete_other called) key _

theorem Reads.leaves {outcome : Except Failure MatrixBlock}
    (reads : Reads name pool residents outcome after) (key : String) :
    Leaves contents pool after key False := by
  cases reads with
  | hit found =>
    refine .inr ⟨rfl, .inl ?_⟩
    rw [entry?_eq rfl, entry?_eq given]
    exact Residents.find?_used _ found key
  | fetched _ called =>
    exact .inr ⟨congrFun (isMap.read_accepted called).2 key, .inl rfl⟩
  | refused _ called =>
    exact .inr ⟨congrFun (isMap.read_refused called).2.2 key, .inl rfl⟩

/-- What a call leaves under a key. -/
theorem Serves.leaves {call : BufferCall} {failure : Option Failure}
    (serves : Serves pool residents call failure after) (key : String) :
    Leaves contents pool after key (∃ block, call = .write key block) := by
  cases serves with
  | write how => exact (how.leaves isMap given key).imp fun own => ⟨_, by rw [own]⟩
  | read how => exact (how.leaves isMap given key).imp False.elim
  | delete how => exact (how.leaves isMap given key).imp False.elim

end Calls

/-! ## The run -/

/-- A step of the buffer's own, with a block that can be stored if it writes one. -/
def BufferStep.IsOrdinary : BufferStep σ → Prop
  | .start | .cleanup => True
  | .call request => request.IsStorable
  | .storage _ => False

/-- The buffer shows what the history of every key allows, and storage has nothing under a key but
blocks that were written under it. -/
structure Follows (contents : σ → String → Option Bytes) (pool : BufferPool σ)
    (chronicle : String → Chronicle) : Prop where
  sound : ∀ residents, pool.residents = some residents → residents.IsSound
  storable : ∀ key, ∀ block ∈ (chronicle key).versions, block.IsStorable
  stored : ∀ key bytes, contents pool.storage key = some bytes →
    ∃ block ∈ (chronicle key).versions, bytes = block.encode
  /-- An entry is never out of date. -/
  entry : ∀ key entry, pool.entry? key = some entry → (chronicle key).standing = .current
  visible : ∀ key, ∃ found, (chronicle key).Gives found ∧
    pool.visible contents key = found.map MatrixBlock.encode

omit [BlockStorage σ] in
theorem Mirrors.visible_eq {blocks : String → Option MatrixBlock}
    (mirrors : Mirrors contents pool blocks) (key : String) :
    pool.visible contents key = (blocks key).map MatrixBlock.encode := by
  obtain ⟨residents, given, -, shows⟩ := mirrors.shows
  rw [visible_eq_shown given, shows]

namespace Follows

variable {chronicle : String → Chronicle}

omit [BlockStorage σ] in
/-- An initialized buffer mirrors what the histories give. -/
theorem mirrors (follows : Follows contents pool chronicle)
    (given : pool.residents = some residents) :
    ∃ blocks, Mirrors contents pool blocks ∧ ∀ key, (chronicle key).Gives (blocks key) := by
  choose blocks shows using follows.visible
  refine ⟨blocks, ⟨⟨residents, given, follows.sound residents given, fun key => ?_⟩, ?_⟩,
    fun key => (shows key).1⟩
  · rw [← visible_eq_shown given, (shows key).2]
  · intro key block held
    apply follows.storable key block
    exact Chronicle.mem_of_gives (held ▸ (shows key).1)

omit [BlockStorage σ] in
/-- All entries are dropped, and the storage stays as it is. -/
theorem drop (follows : Follows contents pool chronicle)
    (sound : ∀ residents, after.residents = some residents → residents.IsSound)
    (cleared : ∀ key, after.entry? key = none) (same : after.storage = pool.storage) :
    Follows contents after fun key =>
      (chronicle key).drop (pool.entry? key) (contents pool.storage key) where
  sound := sound
  storable key block member := by
    rw [Chronicle.versions_drop] at member
    exact follows.storable key block member
  stored key bytes held := by
    rw [Chronicle.versions_drop]
    exact follows.stored key bytes (same ▸ held)
  entry key entry present := by
    rw [cleared key] at present
    cases present
  visible key := by
    obtain ⟨found, gives, shows⟩ := follows.visible key
    rw [visible_of_absent (cleared key), same]
    cases present : pool.entry? key with
    | none =>
      rw [visible_of_absent present] at shows
      exact ⟨found, gives, shows⟩
    | some entry =>
      -- The key showed the newest block before, and shows what storage has now.
      rw [visible_of_present present] at shows
      have current := follows.entry key entry present
      have newest : found = (chronicle key).newest? := by
        rwa [Chronicle.Gives, current] at gives
      cases held : contents pool.storage key with
      | none => exact ⟨none, rfl, rfl⟩
      | some bytes =>
        unfold Chronicle.drop
        dsimp only
        split
        next same => exact ⟨found, gives, same ▸ shows⟩
        next different =>
          obtain ⟨older, member, rfl⟩ := follows.stored key bytes held
          have replaced : (chronicle key).newest? ≠ some older := by
            intro first
            rw [newest, first] at shows
            exact different (Option.some.inj shows).symm
          exact ⟨some older, ⟨older, member, replaced, rfl⟩, rfl⟩

/-- A call over a map does to the history what it is meant to do. -/
theorem afterStep_call (follows : Follows contents pool chronicle)
    (isMap : BlockStorage.IsMap contents) (given : pool.residents = some residents)
    {call : BufferCall} (storable : call.IsStorable) (key : String) :
    (chronicle key).afterStep contents key pool (.call call) = (chronicle key).apply key call := by
  obtain ⟨blocks, mirrors, -⟩ := follows.mirrors given
  cases call with
  | write name block =>
    obtain ⟨after, done, -⟩ := write_mirrors isMap mirrors storable name
    rw [Chronicle.afterStep, failure?, done]
    rfl
  | read name => exact ite_self _
  | delete name =>
    obtain ⟨after, done, -⟩ := delete_mirrors isMap mirrors name
    rw [Chronicle.afterStep, failure?, done]
    rfl

theorem call (follows : Follows contents pool chronicle) (isMap : BlockStorage.IsMap contents)
    (given : pool.residents = some residents) {call : BufferCall} (storable : call.IsStorable) :
    Follows contents (pool.afterCall call) fun key => (chronicle key).apply key call := by
  obtain ⟨blocks, mirrors, gives⟩ := follows.mirrors given
  have mirrorsAfter := afterCall_mirrors isMap mirrors storable
  have givesAfter key := Chronicle.gives_apply (gives key) call
  have leaves := (serves given (follows.sound residents given) call).leaves isMap given
  exact
    { sound := by
        obtain ⟨kept, left, sound, -⟩ := mirrorsAfter.shows
        intro residents given
        rw [left] at given
        exact Option.some.inj given ▸ sound
      storable := by
        intro key block member
        obtain known | rfl := Chronicle.mem_of_mem_apply member
        · exact follows.storable key block known
        · exact storable
      stored := by
        intro key bytes held
        obtain absent | ⟨same, -⟩ := leaves key
        · -- The key shows what storage has, and whatever a key shows was written.
          have shows := mirrorsAfter.visible_eq key
          rw [visible_of_absent absent, held] at shows
          obtain ⟨block, given, rfl⟩ := Option.map_eq_some_iff.mp shows.symm
          exact ⟨block, Chronicle.mem_of_gives (given ▸ givesAfter key), rfl⟩
        · obtain ⟨block, member, rfl⟩ := follows.stored key bytes (same ▸ held)
          obtain known | rfl := Chronicle.mem_apply_of_mem key member call
          · exact ⟨block, known, rfl⟩
          · -- Storage has nothing under a key that was deleted.
            have shows := mirrorsAfter.visible_eq key
            rw [BufferCall.apply, Function.update_self] at shows
            rw [(absent_of_visible shows).2] at held
            cases held
      entry := by
        intro key entry present
        obtain absent | ⟨-, same | ⟨block, rfl⟩⟩ := leaves key
        · rw [absent] at present
          cases present
        · exact Chronicle.standing_apply (follows.entry key entry (same ▸ present)) call
        · rw [Chronicle.apply, if_pos rfl]
          rfl
      visible := fun key => ⟨_, givesAfter key, mirrorsAfter.visible_eq key⟩ }

/-- Every step of the buffer's own keeps the buffer and the histories together. -/
theorem step (follows : Follows contents pool chronicle) (isMap : BlockStorage.IsMap contents)
    {step : BufferStep σ} (ordinary : step.IsOrdinary) :
    Follows contents (pool.afterStep step) fun key =>
      (chronicle key).afterStep contents key pool step := by
  cases step with
  | start =>
    refine follows.drop (fun residents given => ?_) (fun _ => rfl) rfl
    obtain rfl := Option.some.inj given
    exact Residents.isSound_empty
  | cleanup => exact follows.drop (fun _ given => nomatch given) (fun _ => rfl) rfl
  | storage change => exact ordinary.elim
  | call call =>
    cases given : pool.residents with
    | none =>
      obtain ⟨unchanged, failed⟩ := afterCall_of_uninitialized given call
      simpa [afterStep, Chronicle.afterStep, unchanged, failed] using follows
    | some residents =>
      have same : (fun key => (chronicle key).afterStep contents key pool (.call call)) =
          fun key => (chronicle key).apply key call :=
        funext fun key => follows.afterStep_call isMap given ordinary key
      rw [same]
      exact follows.call isMap given ordinary

theorem steps (follows : Follows contents pool chronicle) (isMap : BlockStorage.IsMap contents)
    {steps : List (BufferStep σ)} (ordinary : ∀ step ∈ steps, step.IsOrdinary) :
    Follows contents (pool.afterSteps steps) fun key =>
      (chronicle key).afterSteps contents key pool steps := by
  induction steps generalizing pool chronicle with
  | nil => exact follows
  | cons step rest ih =>
    rw [List.forall_mem_cons] at ordinary
    exact ih (follows.step isMap ordinary.1) ordinary.2

end Follows

omit [BlockStorage σ] in
theorem follows_new [Quantity α] (settings : BufferSettings α) (memory : Nat) {storage : σ}
    (blank : contents storage = fun _ => none) :
    Follows contents (new settings memory storage) fun _ => .empty where
  sound _ given := nomatch given
  storable _ _ member := nomatch member
  stored key bytes held := by
    change contents storage key = some bytes at held
    rw [blank] at held
    cases held
  entry _ _ present := nomatch present
  visible key := ⟨none, rfl, congrFun blank key⟩

theorem Answers.eq_ok_iff {found : Option MatrixBlock} {outcome : Except Failure MatrixBlock}
    (answers : Answers key found outcome) (block : MatrixBlock) :
    outcome = .ok block ↔ found = some block := by
  unfold Answers at answers
  split at answers
  next shown => simp [answers]
  next =>
    obtain ⟨fault, rfl, -⟩ := answers
    simp

/-- However often a buffer is initialized and cleaned up over a blank storage that is a map, reading
gives what the history of the key says: the newest block, nothing, or an older block. The last is
the exact condition under which it succeeds with a block that is not the newest. -/
theorem reads_newest_iff [Quantity α] (isMap : BlockStorage.IsMap contents)
    (settings : BufferSettings α) (memory : Nat) {storage : σ}
    (blank : contents storage = fun _ => none) (steps : List (BufferStep σ))
    (ordinary : ∀ step ∈ steps, step.IsOrdinary) (key : String) :
    let start := new settings memory storage
    let pool := start.afterSteps steps
    let chronicle := Chronicle.afterSteps contents key start .empty steps
    let outcome := ((read key).result pool).1
    (pool.isInitialized = false → outcome = .error (.error .bufferNotInitialized)) ∧
      (pool.isInitialized = true → ∃ found, chronicle.Gives found ∧ Answers key found outcome) ∧
      ((∀ block, outcome = .ok block → chronicle.newest? = some block) ↔
        (pool.isInitialized = true → chronicle.standing ≠ .outdated)) := by
  intro start pool chronicle outcome
  have follows : Follows contents pool _ := (follows_new settings memory blank).steps isMap ordinary
  cases given : pool.residents with
  | none =>
    have failed : outcome = .error (.error .bufferNotInitialized) :=
      congrArg Prod.fst (result_read_none given key)
    simp [isInitialized, given, failed]
  | some residents =>
    obtain ⟨blocks, mirrors, gives⟩ := follows.mirrors given
    obtain ⟨told, after, done, answers, -⟩ := read_mirrors isMap mirrors key
    obtain rfl : outcome = told := congrArg Prod.fst done
    simp only [isInitialized, given, Option.isSome_some, reduceCtorEq, false_implies, true_implies,
      true_and]
    refine ⟨⟨blocks key, gives key, answers⟩, ?_⟩
    simp only [answers.eq_ok_iff]
    exact Chronicle.shows_newest_iff (gives key)

/-- The settings of a buffer that takes all memory. -/
def greedy : BufferSettings Rat :=
  { fraction := 1, policy := .fifo, pageCache := false, maxEntryBytes := 30 }

/-- A buffer with room for one entry over an empty storage. -/
def narrowPool : BufferPool MemoryStorage := new greedy 30 .empty

/-- The first block under "a" goes to storage to make room for "b", the second one is an entry when
the buffer is initialized again. -/
def reinitialized : List (BufferStep MemoryStorage) :=
  [.start, .call (.write "a" (cellBlock 1)), .call (.write "b" (cellBlock 9)),
    .call (.write "a" (cellBlock 2)), .start]

theorem reads_newest_iff_reinitialized :
    (∀ step ∈ reinitialized, step.IsOrdinary) ∧
      ((read "b").result (narrowPool.afterSteps reinitialized)).1 = .ok (cellBlock 9) ∧
      ∃ block, ((read "a").result (narrowPool.afterSteps reinitialized)).1 = .ok block ∧
        (Chronicle.afterSteps MemoryStorage.get? "a" narrowPool .empty reinitialized).newest? ≠
          some block := by
  have storable (key : String) (value : CellBits) :
      (BufferCall.write key (cellBlock value)).IsStorable := by
    change 1 < 2 ^ 64
    decide
  have ordinary : ∀ step ∈ reinitialized, step.IsOrdinary := by
    simp only [reinitialized, List.forall_mem_cons]
    exact ⟨trivial, storable "a" 1, storable "b" 9, storable "a" 2, trivial, nofun⟩
  have blank : MemoryStorage.get? .empty = fun _ => none := rfl
  have initialized : (narrowPool.afterSteps reinitialized).isInitialized = true := by
    decide +kernel
  have evicted : Chronicle.afterSteps MemoryStorage.get? "b" narrowPool .empty reinitialized =
      { versions := [cellBlock 9], standing := .current } := by decide +kernel
  have readmitted : (Chronicle.afterSteps MemoryStorage.get? "a" narrowPool .empty
      reinitialized).standing = .outdated := by decide +kernel
  obtain ⟨-, told, -⟩ :=
    reads_newest_iff MemoryStorage.isMap greedy 30 blank reinitialized ordinary "b"
  obtain ⟨found, gives, answers⟩ := told initialized
  change (Chronicle.afterSteps MemoryStorage.get? "b" narrowPool .empty reinitialized).Gives found
    at gives
  rw [evicted] at gives
  obtain rfl : found = some (cellBlock 9) := gives
  obtain ⟨-, -, newest⟩ :=
    reads_newest_iff MemoryStorage.isMap greedy 30 blank reinitialized ordinary "a"
  obtain ⟨older, noticed⟩ := not_forall.mp (mt newest.mp fun current => current initialized readmitted)
  obtain ⟨told, different⟩ := Classical.not_imp.mp noticed
  exact ⟨ordinary, answers, older, told, different⟩

/-- Reading gives the first block, although the second one was written after it. -/
theorem not_reads_newest :
    ((read "a").result (narrowPool.afterSteps reinitialized)).1.toOption = some (cellBlock 1) ∧
      (Chronicle.afterSteps MemoryStorage.get? "a" narrowPool .empty reinitialized).newest? =
        some (cellBlock 2) ∧
      cellBlock 1 ≠ cellBlock 2 := by
  decide +kernel

end BufferPool

end ParallelLoop
