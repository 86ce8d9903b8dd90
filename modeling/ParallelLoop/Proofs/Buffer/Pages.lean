/-
# Kept pages do not show

A write buffer may keep the pages of removed entries and store new blocks in them. Such a page
still has the bytes of an older block, so it has to be shown that these come out nowhere. A page
is emptied before a block is stored in it; that is the one place where what a page held could
matter. Every other step of an operation does the same when the pages are forgotten first. Hence
a buffer that keeps pages runs in lockstep with one that does not, whatever is called and however
the storage fails (`keeping_pages_does_not_show`).

The pages themselves stay in order: `PageCache.IsSound` says that each lies in the bucket of its
own length and that there are no more buckets and pages than there have to be.
-/

import ParallelLoop.Proofs.Buffer.Accounting

namespace ParallelLoop

/-! ## Buckets -/

namespace PageCache

variable {cache : PageCache} {length : Nat} {pages : List Page}

/-- A bucket for pages of this length. -/
structure IsBucket (length : Nat) (pages : List Page) : Prop where
  length_ne_zero : length ≠ 0
  nonempty : pages ≠ []
  le_bucketLimit : pages.length ≤ bucketLimit
  length_eq : ∀ page ∈ pages, page.length = length

/-- There is at most one bucket for each length, and it has some pages, all of this length. -/
structure IsSound (cache : PageCache) : Prop where
  nodup : (cache.buckets.map Prod.fst).Nodup
  isBucket : ∀ bucket ∈ cache.buckets, IsBucket bucket.1 bucket.2

theorem isSound_empty : empty.IsSound := ⟨List.nodup_nil, fun _ member => nomatch member⟩

theorem isBucket_pages (sound : cache.IsSound) (some : cache.pages length ≠ []) :
    IsBucket length (cache.pages length) := by
  unfold pages at some ⊢
  cases found : cache.buckets.lookup length with
  | none => simp [found] at some
  | some pages =>
    obtain ⟨before, after, split, -⟩ := List.lookup_eq_some_iff.mp found
    apply sound.isBucket (length, pages)
    simp [split]

theorem IsSound.setPages (sound : cache.IsSound) (bucket : pages ≠ [] → IsBucket length pages) :
    (cache.setPages length pages).IsSound := by
  have nodup : ((cache.buckets.filter fun bucket => bucket.1 != length).map Prod.fst).Nodup :=
    sound.nodup.sublist (List.filter_sublist.map _)
  have others : ∀ bucket ∈ cache.buckets.filter fun bucket => bucket.1 != length,
      IsBucket bucket.1 bucket.2 :=
    fun bucket member => sound.isBucket bucket (List.mem_of_mem_filter member)
  unfold PageCache.setPages
  cases pages with
  | nil => exact ⟨nodup, others⟩
  | cons page rest =>
    refine ⟨List.nodup_cons.mpr ⟨?_, nodup⟩, List.forall_mem_cons.mpr ⟨bucket nofun, others⟩⟩
    simp

theorem IsSound.take (sound : cache.IsSound) (length : Nat) : (cache.take length).2.IsSound := by
  unfold PageCache.take
  cases found : cache.pages length with
  | nil => exact sound
  | cons page rest =>
    have bucket : IsBucket length (page :: rest) := found ▸ isBucket_pages sound (by simp [found])
    apply sound.setPages
    intro nonempty
    exact
      { length_ne_zero := bucket.length_ne_zero
        nonempty
        le_bucketLimit := Nat.le_of_succ_le bucket.le_bucketLimit
        length_eq := fun other member => bucket.length_eq other (List.mem_cons_of_mem _ member) }

theorem IsSound.put (sound : cache.IsSound) (page : Page) : (cache.put page).IsSound := by
  unfold PageCache.put
  dsimp only
  split
  next => exact sound
  next room =>
    rw [not_or, Nat.not_le] at room
    apply sound.setPages
    intro nonempty
    exact
      { length_ne_zero := room.1
        nonempty
        le_bucketLimit := room.2
        length_eq := by
          intro other member
          obtain rfl | member := List.mem_cons.mp member
          · rfl
          · exact (isBucket_pages sound (List.ne_nil_of_mem member)).length_eq other member }

end PageCache

namespace BufferPool

variable {σ α β : Type} {pool : BufferPool σ}

/-- The buffer keeps pages, and they are in order. -/
def HasSoundPages (pool : BufferPool σ) : Prop := ∃ pages, pool.pages = some pages ∧ pages.IsSound

/-- The buffer without its pages, which keeps none from then on. -/
def withoutPages (pool : BufferPool σ) : BufferPool σ := { pool with pages := none }

theorem HasSoundPages.change (sound : pool.HasSoundPages) {change : PageCache → PageCache}
    (kept : ∀ pages : PageCache, pages.IsSound → (change pages).IsSound) {after : BufferPool σ}
    (changed : after.pages = pool.pages.map change) : after.HasSoundPages := by
  obtain ⟨pages, given, inOrder⟩ := sound
  refine ⟨change pages, ?_, kept pages inOrder⟩
  rw [changed, given, Option.map_some]

/-! ## Steps of the operations -/

/-- The operation does not look at the pages, and it keeps them in order. -/
structure HidesPages (operation : Operation σ α) : Prop where
  ignores : operation.Ignores withoutPages
  keeps : operation.Respects (Change.Maintains HasSoundPages)

namespace HidesPages

variable {operation : Operation σ α}

theorem outcome_eq (hides : HidesPages operation) (pool : BufferPool σ) :
    (operation.result pool.withoutPages).1 = (operation.result pool).1 := by
  rw [hides.ignores]

theorem after_eq (hides : HidesPages operation) (pool : BufferPool σ) :
    (operation.result pool.withoutPages).2 = (operation.result pool).2.withoutPages := by
  rw [hides.ignores]

theorem pure (value : α) : HidesPages (pure value : Operation σ α) := ⟨.pure value, .pure value⟩

theorem ofExcept (outcome : Except Error α) :
    HidesPages (Change.ofExcept outcome : Operation σ α) :=
  ⟨.ofExcept outcome, .ofExcept outcome⟩

theorem ofOutcome (outcome : Except Failure α) :
    HidesPages (Change.ofOutcome outcome : Operation σ α) :=
  ⟨.ofOutcome outcome, .ofOutcome outcome⟩

theorem initialized : HidesPages (Change.inspect initialized : Operation σ Residents) :=
  ⟨.inspect fun _ => rfl, .inspect _⟩

theorem bind {first : Operation σ α} {next : α → Operation σ β} (start : HidesPages first)
    (rest : ∀ value, HidesPages (next value)) : HidesPages (first >>= next) :=
  ⟨.bind start.ignores fun value => (rest value).ignores,
    .bind start.keeps fun value => (rest value).keeps⟩

theorem get_bind {next : BufferPool σ → Operation σ β}
    (blind : ∀ pool, next pool.withoutPages = next pool)
    (rest : ∀ pool, HidesPages (next pool)) : HidesPages (get >>= next) :=
  ⟨.get_bind blind fun pool => (rest pool).ignores, .bind .get fun pool => (rest pool).keeps⟩

theorem modify {step : BufferPool σ → BufferPool σ}
    (commutes : ∀ pool, step pool.withoutPages = (step pool).withoutPages)
    (kept : ∀ pool, pool.HasSoundPages → (step pool).HasSoundPages) :
    HidesPages (modify step : Operation σ Unit) :=
  ⟨.modify commutes, .modify kept⟩

theorem say (level : LogLevel) (text : String) : HidesPages (say level text : Operation σ Unit) :=
  .modify (fun _ => rfl) fun _ sound => sound

theorem count (change : BufferStatistics → BufferStatistics) :
    HidesPages (count change : Operation σ Unit) :=
  .modify (fun _ => rfl) fun _ sound => sound

theorem setResidents (residents : Residents) :
    HidesPages (setResidents residents : Operation σ Unit) :=
  .modify (fun _ => rfl) fun _ sound => sound

theorem reset (residents : Option Residents) : HidesPages (reset residents : Operation σ Unit) :=
  .modify (fun _ => rfl) fun _ sound => sound.change (fun _ _ => PageCache.isSound_empty) rfl

theorem recycle (entry : BufferEntry) : HidesPages (recycle entry : Operation σ Unit) :=
  .modify (fun _ => rfl) fun _ sound => sound.change (fun _ pages => pages.put _) rfl

/-- A page is taken for something that does not depend on the bytes that are still in it. -/
theorem takePage_bind {size : Nat} {next : Bytes → Operation σ β}
    (blind : ∀ page, next page = next []) (rest : HidesPages (next [])) :
    HidesPages (takePage size >>= next) := by
  constructor
  · intro pool
    rw [Change.result_bind (result_takePage size pool),
      Change.result_bind (result_takePage size pool.withoutPages), blind,
      blind (pool.pageFor size)]
    exact rest.ignores { pool with pages := pool.pages.map fun pages => (pages.take size).2 }
  · intro pool sound
    rw [Change.result_bind (result_takePage size pool), blind]
    exact rest.keeps _ (sound.change (fun _ pages => pages.take size) rfl)

theorem callStorage (key : String) (call : σ → Except StorageFault α × σ) :
    HidesPages (callStorage key call) := by
  constructor
  · intro pool
    rcases called : call pool.storage with ⟨outcome, storage⟩
    have without : call pool.withoutPages.storage = (outcome, storage) := called
    rw [result_callStorage called, result_callStorage without]
    rfl
  · intro pool sound
    rcases called : call pool.storage with ⟨outcome, storage⟩
    rw [result_callStorage called]
    exact sound

theorem removeEntry (entry : BufferEntry) : HidesPages (removeEntry entry : Operation σ Unit) := by
  apply bind initialized
  intro residents
  apply bind (ofOutcome _)
  intro rest
  exact bind (setResidents rest) fun _ => recycle entry

theorem discard (key : String) : HidesPages (discard key : Operation σ Unit) := by
  apply bind initialized
  intro residents
  cases residents.find? key with
  | none => exact pure ()
  | some entry => exact removeEntry entry

theorem loaded (key : String) (bytes : Bytes) (change : BufferStatistics → BufferStatistics) :
    HidesPages (do
      let block ← Change.ofExcept (load key bytes)
      BufferPool.count change
      return block : Operation σ MatrixBlock) :=
  bind (ofExcept _) fun block => bind (count change) fun _ => pure block

/-! ## Operations -/

theorem initializeBuffer : HidesPages (initializeBuffer : Operation σ Unit) := by
  apply bind (reset _)
  intro _
  exact get_bind (fun _ => rfl) fun pool => say _ _

theorem cleanup : HidesPages (cleanup : Operation σ Unit) := reset none

variable [BlockStorage σ]

theorem evict (needed : Nat) (entries : List BufferEntry) :
    HidesPages (evict needed entries : Operation σ Unit) := by
  -- Along the order of eviction, one entry after the other.
  induction entries with
  | nil => exact pure ()
  | cons victim rest ih =>
    apply get_bind (fun _ => rfl)
    intro pool
    split
    next => exact pure ()
    next =>
      apply bind (callStorage _ _)
      intro _
      apply bind (removeEntry victim)
      intro _
      exact bind (count _) fun _ => bind (say _ _) fun _ => ih

theorem write (key : String) (block : MatrixBlock) :
    HidesPages (write key block : Operation σ Unit) := by
  apply get_bind (fun _ => rfl)
  intro pool
  apply bind (discard key)
  intro _
  split
  next =>
    apply bind (callStorage _ _)
    intro _
    exact bind (count _) fun _ => say _ _
  next =>
    apply get_bind (fun _ => rfl)
    intro cleared
    apply bind (evict _ _)
    intro _
    apply bind initialized
    intro residents
    -- Storing the block empties the page, so it comes to the same without what the page held.
    apply takePage_bind (fun _ => rfl)
    exact bind (setResidents _) fun _ => count _

theorem read (key : String) : HidesPages (read key : Operation σ MatrixBlock) := by
  apply bind initialized
  intro residents
  cases residents.find? key with
  | none => exact bind (callStorage _ _) fun bytes => loaded key bytes _
  | some entry =>
    apply get_bind (fun _ => rfl)
    intro pool
    dsimp only
    split
    next => exact bind (setResidents _) fun _ => loaded key entry.bytes _
    next => exact loaded key entry.bytes _

theorem delete (key : String) : HidesPages (delete key : Operation σ Unit) := by
  apply bind (discard key)
  intro _
  exact bind (callStorage _ _) fun _ => pure ()

end HidesPages

/-! ## Runs -/

variable [BlockStorage σ]

/-- Steps of a buffer and of the same buffer without its pages are the same up to the pages. -/
theorem afterStep_withoutPages (pool : BufferPool σ) (step : BufferStep σ) :
    pool.withoutPages.afterStep step = (pool.afterStep step).withoutPages := by
  cases step with
  | start => exact HidesPages.initializeBuffer.after_eq pool
  | cleanup => exact HidesPages.cleanup.after_eq pool
  | storage change => rfl
  | call call =>
    cases call with
    | write key block => exact (HidesPages.write key block).after_eq pool
    | read key => exact (HidesPages.read key).after_eq pool
    | delete key => exact (HidesPages.delete key).after_eq pool

theorem afterSteps_withoutPages (pool : BufferPool σ) (steps : List (BufferStep σ)) :
    pool.withoutPages.afterSteps steps = (pool.afterSteps steps).withoutPages := by
  induction steps generalizing pool with
  | nil => rfl
  | cons step steps ih =>
    calc pool.withoutPages.afterSteps (step :: steps)
        = (pool.withoutPages.afterStep step).afterSteps steps := rfl
      _ = (pool.afterStep step).withoutPages.afterSteps steps := by
        rw [afterStep_withoutPages]
      _ = ((pool.afterStep step).afterSteps steps).withoutPages := ih _

theorem afterStep_hasSoundPages (sound : pool.HasSoundPages) (step : BufferStep σ) :
    (pool.afterStep step).HasSoundPages := by
  cases step with
  | start => exact HidesPages.initializeBuffer.keeps pool sound
  | cleanup => exact HidesPages.cleanup.keeps pool sound
  | storage change => exact sound
  | call call =>
    cases call with
    | write key block => exact (HidesPages.write key block).keeps pool sound
    | read key => exact (HidesPages.read key).keeps pool sound
    | delete key => exact (HidesPages.delete key).keeps pool sound

theorem afterSteps_hasSoundPages (sound : pool.HasSoundPages) (steps : List (BufferStep σ)) :
    (pool.afterSteps steps).HasSoundPages := by
  induction steps generalizing pool with
  | nil => exact sound
  | cons step steps ih => exact ih (afterStep_hasSoundPages sound step)

omit [BlockStorage σ] in
theorem hasSoundPages_new [Quantity α] (settings : BufferSettings α) (memory : Nat) (storage : σ) :
    (new { settings with pageCache := true } memory storage).HasSoundPages :=
  ⟨.empty, rfl, PageCache.isSound_empty⟩

/-- Nothing tells these buffers apart: no result or error of an operation, no listing, no counter,
no line of the log and nothing in the storage. -/
structure IsLike (other pool : BufferPool σ) : Prop where
  write_eq : ∀ key block, ((write key block).result other).1 = ((write key block).result pool).1
  read_eq : ∀ key, ((read key).result other).1 = ((read key).result pool).1
  delete_eq : ∀ key, ((delete key).result other).1 = ((delete key).result pool).1
  initializeBuffer_eq : (initializeBuffer.result other).1 = (initializeBuffer.result pool).1
  cleanup_eq : (cleanup.result other).1 = (cleanup.result pool).1
  status_eq : other.status = pool.status
  residents_eq : other.residents = pool.residents
  statistics_eq : other.statistics = pool.statistics
  log_eq : other.log = pool.log
  storage_eq : other.storage = pool.storage

theorem isLike_withoutPages (pool : BufferPool σ) : pool.withoutPages.IsLike pool where
  write_eq key block := (HidesPages.write key block).outcome_eq pool
  read_eq key := (HidesPages.read key).outcome_eq pool
  delete_eq key := (HidesPages.delete key).outcome_eq pool
  initializeBuffer_eq := HidesPages.initializeBuffer.outcome_eq pool
  cleanup_eq := HidesPages.cleanup.outcome_eq pool
  status_eq := rfl
  residents_eq := rfl
  statistics_eq := rfl
  log_eq := rfl
  storage_eq := rfl

/-- However a buffer is used and however its storage fails: whether or not it keeps pages cannot
be told from anything but the pages, and these are in order. -/
theorem keeping_pages_does_not_show [Quantity α] (settings : BufferSettings α) (memory : Nat)
    (storage : σ) (steps : List (BufferStep σ)) :
    let keeping := (new { settings with pageCache := true } memory storage).afterSteps steps
    let plain := (new { settings with pageCache := false } memory storage).afterSteps steps
    plain.IsLike keeping ∧ ∃ pages, keeping.pages = some pages ∧ pages.IsSound := by
  intro keeping plain
  have lockstep : plain = keeping.withoutPages :=
    afterSteps_withoutPages (new { settings with pageCache := true } memory storage) steps
  rw [lockstep]
  exact ⟨isLike_withoutPages keeping,
    afterSteps_hasSoundPages (hasSoundPages_new settings memory storage) steps⟩

/-- The page for a second block of the same size has the bytes of the first one, and the entry of
the second block does not. -/
example :
    let first : MatrixBlock := { rows := 1, columns := 1, cells := .dense #[7] }
    let second : MatrixBlock := { rows := 1, columns := 1, cells := .dense #[8] }
    let pool := (new ({ fraction := 1, policy := .fifo, pageCache := true, maxEntryBytes := 60 } :
      BufferSettings Rat) 60 MemoryStorage.empty).afterSteps
        [.start, .call (.write "a" first), .call (.delete "a")]
    pool.pageFor 28 = first.encode ∧
      (pool.afterCall (.write "b" second)).entries.map BufferEntry.bytes = [second.encode] := by
  decide +kernel

end BufferPool

end ParallelLoop
