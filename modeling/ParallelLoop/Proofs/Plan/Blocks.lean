/-
# Blocks that list blocks

Planning sees two things of a block: its kind and the blocks that it lists. A block that
replaces another one takes over its list, and the parent of the old block lists the new
one instead. The old block keeps its list, though, and the parent is the first block
that lists the old one; so what the list of a new block says about blocks that
are replaced later depends on the order of the replacements.

`Replaced` says exactly what the lists are after a chain of replacements.
-/

import Mathlib.Logic.Relation
import ParallelLoop.Proofs.Plan.Decisions

namespace ParallelLoop

namespace Program

variable {α : Type} {program other : Program α} {block : Block α} {id above below : BlockId}

/-- The blocks that a block lists. -/
def listed (program : Program α) (id : BlockId) : List BlockId :=
  (program.blocks[id.index]?.map Block.children).getD []

/-- The kind of a block, if there is one with this id. -/
def kind? (program : Program α) (id : BlockId) : Option BlockKind :=
  program.blocks[id.index]?.map Block.kind

/-- A block lists another one. -/
def Lists (program : Program α) (above below : BlockId) : Prop := below ∈ program.listed above

/-- A block contains another one in any depth, or is the same. -/
def Reaches (program : Program α) : BlockId → BlockId → Prop :=
  Relation.ReflTransGen program.Lists

theorem listed_of_shape (same : program.shape = other.shape) (id : BlockId) :
    program.listed id = other.listed id := by
  have rows := congrArg (fun shape => (shape[id.index]?.map Prod.snd).getD []) same
  simpa [shape, listed, Option.map_map, Function.comp_def] using rows

theorem kind?_of_shape (same : program.shape = other.shape) (id : BlockId) :
    program.kind? id = other.kind? id := by
  have rows := congrArg (fun shape => shape[id.index]?.map Prod.fst) same
  simpa [shape, kind?, Option.map_map, Function.comp_def] using rows

theorem lists_of_shape (same : program.shape = other.shape) : program.Lists = other.Lists := by
  funext above below
  unfold Lists
  rw [listed_of_shape same]

theorem getElem?_of_block (found : program.block id = .ok block) :
    program.blocks[id.index]? = some block := by
  unfold Program.block at found
  split at found
  next held =>
    cases found
    exact held
  next => cases found

theorem block_of_getElem? {block : Block α}
    (held : program.blocks[id.index]? = some block) : program.block id = .ok block := by
  rw [Program.block, held]

theorem block_of_getElem?_none (absent : program.blocks[id.index]? = none) :
    program.block id = .error (.blockMissing id) := by
  rw [Program.block, absent]

theorem getElem?_of_block_error {cause : Error}
    (missing : program.block id = .error cause) :
    program.blocks[id.index]? = none ∧ cause = .blockMissing id := by
  cases held : program.blocks[id.index]? with
  | some block =>
    rw [block_of_getElem? held] at missing
    cases missing
  | none =>
    rw [block_of_getElem?_none held] at missing
    cases missing
    exact ⟨rfl, rfl⟩

/-- A view of a block is found in the view of the blocks. -/
theorem map_block {γ : Type} (program : Program α) (view : Block α → γ) (id : BlockId) :
    (program.block id).map view =
      match (program.blocks.map view)[id.index]? with
      | some shown => .ok shown
      | none => .error (.blockMissing id) := by
  rw [Program.block, Array.getElem?_map]
  cases program.blocks[id.index]? <;> rfl

theorem listed_of_block (found : program.block id = .ok block) :
    program.listed id = block.children := by
  rw [listed, getElem?_of_block found]
  rfl

theorem kind?_of_block (found : program.block id = .ok block) :
    program.kind? id = some block.kind := by
  rw [kind?, getElem?_of_block found]
  rfl

theorem index_lt_of_kind? {kind : BlockKind} (found : program.kind? id = some kind) :
    id.index < program.blocks.size := by
  obtain ⟨block, held, -⟩ := Option.map_eq_some_iff.mp found
  exact (Array.getElem?_eq_some_iff.mp held).1

/-- A block that is there already is not the one that is added next. -/
theorem ne_nextBlock (inside : id.index < program.blocks.size) : id ≠ program.nextBlock := by
  rintro rfl
  exact Nat.lt_irrefl _ inside

theorem index_lt_of_lists (lists : program.Lists above below) :
    above.index < program.blocks.size := by
  by_contra outside
  have none : program.blocks[above.index]? = none := Array.getElem?_eq_none (Nat.not_lt.mp outside)
  unfold Lists listed at lists
  rw [none] at lists
  cases lists

/-- Every block that is listed is there. -/
def IsClosed (program : Program α) : Prop :=
  ∀ above below, program.Lists above below → below.index < program.blocks.size

theorem isClosed_of_all (all : ∀ block ∈ program.blocks.toList, ∀ child ∈ block.children,
    child.index < program.blocks.size) : program.IsClosed := by
  intro above below lists
  unfold Lists listed at lists
  cases held : program.blocks[above.index]? with
  | none =>
    rw [held] at lists
    cases lists
  | some block =>
    rw [held] at lists
    exact all block (Array.mem_toList_iff.mpr (Array.mem_of_getElem? held)) below lists

/-- A block that is not there yet is not listed. -/
theorem IsClosed.unlisted (closed : program.IsClosed) (above : BlockId) :
    ¬ program.Lists above program.nextBlock := by
  intro lists
  exact Nat.lt_irrefl _ (closed above _ lists)

theorem IsClosed.of_shape (same : other.shape = program.shape) (closed : program.IsClosed) :
    other.IsClosed := by
  have sizes := congrArg Array.size same
  unfold shape at sizes
  rw [Array.size_map, Array.size_map] at sizes
  unfold IsClosed
  rw [lists_of_shape same, sizes]
  exact closed

/-! ## Adding and changing blocks -/

theorem getElem?_addBlock (program : Program α) (block : Block α) (id : BlockId) :
    (program.addBlock block).blocks[id.index]? =
      if id = program.nextBlock then some block else program.blocks[id.index]? := by
  rw [addBlock, Array.getElem?_push]
  by_cases next : id = program.nextBlock
  · have same : id.index = program.blocks.size := congrArg BlockId.index next
    rw [if_pos next, if_pos same]
  · rw [if_neg next, if_neg]
    intro same
    exact next (congrArg BlockId.mk same)

theorem listed_addBlock (program : Program α) (block : Block α) (id : BlockId) :
    (program.addBlock block).listed id =
      if id = program.nextBlock then block.children else program.listed id := by
  unfold listed
  rw [getElem?_addBlock]
  split <;> rfl

theorem kind?_addBlock (program : Program α) (block : Block α) (id : BlockId) :
    (program.addBlock block).kind? id =
      if id = program.nextBlock then some block.kind else program.kind? id := by
  unfold kind?
  rw [getElem?_addBlock]
  split <;> rfl

theorem getElem?_modifyBlock (program : Program α) (id : BlockId) (change : Block α → Block α)
    (other : BlockId) :
    (program.modifyBlock id change).blocks[other.index]? =
      if other = id then program.blocks[id.index]?.map change
      else program.blocks[other.index]? := by
  rw [modifyBlock, Array.getElem?_modify]
  by_cases here : other = id
  · rw [if_pos here, if_pos (congrArg BlockId.index here.symm), here]
  · rw [if_neg here, if_neg]
    intro same
    exact here (congrArg BlockId.mk same.symm)

/-- A change that leaves the block as it is. -/
theorem modifyBlock_eq_self {change : Block α → Block α}
    (found : program.blocks[id.index]? = some block) (same : change block = block) :
    program.modifyBlock id change = program := by
  have blocks : program.blocks.modify id.index change = program.blocks := by
    apply Array.ext_getElem?
    intro index
    rw [Array.getElem?_modify]
    split
    next here => rw [← here, found, Option.map_some, same]
    next => rfl
  rw [modifyBlock, blocks]

/-- The blocks after one was added and another one changed. -/
theorem block_addBlock_modifyBlock {held : Block α} (found : program.block id = .ok held)
    (change : Block α → Block α) (other : BlockId) :
    ((program.addBlock block).modifyBlock id change).block other =
      if other = id then .ok (change held)
      else if other = program.nextBlock then .ok block else program.block other := by
  have different := ne_nextBlock (index_lt_of_kind? (kind?_of_block found))
  unfold Program.block
  rw [getElem?_modifyBlock, getElem?_addBlock, getElem?_addBlock, if_neg different,
    getElem?_of_block found]
  by_cases here : other = id
  · rw [if_pos here, if_pos here]
    rfl
  · rw [if_neg here, if_neg here]
    by_cases fresh : other = program.nextBlock
    · rw [if_pos fresh, if_pos fresh]
    · rw [if_neg fresh, if_neg fresh]

theorem kind?_modifyBlock {change : Block α → Block α}
    (same : ∀ block, (change block).kind = block.kind)
    (program : Program α) (id other : BlockId) :
    (program.modifyBlock id change).kind? other = program.kind? other := by
  unfold kind?
  rw [getElem?_modifyBlock]
  split
  next here =>
    rw [here]
    cases program.blocks[id.index]? with
    | none => rfl
    | some block => exact congrArg some (same block)
  next => rfl

/-- A change of what one block lists. -/
theorem listed_modifyBlock {change : Block α → Block α} {rename : BlockId → BlockId}
    (renamed : ∀ block, (change block).children = block.children.map rename)
    (program : Program α) (id other : BlockId) :
    (program.modifyBlock id change).listed other =
      if other = id then (program.listed id).map rename else program.listed other := by
  unfold listed
  rw [getElem?_modifyBlock]
  split
  next =>
    cases program.blocks[id.index]? with
    | none => rfl
    | some block => exact renamed block
  next => rfl

/-- The operators after one of them was changed. -/
theorem hop_modifyHop (program : Program α) (id : HopId) (change : Hop α → Hop α) (other : HopId) :
    (program.modifyHop id change).hop other =
      if other = id then (program.hop other).map change else program.hop other := by
  unfold Program.hop
  rw [modifyHop, Array.getElem?_modify]
  by_cases here : other = id
  · rw [if_pos here, if_pos (congrArg HopId.index here.symm)]
    cases program.hops[other.index]? <;> rfl
  · rw [if_neg here, if_neg fun same => here (congrArg HopId.mk same.symm)]

/-! ## Replacing blocks -/

/-- The parent of a block is the first one that lists it. -/
theorem parentOf?_eq_some (lists : program.Lists above below)
    (first : ∀ earlier, program.Lists earlier below → above.index ≤ earlier.index) :
    program.parentOf? below = some above := by
  have inside := index_lt_of_lists lists
  have lists_iff (position : Nat) (bound : position < program.blocks.size) :
      program.Lists ⟨position⟩ below ↔ program.blocks[position].children.contains below = true := by
    unfold Lists listed
    rw [Array.getElem?_eq_getElem bound, List.contains_iff_mem]
    rfl
  -- The search goes along the blocks and stops at the first one.
  have found : program.blocks.findIdx? (fun block => block.children.contains below) =
      some above.index := by
    rw [Array.findIdx?_eq_some_iff_getElem]
    refine ⟨inside, (lists_iff above.index inside).mp lists, ?_⟩
    intro position earlier listed
    have bound := Nat.lt_trans earlier inside
    exact Nat.not_le.mpr earlier (first ⟨position⟩ ((lists_iff position bound).mpr listed))
  rw [parentOf?, found]
  rfl

theorem getElem?_replaceBlock (program : Program α) (old : BlockId) (replacement : Block α)
    (id : BlockId) :
    (program.replaceBlock old replacement).blocks[id.index]? =
      ((program.addBlock replacement).blocks[id.index]?).map fun block =>
        if program.parentOf? old = some id then
          { block with
            children := block.children.map fun child =>
              if child = old then program.nextBlock else child }
        else block := by
  unfold replaceBlock
  dsimp only
  cases program.parentOf? old with
  | none => simp
  | some parent =>
    dsimp only
    rw [getElem?_modifyBlock]
    by_cases here : id = parent
    · simp [here]
    · simp [here, Ne.symm here]

theorem listed_replaceBlock {parent : BlockId} (found : program.parentOf? below = some parent)
    (inside : parent ≠ program.nextBlock) (replacement : Block α) (id : BlockId) :
    (program.replaceBlock below replacement).listed id =
      if id = parent then
        (program.listed parent).map fun child => if child = below then program.nextBlock else child
      else if id = program.nextBlock then replacement.children else program.listed id := by
  unfold replaceBlock
  dsimp only
  rw [found]
  dsimp only
  rw [listed_modifyBlock (fun _ => rfl), listed_addBlock, listed_addBlock, if_neg inside]

theorem kind?_replaceBlock (replacement : Block α) (id : BlockId) :
    (program.replaceBlock below replacement).kind? id =
      if id = program.nextBlock then some replacement.kind else program.kind? id := by
  unfold replaceBlock
  dsimp only
  split
  next => exact kind?_addBlock program replacement id
  next =>
    rw [kind?_modifyBlock]
    · exact kind?_addBlock program replacement id
    · exact fun _ => rfl

theorem size_replaceBlock (replacement : Block α) :
    (program.replaceBlock below replacement).blocks.size = program.blocks.size + 1 := by
  unfold replaceBlock
  dsimp only
  split
  next => exact Array.size_push ..
  next => rw [modifyBlock, Array.size_modify, addBlock, Array.size_push]

/-! ## Chains of replacements -/

/-- What stands for a block when these were replaced one after the other: for each of them the block
that was added for it. -/
def renamed (base : Program α) (olds : List BlockId) (id : BlockId) : BlockId :=
  if id ∈ olds then ⟨base.blocks.size + olds.idxOf id⟩ else id

variable {base : Program α} {olds : List BlockId} {old parent : BlockId}

theorem renamed_of_not_mem (absent : id ∉ olds) : base.renamed olds id = id := if_neg absent

theorem renamed_of_getElem? {position : Nat} (distinct : olds.Nodup)
    (held : olds[position]? = some id) :
    base.renamed olds id = ⟨base.blocks.size + position⟩ := by
  obtain ⟨bound, rfl⟩ := List.getElem?_eq_some_iff.mp held
  rw [renamed, if_pos (List.getElem_mem bound), distinct.idxOf_getElem]

/-- The blocks that were there before stand for themselves only. -/
theorem not_mem_of_renamed_lt (inside : (base.renamed olds id).index < base.blocks.size) :
    id ∉ olds := by
  intro replaced
  rw [renamed, if_pos replaced] at inside
  exact Nat.not_lt.mpr (Nat.le_add_right ..) inside

theorem eq_of_renamed_eq (inside : old.index < base.blocks.size)
    (same : base.renamed olds id = old) : id = old := by
  have kept : id ∉ olds := not_mem_of_renamed_lt (same ▸ inside)
  rwa [renamed_of_not_mem kept] at same

/-- One more replacement. -/
theorem renamed_append (base : Program α) (fresh : old ∉ olds)
    (inside : old.index < base.blocks.size) (id : BlockId) :
    base.renamed (olds ++ [old]) id =
      if base.renamed olds id = old then ⟨base.blocks.size + olds.length⟩
      else base.renamed olds id := by
  -- A block that is replaced now stood for itself up to here.
  by_cases here : id = old
  · rw [here, renamed_of_not_mem fresh, if_pos rfl, renamed, List.idxOf_append, if_neg fresh]
    simp
  · rw [if_neg fun same => here (eq_of_renamed_eq inside same)]
    unfold renamed
    by_cases earlier : id ∈ olds
    · rw [if_pos earlier, if_pos (List.mem_append_left _ earlier), List.idxOf_append,
        if_pos earlier]
    · rw [if_neg earlier, if_neg]
      simpa [here] using earlier

/-- These blocks were replaced one after the other by sequential loops with their lists. -/
structure Replaced (base : Program α) (olds : List BlockId) (program : Program α) : Prop where
  size_eq : program.blocks.size = base.blocks.size + olds.length
  listed_old : ∀ id, id.index < base.blocks.size →
    program.listed id = (base.listed id).map (base.renamed olds)
  kind_old : ∀ id, id.index < base.blocks.size → program.kind? id = base.kind? id
  /-- The list of a new block was taken over before the block itself and those after it were
  replaced. -/
  listed_fresh : ∀ position old, olds[position]? = some old →
    program.listed ⟨base.blocks.size + position⟩ =
      (base.listed old).map (base.renamed (olds.take position))
  kind_fresh : ∀ position, position < olds.length →
    program.kind? ⟨base.blocks.size + position⟩ = some .for

theorem replaced_nil (base : Program α) : Replaced base [] base where
  size_eq := rfl
  listed_old id _ := by
    have same : base.renamed [] = fun id => id := by
      funext id
      exact renamed_of_not_mem List.not_mem_nil
    rw [same, List.map_id']
  kind_old _ _ := rfl
  listed_fresh position old held := by cases held
  kind_fresh position bound := absurd bound (Nat.not_lt_zero position)

namespace Replaced

/-- A block that was not replaced has the parent that it had before. -/
theorem parentOf?_eq (replaced : Replaced base olds program) (fresh : old ∉ olds)
    (inside : old.index < base.blocks.size) (lists : base.Lists parent old)
    (only : ∀ other, base.Lists other old → other = parent) :
    program.parentOf? old = some parent := by
  have parentInside := index_lt_of_lists lists
  apply parentOf?_eq_some
  · unfold Lists
    rw [replaced.listed_old parent parentInside]
    exact List.mem_map.mpr ⟨old, lists, renamed_of_not_mem fresh⟩
  · intro earlier listsToo
    by_cases earlierInside : earlier.index < base.blocks.size
    · unfold Lists at listsToo
      rw [replaced.listed_old earlier earlierInside] at listsToo
      obtain ⟨child, there, child_eq⟩ := List.mem_map.mp listsToo
      obtain rfl := eq_of_renamed_eq inside child_eq
      exact Nat.le_of_eq (congrArg BlockId.index (only earlier there).symm)
    · -- New blocks come after all old ones.
      exact Nat.le_trans (Nat.le_of_lt parentInside) (Nat.not_lt.mp earlierInside)

theorem nextBlock_eq (replaced : Replaced base olds program) :
    program.nextBlock = ⟨base.blocks.size + olds.length⟩ := by
  rw [nextBlock, replaced.size_eq]

theorem ne_next (replaced : Replaced base olds program) {id : BlockId}
    (bound : id.index < base.blocks.size + olds.length) : id ≠ program.nextBlock :=
  ne_nextBlock (replaced.size_eq ▸ bound)

section

variable (replaced : Replaced base olds program) (fresh : old ∉ olds)
  (inside : old.index < base.blocks.size) (lists : base.Lists parent old)
  (only : ∀ other, base.Lists other old → other = parent) (replacement : Block α)

include replaced fresh inside lists only

/-- The lists after one more replacement: only the parent of the block knows of it. -/
theorem listed_replaceBlock_eq (id : BlockId) :
    (program.replaceBlock old replacement).listed id =
      if id = parent then
        (program.listed parent).map fun child => if child = old then program.nextBlock else child
      else if id = program.nextBlock then replacement.children
      else program.listed id := by
  have parentInside := index_lt_of_lists lists
  have found := replaced.parentOf?_eq fresh inside lists only
  have notNext := replaced.ne_next (Nat.lt_of_lt_of_le parentInside (Nat.le_add_right ..))
  exact listed_replaceBlock found notNext replacement id

/-- Among the old blocks only the parent lists the replaced one, so a new name shows there only. -/
theorem listed_old_append {id : BlockId} (idInside : id.index < base.blocks.size) :
    (program.replaceBlock old replacement).listed id =
      (base.listed id).map (base.renamed (olds ++ [old])) := by
  have after := renamed_append base fresh inside
  have notNext := replaced.ne_next (Nat.lt_of_lt_of_le idInside (Nat.le_add_right ..))
  rw [replaced.listed_replaceBlock_eq fresh inside lists only]
  by_cases here : id = parent
  · rw [if_pos here, ← here, replaced.listed_old id idInside, List.map_map]
    apply List.map_congr_left
    intro child _
    rw [after, replaced.nextBlock_eq]
    rfl
  · rw [if_neg here, if_neg notNext, replaced.listed_old id idInside]
    apply List.map_congr_left
    intro child there
    rw [after, if_neg]
    intro same
    exact here (only id (eq_of_renamed_eq inside same ▸ there))

/-- The new block takes over the list as it is at this moment, and the earlier ones keep theirs. -/
theorem listed_fresh_append (body : replacement.children = program.listed old) {position : Nat}
    {other : BlockId} (held : (olds ++ [old])[position]? = some other) :
    (program.replaceBlock old replacement).listed ⟨base.blocks.size + position⟩ =
      (base.listed other).map (base.renamed ((olds ++ [old]).take position)) := by
  have notParent : (⟨base.blocks.size + position⟩ : BlockId) ≠ parent := by
    rintro rfl
    exact Nat.not_lt.mpr (Nat.le_add_right ..) (index_lt_of_lists lists)
  rw [replaced.listed_replaceBlock_eq fresh inside lists only, if_neg notParent]
  by_cases earlier : position < olds.length
  · rw [List.getElem?_append_left earlier] at held
    rw [if_neg (replaced.ne_next (Nat.add_lt_add_left earlier _)),
      replaced.listed_fresh position other held,
      List.take_append_of_le_length (Nat.le_of_lt earlier)]
  · have last : position = olds.length := by
      have bound := (List.getElem?_eq_some_iff.mp held).1
      rw [List.length_append, List.length_singleton] at bound
      omega
    rw [last, List.getElem?_concat_length] at held
    obtain rfl := Option.some.inj held
    rw [last, if_pos replaced.nextBlock_eq.symm, body, replaced.listed_old old inside,
      List.take_left]

end

/-- Replacing one more block, which has a single parent. -/
theorem append (replaced : Replaced base olds program) (fresh : old ∉ olds)
    (inside : old.index < base.blocks.size) (lists : base.Lists parent old)
    (only : ∀ other, base.Lists other old → other = parent) {replacement : Block α}
    (sequential : replacement.kind = .for) (body : replacement.children = program.listed old) :
    Replaced base (olds ++ [old]) (program.replaceBlock old replacement) where
  size_eq := by
    rw [size_replaceBlock, replaced.size_eq, List.length_append]
    rfl
  listed_old _ idInside := replaced.listed_old_append fresh inside lists only replacement idInside
  kind_old id idInside := by
    have notNext := replaced.ne_next (Nat.lt_of_lt_of_le idInside (Nat.le_add_right ..))
    rw [kind?_replaceBlock, if_neg notNext, replaced.kind_old id idInside]
  listed_fresh _ _ held :=
    replaced.listed_fresh_append fresh inside lists only replacement body held
  kind_fresh position bound := by
    rw [kind?_replaceBlock]
    by_cases earlier : position < olds.length
    · rw [if_neg (replaced.ne_next (Nat.add_lt_add_left earlier _)),
        replaced.kind_fresh position earlier]
    · have last : position = olds.length := by
        rw [List.length_append, List.length_singleton] at bound
        omega
      rw [last, if_pos replaced.nextBlock_eq.symm, sequential]

end Replaced

end Program

end ParallelLoop
