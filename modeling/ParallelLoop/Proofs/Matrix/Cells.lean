/-
# What a sparse block says

A sparse block is built from cells in any order, of which several may have one position. The
cells are sorted by position without changing the order of those that share one, so the last of
these is still the last one, and it is the one that stays. What stays is in strict order, and
halving then finds the entry at a position if there is one.

So a sparse block holds the last nonzero cell at each of its positions, and nothing else
(`MatrixBlock.Holds`). Built from all cells of a table, in whatever order, it reads as the dense
block of that table (`MatrixBlock.ReadsAs`); only the sign of a zero is lost, since no zero is
stored.
-/

import Mathlib.Algebra.Group.Nat.Defs
import Mathlib.Data.Finset.Card
import Mathlib.Data.List.OfFn
import ParallelLoop.Matrix.Block

namespace ParallelLoop

/-! ## Order of positions -/

/-- Number of a position when the largest block is counted row by row. -/
def rankOf (row column : UInt32) : Nat := 2 ^ 32 * row.toNat + column.toNat

theorem rankOf_inj {row row' column column' : UInt32} :
    rankOf row column = rankOf row' column' ↔ row = row' ∧ column = column' := by
  have := column.toNat_lt
  have := column'.toNat_lt
  simp only [rankOf, ← UInt32.toNat_inj]
  omega

namespace SparseCell

/-- The cell comes before the other, by row first. -/
def Precedes (cell other : SparseCell) : Prop :=
  cell.row < other.row ∨ cell.row = other.row ∧ cell.column < other.column

/-- Row and column of a cell. -/
def position (cell : SparseCell) : UInt32 × UInt32 := (cell.row, cell.column)

/-- Number of the cell's position. -/
def rank (cell : SparseCell) : Nat := rankOf cell.row cell.column

/-- The cell lies inside a block of this size and is not zero. -/
def Fits (rows columns : UInt32) (cell : SparseCell) : Prop :=
  cell.row < rows ∧ cell.column < columns ∧ isZeroCell cell.value = false

instance (rows columns : UInt32) (cell : SparseCell) : Decidable (cell.Fits rows columns) :=
  inferInstanceAs (Decidable (_ ∧ _ ∧ _))

theorem rank_eq_rankOf_iff {cell : SparseCell} {row column : UInt32} :
    cell.rank = rankOf row column ↔ cell.position = (row, column) := by
  simp [rank, position, rankOf_inj]

theorem rank_eq_iff {cell other : SparseCell} :
    cell.rank = other.rank ↔ cell.position = other.position :=
  rank_eq_rankOf_iff

theorem rank_lt_iff {cell other : SparseCell} : cell.rank < other.rank ↔ cell.Precedes other := by
  have := cell.column.toNat_lt
  have := other.column.toNat_lt
  simp only [rank, rankOf, Precedes, UInt32.lt_iff_toNat_lt, ← UInt32.toNat_inj]
  omega

/-- In strict order no position comes twice. -/
theorem nodup_position {cells : List SparseCell}
    (ordered : cells.Pairwise fun cell other => cell.rank < other.rank) :
    (cells.map position).Nodup := by
  refine List.pairwise_map.mpr (ordered.imp fun before same => ?_)
  exact Nat.ne_of_lt before (rank_eq_iff.mpr same)

theorem compareTo_eq (cell : SparseCell) (row column : UInt32) :
    cell.compareTo row column = compare cell.rank (rankOf row column) := by
  have := cell.column.toNat_lt
  have := column.toNat_lt
  have word (left right : UInt32) : compare left right = compare left.toNat right.toNat := by
    simp only [compare, compareOfLessAndEq, UInt32.lt_iff_toNat_lt, ← UInt32.toNat_inj]
  rw [compareTo, word, word, rank, rankOf, rankOf]
  rcases Nat.lt_trichotomy cell.row.toNat row.toNat with before | same | after
  · rw [Nat.compare_eq_lt.mpr before, Ordering.lt_then]
    exact (Nat.compare_eq_lt.mpr (by omega)).symm
  · rw [same, Nat.compare_eq_eq.mpr rfl, Ordering.eq_then]
    simp only [compare, compareOfLessAndEq, Nat.add_lt_add_iff_left, Nat.add_left_cancel_iff]
  · rw [Nat.compare_eq_gt.mpr after, Ordering.gt_then]
    exact (Nat.compare_eq_gt.mpr (by omega)).symm

@[simp] theorem notAfter_iff {cell other : SparseCell} :
    cell.notAfter other = true ↔ cell.rank ≤ other.rank := by
  rw [notAfter, compareTo_eq, bne_iff_ne, Ne, Nat.compare_eq_gt, Nat.not_lt, rank, rank]

theorem notAfter_trans (cell other third : SparseCell) :
    cell.notAfter other = true → other.notAfter third = true → cell.notAfter third = true := by
  simpa using Nat.le_trans

theorem notAfter_total (cell other : SparseCell) :
    (cell.notAfter other || other.notAfter cell) = true := by
  simpa using Nat.le_total cell.rank other.rank

@[simp] theorem samePlace_iff {cell other : SparseCell} :
    cell.samePlace other = true ↔ cell.rank = other.rank := by
  simp [samePlace, rank, rankOf_inj]

end SparseCell

namespace MatrixBlock

open SparseCell

/-- The last cell at a position that is not zero. -/
def lastNonzero? (cells : List SparseCell) (row column : UInt32) : Option SparseCell :=
  (cells.filter fun cell => cell.position == (row, column) && !isZeroCell cell.value).getLast?

theorem of_lastNonzero? {cells : List SparseCell} {row column : UInt32} {cell : SparseCell}
    (last : lastNonzero? cells row column = some cell) :
    cell ∈ cells ∧ cell.position = (row, column) ∧ isZeroCell cell.value = false := by
  have isLast := List.mem_of_getLast? last
  simpa only [List.mem_filter, Bool.and_eq_true, beq_iff_eq, Bool.not_eq_eq_eq_not,
    Bool.not_true] using isLast

theorem lastNonzero?_isSome {cells : List SparseCell} {cell : SparseCell} (isCell : cell ∈ cells)
    (nonzero : isZeroCell cell.value = false) :
    ∃ last, lastNonzero? cells cell.row cell.column = some last := by
  refine Option.ne_none_iff_exists'.mp fun none => ?_
  have empty := List.getLast?_eq_none_iff.mp none
  have := List.filter_eq_nil_iff.mp empty cell isCell
  simp [position, nonzero] at this

/-! ## Cells that stay -/

/-- Sorting does not change the order of the cells at one position. -/
theorem filter_mergeSort (cells : List SparseCell) (place : Nat) :
    (cells.mergeSort notAfter).filter (fun cell => cell.rank == place) =
      cells.filter (fun cell => cell.rank == place) := by
  have tied : (cells.filter fun cell => cell.rank == place).Pairwise fun cell other =>
      cell.notAfter other = true := by
    refine List.pairwise_of_forall_mem_list fun cell here other there => ?_
    simp only [List.mem_filter, beq_iff_eq] at here there
    rw [notAfter_iff, here.2, there.2]
  have inOrder : (cells.filter fun cell => cell.rank == place).Sublist
      (cells.mergeSort notAfter) :=
    List.sublist_mergeSort notAfter_trans notAfter_total tied List.filter_sublist
  have within := inOrder.filter fun cell => cell.rank == place
  rw [List.filter_filter] at within
  simp only [Bool.and_self] at within
  exact (within.eq_of_length ((List.mergeSort_perm ..).symm.filter _).length_eq).symm

theorem keepLast_sublist (cells : List SparseCell) : (keepLast cells).Sublist cells := by
  fun_induction keepLast cells with
  | case1 => exact .slnil
  | case2 cell => exact .refl [cell]
  | case3 cell next rest _ ih => exact ih.cons cell
  | case4 cell next rest _ ih => exact ih.cons_cons cell

/-- A cell that is not at the position of the next one is before all that follow. -/
theorem rank_lt_of_not_samePlace {cell next other : SparseCell} {rest : List SparseCell}
    (sorted : (cell :: next :: rest).Pairwise fun cell other => cell.rank ≤ other.rank)
    (apart : ¬cell.samePlace next = true) (later : other ∈ next :: rest) :
    cell.rank < other.rank := by
  rw [samePlace_iff] at apart
  obtain ⟨first, tail⟩ := List.pairwise_cons.mp sorted
  have := first next List.mem_cons_self
  have : next.rank ≤ other.rank := by
    rcases List.mem_cons.mp later with rfl | later
    · exact Nat.le_refl _
    · exact List.rel_of_pairwise_cons tail later
  omega

theorem keepLast_pairwise {cells : List SparseCell}
    (sorted : cells.Pairwise fun cell other => cell.rank ≤ other.rank) :
    (keepLast cells).Pairwise fun cell other => cell.rank < other.rank := by
  fun_induction keepLast cells with
  | case1 => exact .nil
  | case2 cell => exact List.pairwise_singleton ..
  | case3 cell next rest _ ih => exact ih sorted.of_cons
  | case4 cell next rest apart ih =>
    refine List.pairwise_cons.mpr ⟨fun other kept => ?_, ih sorted.of_cons⟩
    exact rank_lt_of_not_samePlace sorted apart ((keepLast_sublist _).subset kept)

/-- Of sorted cells, those stay that are the last ones at their positions. -/
theorem mem_keepLast_iff {cells : List SparseCell}
    (sorted : cells.Pairwise fun cell other => cell.rank ≤ other.rank) (entry : SparseCell) :
    entry ∈ keepLast cells ↔
      (cells.filter fun cell => cell.rank == entry.rank).getLast? = some entry := by
  fun_induction keepLast cells with
  | case1 => simp
  | case2 cell =>
    by_cases same : cell.rank = entry.rank
    · simp [same, eq_comm]
    · have : entry ≠ cell := fun equal => same (by rw [equal])
      simp [same, this]
  | case3 cell next rest together ih =>
    -- The first of two cells of one place is passed over.
    rw [ih sorted.of_cons]
    rw [samePlace_iff] at together
    by_cases same : next.rank = entry.rank
    · simp [together, same, List.getLast?_cons_cons]
    · simp [together, same]
  | case4 cell next rest apart ih =>
    rw [List.mem_cons, ih sorted.of_cons]
    by_cases same : cell.rank = entry.rank
    · -- The cells are sorted, so none of the later ones has the place of this one.
      have gone : ((next :: rest).filter fun cell => cell.rank == entry.rank) = [] := by
        refine List.filter_eq_nil_iff.mpr fun other later => ?_
        have := rank_lt_of_not_samePlace sorted apart later
        simp only [beq_iff_eq]
        omega
      rw [gone]
      simp [List.filter_cons_of_pos, gone, same, eq_comm]
    · rw [List.filter_cons (x := cell), if_neg (by simpa using same)]
      exact or_iff_right fun equal => same (by rw [equal])

/-! ## Finding an entry -/

/-- Of two entries in strict order, the one before the other has the smaller position. -/
theorem rank_lt_rank_iff {entries : Array SparseCell}
    (ordered : entries.toList.Pairwise fun cell other => cell.rank < other.rank)
    {index other : Nat} (isEntry : index < entries.size) (isOther : other < entries.size) :
    entries[index].rank < entries[other].rank ↔ index < other := by
  have increasing := List.pairwise_iff_getElem.mp ordered
  simp only [Array.getElem_toList, Array.length_toList] at increasing
  rcases Nat.lt_trichotomy index other with before | rfl | behind
  · exact iff_of_true (increasing index other isEntry isOther before) before
  · exact iff_of_false (Nat.lt_irrefl _) (Nat.lt_irrefl _)
  · have := increasing other index isOther isEntry behind
    omega

/-- Halving leads to the entry at the position. -/
theorem narrow_eq {entries : Array SparseCell}
    (ordered : entries.toList.Pairwise fun cell other => cell.rank < other.rank)
    {row column : UInt32} {index start count : Nat} (isEntry : index < entries.size)
    (found : entries[index].rank = rankOf row column) (within : start + count ≤ entries.size)
    (low : start ≤ index) (high : index < start + count) :
    narrow entries row column start count = index := by
  -- The index of the entry stays in the part that is searched, until this part is nothing else.
  fun_induction narrow entries row column start count with
  | case1 start count several half middle after ih =>
    have inside : middle < entries.size := by omega
    have side : after = true ↔ index < middle := by
      rw [← rank_lt_rank_iff ordered isEntry inside, found]
      simp only [after, Array.getElem?_eq_getElem inside, Option.any_some, beq_iff_eq,
        compareTo_eq, Nat.compare_eq_gt]
    by_cases before : index < middle
    · rw [dif_pos (side.mpr before)] at ih
      rw [if_pos (side.mpr before)]
      exact ih (by omega) low (by omega)
    · rw [dif_neg fun isAfter => before (side.mp isAfter)] at ih
      rw [if_neg fun isAfter => before (side.mp isAfter)]
      exact ih (by omega) (by omega) (by omega)
  | case2 start count single => omega

/-- What is found is the entry at the position. -/
theorem locate?_eq_some_iff {entries : Array SparseCell}
    (ordered : entries.toList.Pairwise fun cell other => cell.rank < other.rank)
    {row column : UInt32} {entry : SparseCell} :
    locate? entries row column = some entry ↔
      entry ∈ entries ∧ entry.rank = rankOf row column := by
  simp only [locate?, Option.filter_eq_some_iff, beq_iff_eq, compareTo_eq, Nat.compare_eq_eq]
  refine ⟨fun ⟨found, here⟩ => ⟨Array.mem_of_getElem? found, here⟩, fun ⟨isEntry, here⟩ => ?_⟩
  obtain ⟨index, within, rfl⟩ := Array.getElem_of_mem isEntry
  rw [narrow_eq ordered within here (by omega) (Nat.zero_le _) (by omega),
    Array.getElem?_eq_getElem within]
  exact ⟨rfl, here⟩

/-! ## Reading a cell -/

section Reading

variable {rows columns row column : UInt32}

theorem outside_iff :
    rows ≤ row ∨ columns ≤ column ↔ ¬(row < rows ∧ column < columns) := by
  simp only [UInt32.le_iff_toNat_le, UInt32.lt_iff_toNat_lt]
  omega

theorem get_of_outside {cells : Cells} (outside : ¬(row < rows ∧ column < columns)) :
    get ⟨rows, columns, cells⟩ row column = .ok 0 := by
  rw [get, if_pos (outside_iff.mpr outside)]

theorem get_sparse {entries : Array SparseCell} (inside : row < rows ∧ column < columns) :
    get ⟨rows, columns, .sparse entries⟩ row column =
      .ok (((locate? entries row column).map value).getD 0) := by
  rw [get, if_neg fun outside => outside_iff.mp outside inside]

theorem get_dense {values : Array CellBits} {cell : CellBits}
    (inside : row < rows ∧ column < columns)
    (stored : values[row.toNat * columns.toNat + column.toNat]? = some cell) :
    get ⟨rows, columns, .dense values⟩ row column = .ok cell := by
  rw [get, if_neg fun outside => outside_iff.mp outside inside]
  simp only [stored]

end Reading

/-! ## Blocks from cells -/

/-- The entries of a sparse block with these cells. -/
def entriesOf (rows columns : UInt32) (cells : List SparseCell) : List SparseCell :=
  keepLast ((cells.filter fun cell => decide (cell.Fits rows columns)).mergeSort notAfter)

variable {rows columns : UInt32} {cells : List SparseCell}

theorem sparse_eq :
    sparse rows columns cells =
      ⟨rows, columns, .sparse (entriesOf rows columns cells).toArray⟩ := by
  have same (cell : SparseCell) :
      (cell.row < rows && cell.column < columns && !isZeroCell cell.value) =
        decide (cell.Fits rows columns) := by
    rw [Bool.eq_iff_iff, decide_eq_true_eq]
    simp [Fits, and_assoc]
  simp only [sparse, entriesOf, same]

theorem mergeSort_notAfter_pairwise (cells : List SparseCell) :
    (cells.mergeSort notAfter).Pairwise fun cell other => cell.rank ≤ other.rank := by
  have sorted : (cells.mergeSort notAfter).Pairwise fun cell other => cell.notAfter other = true :=
    List.pairwise_mergeSort notAfter_trans notAfter_total cells
  simpa using sorted

theorem entriesOf_pairwise :
    (entriesOf rows columns cells).Pairwise fun cell other => cell.rank < other.rank :=
  keepLast_pairwise (mergeSort_notAfter_pairwise _)

/-- The entry at a position is the last nonzero cell there. -/
theorem mem_entriesOf_iff {entry : SparseCell} :
    entry ∈ entriesOf rows columns cells ↔
      entry.Fits rows columns ∧ lastNonzero? cells entry.row entry.column = some entry := by
  rw [entriesOf, mem_keepLast_iff (mergeSort_notAfter_pairwise _), filter_mergeSort,
    List.filter_filter, lastNonzero?]
  by_cases fits : entry.Fits rows columns
  · -- A cell at the position of the entry is inside the block as the entry is.
    have same (cell : SparseCell) : (cell.rank == entry.rank && decide (cell.Fits rows columns)) =
        (cell.position == (entry.row, entry.column) && !isZeroCell cell.value) := by
      by_cases here : cell.position = (entry.row, entry.column)
      · obtain ⟨row, column⟩ := Prod.mk.inj here
        have rank : cell.rank = entry.rank := rank_eq_rankOf_iff.mpr here
        simp [rank, here, Fits, row, column, fits.1, fits.2.1]
      · have apart : cell.rank ≠ entry.rank := fun rank => here (rank_eq_rankOf_iff.mp rank)
        rw [beq_eq_false_iff_ne.mpr apart, beq_eq_false_iff_ne.mpr here, Bool.false_and,
          Bool.false_and]
    rw [List.filter_congr fun cell _ => same cell, and_iff_right fits]
  · refine iff_of_false (fun last => fits ?_) fun kept => fits kept.1
    have isKept := List.mem_of_getLast? last
    simp only [List.mem_filter, Bool.and_eq_true, decide_eq_true_eq] at isKept
    exact isKept.2.2

/-- What is read inside the block is the last nonzero cell at the position. -/
theorem locate?_entriesOf {row column : UInt32} (inside : row < rows ∧ column < columns) :
    locate? (entriesOf rows columns cells).toArray row column = lastNonzero? cells row column := by
  ext entry
  rw [locate?_eq_some_iff (by simpa using entriesOf_pairwise), List.mem_toArray,
    mem_entriesOf_iff, rank_eq_rankOf_iff]
  constructor
  · rintro ⟨⟨-, last⟩, here⟩
    obtain ⟨rfl, rfl⟩ := Prod.mk.inj here
    exact last
  · intro last
    obtain ⟨-, here, nonzero⟩ := of_lastNonzero? last
    obtain ⟨rfl, rfl⟩ := Prod.mk.inj here
    exact ⟨⟨⟨inside.1, inside.2, nonzero⟩, last⟩, here⟩

/-- The positions at which something stays are those of the nonzero cells inside the block. -/
theorem toFinset_position_entriesOf :
    ((entriesOf rows columns cells).map position).toFinset =
      ((cells.filter fun cell => decide (cell.Fits rows columns)).map position).toFinset := by
  ext place
  simp only [List.mem_toFinset, List.mem_map, List.mem_filter, decide_eq_true_eq]
  constructor
  · rintro ⟨entry, isEntry, rfl⟩
    obtain ⟨fits, last⟩ := mem_entriesOf_iff.mp isEntry
    exact ⟨entry, ⟨(of_lastNonzero? last).1, fits⟩, rfl⟩
  · rintro ⟨cell, ⟨isCell, fits⟩, rfl⟩
    obtain ⟨last, isLast⟩ := lastNonzero?_isSome isCell fits.2.2
    obtain ⟨-, here, nonzero⟩ := of_lastNonzero? isLast
    obtain ⟨row, column⟩ := Prod.mk.inj here
    refine ⟨last, mem_entriesOf_iff.mpr ⟨⟨row ▸ fits.1, column ▸ fits.2.1, nonzero⟩, ?_⟩, here⟩
    rw [row, column, isLast]

/-- A sparse block has as many entries as there are positions of nonzero cells inside it. -/
theorem length_entriesOf :
    (entriesOf rows columns cells).length =
      ((cells.filter fun cell => decide (cell.Fits rows columns)).map position).toFinset.card := by
  rw [← toFinset_position_entriesOf,
    List.toFinset_card_of_nodup (nodup_position entriesOf_pairwise), List.length_map]

/-- The last nonzero one of the cells at each position inside is what a block with this many rows
and columns holds, in the order of the positions, and nothing else. -/
structure Holds (block : MatrixBlock) (rows columns : UInt32) (cells : List SparseCell) :
    Prop where
  rows_eq : block.rows = rows
  columns_eq : block.columns = columns
  ordered : ∃ entries, block.cells = .sparse entries ∧ entries.toList.Pairwise Precedes ∧
    ∀ entry ∈ entries, entry.row < rows ∧ entry.column < columns ∧ isZeroCell entry.value = false
  get_eq : ∀ row column, block.get row column = .ok
    (if row < rows ∧ column < columns then
      ((lastNonzero? cells row column).map SparseCell.value).getD 0
    else 0)
  nonzeros_eq : block.nonzeros =
    ((cells.filter fun cell => decide (cell.Fits rows columns)).map position).toFinset.card

theorem sparse_holds (rows columns : UInt32) (cells : List SparseCell) :
    (sparse rows columns cells).Holds rows columns cells := by
  rw [sparse_eq]
  refine ⟨rfl, rfl, ⟨_, rfl, entriesOf_pairwise.imp rank_lt_iff.mp, fun entry isEntry => ?_⟩,
    fun row column => ?_, length_entriesOf⟩
  · exact (mem_entriesOf_iff.mp (List.mem_toArray.mp isEntry)).1
  · by_cases inside : row < rows ∧ column < columns
    · rw [if_pos inside, get_sparse inside, locate?_entriesOf inside]
    · rw [if_neg inside, get_of_outside inside]

/-! ## Blocks from tables -/

/-- All cells of a table, row by row. -/
def table (rows columns : UInt32) (cell : (row column : Nat) → CellBits) : List SparseCell :=
  (List.ofFn fun row : Fin rows.toNat => List.ofFn fun column : Fin columns.toNat =>
    (⟨.ofNat row, .ofNat column, cell row column⟩ : SparseCell)).flatten

variable {cell : (row column : Nat) → CellBits}

theorem toNat_ofNat_fin {count : UInt32} (index : Fin count.toNat) :
    (UInt32.ofNat index).toNat = index :=
  UInt32.toNat_ofNat_of_lt' (Nat.lt_trans index.isLt count.toNat_lt)

theorem mem_table_iff {entry : SparseCell} :
    entry ∈ table rows columns cell ↔ entry.row < rows ∧ entry.column < columns ∧
      entry.value = cell entry.row.toNat entry.column.toNat := by
  simp only [table, List.mem_flatten, List.mem_ofFn, UInt32.lt_iff_toNat_lt]
  constructor
  · rintro ⟨_, ⟨row, rfl⟩, isCell⟩
    obtain ⟨column, rfl⟩ := List.mem_ofFn.mp isCell
    rw [toNat_ofNat_fin, toNat_ofNat_fin]
    exact ⟨row.isLt, column.isLt, rfl⟩
  · rintro ⟨inRows, inColumns, value⟩
    refine ⟨_, ⟨⟨_, inRows⟩, rfl⟩, List.mem_ofFn.mpr ⟨⟨_, inColumns⟩, ?_⟩⟩
    simp only [UInt32.ofNat_toNat, ← value]

theorem table_pairwise :
    (table rows columns cell).Pairwise fun cell other => cell.rank < other.rank := by
  refine List.pairwise_flatten.mpr ⟨fun line isLine => ?_, List.pairwise_ofFn.mpr ?_⟩
  · obtain ⟨row, rfl⟩ := List.mem_ofFn.mp isLine
    refine List.pairwise_ofFn.mpr fun column later before => ?_
    simp only [rank, rankOf, toNat_ofNat_fin]
    omega
  · intro row later before entry isEntry other isOther
    obtain ⟨column, rfl⟩ := List.mem_ofFn.mp isEntry
    obtain ⟨otherColumn, rfl⟩ := List.mem_ofFn.mp isOther
    have := columns.toNat_lt
    simp only [rank, rankOf, toNat_ofNat_fin]
    omega

theorem index_div {row column width : Nat} (inside : column < width) :
    (row * width + column) / width = row := by
  rw [Nat.mul_comm, Nat.mul_add_div (Nat.zero_lt_of_lt inside), Nat.div_eq_of_lt inside,
    Nat.add_zero]

/-- A dense block has the values of the table in the same order. -/
theorem toList_ofFn :
    (Array.ofFn fun index : Fin (rows.toNat * columns.toNat) =>
      cell (index / columns.toNat) (index % columns.toNat)).toList =
      (table rows columns cell).map value := by
  rw [Array.toList_ofFn, List.ofFn_mul, table, List.map_flatten, List.map_ofFn]
  congr 2
  funext row
  rw [Function.comp_apply, List.map_ofFn]
  congr 1
  funext column
  simp only [index_div column.isLt, Nat.mul_add_mod_of_lt column.isLt, Function.comp_apply]

/-- The cell, with a negative zero read as zero. -/
def unsignedZero (cell : CellBits) : CellBits := if isZeroCell cell then 0 else cell

/-- The block is the other one cell by cell, except that a negative zero is read as zero. -/
structure ReadsAs (block other : MatrixBlock) : Prop where
  rows_eq : block.rows = other.rows
  columns_eq : block.columns = other.columns
  nonzeros_eq : block.nonzeros = other.nonzeros
  get_eq : ∀ row column, ∃ cell,
    other.get row column = .ok cell ∧ block.get row column = .ok (unsignedZero cell)

theorem get_ofFn (row column : UInt32) :
    (ofFn rows columns cell).get row column = .ok
      (if row < rows ∧ column < columns then cell row.toNat column.toNat else 0) := by
  by_cases inside : row < rows ∧ column < columns
  · rw [if_pos inside]
    have inRows := UInt32.lt_iff_toNat_lt.mp inside.1
    have inColumns := UInt32.lt_iff_toNat_lt.mp inside.2
    have isIndex : row.toNat * columns.toNat + column.toNat < rows.toNat * columns.toNat :=
      calc row.toNat * columns.toNat + column.toNat
        _ < row.toNat * columns.toNat + columns.toNat := Nat.add_lt_add_left inColumns _
        _ = (row.toNat + 1) * columns.toNat := (Nat.succ_mul ..).symm
        _ ≤ rows.toNat * columns.toNat := Nat.mul_le_mul_right _ inRows
    refine get_dense inside ?_
    simp only [Array.getElem?_ofFn, isIndex, dif_pos, index_div inColumns,
      Nat.mul_add_mod_of_lt inColumns]
  · rw [if_neg inside]
    exact get_of_outside inside

theorem nonzeros_ofFn :
    (ofFn rows columns cell).nonzeros =
      ((table rows columns cell).filter fun entry => decide (entry.Fits rows columns)).length := by
  rw [← List.countP_eq_length_filter]
  simp only [ofFn, nonzeros, ← Array.countP_toList, toList_ofFn, List.countP_map]
  refine List.countP_congr fun entry isEntry => ?_
  obtain ⟨inRows, inColumns, -⟩ := mem_table_iff.mp isEntry
  simp [Fits, inRows, inColumns]

/-- In whatever order the cells of a table come, there is one at each position. -/
theorem lastNonzero?_of_perm (given : cells.Perm (table rows columns cell)) {row column : UInt32}
    (inside : row < rows ∧ column < columns) :
    ((lastNonzero? cells row column).map value).getD 0 =
      unsignedZero (cell row.toNat column.toNat) := by
  cases last : lastNonzero? cells row column with
  | none =>
    let entry : SparseCell := ⟨row, column, cell row.toNat column.toNat⟩
    have isEntry : entry ∈ cells := given.mem_iff.mpr (mem_table_iff.mpr ⟨inside.1, inside.2, rfl⟩)
    -- The place has an entry, so nothing is found only if that is zero.
    cases zero : isZeroCell (cell row.toNat column.toNat) with
    | true => simp [unsignedZero, zero]
    | false =>
      obtain ⟨_, found⟩ := lastNonzero?_isSome isEntry zero
      simp [entry, last] at found
  | some entry =>
    obtain ⟨isEntry, here, nonzero⟩ := of_lastNonzero? last
    obtain ⟨rfl, rfl⟩ := Prod.mk.inj here
    obtain ⟨-, -, isValue⟩ := mem_table_iff.mp (given.mem_iff.mp isEntry)
    rw [← isValue, unsignedZero, nonzero]
    rfl

/-- The sparse block of a table reads as the dense one. -/
theorem sparse_readsAs (given : cells.Perm (table rows columns cell)) :
    (sparse rows columns cells).ReadsAs (ofFn rows columns cell) := by
  obtain ⟨rows_eq, columns_eq, -, get_eq, nonzeros_eq⟩ := sparse_holds rows columns cells
  refine ⟨rows_eq, columns_eq, ?_, fun row column => ⟨_, get_ofFn row column, ?_⟩⟩
  · rw [nonzeros_eq, List.toFinset_eq_of_perm _ _ ((given.filter _).map _),
      List.toFinset_card_of_nodup (nodup_position (table_pairwise.filter _)), List.length_map,
      nonzeros_ofFn]
  · rw [get_eq]
    by_cases inside : row < rows ∧ column < columns
    · rw [if_pos inside, if_pos inside, lastNonzero?_of_perm given inside]
    · rw [if_neg inside, if_neg inside]
      rfl

/-- From whatever cells a sparse block is built, it holds the last nonzero one at each position
inside. Built from the cells of a table in any order, it reads as the dense block that the table
gives when memory can hold it. -/
theorem sparse_holds_readsAs (rows columns : UInt32) :
    (∀ cells, (sparse rows columns cells).Holds rows columns cells) ∧
      ∀ cell cells, cells.Perm (table rows columns cell) →
        (sparse rows columns cells).ReadsAs (ofFn rows columns cell) :=
  ⟨sparse_holds rows columns, fun _ _ given => sparse_readsAs given⟩

/-- Ones, with negative zeros on the diagonal. -/
def offDiagonal (row column : Nat) : CellBits :=
  if row = column then 0x8000000000000000 else 0x3FF0000000000000

theorem sparse_holds_readsAs_offDiagonal :
    tabulate 2 2 offDiagonal = .ok (ofFn 2 2 offDiagonal) ∧
    (sparse 2 2 (table 2 2 offDiagonal).reverse).ReadsAs (ofFn 2 2 offDiagonal) :=
  ⟨rfl, (sparse_holds_readsAs 2 2).2 _ _ (List.reverse_perm _)⟩

/-- A zero, a cell outside and all but the last cell at one position are left out. -/
example : sparse 4 4 [⟨2, 2, 0x3FF0000000000000⟩, ⟨0, 1, 0⟩, ⟨9, 9, 0x4008000000000000⟩,
    ⟨2, 2, 0x4014000000000000⟩] = ⟨4, 4, .sparse #[⟨2, 2, 0x4014000000000000⟩]⟩ := by
  cbv

end MatrixBlock

end ParallelLoop
