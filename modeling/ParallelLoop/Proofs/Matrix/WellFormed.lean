/-
# Well-formed blocks

A block from a constructor has as many cells as its dimensions say, or else its cells are in
strict order, inside the block and not zero. Reading a cell relies on this: in such a block every
position can be read and every stored cell is found (`IsWellFormed.isReadable`).

Loading does not look at it. What loads is any block of which the bytes hold the stored form, and
a stored form says nothing about how the cells came to be. So what loads is well-formed exactly if
the bytes hold the stored form of a block that a constructor makes (`isWellFormed_iff_isBuilt`).
Any other block loads just as well. A dense one with too few cells then cannot be read at some
position, and one with too many has cells that no position gives.
-/

import ParallelLoop.Proofs.Matrix.Cells
import ParallelLoop.Proofs.Matrix.Encoding

namespace ParallelLoop

open SparseCell

instance (cell other : SparseCell) : Decidable (cell.Precedes other) :=
  inferInstanceAs (Decidable (_ ∨ _))

/-- One value for each position of a block of this size, or nonzero cells at increasing positions
inside it. -/
def Cells.IsWellFormed (rows columns : UInt32) : Cells → Prop
  | .dense values => values.size = rows.toNat * columns.toNat
  | .sparse entries =>
    entries.toList.Pairwise Precedes ∧ ∀ entry ∈ entries.toList, entry.Fits rows columns

instance (rows columns : UInt32) (cells : Cells) : Decidable (cells.IsWellFormed rows columns) :=
  match cells with
  | .dense _ => Nat.decEq ..
  | .sparse _ => inferInstanceAs (Decidable (_ ∧ _))

namespace MatrixBlock

/-- The cells are those of a block of this size. -/
def IsWellFormed (block : MatrixBlock) : Prop := block.cells.IsWellFormed block.rows block.columns

instance (block : MatrixBlock) : Decidable block.IsWellFormed :=
  inferInstanceAs (Decidable (block.cells.IsWellFormed _ _))

/-- The block comes from one of the two constructors. -/
def IsBuilt (block : MatrixBlock) : Prop :=
  (∃ cell, block = ofFn block.rows block.columns cell) ∨
    ∃ cells, block = sparse block.rows block.columns cells

/-- Every position can be read, and every stored cell is found at a position of the block. In a
dense block this is the position of its index. -/
structure IsReadable (block : MatrixBlock) : Prop where
  total : ∀ row column, ∃ cell, block.get row column = .ok cell
  dense : ∀ values, block.cells = .dense values → ∀ index (stored : index < values.size),
    ∃ row column, row < block.rows ∧ column < block.columns ∧
      row.toNat * block.columns.toNat + column.toNat = index ∧
      block.get row column = .ok values[index]
  sparse : ∀ entries, block.cells = .sparse entries → ∀ entry ∈ entries,
    entry.row < block.rows ∧ entry.column < block.columns ∧
      block.get entry.row entry.column = .ok entry.value

/-! ## Reading a cell -/

section Reading

variable {rows columns row column : UInt32} {values : Array CellBits}

/-- A position inside has its index below the number of positions. -/
theorem index_lt (inside : row < rows ∧ column < columns) :
    row.toNat * columns.toNat + column.toNat < rows.toNat * columns.toNat :=
  calc row.toNat * columns.toNat + column.toNat
    _ < row.toNat * columns.toNat + columns.toNat :=
      Nat.add_lt_add_left (UInt32.lt_iff_toNat_lt.mp inside.2) _
    _ = (row.toNat + 1) * columns.toNat := (Nat.succ_mul ..).symm
    _ ≤ rows.toNat * columns.toNat :=
      Nat.mul_le_mul_right _ (UInt32.lt_iff_toNat_lt.mp inside.1)

/-- Every index below the number of positions is that of a position inside. -/
theorem exists_position {index : Nat} (isIndex : index < rows.toNat * columns.toNat) :
    ∃ row column : UInt32, (row < rows ∧ column < columns) ∧
      row.toNat * columns.toNat + column.toNat = index := by
  have wide : 0 < columns.toNat := Nat.pos_of_mul_pos_left (Nat.zero_lt_of_lt isIndex)
  have inRows : index / columns.toNat < rows.toNat := Nat.div_lt_of_lt_mul (by rwa [Nat.mul_comm])
  have inColumns : index % columns.toNat < columns.toNat := Nat.mod_lt _ wide
  refine ⟨.ofNat (index / columns.toNat), .ofNat (index % columns.toNat), ?_⟩
  have row_eq := toNat_ofNat_fin ⟨_, inRows⟩
  have column_eq := toNat_ofNat_fin ⟨_, inColumns⟩
  dsimp only at row_eq column_eq
  rw [UInt32.lt_iff_toNat_lt, UInt32.lt_iff_toNat_lt, row_eq, column_eq]
  exact ⟨⟨inRows, inColumns⟩, Nat.div_add_mod' ..⟩

/-- A position cannot be read exactly if it is inside and the block stores no value for it. -/
theorem get_dense_eq_outOfBounds_iff :
    get ⟨rows, columns, .dense values⟩ row column = .error (.abort .outOfBounds) ↔
      (row < rows ∧ column < columns) ∧
        values.size ≤ row.toNat * columns.toNat + column.toNat := by
  by_cases inside : row < rows ∧ column < columns
  · rw [and_iff_right inside, ← Array.getElem?_eq_none_iff]
    cases stored : values[row.toNat * columns.toNat + column.toNat]? with
    | some cell => simp [get_dense inside stored]
    | none =>
      rw [get, if_neg fun outside => outside_iff.mp outside inside]
      simp only [stored]
  · rw [get_of_outside inside]
    simp [inside]

/-- A dense block can be read everywhere exactly if it stores enough values. -/
theorem get_dense_total_iff :
    (∀ row column, ∃ cell, get ⟨rows, columns, .dense values⟩ row column = .ok cell) ↔
      rows.toNat * columns.toNat ≤ values.size := by
  constructor
  · intro total
    by_contra short
    obtain ⟨row, column, inside, position⟩ := exists_position (Nat.lt_of_not_le short)
    obtain ⟨cell, read⟩ := total row column
    rw [get_dense_eq_outOfBounds_iff.mpr ⟨inside, position.ge⟩] at read
    cases read
  · intro enough row column
    by_cases inside : row < rows ∧ column < columns
    · have isIndex := Nat.lt_of_lt_of_le (index_lt inside) enough
      exact ⟨_, get_dense inside (Array.getElem?_eq_getElem isIndex)⟩
    · exact ⟨0, get_of_outside inside⟩

/-- Reading a dense block gives a value for every position, and every value for a position, exactly
if there are as many values as positions. -/
theorem isReadable_dense_iff :
    IsReadable ⟨rows, columns, .dense values⟩ ↔ values.size = rows.toNat * columns.toNat := by
  constructor
  · intro readable
    have enough := get_dense_total_iff.mp readable.total
    by_contra other
    obtain ⟨row, column, inRows, inColumns, position, -⟩ :=
      readable.dense values rfl (rows.toNat * columns.toNat) (by omega)
    exact Nat.ne_of_lt (index_lt ⟨inRows, inColumns⟩) position
  · intro size
    refine ⟨get_dense_total_iff.mpr size.ge, fun _ same index stored => ?_, fun _ other => by
      cases other⟩
    cases same
    obtain ⟨row, column, inside, position⟩ := exists_position (size ▸ stored)
    refine ⟨row, column, inside.1, inside.2, position, get_dense inside ?_⟩
    rw [position, Array.getElem?_eq_getElem stored]

theorem isReadable_sparse {entries : Array SparseCell}
    (ordered : entries.toList.Pairwise Precedes)
    (fits : ∀ entry ∈ entries.toList, entry.Fits rows columns) :
    IsReadable ⟨rows, columns, .sparse entries⟩ := by
  refine ⟨fun row column => ?_, fun _ other => (by cases other), fun _ same entry isEntry => ?_⟩
  · by_cases inside : row < rows ∧ column < columns
    · exact ⟨_, get_sparse inside⟩
    · exact ⟨0, get_of_outside inside⟩
  · cases same
    obtain ⟨inRows, inColumns, -⟩ := fits entry isEntry.val
    have found := (locate?_eq_some_iff (ordered.imp rank_lt_iff.mpr)).mpr ⟨isEntry, rfl⟩
    refine ⟨inRows, inColumns, ?_⟩
    rw [get_sparse ⟨inRows, inColumns⟩, found]
    rfl

/-- A well-formed block can be read at every position, and no stored cell is missed. -/
theorem IsWellFormed.isReadable {block : MatrixBlock} (wellFormed : block.IsWellFormed) :
    block.IsReadable := by
  obtain ⟨rows, columns, cells⟩ := block
  cases cells with
  | dense values => exact isReadable_dense_iff.mpr wellFormed
  | sparse entries => exact isReadable_sparse wellFormed.1 wellFormed.2

end Reading

/-! ## Constructors -/

section Constructors

variable {rows columns : UInt32}

theorem ofFn_isWellFormed (cell : (row column : Nat) → CellBits) :
    (ofFn rows columns cell).IsWellFormed := Array.size_ofFn

theorem sparse_isWellFormed (cells : List SparseCell) :
    (sparse rows columns cells).IsWellFormed := by
  rw [sparse_eq]
  exact ⟨entriesOf_pairwise.imp rank_lt_iff.mp, fun entry isEntry =>
    (mem_entriesOf_iff.mp isEntry).1⟩

/-- As many values as positions are those of the function that looks them up. -/
theorem ofFn_of_size {values : Array CellBits} (size : values.size = rows.toNat * columns.toNat) :
    ofFn rows columns (fun row column => values.getD (row * columns.toNat + column) 0) =
      ⟨rows, columns, .dense values⟩ := by
  simp only [ofFn, MatrixBlock.mk.injEq, Cells.dense.injEq, true_and]
  refine Array.ext (by rw [Array.size_ofFn, size]) fun index _ isIndex => ?_
  rw [Array.getElem_ofFn, Nat.div_add_mod', Array.getD_eq_getD_getElem?,
    Array.getElem?_eq_getElem isIndex, Option.getD_some]

/-- In strict order no cell is at the position of the next one. -/
theorem keepLast_eq_self {cells : List SparseCell}
    (ordered : cells.Pairwise fun cell other => cell.rank < other.rank) :
    keepLast cells = cells := by
  fun_induction keepLast cells with
  | case1 => rfl
  | case2 cell => rfl
  | case3 cell next rest together ih =>
    have := List.rel_of_pairwise_cons ordered (List.mem_cons_self (a := next))
    have := samePlace_iff.mp together
    omega
  | case4 cell next rest apart ih => rw [ih ordered.of_cons]

/-- Nonzero cells at increasing positions inside the block are what a constructor keeps of them. -/
theorem sparse_of_ordered {entries : Array SparseCell} (ordered : entries.toList.Pairwise Precedes)
    (fits : ∀ entry ∈ entries.toList, entry.Fits rows columns) :
    sparse rows columns entries.toList = ⟨rows, columns, .sparse entries⟩ := by
  have increasing := ordered.imp rank_lt_iff.mpr
  have sorted : entries.toList.Pairwise fun cell other => cell.notAfter other = true :=
    increasing.imp fun before => notAfter_iff.mpr (Nat.le_of_lt before)
  have kept : (entries.toList.filter fun cell => decide (cell.Fits rows columns)) =
      entries.toList :=
    List.filter_eq_self.mpr fun entry isEntry => decide_eq_true (fits entry isEntry)
  rw [sparse_eq, entriesOf, kept, List.mergeSort_of_pairwise sorted, keepLast_eq_self increasing,
    Array.toArray_toList]

/-- The constructors make the well-formed blocks and no others. -/
theorem isWellFormed_iff_isBuilt {block : MatrixBlock} : block.IsWellFormed ↔ block.IsBuilt := by
  constructor
  · intro wellFormed
    obtain ⟨rows, columns, cells⟩ := block
    cases cells with
    | dense values => exact .inl ⟨_, (ofFn_of_size wellFormed).symm⟩
    | sparse entries => exact .inr ⟨_, (sparse_of_ordered wellFormed.1 wellFormed.2).symm⟩
  · rintro (⟨cell, built⟩ | ⟨cells, built⟩)
    · exact built ▸ ofFn_isWellFormed cell
    · exact built ▸ sparse_isWellFormed cells

end Constructors

/-! ## Loading -/

/-- The bytes start with the stored form of a block from a constructor. -/
def StartsBuilt (bytes : Bytes) : Prop :=
  ∃ built : MatrixBlock, built.IsBuilt ∧ built.IsStorable ∧ built.encode <+: bytes

/-- A block loads exactly from the bytes that start with its stored form, whatever its cells are. -/
theorem decode?_eq_some_iff {bytes : Bytes} {block : MatrixBlock} :
    decode? bytes = some block ↔ block.IsStorable ∧ block.encode <+: bytes := by
  refine ⟨isPrefix_of_decode?, ?_⟩
  rintro ⟨storable, rest, rfl⟩
  exact decode?_encode_append storable rest

/-- What loads is well-formed exactly if it was stored from a block that a constructor made. -/
theorem isWellFormed_iff_startsBuilt {bytes : Bytes} {block : MatrixBlock}
    (loaded : decode? bytes = some block) : block.IsWellFormed ↔ StartsBuilt bytes := by
  rw [isWellFormed_iff_isBuilt]
  constructor
  · intro built
    exact ⟨block, built, isPrefix_of_decode? loaded⟩
  · rintro ⟨other, built, stored⟩
    have same := (decode?_eq_some_iff.mpr stored).symm.trans loaded
    exact Option.some.inj same ▸ built

end MatrixBlock

end ParallelLoop
