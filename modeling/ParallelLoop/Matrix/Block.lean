/-
# Matrix blocks

A matrix block holds the cells of a rectangle, either all of them row by row or only
the nonzero ones with their positions. A cell is a floating point number, kept as its
64 bits, so that storing and loading it changes nothing.
-/

import ParallelLoop.Error

namespace ParallelLoop

/-- The bits of a floating point number. -/
abbrev CellBits := UInt64

/-- The cell is zero, with either sign. -/
def isZeroCell (cell : CellBits) : Bool := cell <<< 1 == 0

/-- A cell of a sparse block and its position. -/
structure SparseCell where
  row : UInt32
  column : UInt32
  value : CellBits
  deriving DecidableEq, Repr

namespace SparseCell

/-- Order of positions, by row first. -/
def compareTo (cell : SparseCell) (row column : UInt32) : Ordering :=
  (compare cell.row row).then (compare cell.column column)

/-- The cell does not come after the other. -/
def notAfter (cell other : SparseCell) : Bool :=
  cell.compareTo other.row other.column != .gt

/-- The cells have the same position. -/
def samePlace (cell other : SparseCell) : Bool :=
  cell.row == other.row && cell.column == other.column

end SparseCell

/-- The cells of a block. -/
inductive Cells
  /-- All cells, row by row. -/
  | dense (values : Array CellBits)
  /-- The nonzero cells in the order of their positions. -/
  | sparse (entries : Array SparseCell)
  deriving DecidableEq, Repr

/-- A rectangle of cells. -/
structure MatrixBlock where
  rows : UInt32
  columns : UInt32
  cells : Cells
  deriving DecidableEq, Repr

namespace MatrixBlock

/-- The dense block with these cells. -/
def ofFn (rows columns : UInt32) (cell : (row column : Nat) → CellBits) : MatrixBlock :=
  let width := columns.toNat
  { rows, columns
    cells := .dense (Array.ofFn fun index : Fin (rows.toNat * width) =>
      cell (index / width) (index % width)) }

/-- The dense block with these cells, if memory can hold all of them. -/
def tabulate (rows columns : UInt32) (cell : (row column : Nat) → CellBits) :
    Except Failure MatrixBlock := do
  allocate (8 * (rows.toNat * columns.toNat))
  return ofFn rows columns cell

/-- The dense block of zeros. -/
def zeros (rows columns : UInt32) : Except Failure MatrixBlock :=
  tabulate rows columns fun _ _ => 0

/-- Of neighbouring cells with the same position, only the last one. -/
def keepLast : List SparseCell → List SparseCell
  | [] => []
  | [cell] => [cell]
  | cell :: next :: rest =>
    if cell.samePlace next then keepLast (next :: rest) else cell :: keepLast (next :: rest)

/-- The sparse block with these cells. Zeros and cells outside the block are left out; of several
cells with the same position the last one counts. -/
def sparse (rows columns : UInt32) (cells : List SparseCell) : MatrixBlock :=
  let kept := cells.filter fun cell =>
    cell.row < rows && cell.column < columns && !isZeroCell cell.value
  { rows, columns, cells := .sparse (keepLast (kept.mergeSort SparseCell.notAfter)).toArray }

/-- Only the nonzero cells are stored. -/
def isSparse (block : MatrixBlock) : Bool :=
  match block.cells with
  | .dense _ => false
  | .sparse _ => true

/-- Narrows a search among `count` entries from `start` on down to one of them: the last one that
does not come after the position, if the entries are in order. -/
def narrow (entries : Array SparseCell) (row column : UInt32) (start count : Nat) : Nat :=
  if 1 < count then
    let half := count / 2
    let middle := start + half
    let after := entries[middle]?.any fun entry => entry.compareTo row column == .gt
    narrow entries row column (if after then start else middle) (count - half)
  else start
termination_by count
decreasing_by omega

/-- The entry at a position, found by halving. -/
def locate? (entries : Array SparseCell) (row column : UInt32) : Option SparseCell :=
  entries[narrow entries row column 0 entries.size]?.filter fun entry =>
    entry.compareTo row column == .eq

/-- The cell at a position; zero outside the block. -/
def get (block : MatrixBlock) (row column : UInt32) : Except Failure CellBits :=
  if block.rows ≤ row ∨ block.columns ≤ column then .ok 0
  else
    match block.cells with
    | .dense values =>
      match values[row.toNat * block.columns.toNat + column.toNat]? with
      | some cell => .ok cell
      | none => .error (.abort .outOfBounds)
    | .sparse entries => .ok (((locate? entries row column).map SparseCell.value).getD 0)

/-- Number of cells that are not zero. -/
def nonzeros (block : MatrixBlock) : Nat :=
  match block.cells with
  | .dense values => values.countP fun cell => !isZeroCell cell
  | .sparse entries => entries.size

end MatrixBlock

end ParallelLoop
