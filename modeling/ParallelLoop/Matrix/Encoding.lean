/-
# The stored form of matrix blocks

A block is stored as its dimensions, a tag for its layout, the number of its cells and
the cells. Dimensions, tag and positions are words of four bytes, the number of cells
and the bits of a cell are words of eight. Loading ignores bytes that follow a block.
-/

import ParallelLoop.Bytes
import ParallelLoop.Matrix.Block

namespace ParallelLoop.MatrixBlock

/-- Bytes before the cells. -/
def headerSize : Nat := 20

/-- Number of bytes of the stored form. -/
def encodedSize (block : MatrixBlock) : Nat :=
  match block.cells with
  | .dense values => headerSize + 8 * values.size
  | .sparse entries => headerSize + 16 * entries.size

/-- The stored form of what precedes the cells. -/
def encodeHeader (rows columns : UInt32) (tag count : Nat) : Bytes :=
  Bytes.ofWord 4 rows.toNat ++ Bytes.ofWord 4 columns.toNat ++ Bytes.ofWord 4 tag ++
    Bytes.ofWord 8 count

/-- The stored form of a cell of a dense block. -/
def encodeCell (cell : CellBits) : Bytes := Bytes.ofWord 8 cell.toNat

/-- The stored form of a cell of a sparse block. -/
def encodeEntry (entry : SparseCell) : Bytes :=
  Bytes.ofWord 4 entry.row.toNat ++ Bytes.ofWord 4 entry.column.toNat ++ encodeCell entry.value

/-- The stored form of a block. -/
def encode (block : MatrixBlock) : Bytes :=
  match block.cells with
  | .dense values =>
    encodeHeader block.rows block.columns 0 values.size ++ values.toList.flatMap encodeCell
  | .sparse entries =>
    encodeHeader block.rows block.columns 1 entries.size ++ entries.toList.flatMap encodeEntry

/-- The bytes of a buffer after a block was stored in it. The buffer is emptied first, so the
bytes that it held before are not in front of the block. -/
def encodeInto (block : MatrixBlock) (buffer : Bytes) : Bytes := buffer.take 0 ++ block.encode

/-- Reads a word of four bytes. -/
def readPosition? (bytes : Bytes) : Option (UInt32 × Bytes) :=
  (Bytes.readWord? 4 bytes).map fun (value, rest) => (UInt32.ofNat value, rest)

/-- Reads a cell of a dense block. -/
def readCell? (bytes : Bytes) : Option (CellBits × Bytes) :=
  (Bytes.readWord? 8 bytes).map fun (value, rest) => (UInt64.ofNat value, rest)

/-- Reads a cell of a sparse block. -/
def readEntry? (bytes : Bytes) : Option (SparseCell × Bytes) := do
  let (row, bytes) ← readPosition? bytes
  let (column, bytes) ← readPosition? bytes
  let (value, bytes) ← readCell? bytes
  return ({ row, column, value }, bytes)

/-- Reads so many items, one after the other, behind those already read. -/
def readMany? {α : Type} (read : Bytes → Option (α × Bytes)) (done : Array α) :
    (count : Nat) → Bytes → Option (Array α × Bytes)
  | 0, bytes => some (done, bytes)
  | count + 1, bytes =>
    match read bytes with
    | none => none
    | some (item, rest) => readMany? read (done.push item) count rest

/-- Reads a block. Nothing but the form is checked. -/
def decode? (bytes : Bytes) : Option MatrixBlock := do
  let (rows, bytes) ← readPosition? bytes
  let (columns, bytes) ← readPosition? bytes
  let (tag, bytes) ← Bytes.readWord? 4 bytes
  let cells ← match tag with
    | 0 => do
      let (count, bytes) ← Bytes.readWord? 8 bytes
      let (values, _) ← readMany? readCell? #[] count bytes
      pure (Cells.dense values)
    | 1 => do
      let (count, bytes) ← Bytes.readWord? 8 bytes
      let (entries, _) ← readMany? readEntry? #[] count bytes
      pure (Cells.sparse entries)
    | _ => none
  return { rows, columns, cells }

end ParallelLoop.MatrixBlock
