/-
# Loading what was stored

The stored form of a block has as many bytes as its size says. Every part of it is read
back from where it starts, whatever follows it, so the parts of a block can be read one
after the other. A block loads as it was stored, bit by bit, provided that its number of
cells is a word. The way back is as narrow: what loads as a block starts with the stored
form of that block, so no stored form continues another one, and none loads when it was cut
off.
-/

import Mathlib.Algebra.Group.Nat.Defs
import ParallelLoop.Matrix.Encoding

namespace ParallelLoop

/-! ## Words -/

namespace Bytes

/-- What was written is read back, whatever follows it. -/
theorem readWord?_ofWord_append (width value : Nat) (rest : Bytes) (fits : value < 256 ^ width) :
    readWord? width (ofWord width value ++ rest) = some (value, rest) := by
  induction width generalizing value with
  | zero =>
    have : value = 0 := by simpa using fits
    simp [ofWord, readWord?, this]
  | succ width ih =>
    have smaller : value / 256 < 256 ^ width := by
      rw [Nat.pow_succ] at fits
      exact Nat.div_lt_of_lt_mul (by rwa [Nat.mul_comm] at fits)
    simp only [ofWord, List.cons_append, readWord?, ih _ smaller, Option.map_some]
    have low : (UInt8.ofNat value).toNat = value % 256 := by simp
    rw [low, Nat.mod_add_div]

/-- What is read was written by the same rule. -/
theorem eq_append_of_readWord? {width value : Nat} {bytes rest : Bytes}
    (read : readWord? width bytes = some (value, rest)) :
    bytes = ofWord width value ++ rest ∧ value < 256 ^ width := by
  induction width generalizing bytes value with
  | zero =>
    simp only [readWord?, Option.some.injEq, Prod.mk.injEq] at read
    obtain ⟨rfl, rfl⟩ := read
    simp [ofWord]
  | succ width ih =>
    cases bytes with
    | nil => simp [readWord?] at read
    | cons byte tail =>
      simp only [readWord?, Option.map_eq_some_iff, Prod.mk.injEq, Prod.exists] at read
      obtain ⟨high, after, inner, rfl, rfl⟩ := read
      obtain ⟨rfl, bound⟩ := ih inner
      have small := byte.toNat_lt
      refine ⟨?_, by rw [Nat.pow_succ]; omega⟩
      -- The first byte holds what is below 256, and the bytes after it hold the rest.
      have quotient : (byte.toNat + 256 * high) / 256 = high := by omega
      have lowest : UInt8.ofNat (byte.toNat + 256 * high) = byte := by
        apply UInt8.toNat_inj.mp
        simp
      simp [ofWord, quotient, lowest]

end Bytes

/-! ## Blocks -/

namespace MatrixBlock

/-- Number of cells that are stored. -/
def storedCells (block : MatrixBlock) : Nat :=
  match block.cells with
  | .dense values => values.size
  | .sparse entries => entries.size

/-- The number of stored cells is a word, as that of every block in memory. -/
def IsStorable (block : MatrixBlock) : Prop := block.storedCells < 2 ^ 64

instance (block : MatrixBlock) : Decidable block.IsStorable := Nat.decLt ..

theorem length_encodeHeader (rows columns : UInt32) (tag count : Nat) :
    (encodeHeader rows columns tag count).length = headerSize := by
  simp [encodeHeader, headerSize]

theorem length_encodeEntry (entry : SparseCell) : (encodeEntry entry).length = 16 := by
  simp [encodeEntry, encodeCell]

/-- The size that is computed beforehand is that of the stored form. -/
theorem length_encode (block : MatrixBlock) : block.encode.length = block.encodedSize := by
  unfold encode encodedSize
  split
  next values _ => simp [length_encodeHeader, encodeCell, List.map_const', Nat.mul_comm]
  next entries _ => simp [length_encodeHeader, length_encodeEntry, List.map_const', Nat.mul_comm]

theorem readPosition?_ofWord_append (position : UInt32) (rest : Bytes) :
    readPosition? (Bytes.ofWord 4 position.toNat ++ rest) = some (position, rest) := by
  unfold readPosition?
  rw [Bytes.readWord?_ofWord_append 4 _ rest position.toNat_lt, Option.map_some]
  dsimp only
  rw [UInt32.ofNat_toNat]

theorem readCell?_encodeCell_append (cell : CellBits) (rest : Bytes) :
    readCell? (encodeCell cell ++ rest) = some (cell, rest) := by
  unfold readCell? encodeCell
  rw [Bytes.readWord?_ofWord_append 8 _ rest cell.toNat_lt, Option.map_some]
  dsimp only
  rw [UInt64.ofNat_toNat]

theorem readEntry?_encodeEntry_append (entry : SparseCell) (rest : Bytes) :
    readEntry? (encodeEntry entry ++ rest) = some (entry, rest) := by
  unfold readEntry? encodeEntry
  simp only [List.append_assoc, readPosition?_ofWord_append, readCell?_encodeCell_append,
    Option.bind_eq_bind, Option.bind_some, Option.pure_def]

/-- A sequence of items is read back when each single item is. -/
theorem readMany?_flatMap_append {α : Type} {read : Bytes → Option (α × Bytes)}
    {encode : α → Bytes}
    (single : ∀ item rest, read (encode item ++ rest) = some (item, rest))
    (done : Array α) (items : List α) (rest : Bytes) :
    readMany? read done items.length (items.flatMap encode ++ rest) =
      some (done ++ items.toArray, rest) := by
  induction items generalizing done with
  | nil => simp [readMany?]
  | cons item items ih =>
    rw [List.flatMap_cons, List.append_assoc, List.length_cons, readMany?, single]
    dsimp only
    rw [ih, List.toArray_cons, Array.push_eq_append, Array.append_assoc]

/-- A block loads as it was stored. -/
theorem decode?_encode_append {block : MatrixBlock} (storable : block.IsStorable) (rest : Bytes) :
    decode? (block.encode ++ rest) = some block := by
  obtain ⟨rows, columns, cells⟩ := block
  cases cells with
  | dense values =>
    have counted := Bytes.readWord?_ofWord_append 8 values.size
      (values.toList.flatMap encodeCell ++ rest) storable
    have cells := readMany?_flatMap_append readCell?_encodeCell_append #[] values.toList rest
    rw [Array.length_toList, Array.empty_append, Array.toArray_toList] at cells
    simp only [decode?, encode, encodeHeader, List.append_assoc, readPosition?_ofWord_append,
      Bytes.readWord?_ofWord_append 4 0 _ (by decide), counted, cells, Option.bind_eq_bind,
      Option.bind_some, Option.pure_def]
  | sparse entries =>
    have counted := Bytes.readWord?_ofWord_append 8 entries.size
      (entries.toList.flatMap encodeEntry ++ rest) storable
    have cells := readMany?_flatMap_append readEntry?_encodeEntry_append #[] entries.toList rest
    rw [Array.length_toList, Array.empty_append, Array.toArray_toList] at cells
    simp only [decode?, encode, encodeHeader, List.append_assoc, readPosition?_ofWord_append,
      Bytes.readWord?_ofWord_append 4 1 _ (by decide), counted, cells, Option.bind_eq_bind,
      Option.bind_some, Option.pure_def]

theorem decode?_encode {block : MatrixBlock} (storable : block.IsStorable) :
    decode? block.encode = some block := by
  simpa using decode?_encode_append storable []

/-! ## What loads was stored -/

theorem eq_append_of_readPosition? {bytes rest : Bytes} {position : UInt32}
    (read : readPosition? bytes = some (position, rest)) :
    bytes = Bytes.ofWord 4 position.toNat ++ rest := by
  simp only [readPosition?, Option.map_eq_some_iff, Prod.mk.injEq, Prod.exists] at read
  obtain ⟨value, _, read, rfl, rfl⟩ := read
  obtain ⟨written, bound⟩ := Bytes.eq_append_of_readWord? read
  rwa [UInt32.toNat_ofNat_of_lt' bound]

theorem eq_append_of_readCell? {bytes rest : Bytes} {cell : CellBits}
    (read : readCell? bytes = some (cell, rest)) : bytes = encodeCell cell ++ rest := by
  simp only [readCell?, Option.map_eq_some_iff, Prod.mk.injEq, Prod.exists] at read
  obtain ⟨value, _, read, rfl, rfl⟩ := read
  obtain ⟨written, bound⟩ := Bytes.eq_append_of_readWord? read
  rwa [encodeCell, UInt64.toNat_ofNat_of_lt' bound]

theorem eq_append_of_readEntry? {bytes rest : Bytes} {entry : SparseCell}
    (read : readEntry? bytes = some (entry, rest)) : bytes = encodeEntry entry ++ rest := by
  unfold readEntry? at read
  simp only [Option.bind_eq_bind, Option.bind_eq_some_iff, Prod.exists, Option.pure_def,
    Option.some.injEq, Prod.mk.injEq] at read
  obtain ⟨row, _, rowRead, column, _, columnRead, value, _, valueRead, rfl, rfl⟩ := read
  rw [eq_append_of_readPosition? rowRead, eq_append_of_readPosition? columnRead,
    eq_append_of_readCell? valueRead]
  simp only [encodeEntry, List.append_assoc]

/-- A sequence of items was written when each single item was. -/
theorem eq_append_of_readMany? {α : Type} {read : Bytes → Option (α × Bytes)} {encode : α → Bytes}
    (single : ∀ {bytes item rest}, read bytes = some (item, rest) → bytes = encode item ++ rest)
    {done items : Array α} {count : Nat} {bytes rest : Bytes}
    (found : readMany? read done count bytes = some (items, rest)) :
    ∃ more : List α, more.length = count ∧ items = done ++ more.toArray ∧
      bytes = more.flatMap encode ++ rest := by
  induction count generalizing done bytes with
  | zero =>
    simp only [readMany?, Option.some.injEq, Prod.mk.injEq] at found
    obtain ⟨rfl, rfl⟩ := found
    exact ⟨[], rfl, by simp, rfl⟩
  | succ count ih =>
    cases first : read bytes with
    | none => simp [readMany?, first] at found
    | some taken =>
      obtain ⟨item, tail⟩ := taken
      simp only [readMany?, first] at found
      obtain ⟨more, counted, rfl, written⟩ := ih found
      refine ⟨item :: more, by rw [List.length_cons, counted], ?_, ?_⟩
      · rw [List.toArray_cons, Array.push_eq_append, Array.append_assoc]
      · rw [single first, written, List.flatMap_cons, List.append_assoc]

/-- The same for a sequence that starts with its length, as the cells of a block do. -/
theorem eq_append_of_counted {α : Type} {read : Bytes → Option (α × Bytes)} {encode : α → Bytes}
    (single : ∀ {bytes item rest}, read bytes = some (item, rest) → bytes = encode item ++ rest)
    {items : Array α} {count : Nat} {bytes cells rest : Bytes}
    (counted : Bytes.readWord? 8 bytes = some (count, cells))
    (found : readMany? read #[] count cells = some (items, rest)) :
    items.size < 2 ^ 64 ∧
      bytes = Bytes.ofWord 8 items.size ++ (items.toList.flatMap encode ++ rest) := by
  obtain ⟨written, bound⟩ := Bytes.eq_append_of_readWord? counted
  obtain ⟨more, rfl, rfl, rfl⟩ := eq_append_of_readMany? single found
  simp only [Array.empty_append, List.size_toArray]
  exact ⟨bound, written⟩

/-- Whatever loads as a block starts with the stored form of that block. -/
theorem isPrefix_of_decode? {bytes : Bytes} {block : MatrixBlock}
    (loaded : decode? bytes = some block) : block.IsStorable ∧ block.encode <+: bytes := by
  simp only [decode?, Option.bind_eq_bind, Option.bind_eq_some_iff, Prod.exists,
    Option.pure_def] at loaded
  obtain ⟨rows, _, rowsRead, columns, _, columnsRead, tag, tagged, tagRead, loaded⟩ := loaded
  have header : bytes = Bytes.ofWord 4 rows.toNat ++ (Bytes.ofWord 4 columns.toNat ++
      (Bytes.ofWord 4 tag ++ tagged)) := by
    rw [eq_append_of_readPosition? rowsRead, eq_append_of_readPosition? columnsRead,
      (Bytes.eq_append_of_readWord? tagRead).1]
  -- Two tags have a layout; under any other one nothing loads.
  split at loaded
  next =>
    simp only [Option.bind_eq_some_iff, Prod.exists, Option.some.injEq] at loaded
    obtain ⟨count, _, counted, values, rest, found, cells, rfl, rfl⟩ := loaded
    obtain ⟨bound, written⟩ := eq_append_of_counted eq_append_of_readCell? counted found
    refine ⟨bound, rest, ?_⟩
    simp only [header, written, encode, encodeHeader, List.append_assoc]
  next =>
    simp only [Option.bind_eq_some_iff, Prod.exists, Option.some.injEq] at loaded
    obtain ⟨count, _, counted, entries, rest, found, cells, rfl, rfl⟩ := loaded
    obtain ⟨bound, written⟩ := eq_append_of_counted eq_append_of_readEntry? counted found
    refine ⟨bound, rest, ?_⟩
    simp only [header, written, encode, encodeHeader, List.append_assoc]
  next => simp at loaded

/-- A stored form that was cut off does not load: what loads from it would have to be the block
itself, and that takes all of its bytes. -/
theorem decode?_eq_none_of_isPrefix {block : MatrixBlock} (storable : block.IsStorable)
    {bytes : Bytes} (cut : bytes <+: block.encode) (proper : bytes ≠ block.encode) :
    decode? bytes = none := by
  cases loaded : decode? bytes with
  | none => rfl
  | some other =>
    obtain ⟨otherStorable, start⟩ := isPrefix_of_decode? loaded
    obtain ⟨rest, whole⟩ := start.trans cut
    have same : other = block := by
      have first := decode?_encode_append otherStorable rest
      rw [whole, decode?_encode storable] at first
      exact (Option.some.inj first).symm
    subst same
    exact absurd (cut.eq_of_length_le start.length_le) proper

/-- Storing and loading are inverse to each other up to the bytes that follow a block: the stored
form has the size that is computed beforehand, loads as the block it was made from whatever
follows it, is where every string of bytes starts that loads as the block, and loads only as a
whole. -/
theorem encode_isFaithful (block : MatrixBlock) :
    block.encode.length = block.encodedSize ∧
      (block.IsStorable → ∀ extra, decode? (block.encode ++ extra) = some block) ∧
      (∀ bytes, decode? bytes = some block → block.IsStorable ∧ block.encode <+: bytes) ∧
      (block.IsStorable →
        ∀ bytes, bytes <+: block.encode → bytes ≠ block.encode → decode? bytes = none) :=
  ⟨length_encode block, fun storable => decode?_encode_append storable,
    fun _ => isPrefix_of_decode?, fun storable _ => decode?_eq_none_of_isPrefix storable⟩

/-- A sparse block of unusual cells: a number that is none with a payload, the zero with a sign,
and an infinity at a position outside the block. -/
def unusualCells : MatrixBlock :=
  { rows := 2, columns := 0xFFFFFFFF
    cells := .sparse #[⟨0, 7, 0x7FF8000000ABCDEF⟩, ⟨1, 7, 0x8000000000000000⟩,
      ⟨9, 0xFFFFFFFF, 0xFFF0000000000000⟩] }

theorem encode_isFaithful_unusualCells :
    unusualCells.encode.length = 68 ∧
      decode? (unusualCells.encode ++ [1, 2, 3]) = some unusualCells ∧
      decode? (unusualCells.encode.take 67) = none := by
  obtain ⟨length, loads, -, whole⟩ := encode_isFaithful unusualCells
  exact ⟨length, loads (by decide) _,
    whole (by decide) _ (List.take_prefix ..) (by decide)⟩

end MatrixBlock

end ParallelLoop
