/-
# Programs

A plan is made for a program: blocks that contain blocks, and operators. Blocks and
operators are only ever added, so their ids stay valid. Some blocks are loops, whose
bounds are constants or depend on the variable of an enclosing loop, and some loops
are parallel and carry the settings with which they are executed.

A block that is replaced stays in the program, but no block lists it any more.
-/

import ParallelLoop.Word
import ParallelLoop.Error

namespace ParallelLoop

/-- The values of the loop variables in scope, innermost first. -/
abbrev Scope := List (String × Int)

/-- One end of a loop. -/
inductive Bound
  | const (value : Int)
  /-- The value of a variable plus an offset, but not above the limit. -/
  | relative (var : String) (offset : Int) (limit : Option Int)
  deriving DecidableEq, Repr

/-- The value of a bound in a scope. A sum beyond the largest word still meets the limit. -/
def Bound.resolve (scope : Scope) : Bound → Except Error Int
  | const value => .ok value
  | relative var offset limit =>
    match scope.lookup var with
    | none => .error (.boundUnbound var)
    | some base =>
      match Word.signed? (base + offset), limit with
      | some value, some limit => .ok (min value limit)
      | some value, none => .ok value
      | none, some limit =>
        if 0 < offset then .ok limit else .error (.boundOverflow var offset base)
      | none, none => .error (.boundOverflow var offset base)

/-- The variable of a loop and the values it takes. -/
structure LoopBounds where
  var : String
  first : Bound
  last : Bound
  step : Int
  deriving DecidableEq, Repr

/-- How a parallel loop is executed. -/
structure ParallelSettings (α : Type) where
  mode : Placement
  /-- The degree of parallelism. -/
  workers : Nat
  taskPartitioner : PartitionerKind
  dataPartitioner : DataPartitioner
  resultMerge : ResultMerge
  /-- The memory that one worker may use when the body is compiled again. -/
  recompileBudget : Option α
  /-- The matrix whose partitions the tasks are placed next to. -/
  colocated : Option String
  /-- The matrices that the loop writes. -/
  resultVars : List String
  /-- The matrices that the loop only reads, and the slices in which it reads them. -/
  candidates : List (String × PartitionFormat)
  deriving DecidableEq, Repr

/-- The settings of a loop about which nothing was decided. -/
def ParallelSettings.undecided {α : Type} : ParallelSettings α :=
  { mode := .inProcess
    workers := 1
    taskPartitioner := .factoring
    dataPartitioner := .none
    resultMerge := .localAutomatic
    recompileBudget := none
    colocated := none
    resultVars := []
    candidates := [] }

/-- A block of a program. -/
structure Block (α : Type) where
  kind : BlockKind
  bounds : Option LoopBounds
  children : List BlockId
  settings : Option (ParallelSettings α)
  deriving DecidableEq, Repr

/-- A sequential loop with this body. -/
def Block.sequential {α : Type} (bounds : LoopBounds) (children : List BlockId) : Block α :=
  { kind := .for, bounds := some bounds, children, settings := none }

/-- A parallel loop with this body. -/
def Block.parallel {α : Type} (bounds : LoopBounds) (settings : ParallelSettings α)
    (children : List BlockId) : Block α :=
  { kind := .parfor, bounds := some bounds, children, settings := some settings }

/-- An operand of an operator. -/
structure HopInput where
  name : String
  /-- A plain read of a variable, not a literal or a computed value. -/
  isData : Bool
  deriving DecidableEq, Repr

/-- An operator. Indexing operators have the operands matrix, lower row, upper row, lower column
and upper column; left indexing has the written matrix before them. -/
structure Hop (α : Type) where
  op : String
  inputs : List HopInput
  /-- The memory that the operator needs, if it is known. -/
  memory : Option α
  deriving DecidableEq, Repr

/-- The name of an operand. -/
def Hop.inputName? {α : Type} (hop : Hop α) (position : Nat) : Option String :=
  hop.inputs[position]?.map HopInput.name

/-- Blocks and operators by number. -/
structure Program (α : Type) where
  blocks : Array (Block α)
  hops : Array (Hop α)
  deriving DecidableEq, Repr

namespace Program

variable {α : Type}

/-- A program without blocks and operators. -/
def empty : Program α := { blocks := #[], hops := #[] }

/-- The block with this id. -/
def block (program : Program α) (id : BlockId) : Except Error (Block α) :=
  match program.blocks[id.index]? with
  | some block => .ok block
  | none => .error (.blockMissing id)

/-- The operator with this id. -/
def hop (program : Program α) (id : HopId) : Except Error (Hop α) :=
  match program.hops[id.index]? with
  | some hop => .ok hop
  | none => .error (.hopMissing id)

/-- The id that the next block gets, as long as there are ids for all blocks. -/
def nextBlock (program : Program α) : BlockId := ⟨program.blocks.size⟩

/-- The id that the next operator gets, as long as there are ids for all operators. -/
def nextHop (program : Program α) : HopId := ⟨program.hops.size⟩

/-- Adds a block that no other block lists. -/
def addBlock (program : Program α) (block : Block α) : Program α :=
  { program with blocks := program.blocks.push block }

/-- Adds an operator. -/
def addHop (program : Program α) (hop : Hop α) : Program α :=
  { program with hops := program.hops.push hop }

/-- Changes the block with this id. -/
def modifyBlock (program : Program α) (id : BlockId) (change : Block α → Block α) : Program α :=
  { program with blocks := program.blocks.modify id.index change }

/-- Changes the operator with this id. -/
def modifyHop (program : Program α) (id : HopId) (change : Hop α → Hop α) : Program α :=
  { program with hops := program.hops.modify id.index change }

/-- Adds a block as the last child of another. -/
def addChild (program : Program α) (parent : BlockId) (block : Block α) :
    Except Error (Program α) := do
  let _ ← program.block parent
  let child := program.nextBlock
  return (program.addBlock block).modifyBlock parent fun parent =>
    { parent with children := parent.children ++ [child] }

/-- The first block that lists this one as a child. -/
def parentOf? (program : Program α) (id : BlockId) : Option BlockId :=
  (program.blocks.findIdx? fun block => block.children.contains id).map BlockId.mk

/-- Adds a block that its parent lists in place of an old one. -/
def replaceBlock (program : Program α) (old : BlockId) (replacement : Block α) : Program α :=
  let fresh := program.nextBlock
  let added := program.addBlock replacement
  match program.parentOf? old with
  | none => added
  | some parent =>
    added.modifyBlock parent fun block =>
      { block with
        children := block.children.map fun child => if child = old then fresh else child }

end Program

end ParallelLoop
