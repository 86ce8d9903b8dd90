/-
# The vocabulary of plans

A plan describes the blocks and operators of a program region. This module names
what its nodes, blocks and decisions can be; every type has the name under which
its values appear in listings and in the parameters of a node.

Nodes, blocks and operators are told apart by ids, which are words of 32 bits: the id of what is
created is the number of those before it, cut to a word. As long as there are less than `idLimit`
of them nothing is cut off, and the number itself is the id.
-/

namespace ParallelLoop

/-- A node of a plan tree; nodes are numbered in the order of their creation. -/
structure NodeId where
  index : Nat
  deriving DecidableEq, Repr

/-- A block of a program; blocks are numbered in the order of their creation. -/
structure BlockId where
  index : Nat
  deriving DecidableEq, Repr

/-- An operator of a program; operators are numbered in the order of their creation. -/
structure HopId where
  index : Nat
  deriving DecidableEq, Repr

/-- There are so many ids of nodes, of blocks and of operators. -/
def idLimit : Nat := 0x1_0000_0000

/-- The id of a node when there are so many already. -/
def NodeId.ofCount (count : Nat) : NodeId := ⟨count % idLimit⟩

/-- The id of a block when there are so many already. -/
def BlockId.ofCount (count : Nat) : BlockId := ⟨count % idLimit⟩

theorem NodeId.ofCount_of_lt {count : Nat} (room : count < idLimit) : ofCount count = ⟨count⟩ :=
  congrArg NodeId.mk (Nat.mod_eq_of_lt room)

theorem BlockId.ofCount_of_lt {count : Nat} (room : count < idLimit) : ofCount count = ⟨count⟩ :=
  congrArg BlockId.mk (Nat.mod_eq_of_lt room)

/-- The way a node is written in listings and messages. -/
def NodeId.render (node : NodeId) : String := "#" ++ toString node.index

/-- What a plan node stands for. -/
inductive NodeKind
  | generic | functionCall | ifElse | while | for | parfor | hop
  deriving DecidableEq, Repr

namespace NodeKind

/-- All kinds. -/
def all : List NodeKind := [generic, functionCall, ifElse, .while, .for, parfor, hop]

/-- The name of the kind. -/
def name : NodeKind → String
  | generic => "GENERIC"
  | functionCall => "FUNCCALL"
  | ifElse => "IF"
  | .while => "WHILE"
  | .for => "FOR"
  | parfor => "PARFOR"
  | hop => "HOP"

/-- The kind is a loop. -/
def isLoop : NodeKind → Bool
  | .while | .for | parfor => true
  | generic | functionCall | ifElse | hop => false

end NodeKind

/-- Where work is done: in the local process or by distributed jobs. -/
inductive Placement
  | inProcess | remote
  deriving DecidableEq, Repr

namespace Placement

/-- The name of the placement of a plan node. -/
def name : Placement → String
  | inProcess => "CP"
  | remote => "MR"

/-- The name of the execution mode of a parallel loop. -/
def modeName : Placement → String
  | inProcess => "LOCAL"
  | remote => "REMOTE_MR"

end Placement

/-- What a plan node may record in text. -/
inductive Parameter
  | numIterations | opString | dataPartitioner | dataPartitionFormat | taskPartitioner
  | resultMerge
  deriving DecidableEq, Repr

namespace Parameter

/-- All parameters, in the order in which a listing shows them. -/
def all : List Parameter :=
  [numIterations, opString, dataPartitioner, dataPartitionFormat, taskPartitioner, resultMerge]

/-- The name of the parameter. -/
def name : Parameter → String
  | numIterations => "NUM_ITERATIONS"
  | opString => "OPSTRING"
  | dataPartitioner => "DATA_PARTITIONER"
  | dataPartitionFormat => "DATA_PARTITION_FORMAT"
  | taskPartitioner => "TASK_PARTITIONER"
  | resultMerge => "RESULT_MERGE"

end Parameter

/-- How the inputs of a loop are partitioned. -/
inductive DataPartitioner
  | none | remote
  deriving DecidableEq, Repr

/-- The name of the data partitioner. -/
def DataPartitioner.name : DataPartitioner → String
  | .none => "NONE"
  | .remote => "REMOTE_MR"

/-- The slices into which a matrix is partitioned. -/
inductive PartitionFormat
  | none | rowWise | rowBlockWise | columnWise | columnBlockWise
  deriving DecidableEq, Repr

namespace PartitionFormat

/-- All formats. -/
def all : List PartitionFormat := [.none, rowWise, rowBlockWise, columnWise, columnBlockWise]

/-- The name of the format. -/
def name : PartitionFormat → String
  | .none => "NONE"
  | rowWise => "ROW_WISE"
  | rowBlockWise => "ROW_BLOCK_WISE"
  | columnWise => "COLUMN_WISE"
  | columnBlockWise => "COLUMN_BLOCK_WISE"

/-- The format of a name, spelled exactly. -/
def ofName? (name : String) : Option PartitionFormat :=
  all.find? fun format => format.name == name

theorem ofName?_name (format : PartitionFormat) : ofName? format.name = some format := by
  cases format <;> decide

end PartitionFormat

/-- How the results of the workers of a loop are put together. -/
inductive ResultMerge
  | localAutomatic | localMemory | localFile | remote
  deriving DecidableEq, Repr

/-- The name of the merge. -/
def ResultMerge.name : ResultMerge → String
  | .localAutomatic => "LOCAL_AUTOMATIC"
  | .localMemory => "LOCAL_MEM"
  | .localFile => "LOCAL_FILE"
  | .remote => "REMOTE_MR"

/-- What a program block is. -/
inductive BlockKind
  | generic | for | parfor
  deriving DecidableEq, Repr

/-- The name of the kind. -/
def BlockKind.name : BlockKind → String
  | .generic => "GENERIC"
  | .for => "FOR"
  | .parfor => "PARFOR"

/-- The storage format of a live matrix. -/
inductive MatrixFormat
  | binaryBlock | binaryCell | textCell | csv
  deriving DecidableEq, Repr

/-- The name of the format. -/
def MatrixFormat.name : MatrixFormat → String
  | .binaryBlock => "BinaryBlock"
  | .binaryCell => "BinaryCell"
  | .textCell => "TextCell"
  | .csv => "Csv"

/-- The operator that reads a slice of a matrix. -/
def rightIndexing : String := "rix"

/-- The operator that writes a slice of a matrix. -/
def leftIndexing : String := "lix"

/-- What an estimator is asked for. -/
inductive Measure
  | executionTime | memoryUsage
  deriving DecidableEq, Repr

end ParallelLoop
