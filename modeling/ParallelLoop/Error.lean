/-
# Errors

Every way in which an operation can fail is one cause. A cause belongs to one of
five categories and has one message, which names its category first. An
operation may also stop without an error, when it is used outside its contract or
its arithmetic leaves the machine words; such a stop is an `Abort`.
-/

import ParallelLoop.Plan.Kind
import ParallelLoop.Task.Kind
import ParallelLoop.Word

namespace ParallelLoop

/-- The categories of errors. -/
inductive ErrorCategory
  | configMissing | estimationFailed | ioFailure | unsupportedPartitioner | invalidIterationRange
  deriving DecidableEq, Repr

/-- The name of the category. -/
def ErrorCategory.name : ErrorCategory → String
  | configMissing => "ConfigMissing"
  | estimationFailed => "EstimationFailed"
  | ioFailure => "IoFailure"
  | unsupportedPartitioner => "UnsupportedPartitioner"
  | invalidIterationRange => "InvalidIterationRange"

/-- The cause of a storage failure. -/
inductive StorageFault
  /-- The storage holds nothing under the key. -/
  | missing
  /-- The file of the key does not exist. -/
  | missingFile
  /-- The key leads out of the scratch directory. -/
  | invalidKey
  /-- The key holds a character that no file name may hold. -/
  | unusableName
  /-- The key, or a name in it, is longer than the file system takes. -/
  | nameTooLong
  /-- A file stands where the key needs a directory on the way. -/
  | notADirectory
  /-- A file stands where the key needs a directory to be made. -/
  | alreadyExists
  /-- A directory stands where the key needs a file. -/
  | isADirectory
  /-- The storage does not accept the write. -/
  | refused
  /-- The stored bytes are no matrix block. -/
  | undecodable
  deriving DecidableEq, Repr

namespace StorageFault

/-- The name of the kind of failure. -/
def kindName : StorageFault → String
  | missing | missingFile => "NotFound"
  | invalidKey | unusableName => "InvalidInput"
  | nameTooLong => "InvalidFilename"
  | notADirectory => "NotADirectory"
  | alreadyExists => "AlreadyExists"
  | isADirectory => "IsADirectory"
  | refused => "PermissionDenied"
  | undecodable => "InvalidData"

/-- What a storage failure says about its cause. The operating system and the decoder word
their own faults, so those have no text here. -/
def message? : StorageFault → Option String
  | missing => some "entity not found"
  | invalidKey => some "storage keys must be relative paths inside the scratch directory"
  | unusableName => some "file name contained an unexpected NUL byte"
  | refused => some "refused"
  | missingFile | nameTooLong | notADirectory | alreadyExists | isADirectory | undecodable => none

end StorageFault

/-- Why an operation failed. -/
inductive Error
  /-- A loop does not move forward. -/
  | stepNotPositive (first last step : Int)
  /-- A loop has more iterations than a count can hold. -/
  | tooManyIterations (first last step : Int)
  /-- No partitioner has this name. -/
  | unknownPartitioner (name : String)
  /-- A partitioner that divides work among workers got none. -/
  | workersRequired (kind : PartitionerKind)
  /-- A partitioner that needs a task size got zero. -/
  | taskSizeRequired (kind : PartitionerKind)
  /-- The queue was closed while tasks were still being created. -/
  | queueClosed (created : Nat) (kind : PartitionerKind)
  /-- A property of the machine or the cluster is unknown. -/
  | metricUnavailable (metric : String)
  /-- A loop node has no trip count. -/
  | tripCountMissing (node : NodeId)
  /-- The trip count of a loop node is no count. -/
  | tripCountMalformed (node : NodeId) (text : String)
  /-- A loop bound reads a variable that has no value. -/
  | boundUnbound (var : String)
  /-- The value of a loop bound is no machine word. -/
  | boundOverflow (var : String) (offset base : Int)
  /-- The program has no such block. -/
  | blockMissing (block : BlockId)
  /-- The program has no such operator. -/
  | hopMissing (hop : HopId)
  /-- A plan can only be built for a parallel loop. -/
  | rootBlockNotParallel (block : BlockId)
  /-- The plan has no such node. -/
  | nodeMissing (node : NodeId)
  /-- The node stands for no block. -/
  | nodeWithoutBlock (node : NodeId)
  /-- The node stands for no operator. -/
  | nodeWithoutHop (node : NodeId)
  /-- The block of the node is no parallel loop. -/
  | blockNotParallel (node : NodeId)
  /-- The block of the node is no loop. -/
  | blockWithoutBounds (node : NodeId)
  /-- The loop of the node has no bounds to take an iteration variable from. -/
  | nodeWithoutBounds (node : NodeId)
  /-- Only a parallel loop can be optimized. -/
  | rootNotParallel (node : NodeId)
  /-- An indexing operator reads no matrix. -/
  | indexingWithoutMatrix (node : NodeId)
  /-- A matrix to be partitioned is not live. -/
  | partitionedNotLive (matrix : String)
  /-- A matrix to be colocated with is not live. -/
  | colocatedNotLive (matrix : String)
  /-- The write buffer has not been initialized. -/
  | bufferNotInitialized
  /-- An operator node stands for no operator, so its memory is unknown. -/
  | operatorNotBound (node : NodeId)
  /-- The memory need of an operator is unknown. -/
  | operatorNotEstimated (node : NodeId)
  /-- The memory model knows no execution times. -/
  | executionTimeNotEstimated
  /-- An estimator or a loop body gave its own reason. -/
  | estimation (reason : String)
  /-- The storage failed on a key. -/
  | storage (key : String) (fault : StorageFault)
  deriving DecidableEq, Repr

namespace Error

/-- The category of an error. -/
def category : Error → ErrorCategory
  | stepNotPositive .. | tooManyIterations .. => .invalidIterationRange
  | unknownPartitioner .. | workersRequired .. | taskSizeRequired .. => .unsupportedPartitioner
  | operatorNotBound .. | operatorNotEstimated .. | executionTimeNotEstimated | estimation .. =>
    .estimationFailed
  | storage .. => .ioFailure
  | _ => .configMissing

/-- What happened, in words. -/
def detail? : Error → Option String
  | stepNotPositive first last step =>
    some s!"increment must be positive, got {step} for range [{first}, {last}]"
  | tooManyIterations first last step =>
    some (s!"range [{first}, {last}] step {step} has more than " ++
      s!"{Word.maxCount} iterations")
  | unknownPartitioner name => some name
  | workersRequired kind => some (kind.name ++ " requires at least one worker")
  | taskSizeRequired kind => some (kind.name ++ " requires a positive task size")
  | queueClosed created kind =>
    some (s!"task queue closed after {created} tasks of " ++ kind.name)
  | metricUnavailable metric => some s!"infrastructure metric '{metric}' unavailable"
  | tripCountMissing node => some s!"node {node.render} has no NUM_ITERATIONS parameter"
  | tripCountMalformed node text =>
    some s!"node {node.render} has malformed NUM_ITERATIONS parameter '{text}'"
  | boundUnbound var => some s!"loop bound variable '{var}' is unbound"
  | boundOverflow var offset base =>
    some s!"loop bound '{var}' + {offset} overflows for {var} = {base}"
  | blockMissing block => some s!"program block {block.index} not found"
  | hopMissing hop => some s!"hop {hop.index} not found"
  | rootBlockNotParallel block => some s!"program block {block.index} is not a parallel loop"
  | nodeMissing node => some s!"node {node.render} is not in the plan"
  | nodeWithoutBlock node => some s!"node {node.render} has no program block"
  | nodeWithoutHop node => some s!"node {node.render} has no hop"
  | blockNotParallel node => some s!"block of node {node.render} is not a parallel loop"
  | blockWithoutBounds node => some s!"block of node {node.render} has no loop bounds"
  | nodeWithoutBounds node => some s!"node {node.render} has no loop bounds"
  | rootNotParallel node => some s!"plan root {node.render} is not a PARFOR node"
  | indexingWithoutMatrix node =>
    some s!"indexing hop of node {node.render} has no input matrix"
  | partitionedNotLive matrix => some s!"partition candidate '{matrix}' is not a live matrix"
  | colocatedNotLive matrix => some s!"colocation candidate '{matrix}' is not live"
  | bufferNotInitialized => some "write buffer pool is not initialized"
  | operatorNotBound node => some s!"HOP node {node.render} is not bound to a hop"
  | operatorNotEstimated node => some s!"hop of node {node.render} has no memory estimate"
  | executionTimeNotEstimated =>
    some "execution time is not estimated by the hop memory model"
  | estimation reason => some reason
  | storage _ fault => fault.message?

/-- The words that open the message of an error. -/
def opening : Error → String
  | storage key _ => s!"i/o failure on '{key}': "
  | error =>
    match error.category with
    | .configMissing => "missing configuration: "
    | .estimationFailed => "cost estimation failed: "
    | .unsupportedPartitioner => "unsupported partitioner: "
    | .invalidIterationRange => "invalid iteration range: "
    | .ioFailure => ""

/-- The full text of an error, unless its cause is worded elsewhere. -/
def message? (error : Error) : Option String := error.detail?.map (error.opening ++ ·)

end Error

/-- Why an operation stopped without an error. -/
inductive Abort
  /-- A node id that belongs to no node of the tree was used to reach one. -/
  | unknownNode
  /-- A machine word could not hold a result. -/
  | overflow
  /-- More memory was needed than one piece can have. -/
  | outOfMemory
  /-- A block cell beyond the stored values was read. -/
  | outOfBounds
  /-- A loop body gave up. -/
  | body
  /-- Every thread that is left waits for another. -/
  | deadlock
  deriving DecidableEq, Repr

/-- The outcome of an operation that did not succeed. -/
inductive Failure
  | error (cause : Error)
  | abort (cause : Abort)
  deriving DecidableEq, Repr

/-- The result of a checked word operation; without one, the operation stops. -/
def orOverflow {α : Type} : Option α → Except Failure α
  | some value => .ok value
  | none => .error (.abort .overflow)

/-- Takes a piece of memory. It cannot have more bytes than a signed word counts. -/
def allocate (bytes : Nat) : Except Failure Unit :=
  if (bytes : Int) ≤ Word.maxSigned then .ok () else .error (.abort .outOfMemory)

/-- An operation that fails with errors only, as one that may also stop. -/
def orFailure {α : Type} : Except Error α → Except Failure α
  | .ok value => .ok value
  | .error cause => .error (.error cause)

end ParallelLoop
