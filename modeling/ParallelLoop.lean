import ParallelLoop.Buffer.FileStorage
import ParallelLoop.Buffer.Pool
import ParallelLoop.Optimizer.Pass
import ParallelLoop.Settings.Document
import ParallelLoop.Settings.Environment
import ParallelLoop.Task.Execution
import ParallelLoop.Proofs.Buffer.Accounting
import ParallelLoop.Proofs.Buffer.Eviction
import ParallelLoop.Proofs.Buffer.Refusals
import ParallelLoop.Proofs.Buffer.Pages
import ParallelLoop.Proofs.Buffer.Lifecycle
import ParallelLoop.Proofs.Optimizer.Alignment
import ParallelLoop.Proofs.Optimizer.WorkerBudget
import ParallelLoop.Proofs.Task.Partition
import ParallelLoop.Proofs.Plan.Running
import ParallelLoop.Proofs.Plan.Chunking
import ParallelLoop.Proofs.Plan.TripCount
import ParallelLoop.Proofs.Optimizer.IterationSpace
import ParallelLoop.Proofs.Quantity
import ParallelLoop.Proofs.Quantity.Float
import ParallelLoop.Proofs.Plan.Deciding
import ParallelLoop.Proofs.Plan.Operators
import ParallelLoop.Proofs.Optimizer.Inputs
import ParallelLoop.Proofs.Optimizer.Placing
import ParallelLoop.Proofs.Optimizer.Reassigning
import ParallelLoop.Proofs.Optimizer.Executing
import ParallelLoop.Proofs.Optimizer.Settling
import ParallelLoop.Proofs.Optimizer.Repetition
import ParallelLoop.Proofs.Plan.Division
import ParallelLoop.Proofs.Optimizer.Resplitting
import ParallelLoop.Proofs.Optimizer.MemoryBudget
import ParallelLoop.Proofs.Task.Factoring
import ParallelLoop.Proofs.Task.Creation
import ParallelLoop.Proofs.Task.Schedule
import ParallelLoop.Proofs.Task.Progress
import ParallelLoop.Proofs.Task.Delivery
import ParallelLoop.Proofs.Task.Handoff
import ParallelLoop.Proofs.Plan.Operations
import ParallelLoop.Proofs.Plan.Drift
import ParallelLoop.Proofs.Plan.Agreement
import ParallelLoop.Proofs.Optimizer.Agreement
import ParallelLoop.Proofs.Optimizer.Leftovers
import ParallelLoop.Proofs.Optimizer.Completion
import ParallelLoop.Proofs.Plan.ChunkedValues
import ParallelLoop.Proofs.Plan.Splitting
import ParallelLoop.Proofs.Plan.ChunkSizes
import ParallelLoop.Proofs.Plan.SplitCount
import ParallelLoop.Proofs.Task.BatchCounts
import ParallelLoop.Proofs.Task.Reach
import ParallelLoop.Proofs.Task.Sizes
import ParallelLoop.Proofs.Matrix.Cells
import ParallelLoop.Proofs.Matrix.WellFormed
import ParallelLoop.Proofs.Buffer.Loading
import ParallelLoop.Proofs.Optimizer.RemoteLoops
import ParallelLoop.Proofs.Optimizer.InnerLoops
import ParallelLoop.Proofs.Optimizer.NestedTasks
import ParallelLoop.Proofs.Optimizer.ClusterChunks
import ParallelLoop.Proofs.Optimizer.Slices
import ParallelLoop.Proofs.Optimizer.Merges
import ParallelLoop.Proofs.Optimizer.Weighing
import ParallelLoop.Proofs.Optimizer.Rearranging
import ParallelLoop.Proofs.Optimizer.Colocating
import ParallelLoop.Proofs.Plan.Locality
import ParallelLoop.Proofs.Buffer.Confinement
import ParallelLoop.Proofs.Buffer.Simulation
import ParallelLoop.Proofs.Buffer.Traffic
import ParallelLoop.Proofs.Buffer.FileStorage
import ParallelLoop.Proofs.Plan.Listing
import ParallelLoop.Proofs.Plan.Queries
