import ClassMachine.Exchange.Image
import ClassMachine.Exchange.Machine
import ClassMachine.Machine.Host
import ClassMachine.Pacer
import ClassMachine.Snapshot.Format
import ClassMachine.Snapshot.Restore
import ClassMachine.Proofs.Maps
import ClassMachine.Proofs.Scheduler.Records
import ClassMachine.Proofs.Scheduler.Rotation
import ClassMachine.Proofs.Sync.Orderly
import ClassMachine.Proofs.Sync.Protocol
import ClassMachine.Proofs.Bytecode.StackMap
import ClassMachine.Proofs.Machine.Quiet
import ClassMachine.Proofs.Machine.QuietCalls
import ClassMachine.Proofs.Machine.FrameSteps
import ClassMachine.Proofs.Machine.InStep
import ClassMachine.Proofs.Machine.Execution
import ClassMachine.Proofs.Machine.Shifts
import ClassMachine.Proofs.Machine.Nesting
import ClassMachine.Proofs.Machine.Soundness
import ClassMachine.Proofs.Heap.Closed
import ClassMachine.Proofs.Heap.Garbage
import ClassMachine.Proofs.Machine.Closed
import ClassMachine.Proofs.Machine.ClosedCalls
import ClassMachine.Proofs.Machine.ClosedInvocation
import ClassMachine.Proofs.Machine.ClosedSteps
import ClassMachine.Proofs.Machine.ClosedRun
import ClassMachine.Proofs.Link.Moves
import ClassMachine.Proofs.Link.Growth
import ClassMachine.Proofs.Link.Linking
import ClassMachine.Proofs.Link.Independence
import ClassMachine.Proofs.Link.Declarations
import ClassMachine.Proofs.Link.Lineage
import ClassMachine.Proofs.Link.Preparation
import ClassMachine.Proofs.Class.Descriptors
import ClassMachine.Proofs.Link.Arrays
import ClassMachine.Proofs.Lists
import ClassMachine.Proofs.Link.Loading
import ClassMachine.Proofs.Class.Shape
import ClassMachine.Proofs.Class.Tables
import ClassMachine.Proofs.Class.SubtypeTest
import ClassMachine.Proofs.Class.MethodSearch
import ClassMachine.Proofs.Snapshot.Failure
import ClassMachine.Proofs.Snapshot.Likeness
import ClassMachine.Proofs.Snapshot.Counterparts
import ClassMachine.Proofs.Snapshot.Rebuilding
import ClassMachine.Proofs.Snapshot.Roundtrip
import ClassMachine.Proofs.Snapshot.Gate
import ClassMachine.Proofs.Link.Forms
import ClassMachine.Proofs.Link.Splitting
import ClassMachine.Proofs.Link.Targets
import ClassMachine.Proofs.Bytecode.Assembly
import ClassMachine.Proofs.Link.Disassembly
import ClassMachine.Proofs.Link.Requests
import ClassMachine.Proofs.Link.Slots
import ClassMachine.Proofs.Link.Dispatch
import ClassMachine.Proofs.Link.Pairing
import ClassMachine.Proofs.Machine.FieldAccess
import ClassMachine.Proofs.Heap.Monitors
import ClassMachine.Proofs.Link.Unmonitored
import ClassMachine.Proofs.Sync.Stakes
import ClassMachine.Proofs.Machine.Balance
import ClassMachine.Proofs.Machine.BalanceSteps
import ClassMachine.Proofs.Machine.BalanceMonitors
import ClassMachine.Proofs.Machine.BalanceCalls
import ClassMachine.Proofs.Machine.BalanceExecution
import ClassMachine.Proofs.Machine.Watching
import ClassMachine.Proofs.Machine.BalanceRun
import ClassMachine.Proofs.Machine.MethodMonitors
import ClassMachine.Proofs.Scheduler.Fairness
import ClassMachine.Proofs.Link.Turns
import ClassMachine.Proofs.Link.Initialization
import ClassMachine.Proofs.Machine.Rules
import ClassMachine.Proofs.Machine.RuleSteps
import ClassMachine.Proofs.Machine.Veils
import ClassMachine.Proofs.Machine.VeiledRuns
import ClassMachine.Proofs.Machine.Initializers
import ClassMachine.Proofs.Machine.InitializerRuns
import ClassMachine.Proofs.Machine.InitializationOrder
import ClassMachine.Proofs.Sync.Absence
import ClassMachine.Proofs.Sync.Claims
import ClassMachine.Proofs.Machine.Retuning
import ClassMachine.Proofs.Machine.SliceCuts
import ClassMachine.Proofs.Machine.SliceLengths
import ClassMachine.Proofs.Snapshot.Encoding
import ClassMachine.Proofs.Machine.Returns
import ClassMachine.Proofs.Link.Operations
import ClassMachine.Proofs.Link.StaticSlots
import ClassMachine.Proofs.Machine.Creation
import ClassMachine.Proofs.Machine.PlainOperations
import ClassMachine.Proofs.Machine.StaticStorage
import ClassMachine.Proofs.Machine.StaticRuns
import ClassMachine.Proofs.Snapshot.StaticFields
import ClassMachine.Proofs.Sync.Notification
import ClassMachine.Proofs.Scheduler.Joins
import ClassMachine.Proofs.Sync.Deeds
import ClassMachine.Proofs.Machine.Acts
import ClassMachine.Proofs.Machine.Passages
import ClassMachine.Proofs.Machine.PassageRuns
import ClassMachine.Proofs.Machine.SyntheticCalls
import ClassMachine.Proofs.Snapshot.Restarts
import ClassMachine.Proofs.Bytecode.Verification
import ClassMachine.Proofs.Machine.StackDepth
import ClassMachine.Proofs.Heap.Accounting
import ClassMachine.Proofs.Machine.ArrayHosts
import ClassMachine.Proofs.Machine.Unwinding
import ClassMachine.Proofs.Heap.Holding
import ClassMachine.Proofs.Machine.Upholding
import ClassMachine.Proofs.Machine.ArrayCopies
import ClassMachine.Proofs.Machine.ArrayTrees
import ClassMachine.Proofs.Machine.ArgumentEntry
import ClassMachine.Proofs.Machine.Interrupts
import ClassMachine.Proofs.Machine.Switches
import ClassMachine.Proofs.Heap.Weights
import ClassMachine.Proofs.Machine.HeapEdits
import ClassMachine.Proofs.Snapshot.Weights
import ClassMachine.Proofs.Class.Catalogue
import ClassMachine.Proofs.Class.ConstantPool
import ClassMachine.Proofs.Machine.ConstantLoads
import ClassMachine.Proofs.Bytecode.ExceptionTables
import ClassMachine.Proofs.Machine.IntegerArithmetic
import ClassMachine.Proofs.Machine.OperandSlots
import ClassMachine.Proofs.Machine.ElementKinds
