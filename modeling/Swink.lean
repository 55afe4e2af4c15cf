import Swink.Lib.Dyadic
import Swink.Lib.MaximalBlocks
import Swink.Lib.Tilings
import Swink.Lib.ByteMemory
import Swink.Lib.StructLayout
import Swink.Lib.Links
import Swink.Lib.Refinement
import Swink.Lib.Drain
import Swink.Lib.Records
import Swink.Lib.Segments
import Swink.Lib.NaturalMerge
import Swink.Lib.OrderedLists
import Swink.Lib.Spans
import Swink.Lib.Texts
import Swink.Lib.Tokens
import Swink.Lib.Dialogue
import Swink.Machine.Fault
import Swink.Machine.Word
import Swink.Machine.Memory
import Swink.Machine.LinkedList
import Swink.Pfa.Levels
import Swink.Pfa.Store
import Swink.Pfa.Allocator
import Swink.Pfa.State
import Swink.Pfa.Represents
import Swink.Pfa.Insert
import Swink.Pfa.Alloc
import Swink.Pfa.Free
import Swink.Pfa.Init
import Swink.Pfa.Runs
import Swink.Pfa.Guarantees
import Swink.Pfa.Simulation
import Swink.Image.Lists
import Swink.Lists.Ops
import Swink.Lists.At
import Swink.Lists.Edit
import Swink.Lists.Sort
import Swink.Lists.Order
import Swink.Lists.Reverse
import Swink.Lists.World
import Swink.Lists.Runs
import Swink.Lists.Layouts
import Swink.Image.State
import Swink.Image.Layout
import Swink.Image.Overlap
import Swink.Image.Depicts
import Swink.Image.Boot
import Swink.Pfa.Coalesced
import Swink.Image.Listed
import Swink.Image.Isolation
import Swink.Image.Watch
import Swink.Image.Edges
import Swink.Vm.Descriptor
import Swink.Vm.Tables
import Swink.Vm.Space
import Swink.Vm.Map
import Swink.Vm.Room
import Swink.Vm.MapRange
import Swink.Vm.TableTree
import Swink.Vm.Kernel
import Swink.Vm.KernelSpace
import Swink.Vm.MapExact
import Swink.Vm.AddressSpace
import Swink.Vm.Permissions
import Swink.Vm.ArenaSize
import Swink.Vm.Handover
import Swink.Vm.Bootstrap
import Swink.Vm.Switch
import Swink.Exception.Cpu
import Swink.Exception.Vectors
import Swink.Exception.Context
import Swink.Exception.Spill
import Swink.Exception.Unspill
import Swink.Exception.Entry
import Swink.Exception.Transparent
import Swink.Exception.Trace
import Swink.Synchs.Lock
import Swink.Pfa.BestFit
import Swink.Pfa.Metadata
import Swink.Pfa.PageIds
import Swink.Pfa.InitContract
import Swink.Pfa.Drain
import Swink.Pfa.Merges
import Swink.Pfa.Tiling
import Swink.Vc.Message
import Swink.Vc.WellFormed
import Swink.Vc.Mailbox
import Swink.Vc.Protocol
import Swink.Vc.Calls
import Swink.Vc.Progress
import Swink.Vc.Functions
import Swink.Vc.Execution
import Swink.Vc.Boot
import Swink.Exception.Handler
import Swink.Testing.Traces
import Swink.Testing.Debug
import Swink.Testing.Sweeps
import Swink.Testing.Steps
import Swink.Testing.Holding
import Swink.Testing.Outstanding
import Swink.Testing.Marks
import Swink.Testing.Passes
import Swink.Printf.Format
import Swink.Printf.Integer
import Swink.Printf.Emit
import Swink.Printf.Reads
import Swink.Printf.Sinks
import Swink.Printf.Uart
import Swink.Printf.Pieces
import Swink.Printf.Meaning
import Swink.Strings.Scan
import Swink.Strings.Tokens
import Swink.Strings.Agree
import Swink.Strings.Copy
import Swink.Strings.Build
import Swink.Strings.Compare
