import KernelMemory.Act
import KernelMemory.AllocError
import KernelMemory.Arena
import KernelMemory.ByteCount
import KernelMemory.Event
import KernelMemory.Fault
import KernelMemory.Frames.Allocator
import KernelMemory.Frames.Check
import KernelMemory.Frames.Order
import KernelMemory.Frames.Pool
import KernelMemory.Heap.Basic
import KernelMemory.Heap.Bitmap
import KernelMemory.Heap.Check
import KernelMemory.Heap.Config
import KernelMemory.Heap.FreeLists
import KernelMemory.Heap.Layout
import KernelMemory.Heap.Memory
import KernelMemory.Heap.SizeClass
import KernelMemory.Heap.Slot
import KernelMemory.Log
import KernelMemory.Rings
import KernelMemory.Stats
import KernelMemory.Supplier.Any
import KernelMemory.Supplier.Basic
import KernelMemory.Supplier.Frames
import KernelMemory.Supplier.Linear
import KernelMemory.Supplier.Scripted
import KernelMemory.Word
import KernelMemory.Proofs.ByteCount
import KernelMemory.Proofs.Rings
import KernelMemory.Proofs.Rings.Runs
import KernelMemory.Proofs.Frames.Index
import KernelMemory.Proofs.Frames.Partition
import KernelMemory.Proofs.Frames.Decomposition
import KernelMemory.Proofs.Frames.Requests
import KernelMemory.Proofs.Frames.Runs
import KernelMemory.Proofs.Frames.Canonical
import KernelMemory.Proofs.Frames.Addresses
import KernelMemory.Proofs.Frames.Pool
import KernelMemory.Proofs.Frames.NewPool
import KernelMemory.Proofs.Frames.Answers
import KernelMemory.Proofs.Frames.Pages
import KernelMemory.Proofs.Frames.Undo
import KernelMemory.Proofs.Arena
import KernelMemory.Proofs.Arena.Runs
import KernelMemory.Proofs.Arena.Upcoming
import KernelMemory.Proofs.Arena.Reuse
import KernelMemory.Proofs.Heap.SizeClass
import KernelMemory.Proofs.Heap.Rounding
import KernelMemory.Proofs.Heap.Tiling
import KernelMemory.Proofs.Heap.Edits
import KernelMemory.Proofs.Heap.PageEdits
import KernelMemory.Proofs.Heap.Bytes
import KernelMemory.Proofs.Heap.FreeLists
import KernelMemory.Proofs.Heap.Steps
import KernelMemory.Proofs.Heap.Shape
import KernelMemory.Proofs.Heap.Picture
import KernelMemory.Proofs.Heap.Settled
import KernelMemory.Proofs.Heap.InHand
import KernelMemory.Proofs.Heap.Carve
import KernelMemory.Proofs.Heap.Undo
import KernelMemory.Proofs.Act
import KernelMemory.Proofs.Contract
import KernelMemory.Proofs.Supplier.Frames
import KernelMemory.Proofs.Supplier.Inverse
import KernelMemory.Proofs.Supplier.Orders
import KernelMemory.Proofs.Heap.Arguments
import KernelMemory.Proofs.Heap.Growth
import KernelMemory.Proofs.Heap.Lifetime
import KernelMemory.Proofs.Heap.Requests
import KernelMemory.Proofs.Heap.Pointers
import KernelMemory.Proofs.Heap.Runs
import KernelMemory.Proofs.Heap.Validation
import KernelMemory.Proofs.Heap.Separation
import KernelMemory.Proofs.Heap.Walks
import KernelMemory.Proofs.Heap.Survey
import KernelMemory.Proofs.Heap.WellFormed
import KernelMemory.Proofs.Heap.Search
import KernelMemory.Proofs.Heap.Scan
import KernelMemory.Proofs.Heap.Gaps
import KernelMemory.Proofs.Heap.Ownership
import KernelMemory.Proofs.Heap.Vacancy
import KernelMemory.Proofs.Heap.Retention
import KernelMemory.Proofs.Heap.Refusals
import KernelMemory.Proofs.Heap.Demand
import KernelMemory.Proofs.Heap.Config
import KernelMemory.Proofs.Heap.AtOnce
import KernelMemory.Proofs.Heap.Reuse
import KernelMemory.Proofs.Heap.Conservation
import KernelMemory.Proofs.Heap.FreeOrder
import KernelMemory.Proofs.Heap.Safety
import KernelMemory.Proofs.Heap.SharedPool
import KernelMemory.Proofs.Heap.Slot
import KernelMemory.Proofs.Heap.Pieces
