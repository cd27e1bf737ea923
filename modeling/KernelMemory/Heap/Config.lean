import KernelMemory.Act
import KernelMemory.Frames.Order
import KernelMemory.Heap.SizeClass

/-!
# Heap configurations

How large the pages of a heap are, when it grows, how many free pages it keeps, and which
alignments it serves.
-/

set_option autoImplicit false
set_option relaxedAutoImplicit false

namespace KernelMemory

/-- The size of the tag in front of every payload. -/
def headerSize : Nat := 16

/-- The size of the smallest block. -/
def minBlockSize : Nat := headerSize + blockAlign

structure HeapConfig where
  /-- The size that is asked for with every new page. -/
  pageSize : Nat := 4 * frameSize
  /-- Without a free block of this size, an allocation is preceded by a new page. -/
  growWatermark : Nat := frameSize
  /-- The number of wholly free pages that are kept. -/
  sparePages : Nat := 1
  /-- The largest alignment that is served. -/
  maxAlign : Nat := frameSize
deriving DecidableEq, Repr

namespace HeapConfig

def validate (config : HeapConfig) : Checked Unit := do
  unless 2 * minBlockSize ≤ config.pageSize do throw .invalidConfig
  unless config.pageSize ≤ maxBlockSize do throw .invalidConfig
  unless config.pageSize % blockAlign = 0 do throw .invalidConfig
  unless 0 < config.growWatermark do throw .invalidConfig
  unless (← roundUp config.growWatermark) ≤ config.pageSize do throw .invalidConfig
  unless Word.isPowerOfTwo config.maxAlign do throw .invalidConfig
  unless config.maxAlign < config.pageSize do throw .invalidConfig

end HeapConfig

end KernelMemory
