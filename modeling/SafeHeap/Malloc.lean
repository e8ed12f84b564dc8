import SafeHeap.Crypto

/-!
# Protected allocation (`sh_malloc.c`)

`shMalloc` has the value of its uninitialised local variable `segments_table` as an argument: the
first resize of the segmented branch reads it.
-/

namespace SafeHeap

open CMachine

/-- Give descriptor `i` of a segments table a new block of `size` bytes. -/
def placeBlock (segmentsTable : Ptr) (i size : ℕ) : Prog Unit := do
  let a ← shInternalMalloc (.bytes size)
  let d ← readSlot segmentsTable i
  Block.descriptors.modify d fun x => { x with address := a }
  let d ← readSlot segmentsTable i
  Block.descriptors.modify d fun x => { x with size := size }

/-- Make room for slot `i` of a segments table, and put a new descriptor there. -/
def newDescriptor (segmentsTable : Ptr) (i : ℕ) : Prog Ptr := do
  let segmentsTable ← shInternalRealloc segmentsTable
    (.pointers (toSize (sizeofPointer * toSize (i + 1))))
  let d ← shInternalMalloc .descriptor
  writeSlot segmentsTable i d
  pure segmentsTable

/-- One round of the segmentation loop. The block for the remainder is placed first; the full block
takes its place in any case. -/
def segmentStep (policy : ShProtectionPolicy) (cipherChanges : ℕ) (remaining : ℤ) (segmentsTable : Ptr)
    (segmentIndex : ℕ) : Prog Ptr := do
  let segmentsTable ← newDescriptor segmentsTable segmentIndex
  if toSize remaining < policy.segmentSize then
    placeBlock segmentsTable segmentIndex (toSize (toSize remaining + cipherChanges))
  else
    pure ()
  placeBlock segmentsTable segmentIndex (toSize (policy.segmentSize + cipherChanges))
  pure segmentsTable

/-- The segmentation loop. `remaining` is an `int`, so that a loop of more than `INT_MAX` rounds has
come back to a value it had: the fuel `INT_MAX + 1` runs out exactly when the loop never ends. -/
def segmentLoop (policy : ShProtectionPolicy) (cipherChanges : ℕ) : ℕ → ℤ → Ptr → ℕ → Prog (Ptr × ℕ)
  | 0, _, _, _ => Exec.fault .diverges
  | fuel + 1, remaining, segmentsTable, segmentIndex =>
    if 0 < remaining then do
      let segmentsTable ← segmentStep policy cipherChanges remaining segmentsTable segmentIndex
      -- the subtraction is one of `size_t`
      segmentLoop policy cipherChanges fuel
        (toInt (toSize (toSize remaining - policy.segmentSize))) segmentsTable (segmentIndex + 1)
    else
      pure (segmentsTable, segmentIndex)

/-- The branch without segmentation. -/
def singleBlock (cipherChanges size : ℕ) : Prog (Ptr × ℕ) := do
  let segmentsTable ← shInternalMalloc (.pointers sizeofPointer)
  let d ← shInternalMalloc .descriptor
  writeSlot segmentsTable 0 d
  placeBlock segmentsTable 0 (toSize (size + cipherChanges))
  pure (segmentsTable, 1)

/-- The segments table and its length, as built under a policy. -/
def segmentsUnder (policy : ShProtectionPolicy) (segmentsTable : Ptr) (size : ℕ) : Prog (Ptr × ℕ) := do
  let cipherChanges ←
    shGetCipherOutsizeDiff policy.cipherPolicy.algorithm policy.cipherPolicy.mode >>= use
  if policy.segmentationEnabled then
    segmentLoop policy cipherChanges (INT_MAX + 1) (toInt size) segmentsTable 0
  else
    singleBlock cipherChanges size

/-- `sh_malloc` up to the call of `sh_add_protection_entry`: what it passes there. -/
def shMallocSegments (segmentsTable : Ptr) (size : ℕ) (protection : ShProtectionGrade) :
    Prog (Ptr × ℕ) := do
  let protectionPolicy ← shGetProtectionPolicy protection >>= deref
  segmentsUnder protectionPolicy segmentsTable size

def shMalloc (segmentsTable : Ptr) (size : ℕ) (protection : ShProtectionGrade) : Prog Ptr := do
  let r ← shMallocSegments segmentsTable size protection
  shAddProtectionEntry r.1 r.2 protection

end SafeHeap
