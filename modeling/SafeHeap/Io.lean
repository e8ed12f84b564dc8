import Mathlib.Data.UInt
import SafeHeap.Malloc

/-!
# Reading protected memory (`sh_io.c`)

`sh_decrypt_buffer` is called but defined nowhere: it is a parameter. The lookup of the entry is a
parameter too, so that one can also ask how the functions fare with a lookup that works; the
functions of the library have `shGetProtectedEntry` there.
-/

namespace SafeHeap

open CMachine

/-- `strcat` on the heap. -/
def strcatAt (dst src : Ptr) : Prog Ptr := do
  let d ← Block.byteArrays.read dst
  let s ← Block.byteArrays.read src
  if dst = src then
    Exec.fault .overlap
  else
    match strcat d s with
    | some l => do
      store dst (.bytes l)
      pure dst
    | none => Exec.fault (.outOfBounds (if (cstr s).isNone then src else dst))

/-- `*entry->segments_table[s]`. -/
def segmentOf (entry : Ptr) (s : ℕ) : Prog ShSegmentDescriptor := do
  let e ← Block.entries.read entry
  let d ← readSlot e.segmentsTable s
  Block.descriptors.read d

/-- The loop of `sh_read` from segment `s` on; its counter is an `int`, so that there are no more
than `left` rounds before it overflows. -/
def readLoop (entry : Ptr) : ℕ → ℕ → ℕ → Ptr → Prog Ptr
  | 0, _, _, _ => Exec.fault .intOverflow
  | left + 1, s, total, buffer => do
    let e ← Block.entries.read entry
    if s < e.segmentAmount then
      let x ← segmentOf entry s
      let buffer ← shInternalRealloc buffer (.bytes (toSize (total + x.size)))
      let y ← segmentOf entry s
      let buffer ← strcatAt buffer y.address
      readLoop entry left (s + 1) (toSize (total + x.size)) buffer
    else
      pure buffer

section Lookup

variable (lookup : Ptr → Prog (Option Ptr)) (shDecryptBuffer : Ptr → Ptr → Prog Unit)

/-- The mismatch is reported, and the buffer released all the same. -/
def shResetWith (buffer : Ptr) : Prog Unit := do
  let entry ← lookup buffer >>= use
  let e ← Block.entries.read entry
  if e.sharedBuffer ≠ buffer then
    Exec.update fun s => { s with errno := EINVAL }
  else
    pure ()
  free buffer

/-- `sh_read` up to the decryption. -/
def collectWith (buffer : Ptr) : Prog (Ptr × Ptr) := do
  let entry ← lookup buffer >>= use
  shResetWith lookup buffer
  let buffer ← readLoop entry (INT_MAX + 1) 0 0 buffer
  pure (entry, buffer)

/-- The end of `sh_read`: the decryption, if the policy asks for it. -/
def finishRead (entry buffer : Ptr) : Prog Ptr := do
  let e ← Block.entries.read entry
  let policy ← shGetProtectionPolicy e.protection >>= deref
  if policy.encryptionEnabled then
    shDecryptBuffer buffer entry
  else
    pure ()
  pure buffer

def shReadWith (buffer : Ptr) : Prog Ptr := do
  let r ← collectWith lookup buffer
  finishRead shDecryptBuffer r.1 r.2

end Lookup

def shReset (buffer : Ptr) : Prog Unit := shResetWith shGetProtectedEntry buffer

def shRead (shDecryptBuffer : Ptr → Ptr → Prog Unit) (buffer : Ptr) : Prog Ptr :=
  shReadWith shGetProtectedEntry shDecryptBuffer buffer

/-- The body is empty. -/
def shWrite (_buffer : Ptr) : Prog Unit := pure ()

end SafeHeap
