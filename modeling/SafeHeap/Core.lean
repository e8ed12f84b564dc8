import Mathlib.Data.Fintype.Basic
import SafeHeap.CMachine.Heap
import SafeHeap.CMachine.Int
import SafeHeap.CMachine.Str

/-!
# The data of the library (`sh_core.h`)

Addresses stay addresses: an entry names its segments table, the table its descriptors, a descriptor
its payload, all through the heap. A `size_t` is a natural number, reduced wherever the code
computes one; an `int` is an integer.

`Block` is what the library keeps in a block of the heap, and `Request` what it asks the allocator
for; a block of a kind the request does not continue starts out as the fresh memory happens to be.
-/

namespace SafeHeap

open CMachine

inductive KeyStoreType where
  | tpmStore | memoryStore
  deriving DecidableEq, Repr

structure ShCipherPolicy where
  algorithm : ℤ
  mode : ℤ
  flag : ℕ
  keyStoreType : KeyStoreType
  unsecureKey : Ptr
  deriving DecidableEq, Repr

inductive ShProtectionGrade where
  | protectHigh | protectMedium | protectLow | protectNone
  deriving DecidableEq, Repr

instance : Fintype ShProtectionGrade where
  elems := {.protectHigh, .protectMedium, .protectLow, .protectNone}
  complete g := by cases g <;> decide

/-- The value of the enumerator. -/
def ShProtectionGrade.toNat : ShProtectionGrade → ℕ
  | .protectHigh => 0
  | .protectMedium => 1
  | .protectLow => 2
  | .protectNone => 3

structure ShProtectionPolicy where
  protectionGrade : ShProtectionGrade
  segmentationEnabled : Bool
  encryptionEnabled : Bool
  segmentSize : ℕ
  cipherPolicy : ShCipherPolicy
  deriving DecidableEq, Repr

structure AlgoKeySize where
  algorithm : ℤ
  szMax : ℕ
  deriving DecidableEq, Repr

structure ShCipherOutsizeDiff where
  mode : ℤ
  deIncRecommend : ℕ
  deriving DecidableEq, Repr

structure ShSegmentDescriptor where
  address : Ptr
  size : ℕ
  deriving DecidableEq, Repr

structure ShProtectedEntry where
  sharedBuffer : Ptr
  protection : ShProtectionGrade
  segmentAmount : ℕ
  segmentsTable : Ptr
  deriving DecidableEq, Repr

structure ShProtectedMemoryTable where
  amount : ℕ
  entries : Ptr
  deriving DecidableEq, Repr

/-! ### The sizes of the structures, in bytes -/

def sizeofPointer : ℕ := 8
def sizeofEntry : ℕ := 32
def sizeofPolicy : ℕ := 48
def sizeofAlgoKeySize : ℕ := 16
def sizeofOutsizeDiff : ℕ := 16

/-! ### The tables -/

def gcryCipherNone : ℤ := 0
def gcryCipher3des : ℤ := 2
def gcryCipherBlowfish : ℤ := 4
def gcryCipherAes128 : ℤ := 7
def gcryCipherAes192 : ℤ := 8
def gcryCipherAes256 : ℤ := 9
def gcryCipherTwofish : ℤ := 10
def gcryCipherModeNone : ℤ := 0
def gcryCipherModeCcm : ℤ := 8
def gcryCipherModeGcm : ℤ := 9
def gcryCipherSecure : ℕ := 1

def keySizeTable : List AlgoKeySize :=
  [⟨gcryCipherAes128, 16⟩, ⟨gcryCipherAes192, 24⟩, ⟨gcryCipherAes256, 32⟩, ⟨gcryCipher3des, 21⟩,
    ⟨gcryCipherTwofish, 32⟩, ⟨gcryCipherBlowfish, 56⟩]

/-- The members the initialiser leaves out are zero: the key is in the TPM, and there is none. -/
def shProtectionPolicies : List ShProtectionPolicy :=
  [⟨.protectHigh, true, true, 5, ⟨gcryCipherAes256, gcryCipherModeGcm, gcryCipherSecure, .tpmStore, 0⟩⟩,
    ⟨.protectMedium, true, true, 10, ⟨gcryCipherAes192, gcryCipherModeGcm, gcryCipherSecure, .tpmStore, 0⟩⟩,
    ⟨.protectLow, true, false, 15, ⟨gcryCipherNone, gcryCipherModeNone, gcryCipherSecure, .tpmStore, 0⟩⟩,
    ⟨.protectNone, false, false, 0, ⟨gcryCipherNone, gcryCipherModeNone, gcryCipherSecure, .tpmStore, 0⟩⟩]

def shCiphertextSzDiffTable : List ShCipherOutsizeDiff :=
  [⟨gcryCipherModeGcm, 16⟩, ⟨gcryCipherModeCcm, 16⟩]

/-! ### Blocks -/

/-- What a block of the heap holds. -/
inductive Block where
  | table (t : ShProtectedMemoryTable)
  | entry (e : ShProtectedEntry)
  | descriptor (d : ShSegmentDescriptor)
  | pointers (slots : List Ptr)
  | bytes (data : List UInt8)
  deriving DecidableEq

namespace Block

def tables : View Block ShProtectedMemoryTable where
  get | .table t => some t | _ => none
  put := .table
  get_eq_some b a := by cases b <;> simp

def entries : View Block ShProtectedEntry where
  get | .entry e => some e | _ => none
  put := .entry
  get_eq_some b a := by cases b <;> simp

def descriptors : View Block ShSegmentDescriptor where
  get | .descriptor d => some d | _ => none
  put := .descriptor
  get_eq_some b a := by cases b <;> simp

def pointerArrays : View Block (List Ptr) where
  get | .pointers l => some l | _ => none
  put := .pointers
  get_eq_some b a := by cases b <;> simp

def byteArrays : View Block (List UInt8) where
  get | .bytes l => some l | _ => none
  put := .bytes
  get_eq_some b a := by cases b <;> simp

/-- The pointers a resized block starts with. -/
def slots? : Option Block → List Ptr
  | some (.pointers l) => l
  | _ => []

/-- The bytes a resized block starts with. -/
def data? : Option Block → List UInt8
  | some (.bytes l) => l
  | _ => []

end Block

/-- What the allocator is asked for: the structure a block is to hold, or the number of its bytes. -/
inductive Request where
  | table | entry | descriptor
  | pointers (size : ℕ)
  | bytes (size : ℕ)

/-- The block a request is answered with: an array goes on with the units of the old block, if that
is an array of its kind, and everything else is as the fresh memory happens to be. -/
def Request.make : Request → Option Block → (ℕ → ℕ) → Block
  | .table, _, fill => .table ⟨fill 0 % SIZE_RANGE, fill 1⟩
  | .entry, _, fill => .entry ⟨fill 0, .protectHigh, fill 2 % SIZE_RANGE, fill 3⟩
  | .descriptor, _, fill => .descriptor ⟨fill 0, fill 1 % SIZE_RANGE⟩
  | .pointers size, old, fill => .pointers (resize (Block.slots? old) (size / sizeofPointer) fill)
  | .bytes size, old, fill => .bytes (resize (Block.data? old) size fun i => UInt8.ofNat (fill i))

/-! ### The state of the library -/

structure Globals where
  tpmEnabled : Bool
  shProtectedTable : Ptr
  shProtectionPolicies : List ShProtectionPolicy
  keySizeTable : List AlgoKeySize
  shCiphertextSzDiffTable : List ShCipherOutsizeDiff
  /-- The errors printed so far. -/
  printed : List ℕ

/-- The globals before the first call. -/
def Globals.initial : Globals :=
  ⟨false, 0, SafeHeap.shProtectionPolicies, SafeHeap.keySizeTable, SafeHeap.shCiphertextSzDiffTable, []⟩

abbrev State := Machine Block Globals

/-- The state before the first call, with memory for every call. -/
def atStart : State := Machine.start Answer.zeros Globals.initial

abbrev Prog (α : Type) := Exec State Fault α

end SafeHeap
