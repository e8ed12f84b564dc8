import Mathlib.Data.UInt
import SafeHeap.Crypto

/-!
# Keys, and the encryption of a segment (`sh_crypto.c`, `sh_tpm.c`, `sh_error.c`)

libgcrypt and the source of random bytes are parameters. The initial contents of the local arrays are
arguments, as is the initialisation vector: the call that sets it lacks that argument in the source.
The notices about an uninitialised or outdated libgcrypt are left out; they are not errors reported.
-/

namespace SafeHeap

open CMachine

/-! ### The key of an entry -/

def setErrno (error : ℕ) : Prog Unit := Exec.update fun s => { s with errno := error }

/-- `strcpy` on the heap. -/
def strcpyAt (dst src : Ptr) : Prog Unit := do
  let d ← Block.byteArrays.read dst
  let s ← Block.byteArrays.read src
  if dst = src then
    Exec.fault .overlap
  else
    match strcpy d s with
    | some l => store dst (.bytes l)
    | none => Exec.fault (.outOfBounds (if (cstr s).isNone then src else dst))

/-- `sh_get_key`, for any function in the place of `sh_tpm_get_key`. -/
def shGetKeyWith (shTpmGetKey : Ptr → Ptr → Prog Unit) (entry key : Ptr) : Prog Unit := do
  let e ← Block.entries.read entry
  let policy ← shGetProtectionPolicy e.protection >>= deref
  -- the safeguard does not end the function
  if policy.encryptionEnabled then
    pure ()
  else
    setErrno EINVAL
  match policy.cipherPolicy.keyStoreType with
  | .tpmStore =>
    -- no `break` behind the call
    shTpmGetKey entry key
    strcpyAt key policy.cipherPolicy.unsecureKey
  | .memoryStore => strcpyAt key policy.cipherPolicy.unsecureKey

/-- The body is empty, and no caller uses the value. -/
def shTpmGetKey (_entry _key : Ptr) : Prog Unit := pure ()

def shGetKey (entry key : Ptr) : Prog Unit := shGetKeyWith shTpmGetKey entry key

/-! ### Encryption -/

/-- What a cipher of libgcrypt has been opened and set up with. -/
structure CipherHandle where
  algorithm : ℤ
  mode : ℤ
  flag : ℕ
  key : List UInt8
  iv : List UInt8

/-- `gcry_cipher_encrypt`: it fails with a code other than zero, or gives as many bytes as it took. -/
structure Cipher where
  encrypt : CipherHandle → List UInt8 → Except ℕ (List UInt8)
  code_ne_zero : ∀ {h input code}, encrypt h input = .error code → code ≠ 0
  length_eq : ∀ {h input output}, encrypt h input = .ok output → output.length = input.length

def shErrorGcry (error : ℕ) : Prog Unit :=
  Exec.update fun s => { s with globals := { s.globals with printed := s.globals.printed ++ [error] } }

section Encrypt

variable (cipher : Cipher) (iv : List UInt8) (keyFill outFill : ℕ → UInt8)

/-- `gcry_cipher_encrypt` on the heap, with room for the output: the code it returns. -/
def gcryCipherEncrypt (handle : CipherHandle) (out input : Ptr) (size : ℕ) : Prog ℕ := do
  let o ← Block.byteArrays.read out
  let d ← Block.byteArrays.read input
  if size ≤ o.length ∧ size ≤ d.length then
    match cipher.encrypt handle (d.take size) with
    | .ok output => do
      store out (.bytes (output ++ o.drop size))
      pure 0
    | .error code => pure code
  else
    Exec.fault (.outOfBounds (if size ≤ o.length then input else out))

/-- The handle for an entry, with the key fetched into the array at `key`. -/
def setUpCipher (entry key : Ptr) : Prog CipherHandle := do
  shGetKey entry key
  let e ← Block.entries.read entry
  let policy ← shGetProtectionPolicy e.protection >>= deref
  let n ← shGetKeySize e.protection >>= use
  let k ← Block.byteArrays.read key
  if n ≤ k.length then
    pure ⟨policy.cipherPolicy.algorithm, policy.cipherPolicy.mode, policy.cipherPolicy.flag, k.take n, iv⟩
  else
    Exec.fault (.outOfBounds key)

/-- `sh_encrypt_segment` up to the cipher: the local array of the key, and the handle. -/
def openCipher (entry : Ptr) : Prog (Ptr × CipherHandle) := do
  let e ← Block.entries.read entry
  let n ← shGetKeySize e.protection >>= use
  let key ← newLocal (.bytes (resize [] n keyFill))
  let handle ← setUpCipher iv entry key
  pure (key, handle)

/-- The rest of it: `out` is an array of as many pointers as the segment has bytes. -/
def encryptUnder (handle : CipherHandle) (segment : Ptr) : Prog Unit := do
  let x ← Block.descriptors.read segment
  let out ← newLocal (.bytes (resize [] (sizeofPointer * x.size) outFill))
  let x ← Block.descriptors.read segment
  let retcode ← gcryCipherEncrypt cipher handle out x.address x.size
  if retcode = 0 then
    shErrorGcry retcode
  else
    pure ()
  endLocal out

def shEncryptSegment (segment entry : Ptr) : Prog Unit := do
  let r ← openCipher iv keyFill entry
  encryptUnder cipher outFill r.2 segment
  endLocal r.1

end Encrypt

/-! ### A new key -/

/-- `fread(p, size, 1, f)`, for a file that goes on with `source`, if it has been opened: the number of
items read, of `size` bytes each. -/
def fread (p : Ptr) (size : ℕ) : Option (List UInt8) → Prog ℕ
  | none => Exec.fault .nullDeref
  | some source => do
    let d ← Block.byteArrays.read p
    if (source.take size).length ≤ d.length then
      store p (.bytes (source.take size ++ d.drop (source.take size).length))
      pure (if 0 < size ∧ size ≤ source.length then 1 else 0)
    else
      Exec.fault (.outOfBounds p)

/-- A key from the source of random bytes. -/
def drawKey (urandom : Option (List UInt8)) (key : Ptr) (keySize : ℕ) : Prog Unit := do
  -- a number of items is compared with a number of bytes
  let items ← fread key keySize urandom
  if items < keySize then
    shError
  else
    pure ()

/-- The address of the resized block stays in the parameter, and the size is returned in any case. -/
def shGenerateKey (urandom : Option (List UInt8)) (key : Ptr) (protection : ShProtectionGrade) : Prog ℕ := do
  let keySize ← shGetKeySize protection >>= use
  let key ← shInternalRealloc key (.bytes keySize)
  let policy ← shGetProtectionPolicy protection >>= deref
  match policy.cipherPolicy.keyStoreType with
  | .tpmStore =>
    let g ← globals
    -- what should be done with a TPM breaks off in the middle of a name
    let _ ← if g.tpmEnabled then shTpmAvailable >>= use else pure false
    pure keySize
  | .memoryStore =>
    drawKey urandom key keySize
    pure keySize

end SafeHeap
