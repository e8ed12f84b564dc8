import SafeHeap.Protect

/-!
# The parameters of the ciphers (`sh_crypto.c`)
-/

namespace SafeHeap

open CMachine

/-- What `sh_get_cipher_outsize_diff` makes of a row: it returns, whatever the mode. -/
def pickOutsizeDiff (row : ShCipherOutsizeDiff) : Option ℕ := some row.deIncRecommend

/-- How much longer a ciphertext is. Nothing is returned behind the loop. -/
def shGetCipherOutsizeDiff (_algorithm _mode : ℤ) : Prog (Option ℕ) := do
  let g ← globals
  scan g.shCiphertextSzDiffTable pickOutsizeDiff (sizeofOutsizeDiff * g.shCiphertextSzDiffTable.length) 0

/-- What `sh_get_key_size` makes of a row. -/
def pickKeySize (algorithm : ℤ) (row : AlgoKeySize) : Option ℕ :=
  if algorithm = row.algorithm then some row.szMax else none

/-- The key size of an algorithm; `none` is the local variable that was never assigned. -/
def keySizeOf (algorithm : ℤ) : Prog (Option ℕ) := do
  let g ← globals
  scan g.keySizeTable (pickKeySize algorithm) (sizeofAlgoKeySize * g.keySizeTable.length) 0

def shGetKeySize (protection : ShProtectionGrade) : Prog (Option ℕ) := do
  let protectionPolicy ← shGetProtectionPolicy protection >>= deref
  keySizeOf protectionPolicy.cipherPolicy.algorithm

section Keeps

variable {R : State → State → Prop} [Std.Refl R] [IsTrans State R]

lemma keeps_shGetCipherOutsizeDiff (algorithm mode : ℤ) :
    Exec.Keeps R (shGetCipherOutsizeDiff algorithm mode) :=
  keeps_globals.bind fun _ => keeps_scan _ _ _ _

lemma keeps_shGetKeySize (p : ShProtectionGrade) : Exec.Keeps R (shGetKeySize p) := by
  refine ((keeps_shGetProtectionPolicy p).bind fun o => keeps_deref o).bind fun policy => ?_
  exact keeps_globals.bind fun _ => keeps_scan _ _ _ _

end Keeps

end SafeHeap
