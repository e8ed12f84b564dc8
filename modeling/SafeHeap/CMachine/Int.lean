import Mathlib.Data.Nat.Notation
import Mathlib.Data.Int.Notation
import Mathlib.Algebra.Order.Floor.Div
import Mathlib.Algebra.BigOperators.Group.List.Basic
import Mathlib.Tactic.Ring
import Mathlib.Tactic.Linarith

/-!
# Machine integers, and cutting a length into chunks

* `toInt`, `toSize` — the conversions of C to `int` (32 bits, two's complement) and to `size_t`
  (64 bits), which every arithmetic result goes through;
* `chunks k n` — a length `n` cut into chunks of `k`: as many full ones as fit and the rest. Its
  chunks add up to `n`, there are `⌈n / k⌉` of them, and all are full exactly when `k` divides `n`.
-/

namespace CMachine

/-! ### Conversions -/

/-- The largest `int`. -/
def INT_MAX : ℕ := 2147483647

/-- The number of values of a `size_t`. -/
def SIZE_RANGE : ℕ := 18446744073709551616

/-- Conversion to `int`. -/
def toInt (n : ℤ) : ℤ := (n + 2147483648) % 4294967296 - 2147483648

/-- Conversion to `size_t`. -/
def toSize (n : ℤ) : ℕ := (n % 18446744073709551616).toNat

theorem toInt_of_range {n : ℤ} (h₁ : -2147483648 ≤ n) (h₂ : n ≤ INT_MAX) : toInt n = n := by
  unfold toInt
  unfold INT_MAX at h₂
  omega

theorem toInt_le (n : ℤ) : toInt n ≤ INT_MAX := by
  unfold toInt INT_MAX
  omega

theorem toSize_lt (n : ℤ) : toSize n < SIZE_RANGE := by
  unfold toSize SIZE_RANGE
  omega

theorem lt_sizeRange {n : ℕ} (h : n ≤ INT_MAX) : n < SIZE_RANGE := by
  unfold INT_MAX at h
  unfold SIZE_RANGE
  omega

theorem toSize_natCast (n : ℕ) : toSize n = n % SIZE_RANGE := by
  unfold toSize SIZE_RANGE
  omega

theorem toSize_of_lt {n : ℕ} (h : n < SIZE_RANGE) : toSize n = n := by
  rw [toSize_natCast, Nat.mod_eq_of_lt h]

theorem toSize_add_of_lt {m n : ℕ} (h : m + n < SIZE_RANGE) : toSize ((m : ℤ) + n) = m + n := by
  rw [← Nat.cast_add, toSize_of_lt h]

/-- A conversion to `size_t` on the way to `int` changes nothing. -/
theorem toInt_toSize (n : ℤ) : toInt (toSize n) = toInt n := by
  unfold toInt toSize
  omega

theorem toInt_lt_of_big {n : ℕ} (h : INT_MAX < n) : toInt n + 2147483648 ≤ n := by
  unfold toInt
  unfold INT_MAX at h
  omega

/-! ### Chunks -/

/-- A length cut into chunks of `k`: the full ones, then the rest. -/
def chunks (k n : ℕ) : List ℕ := List.replicate (n / k) k ++ if n % k = 0 then [] else [n % k]

section Chunks

variable {k n : ℕ}

theorem chunks_zero : chunks k 0 = [] := by simp [chunks]

theorem chunks_of_le (hk : 0 < k) (h : k ≤ n) : chunks k n = k :: chunks k (n - k) := by
  have hd : n / k = (n - k) / k + 1 := Nat.div_eq_sub_div hk h
  have hm : n % k = (n - k) % k := Nat.mod_eq_sub_mod h
  unfold chunks
  rw [hd, hm, List.replicate_succ, List.cons_append]

theorem chunks_of_lt (h0 : 0 < n) (h : n < k) : chunks k n = [n] := by
  unfold chunks
  rw [Nat.div_eq_of_lt h, Nat.mod_eq_of_lt h, if_neg (by omega)]
  rfl

/-- **The chunks add up to the length.** -/
theorem sum_chunks (k n : ℕ) : (chunks k n).sum = n := by
  have h := Nat.div_add_mod n k
  unfold chunks
  split
  · rw [List.append_nil, List.sum_replicate, smul_eq_mul, Nat.mul_comm]
    omega
  · rw [List.sum_append, List.sum_replicate, smul_eq_mul, Nat.mul_comm, List.sum_singleton]
    exact h

theorem length_chunks (hk : 0 < k) (n : ℕ) : (chunks k n).length = n ⌈/⌉ k := by
  have h := Nat.div_add_mod n k
  rw [Nat.ceilDiv_eq_add_pred_div]
  unfold chunks
  split
  · next h0 =>
    rw [List.append_nil, List.length_replicate]
    refine (Nat.div_eq_of_lt_le ?_ ?_).symm
    · rw [Nat.mul_comm]; omega
    · rw [Nat.add_mul, Nat.mul_comm]; omega
  · next h0 =>
    have hlt := Nat.mod_lt n hk
    rw [List.length_append, List.length_replicate, List.length_singleton]
    refine (Nat.div_eq_of_lt_le ?_ ?_).symm
    · rw [Nat.add_mul, Nat.mul_comm]; omega
    · rw [Nat.add_mul, Nat.add_mul, Nat.mul_comm]; omega

/-- All chunks are full exactly when the chunk length divides the length. -/
theorem chunks_eq_replicate_iff (hk : 0 < k) : chunks k n = List.replicate (n ⌈/⌉ k) k ↔ k ∣ n := by
  constructor
  · intro h
    have hs := sum_chunks k n
    rw [h, List.sum_replicate, smul_eq_mul] at hs
    exact ⟨_, by rw [Nat.mul_comm]; exact hs.symm⟩
  · intro h
    have h0 : n % k = 0 := Nat.mod_eq_zero_of_dvd h
    have hl := length_chunks hk n
    unfold chunks at hl ⊢
    rw [if_pos h0, List.append_nil] at hl ⊢
    rw [List.length_replicate] at hl
    rw [hl]

theorem ceilDiv_of_pos (hk : 0 < k) (h0 : 0 < n) : n ⌈/⌉ k = (n - k) ⌈/⌉ k + 1 := by
  rw [← length_chunks hk, ← length_chunks hk]
  rcases Nat.lt_or_ge n k with hlt | hge
  · rw [chunks_of_lt h0 hlt, Nat.sub_eq_zero_of_le hlt.le, chunks_zero]
    rfl
  · rw [chunks_of_le hk hge, List.length_cons]

/-- Full chunks in the place of all chunks cover the length, and by less than one chunk too much. -/
theorem le_ceilDiv_mul (hk : 0 < k) (n : ℕ) : n ≤ (n ⌈/⌉ k) * k ∧ (n ⌈/⌉ k) * k < n + k := by
  have h := Nat.div_add_mod (n + k - 1) k
  have hlt := Nat.mod_lt (n + k - 1) hk
  rw [Nat.ceilDiv_eq_add_pred_div, Nat.mul_comm]
  omega

end Chunks

end CMachine
