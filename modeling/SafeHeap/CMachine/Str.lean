import Mathlib.Data.Nat.Notation
import Mathlib.Data.List.TakeWhile
import Mathlib.Tactic.Common

/-!
# Byte arrays and the strings of C in them

* `resize l n fill` — an array resized to `n` units, the new ones as `fill` says;
* `cstr l` — the string an array holds: what stands before its first zero, where there is one;
* `strcat dst src` — the array `dst` with the string of `src` appended to its string, where both
  hold a string and the result with its terminator has room in `dst`;
* `strcpy dst src` — the array `dst` with the string of `src` and its terminator over its start.

A string with its terminator splits its array as `s ++ 0 :: rest` (`cstr_eq_some`), and in that
form `strcat` eats into `rest` (`strcat_split`).
-/

namespace CMachine

section Resize

variable {α : Type}

/-- An array resized to `n` units; unit `i`, where it is new, is `fill i`. -/
def resize (l : List α) (n : ℕ) (fill : ℕ → α) : List α :=
  l.take n ++ (List.range (n - l.length)).map fun i => fill (l.length + i)

@[simp] theorem length_resize (l : List α) (n : ℕ) (fill : ℕ → α) : (resize l n fill).length = n := by
  simp only [resize, List.length_append, List.length_take, List.length_map, List.length_range]
  omega

theorem resize_of_le {l : List α} {n : ℕ} (h : n ≤ l.length) (fill : ℕ → α) : resize l n fill = l.take n := by
  have h0 : n - l.length = 0 := by omega
  simp [resize, h0]

theorem resize_of_ge {l : List α} {n : ℕ} (h : l.length ≤ n) (fill : ℕ → α) :
    resize l n fill = l ++ (List.range (n - l.length)).map fun i => fill (l.length + i) := by
  rw [resize, List.take_of_length_le h]

theorem resize_nil (n : ℕ) (fill : ℕ → α) : resize [] n fill = (List.range n).map fill := by
  simp [resize]

end Resize

section Strings

variable {α : Type} [Zero α] [DecidableEq α]

/-- The string an array holds, without its terminator. -/
def cstr (l : List α) : Option (List α) :=
  if (0 : α) ∈ l then some (l.takeWhile (· ≠ 0)) else none

/-- Append the string of one array to the string of another. -/
def strcat (dst src : List α) : Option (List α) :=
  match cstr dst, cstr src with
  | some d, some s =>
    if d.length + s.length < dst.length then
      some (d ++ s ++ 0 :: dst.drop (d.length + s.length + 1))
    else none
  | _, _ => none

/-- Put the string of one array over the start of another. -/
def strcpy (dst src : List α) : Option (List α) :=
  match cstr src with
  | some s => if s.length < dst.length then some (s ++ 0 :: dst.drop (s.length + 1)) else none
  | none => none

theorem takeWhile_ne_zero_split {s rest : List α} (hs : (0 : α) ∉ s) :
    (s ++ 0 :: rest).takeWhile (· ≠ 0) = s := by
  rw [List.takeWhile_append_of_pos]
  · simp
  · intro a ha
    have : a ≠ 0 := fun h => hs (h ▸ ha)
    simp [this]

/-- **An array holds the string** that it starts with, up to a zero. -/
theorem cstr_eq_some {l s : List α} : cstr l = some s ↔ (0 : α) ∉ s ∧ ∃ rest, l = s ++ 0 :: rest := by
  constructor
  · intro h
    unfold cstr at h
    split at h
    · next h0 =>
      obtain ⟨pre, rest, rfl, hpre⟩ := List.eq_append_cons_of_mem h0
      rw [takeWhile_ne_zero_split hpre] at h
      cases h
      exact ⟨hpre, rest, rfl⟩
    · cases h
  · rintro ⟨hs, rest, rfl⟩
    unfold cstr
    rw [if_pos (by simp), takeWhile_ne_zero_split hs]

theorem cstr_split {s : List α} (hs : (0 : α) ∉ s) (rest : List α) : cstr (s ++ 0 :: rest) = some s :=
  cstr_eq_some.2 ⟨hs, rest, rfl⟩

theorem cstr_eq_none {l : List α} : cstr l = none ↔ (0 : α) ∉ l := by
  unfold cstr
  split
  · next h => simp [h]
  · next h => simp [h]

theorem length_lt_of_cstr {l s : List α} (h : cstr l = some s) : s.length < l.length := by
  obtain ⟨-, rest, rfl⟩ := cstr_eq_some.1 h
  simp

theorem cstr_take {l s : List α} (h : cstr l = some s) (n : ℕ) :
    cstr (l.take n) = if s.length < n then some s else none := by
  obtain ⟨hs, rest, rfl⟩ := cstr_eq_some.1 h
  split
  · next hn =>
    have he : (s ++ 0 :: rest).take n = s ++ 0 :: rest.take (n - s.length - 1) := by
      rw [List.take_append, List.take_of_length_le (by omega)]
      obtain ⟨m, hm⟩ : ∃ m, n - s.length = m + 1 := ⟨n - s.length - 1, by omega⟩
      rw [hm]
      rfl
    rw [he]
    exact cstr_split hs _
  · next hn =>
    rw [List.take_append_of_le_length (by omega), cstr_eq_none]
    exact fun h0 => hs (List.mem_of_mem_take h0)

/-- A resized array holds the string it held, if the terminator is still in it. -/
theorem cstr_resize {l s : List α} (h : cstr l = some s) {n : ℕ} (hn : s.length < n) (fill : ℕ → α) :
    cstr (resize l n fill) = some s := by
  have ht := cstr_take h n
  rw [if_pos hn] at ht
  obtain ⟨hs, rest, he⟩ := cstr_eq_some.1 ht
  unfold resize
  rw [he, List.append_assoc, List.cons_append]
  exact cstr_split hs _

theorem cstr_resize_of_le {l s : List α} (h : cstr l = some s) {n : ℕ} (hn : n ≤ s.length) (fill : ℕ → α) :
    cstr (resize l n fill) = none := by
  have hl := length_lt_of_cstr h
  rw [resize_of_le (by omega), cstr_take h, if_neg (by omega)]

/-- **Appending**: the string of `src` and a terminator overwrite what stood behind the string of
`dst`; the rest of the array stays. -/
theorem strcat_split {d s : List α} (hd : (0 : α) ∉ d) {src : List α} (hs : cstr src = some s)
    {rest : List α} (hfit : s.length ≤ rest.length) :
    strcat (d ++ 0 :: rest) src = some ((d ++ s) ++ 0 :: rest.drop s.length) := by
  have hlt : d.length + s.length < (d ++ 0 :: rest).length := by simp; omega
  have hdrop : (d ++ 0 :: rest).drop (d.length + s.length + 1) = rest.drop s.length := by
    rw [List.drop_append, List.drop_of_length_le (by omega)]
    have e : d.length + s.length + 1 - d.length = s.length + 1 := by omega
    rw [e]
    rfl
  unfold strcat
  rw [cstr_split hd, hs]
  simp only [hlt, if_true, hdrop]

theorem length_strcat {dst src l : List α} (h : strcat dst src = some l) : l.length = dst.length := by
  unfold strcat at h
  split at h
  · split at h
    · next hlt =>
      cases h
      simp only [List.length_append, List.length_cons, List.length_drop]
      omega
    · cases h
  · cases h

/-- **When appending is possible**, and the string that it leaves. -/
theorem strcat_isSome_iff {dst src d : List α} (hd : cstr dst = some d) :
    (strcat dst src).isSome ↔ ∃ s, cstr src = some s ∧ d.length + s.length < dst.length := by
  unfold strcat
  rw [hd]
  rcases cstr src with _ | s
  · simp
  · by_cases h : d.length + s.length < dst.length
    · simp [h]
    · simp [h]

theorem cstr_strcat {dst src l d s : List α} (h : strcat dst src = some l) (hd : cstr dst = some d)
    (hs : cstr src = some s) : cstr l = some (d ++ s) := by
  unfold strcat at h
  rw [hd, hs] at h
  simp only at h
  split at h
  · cases h
    refine cstr_split ?_ _
    have h1 := (cstr_eq_some.1 hd).1
    have h2 := (cstr_eq_some.1 hs).1
    simp [h1, h2]
  · cases h

theorem drop_append_cons {β : Type} (s rest : List β) (b : β) : (s ++ b :: rest).drop (s.length + 1) = rest := by
  rw [List.append_cons]
  exact List.drop_left' (by simp)

theorem strcpy_eq_some {dst src l : List α} : strcpy dst src = some l ↔
    ∃ s, cstr src = some s ∧ s.length < dst.length ∧ l = s ++ 0 :: dst.drop (s.length + 1) := by
  unfold strcpy
  rcases cstr src with _ | s
  · simp
  · by_cases h : s.length < dst.length
    · simp [h, eq_comm]
    · simp [h]

/-- **When copying leaves a given array behind**: the string is that of the array, and what stands
behind its terminator is there already. -/
theorem strcpy_eq_some_iff_of_length {dst src l : List α} (hl : l.length = dst.length) :
    strcpy dst src = some l ↔
      ∃ s, cstr src = some s ∧ cstr l = some s ∧ dst.drop (s.length + 1) = l.drop (s.length + 1) := by
  rw [strcpy_eq_some]
  constructor
  · rintro ⟨s, hs, hlt, rfl⟩
    exact ⟨s, hs, cstr_split (cstr_eq_some.1 hs).1 _, (drop_append_cons s _ _).symm⟩
  · rintro ⟨s, hs, hls, hrest⟩
    have hlt := length_lt_of_cstr hls
    obtain ⟨-, rest, rfl⟩ := cstr_eq_some.1 hls
    exact ⟨s, hs, by omega, by rw [hrest, drop_append_cons]⟩

/-- **When copying changes nothing**: when both arrays hold one string. -/
theorem strcpy_eq_self_iff {dst src : List α} :
    strcpy dst src = some dst ↔ ∃ s, cstr src = some s ∧ cstr dst = some s := by
  rw [strcpy_eq_some_iff_of_length rfl]
  exact exists_congr fun s => by simp

end Strings

end CMachine
