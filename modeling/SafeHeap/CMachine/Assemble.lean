import Mathlib.Algebra.GroupWithZero.Nat
import Mathlib.Algebra.Order.BigOperators.Group.List
import Mathlib.Algebra.Order.Group.Nat
import SafeHeap.CMachine.Str

/-!
# Assembling strings in a buffer that is resized as it goes

A buffer (`none` for `NULL`) takes one piece after the other: it is resized, if the allocator grants
it, and the string of the piece is appended. `assemble` says what comes of it, or `none` where a string
does not fit into the buffer, or is not terminated.

* `assemble_isSome_iff` — when all goes well: every piece is terminated, and at every piece the strings
  so far fit into the buffer as it then is;
* `cstr_assemble` — the string that the buffer holds in the end is that of all pieces;
* `assemble_null_eq_iff` — when the buffer ends up as a given array, of which the first piece is the
  start.
-/

namespace CMachine

variable {α : Type}

/-- A piece: the fresh memory of the resize, if that is granted, the size asked for, and the array
with the string. -/
structure Piece (α : Type) where
  fill : Option (ℕ → α)
  size : ℕ
  src : List α

namespace Piece

/-- The buffer after the resize. -/
def room (p : Piece α) (buf : Option (List α)) : Option (List α) :=
  match p.fill with
  | some f => some (resize (buf.getD []) p.size f)
  | none => buf

/-- The length of the buffer after the resize, if it was `cap` before. -/
def capacity (p : Piece α) (cap : ℕ) : ℕ := if p.fill.isSome then p.size else cap

lemma room_of_fill {p : Piece α} {f : ℕ → α} (hf : p.fill = some f) (buf : Option (List α)) :
    p.room buf = some (resize (buf.getD []) p.size f) := by
  unfold room
  rw [hf]

lemma room_of_refused {p : Piece α} (hf : p.fill = none) (buf : Option (List α)) : p.room buf = buf := by
  unfold room
  rw [hf]

lemma length_room {p : Piece α} {buf : Option (List α)} {l : List α} (h : p.room buf = some l) :
    l.length = p.capacity (buf.getD []).length := by
  unfold capacity
  rcases hf : p.fill with _ | f
  · rw [room_of_refused hf] at h
    rw [h]
    rfl
  · rw [room_of_fill hf] at h
    cases h
    simp

end Piece

variable [Zero α] [DecidableEq α]

/-- The length of the string an array holds. -/
def strlen (l : List α) : ℕ := (l.takeWhile (· ≠ 0)).length

lemma strlen_of_cstr {l s : List α} (h : cstr l = some s) : strlen l = s.length := by
  obtain ⟨hs, rest, rfl⟩ := cstr_eq_some.1 h
  rw [strlen, takeWhile_ne_zero_split hs]

lemma exists_cstr {l : List α} (h : (0 : α) ∈ l) : ∃ s, cstr l = some s := by
  unfold cstr
  rw [if_pos h]
  exact ⟨_, rfl⟩

lemma zero_mem_of_cstr {l s : List α} (h : cstr l = some s) : (0 : α) ∈ l := by
  obtain ⟨-, rest, rfl⟩ := cstr_eq_some.1 h
  simp

/-- The buffer after a piece. -/
def Piece.appendTo (p : Piece α) (buf : Option (List α)) : Option (List α) :=
  (p.room buf).bind fun l => strcat l p.src

/-- The buffer after all pieces. -/
def assemble : Option (List α) → List (Piece α) → Option (Option (List α))
  | buf, [] => some buf
  | buf, p :: ps => (p.appendTo buf).bind fun l => assemble (some l) ps

lemma assemble_cons (buf : Option (List α)) (p : Piece α) (ps : List (Piece α)) :
    assemble buf (p :: ps) = (p.appendTo buf).bind fun l => assemble (some l) ps := rfl

/-- The length of the buffer after pieces, if it was `cap` before. -/
def capacityAfter (cap : ℕ) (ps : List (Piece α)) : ℕ := ps.foldl (fun cap p => p.capacity cap) cap

/-- Every piece is terminated, and at every piece the strings so far fit into the buffer, in which
there was a string of length `z` before. -/
def Fits (z cap : ℕ) (ps : List (Piece α)) : Prop :=
  ∀ j (h : j < ps.length), (0 : α) ∈ ps[j].src ∧
    z + ((ps.take (j + 1)).map fun p => strlen p.src).sum < capacityAfter cap (ps.take (j + 1))

lemma fits_nil (z cap : ℕ) : Fits z cap ([] : List (Piece α)) := fun j h => absurd h (Nat.not_lt_zero j)

lemma fits_cons {z cap : ℕ} {p : Piece α} {ps : List (Piece α)} : Fits z cap (p :: ps) ↔
    ((0 : α) ∈ p.src ∧ z + strlen p.src < p.capacity cap) ∧ Fits (z + strlen p.src) (p.capacity cap) ps := by
  constructor
  · intro h
    refine ⟨?_, fun j hj => ?_⟩
    · have h0 := h 0 (by simp)
      simpa [capacityAfter] using h0
    · have hj' := h (j + 1) (by simpa using hj)
      simpa [capacityAfter, Nat.add_assoc] using hj'
  · rintro ⟨h0, h⟩ j hj
    cases j with
    | zero => simpa [capacityAfter] using h0
    | succ j =>
      have hj' := h j (by simpa using hj)
      simpa [capacityAfter, Nat.add_assoc] using hj'

lemma length_appendTo {p : Piece α} {buf : Option (List α)} {l : List α} (h : p.appendTo buf = some l) :
    l.length = p.capacity (buf.getD []).length := by
  unfold Piece.appendTo at h
  rcases hr : p.room buf with _ | l₁
  · rw [hr] at h
    cases h
  · rw [hr, Option.bind_some] at h
    rw [length_strcat h, Piece.length_room hr]

lemma exists_of_assemble : ∀ {ps : List (Piece α)} {l : List α} {buf : Option (List α)},
    assemble (some l) ps = some buf → ∃ l', buf = some l' := by
  intro ps
  induction ps with
  | nil =>
    intro l buf h
    cases h
    exact ⟨l, rfl⟩
  | cons p ps ih =>
    intro l buf h
    rw [assemble_cons] at h
    rcases hp : p.appendTo (some l) with _ | l₁
    · rw [hp] at h
      cases h
    · rw [hp, Option.bind_some] at h
      exact ih h

lemma length_assemble : ∀ {ps : List (Piece α)} {buf : Option (List α)} {l : List α},
    assemble buf ps = some (some l) → l.length = capacityAfter (buf.getD []).length ps := by
  intro ps
  induction ps with
  | nil =>
    intro buf l h
    cases h
    rfl
  | cons p ps ih =>
    intro buf l h
    rw [assemble_cons] at h
    rcases hp : p.appendTo buf with _ | l₁
    · rw [hp] at h
      cases h
    · rw [hp, Option.bind_some] at h
      rw [ih h, Option.getD_some, length_appendTo hp]
      rfl

omit [Zero α] [DecidableEq α] in
lemma capacityAfter_lt {N : ℕ} : ∀ {ps : List (Piece α)} {cap : ℕ}, cap < N → (∀ p ∈ ps, p.size < N) →
    capacityAfter cap ps < N := by
  intro ps
  induction ps with
  | nil => exact fun hcap _ => hcap
  | cons p ps ih =>
    intro cap hcap hps
    refine ih ?_ fun q hq => hps q (List.mem_cons_of_mem _ hq)
    show p.capacity cap < N
    unfold Piece.capacity
    split
    · exact hps p List.mem_cons_self
    · exact hcap

lemma appendTo_isSome_iff {l d : List α} (hd : cstr l = some d) (p : Piece α) :
    (p.appendTo (some l)).isSome ↔ (0 : α) ∈ p.src ∧ d.length + strlen p.src < p.capacity l.length := by
  have hl := length_lt_of_cstr hd
  -- the string is still there, unless the buffer has been cut
  obtain ⟨l', hl', hcstr⟩ : ∃ l', p.room (some l) = some l' ∧
      (cstr l' = some d ∨ (cstr l' = none ∧ l'.length ≤ d.length)) := by
    rcases hf : p.fill with _ | f
    · exact ⟨l, Piece.room_of_refused hf _, Or.inl hd⟩
    · refine ⟨_, Piece.room_of_fill hf _, ?_⟩
      rw [Option.getD_some, length_resize]
      rcases Nat.lt_or_ge d.length p.size with hlt | hge
      · exact Or.inl (cstr_resize hd hlt f)
      · exact Or.inr ⟨cstr_resize_of_le hd hge f, hge⟩
  have hlen := Piece.length_room hl'
  rw [Option.getD_some] at hlen
  rw [Piece.appendTo, hl', Option.bind_some, ← hlen]
  rcases hcstr with h | ⟨h, hle⟩
  · rw [strcat_isSome_iff h]
    constructor
    · rintro ⟨s, hs, hfit⟩
      exact ⟨zero_mem_of_cstr hs, by rwa [strlen_of_cstr hs]⟩
    · rintro ⟨h0, hfit⟩
      obtain ⟨s, hs⟩ := exists_cstr h0
      rw [strlen_of_cstr hs] at hfit
      exact ⟨s, hs, hfit⟩
  · have hnone : strcat l' p.src = none := by
      unfold strcat
      rw [h]
    rw [hnone]
    constructor
    · intro h0
      cases h0
    · rintro ⟨-, hfit⟩
      omega

lemma cstr_appendTo {l l' d : List α} (hd : cstr l = some d) {p : Piece α} (h : p.appendTo (some l) = some l') :
    ∃ s, cstr p.src = some s ∧ cstr l' = some (d ++ s) := by
  have hsome : (p.appendTo (some l)).isSome := by rw [h]; rfl
  obtain ⟨h0, hfit⟩ := (appendTo_isSome_iff hd p).1 hsome
  obtain ⟨s, hs⟩ := exists_cstr h0
  rw [strlen_of_cstr hs] at hfit
  unfold Piece.appendTo at h
  rcases hr : p.room (some l) with _ | l₁
  · rw [hr] at h
    cases h
  · rw [hr, Option.bind_some] at h
    have hlen := Piece.length_room hr
    rw [Option.getD_some] at hlen
    have hcstr : cstr l₁ = some d := by
      rcases hf : p.fill with _ | f
      · rw [Piece.room_of_refused hf] at hr
        cases hr
        exact hd
      · rw [Piece.room_of_fill hf] at hr
        cases hr
        rw [← hlen, length_resize] at hfit
        exact cstr_resize hd (by omega) f
    exact ⟨s, hs, cstr_strcat h hcstr hs⟩

/-- **When all pieces can be taken**, by a buffer with a string. -/
theorem assemble_isSome_iff : ∀ {ps : List (Piece α)} {l d : List α}, cstr l = some d →
    ((assemble (some l) ps).isSome ↔ Fits d.length l.length ps) := by
  intro ps
  induction ps with
  | nil =>
    intro l d _
    exact ⟨fun _ => fits_nil _ _, fun _ => rfl⟩
  | cons p ps ih =>
    intro l d hd
    rw [assemble_cons, fits_cons, ← appendTo_isSome_iff hd]
    rcases hp : p.appendTo (some l) with _ | l'
    · simp
    · obtain ⟨s, hs, hds⟩ := cstr_appendTo hd hp
      have hlen := length_appendTo hp
      rw [Option.getD_some] at hlen
      rw [Option.bind_some, ih hds, hlen, List.length_append, strlen_of_cstr hs]
      simp

/-- **The string in the end**: that of the buffer and those of all pieces. -/
theorem cstr_assemble : ∀ {ps : List (Piece α)} {l d : List α} {buf : Option (List α)}, cstr l = some d →
    assemble (some l) ps = some buf → ∃ l' s, buf = some l' ∧ cstr l' = some (d ++ s) ∧
      s.length = (ps.map fun p => strlen p.src).sum := by
  intro ps
  induction ps with
  | nil =>
    intro l d buf hd h
    cases h
    exact ⟨l, [], rfl, by rwa [List.append_nil], rfl⟩
  | cons p ps ih =>
    intro l d buf hd h
    rw [assemble_cons] at h
    rcases hp : p.appendTo (some l) with _ | l₁
    · rw [hp] at h
      cases h
    · rw [hp, Option.bind_some] at h
      obtain ⟨s, hs, hds⟩ := cstr_appendTo hd hp
      obtain ⟨l', s', rfl, hcstr, hsum⟩ := ih hds h
      refine ⟨l', s ++ s', rfl, by rwa [← List.append_assoc], ?_⟩
      rw [List.length_append, List.map_cons, List.sum_cons, strlen_of_cstr hs, hsum]

/-! ### From `NULL` -/

/-- The first zero of the fresh memory is at `z`. -/
def FirstZero (f : ℕ → α) (z : ℕ) : Prop := f z = 0 ∧ ∀ i < z, f i ≠ 0

lemma cstr_fresh {f : ℕ → α} {n : ℕ} {d : List α} : cstr (resize [] n f) = some d ↔
    d.length < n ∧ FirstZero f d.length ∧ d = (List.range d.length).map f := by
  rw [resize_nil]
  constructor
  · intro h
    have hlt := length_lt_of_cstr h
    obtain ⟨hd, rest, he⟩ := cstr_eq_some.1 h
    rw [List.length_map, List.length_range] at hlt
    have hget : ∀ i < n, (d ++ 0 :: rest)[i]? = some (f i) := by
      intro i hi
      rw [← he, List.getElem?_map, List.getElem?_range hi]
      rfl
    have hin : ∀ i (h : i < d.length), d[i] = f i := by
      intro i hi
      have := hget i (by omega)
      rw [List.getElem?_append_left hi, List.getElem?_eq_getElem hi] at this
      exact Option.some.inj this
    refine ⟨hlt, ⟨?_, fun i hi h0 => hd ?_⟩, ?_⟩
    · have := hget d.length hlt
      rw [List.getElem?_append_right le_rfl, Nat.sub_self] at this
      exact (Option.some.inj this).symm
    · rw [← h0, ← hin i hi]
      exact List.getElem_mem hi
    · refine List.ext_getElem (by simp) fun i h₁ h₂ => ?_
      rw [hin i h₁, List.getElem_map, List.getElem_range]
  · rintro ⟨hlt, ⟨h0, hne⟩, hd⟩
    refine cstr_eq_some.2 ⟨?_, ((List.range n).drop (d.length + 1)).map f, ?_⟩
    · rw [hd]
      intro hmem
      obtain ⟨i, hi, he⟩ := List.mem_map.1 hmem
      exact hne i (List.mem_range.1 hi) he
    · have htake : (List.range n).take d.length = List.range d.length := by
        rw [List.take_range, min_eq_left (by omega)]
      have hdrop : (List.range n).drop d.length = d.length :: (List.range n).drop (d.length + 1) := by
        rw [List.drop_eq_getElem_cons (by simpa using hlt), List.getElem_range]
      conv_lhs => rw [← List.take_append_drop d.length (List.range n), htake, hdrop]
      rw [List.map_append, List.map_cons, h0, ← hd]

/-- Taking the first piece with its fresh memory is taking it into the array that memory makes. -/
lemma assemble_null_eq {p : Piece α} {f : ℕ → α} (hf : p.fill = some f) (ps : List (Piece α)) :
    assemble none (p :: ps) = assemble (some (resize [] p.size f)) (p :: ps) := by
  have hresize : resize (resize [] p.size f) p.size f = resize [] p.size f := by
    rw [resize_of_le (by rw [length_resize]), List.take_of_length_le (by rw [length_resize])]
  have hsame : p.appendTo none = p.appendTo (some (resize [] p.size f)) := by
    rw [Piece.appendTo, Piece.appendTo, Piece.room_of_fill hf, Piece.room_of_fill hf, Option.getD_some, hresize]
    rfl
  rw [assemble_cons, assemble_cons, hsame]

/-- **When all pieces can be taken**, starting from `NULL`: the first resize is granted, and its fresh
memory holds a string, with which the pieces fit. -/
theorem assemble_null_isSome_iff {p : Piece α} {ps : List (Piece α)} :
    (assemble none (p :: ps)).isSome ↔ ∃ f z, p.fill = some f ∧ FirstZero f z ∧ Fits z 0 (p :: ps) := by
  rcases hf : p.fill with _ | f
  · have hnone : p.appendTo none = none := by
      rw [Piece.appendTo, Piece.room_of_refused hf]
      rfl
    rw [assemble_cons, hnone]
    simp
  have hcap : ∀ cap, p.capacity cap = p.size := fun cap => by
    unfold Piece.capacity
    rw [hf]
    rfl
  rw [assemble_null_eq hf]
  rcases hd : cstr (resize [] p.size f) with _ | d
  · -- the fresh memory holds no string
    have hroom : p.room (some (resize [] p.size f)) = some (resize [] p.size f) := by
      rw [Piece.room_of_fill hf, Option.getD_some, resize_of_le (by rw [length_resize]),
        List.take_of_length_le (by rw [length_resize])]
    have hnone : p.appendTo (some (resize [] p.size f)) = none := by
      rw [Piece.appendTo, hroom, Option.bind_some]
      unfold strcat
      rw [hd]
    rw [assemble_cons, hnone]
    constructor
    · intro h
      cases h
    · rintro ⟨f', z, hf', hz, hfits⟩
      cases hf'
      exfalso
      obtain ⟨⟨-, hlt⟩, -⟩ := fits_cons.1 hfits
      rw [hcap] at hlt
      have hstr : cstr (resize [] p.size f) = some ((List.range z).map f) :=
        cstr_fresh.2 ⟨by simp; omega, by simpa using hz, by simp⟩
      rw [hd] at hstr
      cases hstr
  · obtain ⟨hlt, hz, -⟩ := cstr_fresh.1 hd
    have hfits : Fits d.length p.size (p :: ps) ↔ Fits d.length 0 (p :: ps) := by
      rw [fits_cons, fits_cons, hcap, hcap]
    rw [assemble_isSome_iff hd, length_resize, hfits]
    constructor
    · intro h
      exact ⟨f, d.length, rfl, hz, h⟩
    · rintro ⟨f', z, hf', hz', h⟩
      cases hf'
      -- there is only one first zero
      have hzd : z = d.length := by
        rcases Nat.lt_trichotomy z d.length with h1 | h1 | h1
        · exact absurd hz'.1 (hz.2 z h1)
        · exact h1
        · exact absurd hz.1 (hz'.2 _ h1)
      rwa [← hzd]

/-! ### What the fresh memory leaves -/

/-- Every resize is granted, and none makes the buffer shorter. -/
def Growing : ℕ → List (Piece α) → Prop
  | _, [] => True
  | n, p :: ps => p.fill.isSome ∧ n ≤ p.size ∧ Growing p.size ps

/-- The buffer that the resizes alone would make. -/
def freshAfter (l : List α) (ps : List (Piece α)) : List α :=
  ps.foldl (fun l p => (p.room (some l)).getD []) l

omit [Zero α] [DecidableEq α] in
lemma freshAfter_cons {p : Piece α} {f : ℕ → α} (hf : p.fill = some f) (l : List α) (ps : List (Piece α)) :
    freshAfter l (p :: ps) = freshAfter (resize l p.size f) ps := by
  show freshAfter ((p.room (some l)).getD []) ps = _
  rw [Piece.room_of_fill hf]
  rfl

omit [Zero α] [DecidableEq α] in
/-- A growing buffer keeps what it holds, and what is added does not depend on that. -/
lemma exists_tail : ∀ {ps : List (Piece α)} {n : ℕ}, Growing n ps →
    ∃ tail : List α, ∀ l : List α, l.length = n → freshAfter l ps = l ++ tail := by
  intro ps
  induction ps with
  | nil =>
    intro n _
    exact ⟨[], fun l _ => (List.append_nil l).symm⟩
  | cons p ps ih =>
    rintro n ⟨hsome, hle, hgrow⟩
    obtain ⟨f, hf⟩ := Option.isSome_iff_exists.1 hsome
    obtain ⟨tail, htail⟩ := ih hgrow
    refine ⟨((List.range (p.size - n)).map fun i => f (n + i)) ++ tail, fun l hl => ?_⟩
    subst hl
    rw [freshAfter_cons hf, htail _ (length_resize _ _ _), resize_of_ge hle, List.append_assoc]

lemma assemble_of_empty : ∀ {ps : List (Piece α)} {l d : List α}, cstr l = some d → Growing l.length ps →
    (∀ p ∈ ps, cstr p.src = some []) → assemble (some l) ps = some (some (freshAfter l ps)) := by
  intro ps
  induction ps with
  | nil => intro l d _ _ _; rfl
  | cons p ps ih =>
    rintro l d hd ⟨hsome, hle, hgrow⟩ hempty
    obtain ⟨f, hf⟩ := Option.isSome_iff_exists.1 hsome
    have hlt := length_lt_of_cstr hd
    have hd' : cstr (resize l p.size f) = some d := cstr_resize hd (by omega) f
    have happend : p.appendTo (some l) = some (resize l p.size f) := by
      obtain ⟨hd0, rest, he⟩ := cstr_eq_some.1 hd'
      rw [Piece.appendTo, Piece.room_of_fill hf, Option.bind_some, Option.getD_some, he,
        strcat_split hd0 (hempty p List.mem_cons_self) (Nat.zero_le _), List.append_nil]
      rfl
    rw [assemble_cons, happend, Option.bind_some, freshAfter_cons hf]
    refine ih hd' ?_ fun q hq => hempty q (List.mem_cons_of_mem _ hq)
    rwa [length_resize]

/-- What a growing buffer holds in the end if only the first string is not empty, and the fresh memory
starts with a zero. -/
lemma assemble_of_first {p : Piece α} {ps : List (Piece α)} {d : List α} (hgrow : Growing 0 (p :: ps))
    (hd : cstr p.src = some d) (hlt : d.length < p.size) (hempty : ∀ q ∈ ps, cstr q.src = some [])
    (hzero : (freshAfter [] (p :: ps)).head? = some 0) :
    assemble none (p :: ps) = some (some (d ++ 0 :: (freshAfter [] (p :: ps)).drop (d.length + 1))) := by
  obtain ⟨hsome, -, hgrow⟩ := hgrow
  obtain ⟨f, hf⟩ := Option.isSome_iff_exists.1 hsome
  obtain ⟨tail, htail⟩ := exists_tail hgrow
  have hlen : (resize [] p.size f).length = p.size := length_resize _ _ _
  rw [freshAfter_cons hf, htail _ hlen] at hzero ⊢
  -- the fresh memory is `0 :: rest`, and the first string eats into `rest`
  obtain ⟨rest, hrest⟩ : ∃ rest, resize [] p.size f = [] ++ 0 :: rest := by
    rcases hr : resize [] p.size f with _ | ⟨a, rest⟩
    · rw [hr] at hlen
      exact absurd hlen (by simp; omega)
    · rw [hr] at hzero
      cases hzero
      exact ⟨rest, rfl⟩
  have hrlen : rest.length + 1 = p.size := by rw [← hlen, hrest]; rfl
  have happend : p.appendTo none = some (d ++ 0 :: rest.drop d.length) := by
    rw [Piece.appendTo, Piece.room_of_fill hf, Option.bind_some]
    show strcat (resize [] p.size f) p.src = _
    rw [hrest, strcat_split (by simp) hd (by omega), List.nil_append]
  have hd0 := (cstr_eq_some.1 hd).1
  have hlen' : (d ++ 0 :: rest.drop d.length).length = p.size := by
    simp only [List.length_append, List.length_cons, List.length_drop]
    omega
  rw [assemble_cons, happend, Option.bind_some,
    assemble_of_empty (cstr_split hd0 _) (by rwa [hlen']) hempty, htail _ hlen', hrest]
  simp only [List.nil_append, List.cons_append, List.drop_succ_cons, List.append_assoc]
  rw [List.drop_append_of_le_length (by omega)]

/-- **When a growing buffer ends up as `goal`**, an array with the string of the first piece: the other
strings are empty, the fresh memory starts with a zero, and behind the string it happens to hold what
it should. -/
theorem assemble_null_eq_iff {p : Piece α} {ps : List (Piece α)} {goal : List α}
    (hgrow : Growing 0 (p :: ps))
    (hgoal : ∀ d, cstr p.src = some d → d.length < p.size → cstr goal = some d) :
    assemble none (p :: ps) = some (some goal) ↔ ∃ d, cstr p.src = some d ∧ d.length < p.size ∧
      (∀ q ∈ ps, cstr q.src = some []) ∧ (freshAfter [] (p :: ps)).head? = some 0 ∧
        goal.drop (d.length + 1) = (freshAfter [] (p :: ps)).drop (d.length + 1) := by
  obtain ⟨f, hf⟩ := Option.isSome_iff_exists.1 hgrow.1
  have hcap : ∀ cap, p.capacity cap = p.size := fun cap => by
    unfold Piece.capacity
    rw [hf]
    rfl
  have hsplit : ∀ d, cstr goal = some d → goal = d ++ 0 :: goal.drop (d.length + 1) := by
    intro d hd
    obtain ⟨-, rest, rfl⟩ := cstr_eq_some.1 hd
    simp
  constructor
  · intro h
    have hsome : (assemble none (p :: ps)).isSome := by rw [h]; rfl
    obtain ⟨f', z, hf', hz, hfits⟩ := assemble_null_isSome_iff.1 hsome
    rw [hf] at hf'
    cases hf'
    have hfits' := fits_cons.1 hfits
    rw [hcap] at hfits'
    obtain ⟨⟨h0, hlt⟩, hrest⟩ := hfits'
    obtain ⟨d, hd⟩ := exists_cstr h0
    rw [strlen_of_cstr hd] at hlt
    have hdlt : d.length < p.size := by omega
    -- the string in the end is that of the fresh memory and those of all pieces
    have hfresh : cstr (resize [] p.size f) = some ((List.range z).map f) :=
      cstr_fresh.2 ⟨by simp; omega, by simpa using hz, by simp⟩
    rw [assemble_null_eq hf] at h
    obtain ⟨l, s, hl, hcstr, hsum⟩ := cstr_assemble hfresh h
    cases hl
    rw [hgoal d hd hdlt] at hcstr
    have hlen := congrArg (fun o => (o.getD []).length) hcstr
    simp only [Option.getD_some, List.length_append, List.length_map, List.length_range, hsum, List.map_cons,
      List.sum_cons, strlen_of_cstr hd] at hlen
    have hz0 : z = 0 := by omega
    have hempty : ∀ q ∈ ps, cstr q.src = some [] := by
      intro q hq
      have hle := List.single_le_sum (fun n _ => Nat.zero_le n) _
        (List.mem_map_of_mem (f := fun p => strlen p.src) hq)
      obtain ⟨i, hi, rfl⟩ := List.getElem_of_mem hq
      obtain ⟨t, ht⟩ := exists_cstr (hrest i hi).1
      rw [strlen_of_cstr ht] at hle
      rw [ht, List.length_eq_zero_iff.1 (show t.length = 0 by omega)]
    have hzero : (freshAfter [] (p :: ps)).head? = some 0 := by
      obtain ⟨tail, htail⟩ := exists_tail hgrow.2.2
      rw [freshAfter_cons hf, htail _ (length_resize _ _ _), resize_nil]
      obtain ⟨n, hn⟩ : ∃ n, p.size = n + 1 := ⟨p.size - 1, by omega⟩
      rw [hn, List.range_succ_eq_map, List.map_cons, ← hz.1, hz0]
      rfl
    refine ⟨d, hd, hdlt, hempty, hzero, ?_⟩
    rw [← assemble_null_eq hf, assemble_of_first hgrow hd hdlt hempty hzero] at h
    have h' := Option.some.inj (Option.some.inj h)
    rw [← h']
    simp
  · rintro ⟨d, hd, hdlt, hempty, hzero, hdrop⟩
    rw [assemble_of_first hgrow hd hdlt hempty hzero, ← hdrop, ← hsplit d (hgoal d hd hdlt)]

end CMachine
