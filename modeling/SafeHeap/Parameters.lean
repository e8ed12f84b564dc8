import Mathlib.Data.List.Nodup
import SafeHeap.Crypto

/-!
# The parameters of a cipher

`sh_get_key_size` should find the row of the algorithm, and `sh_get_cipher_outsize_diff` that of the
mode; for an algorithm or a mode without a row, they should look at all rows and no others, and answer
zero (`LookupsExact`).

The search for the algorithm runs beyond the table when there is no row, and the other search ends at
the first row, whatever the mode: `lookupsExact_iff` says what is left. The rows that a search reads
are its visits: `shGetKeySize_stops` and `shGetCipherOutsizeDiff_stops`.
-/

namespace SafeHeap

open CMachine

/-- The rows that `sh_get_key_size` reads for an algorithm. -/
def keySizeVisits (s : State) (algorithm : ℤ) : List ℕ :=
  scanVisits s.globals.keySizeTable (pickKeySize algorithm) (sizeofAlgoKeySize * s.globals.keySizeTable.length) 0

/-- The rows that `sh_get_cipher_outsize_diff` reads. -/
def outsizeDiffVisits (s : State) : List ℕ :=
  scanVisits s.globals.shCiphertextSzDiffTable pickOutsizeDiff
    (sizeofOutsizeDiff * s.globals.shCiphertextSzDiffTable.length) 0

/-- **The lookups are exact**, for the row of the policies in force and a mode: each finds the row it is
asked for; where there is none, it reads every row once, and answers zero. -/
structure LookupsExact (s : State) (g : ShProtectionGrade) (policy : ShProtectionPolicy)
    (algorithm mode : ℤ) : Prop where
  keySize : ∀ row ∈ s.globals.keySizeTable, row.algorithm = policy.cipherPolicy.algorithm →
    shGetKeySize g s = (.ok (some row.szMax), s)
  noKeySize : (∀ row ∈ s.globals.keySizeTable, row.algorithm ≠ policy.cipherPolicy.algorithm) →
    shGetKeySize g s = (.ok (some 0), s) ∧
      keySizeVisits s policy.cipherPolicy.algorithm = List.range s.globals.keySizeTable.length
  outsizeDiff : ∀ row ∈ s.globals.shCiphertextSzDiffTable, row.mode = mode →
    shGetCipherOutsizeDiff algorithm mode s = (.ok (some row.deIncRecommend), s)
  noOutsizeDiff : (∀ row ∈ s.globals.shCiphertextSzDiffTable, row.mode ≠ mode) →
    shGetCipherOutsizeDiff algorithm mode s = (.ok (some 0), s) ∧
      outsizeDiffVisits s = List.range s.globals.shCiphertextSzDiffTable.length

/-! ### The size of a key -/

lemma pickKeySize_eq_some {algorithm : ℤ} {row : AlgoKeySize} {n : ℕ} :
    pickKeySize algorithm row = some n ↔ row.algorithm = algorithm ∧ row.szMax = n := by
  unfold pickKeySize
  split
  · next h => simp [h]
  · next h => simp [Ne.symm h]

lemma pickKeySize_eq_none {algorithm : ℤ} {row : AlgoKeySize} :
    pickKeySize algorithm row = none ↔ row.algorithm ≠ algorithm := by
  unfold pickKeySize
  split
  · next h => simp [h]
  · next h => simp [Ne.symm h]

lemma forall_ne_of_nodup {ρ κ : Type} {key : ρ → κ} {before after : List ρ} {r : ρ}
    (hd : ((before ++ r :: after).map key).Nodup) : ∀ q ∈ before, key q ≠ key r := by
  intro q hq he
  rw [List.map_append, List.map_cons] at hd
  exact List.disjoint_of_nodup_append hd (List.mem_map_of_mem hq) (he ▸ List.mem_cons_self)

section KeySize

variable {s : State} {g : ShProtectionGrade} {policy : ShProtectionPolicy}

lemma shGetKeySize_eq (hpolicy : shGetProtectionPolicy g s = (.ok (some policy), s)) : shGetKeySize g s =
    scan s.globals.keySizeTable (pickKeySize policy.cipherPolicy.algorithm)
      (sizeofAlgoKeySize * s.globals.keySizeTable.length) 0 s := by
  unfold shGetKeySize
  rw [Exec.bind_of_ok (deref_of_ok hpolicy)]
  rfl

/-- The visits are the rows that `sh_get_key_size` reads: it stops behind the last of them. -/
theorem shGetKeySize_stops (hpolicy : shGetProtectionPolicy g s = (.ok (some policy), s)) : ∃ n r,
    ScanStops s.globals.keySizeTable (pickKeySize policy.cipherPolicy.algorithm)
      (sizeofAlgoKeySize * s.globals.keySizeTable.length) 0 n r ∧
    keySizeVisits s policy.cipherPolicy.algorithm = List.range n ∧ shGetKeySize g s = (r, s) := by
  obtain ⟨n, r, hstops, hvisits, hrun⟩ := scan_stops_zero (σ := State) s.globals.keySizeTable
    (pickKeySize policy.cipherPolicy.algorithm) (sizeofAlgoKeySize * s.globals.keySizeTable.length)
  refine ⟨n, r, hstops, hvisits, ?_⟩
  rw [shGetKeySize_eq hpolicy, hrun]

lemma exists_row_of_keySize (hpolicy : shGetProtectionPolicy g s = (.ok (some policy), s)) {n : ℕ} {s' : State}
    (h : shGetKeySize g s = (.ok (some n), s')) : ∃ i row, i ≤ INT_MAX ∧ s.globals.keySizeTable[i]? = some row ∧
      row.algorithm = policy.cipherPolicy.algorithm ∧ row.szMax = n := by
  rw [shGetKeySize_eq hpolicy] at h
  obtain ⟨before, row, after, he, -, hrow, hlen⟩ := exists_first_of_scan (Nat.zero_le _) h
  rw [List.drop_zero] at he
  obtain ⟨halg, hn⟩ := pickKeySize_eq_some.1 hrow
  refine ⟨before.length, row, by omega, ?_, halg, hn⟩
  rw [he, List.getElem?_append_right le_rfl, Nat.sub_self]
  rfl

lemma shGetKeySize_of_row (hpolicy : shGetProtectionPolicy g s = (.ok (some policy), s))
    (hkeys : (s.globals.keySizeTable.map (·.algorithm)).Nodup) {i : ℕ} {row : AlgoKeySize} (hi : i ≤ INT_MAX)
    (hrow : s.globals.keySizeTable[i]? = some row) (halg : row.algorithm = policy.cipherPolicy.algorithm) :
    shGetKeySize g s = (.ok (some row.szMax), s) := by
  obtain ⟨hlt, hget⟩ := List.getElem?_eq_some_iff.1 hrow
  have hsplit : s.globals.keySizeTable =
      s.globals.keySizeTable.take i ++ row :: s.globals.keySizeTable.drop (i + 1) := by
    rw [← hget, ← List.drop_eq_getElem_cons hlt, List.take_append_drop]
  have hlen : (s.globals.keySizeTable.take i).length = i := by
    rw [List.length_take, min_eq_left hlt.le]
  rw [shGetKeySize_eq hpolicy]
  apply scan_of_first (pickKeySize_eq_some.2 ⟨halg, rfl⟩) s (by rw [List.drop_zero]; exact hsplit)
  · intro q hq
    rw [hsplit] at hkeys
    rw [pickKeySize_eq_none, ← halg]
    exact forall_ne_of_nodup hkeys q hq
  · rw [hlen]
    unfold sizeofAlgoKeySize
    omega
  · omega

end KeySize

/-! ### The growth of a ciphertext -/

/-- The visits are the rows that `sh_get_cipher_outsize_diff` reads: it stops behind the last of them. -/
theorem shGetCipherOutsizeDiff_stops (algorithm mode : ℤ) (s : State) : ∃ n r,
    ScanStops s.globals.shCiphertextSzDiffTable pickOutsizeDiff
      (sizeofOutsizeDiff * s.globals.shCiphertextSzDiffTable.length) 0 n r ∧
    outsizeDiffVisits s = List.range n ∧ shGetCipherOutsizeDiff algorithm mode s = (r, s) := by
  obtain ⟨n, r, hstops, hvisits, hrun⟩ := scan_stops_zero (σ := State) s.globals.shCiphertextSzDiffTable
    pickOutsizeDiff (sizeofOutsizeDiff * s.globals.shCiphertextSzDiffTable.length)
  refine ⟨n, r, hstops, hvisits, ?_⟩
  unfold shGetCipherOutsizeDiff
  rw [globals_bind_apply, hrun]

lemma shGetCipherOutsizeDiff_of_cons {s : State} {first : ShCipherOutsizeDiff} {rest : List ShCipherOutsizeDiff}
    (h : s.globals.shCiphertextSzDiffTable = first :: rest) (algorithm mode : ℤ) :
    shGetCipherOutsizeDiff algorithm mode s = (.ok (some first.deIncRecommend), s) := by
  unfold shGetCipherOutsizeDiff
  rw [globals_bind_apply, h]
  obtain ⟨n, hn⟩ : ∃ n, sizeofOutsizeDiff * (first :: rest).length = n + 1 :=
    ⟨sizeofOutsizeDiff * (first :: rest).length - 1, by unfold sizeofOutsizeDiff; simp; omega⟩
  have hget : (first :: rest)[0]? = some first := rfl
  have hpick : pickOutsizeDiff first = some first.deIncRecommend := rfl
  rw [hn]
  exact scan_of_accepted hget hpick s

lemma outsizeDiffVisits_of_cons {s : State} {first : ShCipherOutsizeDiff} {rest : List ShCipherOutsizeDiff}
    (h : s.globals.shCiphertextSzDiffTable = first :: rest) : outsizeDiffVisits s = [0] := by
  unfold outsizeDiffVisits
  rw [h]
  rfl

/-- Without rows, the function ends without a value. -/
lemma shGetCipherOutsizeDiff_of_nil {s : State} (h : s.globals.shCiphertextSzDiffTable = [])
    (algorithm mode : ℤ) : shGetCipherOutsizeDiff algorithm mode s = (.ok none, s) := by
  unfold shGetCipherOutsizeDiff
  rw [globals_bind_apply, h]
  rfl

/-- **When the lookups are exact**: the algorithm has a row that the counter gets to, and the first row
of the other table has the value of the row of the mode; without such a row it is the only one, with
the value zero. -/
theorem lookupsExact_iff {s : State} {g : ShProtectionGrade} {policy : ShProtectionPolicy}
    (hpolicy : shGetProtectionPolicy g s = (.ok (some policy), s))
    (hkeys : (s.globals.keySizeTable.map (·.algorithm)).Nodup)
    (hmodes : (s.globals.shCiphertextSzDiffTable.map (·.mode)).Nodup) (algorithm mode : ℤ) :
    LookupsExact s g policy algorithm mode ↔
      (∃ i row, i ≤ INT_MAX ∧ s.globals.keySizeTable[i]? = some row ∧
        row.algorithm = policy.cipherPolicy.algorithm) ∧
      ∃ first rest, s.globals.shCiphertextSzDiffTable = first :: rest ∧
        ((∃ row ∈ first :: rest, row.mode = mode ∧ row.deIncRecommend = first.deIncRecommend) ∨
          ((∀ row ∈ first :: rest, row.mode ≠ mode) ∧ rest = [] ∧ first.deIncRecommend = 0)) := by
  constructor
  · intro h
    constructor
    · -- with a row or without, the answer is that of a row
      obtain ⟨n, hn⟩ : ∃ n, shGetKeySize g s = (.ok (some n), s) := by
        by_cases hrow : ∃ row ∈ s.globals.keySizeTable, row.algorithm = policy.cipherPolicy.algorithm
        · obtain ⟨row, hmem, halg⟩ := hrow
          exact ⟨_, h.keySize row hmem halg⟩
        · exact ⟨0, (h.noKeySize fun row hmem halg => hrow ⟨row, hmem, halg⟩).1⟩
      obtain ⟨i, row, hi, hget, halg, -⟩ := exists_row_of_keySize hpolicy hn
      exact ⟨i, row, hi, hget, halg⟩
    · rcases htable : s.globals.shCiphertextSzDiffTable with _ | ⟨first, rest⟩
      · have hzero := (h.noOutsizeDiff (by simp [htable])).1
        rw [shGetCipherOutsizeDiff_of_nil htable] at hzero
        cases hzero
      have hfirst := shGetCipherOutsizeDiff_of_cons htable algorithm mode
      refine ⟨first, rest, rfl, ?_⟩
      by_cases hrow : ∃ row ∈ first :: rest, row.mode = mode
      · obtain ⟨row, hmem, hmode⟩ := hrow
        have hvalue := h.outsizeDiff row (htable ▸ hmem) hmode
        rw [hfirst] at hvalue
        simp only [Prod.mk.injEq, Except.ok.injEq, Option.some.injEq, and_true] at hvalue
        exact Or.inl ⟨row, hmem, hmode, hvalue.symm⟩
      · have hno : ∀ row ∈ first :: rest, row.mode ≠ mode := fun row hmem hmode => hrow ⟨row, hmem, hmode⟩
        obtain ⟨hzero, hvisits⟩ := h.noOutsizeDiff (by rwa [htable])
        rw [hfirst] at hzero
        rw [outsizeDiffVisits_of_cons htable, htable] at hvisits
        have hlen := congrArg List.length hvisits
        rw [List.length_singleton, List.length_range, List.length_cons] at hlen
        have hrest : rest = [] := List.length_eq_zero_iff.1 (by omega)
        simp only [Prod.mk.injEq, Except.ok.injEq, Option.some.injEq, and_true] at hzero
        exact Or.inr ⟨hno, hrest, hzero⟩
  · rintro ⟨⟨i, row, hi, hget, halg⟩, first, rest, htable, hdiff⟩
    have hmem := List.mem_of_getElem? hget
    have hfirst := shGetCipherOutsizeDiff_of_cons htable algorithm mode
    refine ⟨fun row' hmem' halg' => ?_, fun hno => absurd halg (hno row hmem), fun row' hmem' hmode' => ?_,
      fun hno => ?_⟩
    · obtain rfl : row' = row := List.inj_on_of_nodup_map hkeys hmem' hmem (halg'.trans halg.symm)
      exact shGetKeySize_of_row hpolicy hkeys hi hget halg
    · rw [hfirst]
      rcases hdiff with ⟨r, hr, hmode, hvalue⟩ | ⟨hno, -⟩
      · obtain rfl : row' = r := List.inj_on_of_nodup_map hmodes hmem' (htable ▸ hr) (hmode'.trans hmode.symm)
        rw [hvalue]
      · exact absurd hmode' (hno row' (htable ▸ hmem'))
    · rw [htable] at hno
      rcases hdiff with ⟨r, hr, hmode, -⟩ | ⟨-, rfl, hzero⟩
      · exact absurd hmode (hno r hr)
      · rw [hfirst, hzero, outsizeDiffVisits_of_cons htable, htable]
        exact ⟨rfl, rfl⟩

theorem lookupsExact_medium : LookupsExact atStart .protectMedium shProtectionPolicies[1]
    gcryCipherAes192 gcryCipherModeGcm := by
  refine (lookupsExact_iff rfl (by decide) (by decide) _ _).2 ⟨⟨1, _, by decide, rfl, rfl⟩, _, _, rfl, Or.inl ?_⟩
  exact ⟨_, List.mem_cons_self, rfl, rfl⟩

/-- The mode of the policies without encryption has no row, and is given 16 bytes all the same. -/
theorem not_lookupsExact_none : ¬ LookupsExact atStart .protectMedium shProtectionPolicies[1]
    gcryCipherNone gcryCipherModeNone := by
  intro h
  have hzero := congrArg Prod.fst (h.noOutsizeDiff (by decide)).1
  have hfound : (shGetCipherOutsizeDiff gcryCipherNone gcryCipherModeNone atStart).1 = .ok (some 16) := rfl
  rw [hfound] at hzero
  exact absurd hzero (by decide)

end SafeHeap
