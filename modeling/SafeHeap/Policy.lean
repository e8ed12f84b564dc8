import SafeHeap.Malloc

/-!
# The policy in force

What the search of `sh_get_protection_policy` is for is the row of a grade (`rowOf`). What it finds
is the first row whose grade is not `SH_PROTECT_HIGH`, whatever the grade (`rowInForce`): the test of
the loop takes the enumerator of the row for a truth value. `policyRight_iff` says when the two agree,
and `keySizeOf` and `segmentsUnder` are then those of the row of the grade.
-/

namespace SafeHeap

open CMachine

/-- The row of a grade. -/
def rowOf (g : ShProtectionGrade) (rows : List ShProtectionPolicy) : Option ShProtectionPolicy :=
  rows.find? fun r => r.protectionGrade = g

/-- The first row whose grade has an enumerator other than zero. -/
def rowInForce (rows : List ShProtectionPolicy) : Option ShProtectionPolicy :=
  rows.find? fun r => r.protectionGrade ≠ .protectHigh

lemma toNat_eq_zero {g : ShProtectionGrade} : g.toNat = 0 ↔ g = .protectHigh := by
  cases g <;> simp [ShProtectionGrade.toNat]

lemma findSome?_pickPolicy (rows : List ShProtectionPolicy) :
    rows.findSome? pickPolicy = rowInForce rows := by
  induction rows with
  | nil => rfl
  | cons r rows ih =>
    unfold rowInForce at ih ⊢
    rw [List.findSome?_cons, List.find?_cons, ih]
    by_cases h : r.protectionGrade = .protectHigh
    · have hp : pickPolicy r = none := if_neg (not_not.2 (toNat_eq_zero.2 h))
      simp [hp, h]
    · have hp : pickPolicy r = some r := if_pos fun h0 => h (toNat_eq_zero.1 h0)
      simp [hp, h]

lemma length_le_of_nodup {rows : List ShProtectionPolicy} (hd : (rows.map (·.protectionGrade)).Nodup) :
    rows.length ≤ 4 := by
  have h := hd.length_le_card
  rw [List.length_map] at h
  exact h

lemma rowOf_eq_of_inForce {rows : List ShProtectionPolicy} {r : ShProtectionPolicy}
    (h : rowInForce rows = some r) : rowOf r.protectionGrade rows = some r := by
  induction rows with
  | nil => cases h
  | cons a rows ih =>
    unfold rowInForce rowOf at *
    rw [List.find?_cons] at h ⊢
    by_cases ha : a.protectionGrade = .protectHigh
    · -- the row of another grade is passed over by both
      simp only [ha, ne_eq, not_true_eq_false, decide_false] at h
      have hr := List.find?_some h
      have hne : a.protectionGrade ≠ r.protectionGrade := by
        rw [ha]
        intro he
        simp [← he] at hr
      simp only [hne, decide_false]
      exact ih h
    · simp only [ha, ne_eq, not_false_eq_true, decide_true, Option.some.injEq] at h
      subst h
      simp

/-- **What the search comes to**: the first row that is not of grade `SH_PROTECT_HIGH`. Without such
a row it reads beyond the last one, since its bound is a number of bytes. -/
theorem shGetProtectionPolicy_eq (g : ShProtectionGrade) {s : State}
    (hlen : s.globals.shProtectionPolicies.length ≤ INT_MAX) :
    shGetProtectionPolicy g s = match rowInForce s.globals.shProtectionPolicies with
      | some r => (.ok (some r), s)
      | none => if s.globals.shProtectionPolicies = [] then (.ok none, s) else (.error .overrun, s) := by
  unfold shGetProtectionPolicy
  rw [globals_bind_apply, scan_eq pickPolicy (by unfold sizeofPolicy; omega) hlen, findSome?_pickPolicy]
  have h0 : sizeofPolicy * s.globals.shProtectionPolicies.length = s.globals.shProtectionPolicies.length ↔
      s.globals.shProtectionPolicies = [] := by
    rw [← List.length_eq_zero_iff]
    unfold sizeofPolicy
    omega
  rcases rowInForce s.globals.shProtectionPolicies with _ | r
  · exact if_congr h0 rfl rfl
  · rfl

/-- The lookup finds the row of the grade, and with it allocation and key size are those of that row. -/
structure PolicyRight (s : State) (g : ShProtectionGrade) : Prop where
  lookup : shGetProtectionPolicy g s = (.ok (rowOf g s.globals.shProtectionPolicies), s)
  allocation : ∀ row, rowOf g s.globals.shProtectionPolicies = some row → ∀ segmentsTable size,
    shMalloc segmentsTable size g s =
      (segmentsUnder row segmentsTable size >>= fun r => shAddProtectionEntry r.1 r.2 g) s
  keySize : ∀ row, rowOf g s.globals.shProtectionPolicies = some row →
    shGetKeySize g s = keySizeOf row.cipherPolicy.algorithm s

lemma policyRight_of_lookup {s : State} {g : ShProtectionGrade}
    (h : shGetProtectionPolicy g s = (.ok (rowOf g s.globals.shProtectionPolicies), s)) :
    PolicyRight s g := by
  refine ⟨h, fun row hrow segmentsTable size => ?_, fun row hrow => ?_⟩
  · have hseg : shMallocSegments segmentsTable size g s = segmentsUnder row segmentsTable size s := by
      unfold shMallocSegments
      rw [Exec.bind_assoc_apply, Exec.bind_of_ok h, hrow]
      rfl
    unfold shMalloc
    rw [Exec.bind_apply, hseg]
    rfl
  · unfold shGetKeySize
    rw [Exec.bind_assoc_apply, Exec.bind_of_ok h, hrow]
    rfl

/-- **Only one grade is handled under its own policy**: that of the first row that is not of grade
`SH_PROTECT_HIGH`. -/
theorem policyRight_iff {s : State} (hd : (s.globals.shProtectionPolicies.map (·.protectionGrade)).Nodup)
    (g : ShProtectionGrade) :
    PolicyRight s g ↔ s.globals.shProtectionPolicies = [] ∨
      ∃ r, rowInForce s.globals.shProtectionPolicies = some r ∧ r.protectionGrade = g := by
  have hlen : s.globals.shProtectionPolicies.length ≤ INT_MAX := by
    have := length_le_of_nodup hd
    unfold INT_MAX
    omega
  have heq := shGetProtectionPolicy_eq g hlen
  constructor
  · intro h
    have hl := h.lookup
    rw [heq] at hl
    rcases hr : rowInForce s.globals.shProtectionPolicies with _ | r
    · -- no row is found: the search stops only in an empty table
      left
      rw [hr] at hl
      by_contra h0
      simp only [h0, if_false, Prod.mk.injEq, reduceCtorEq, false_and] at hl
    · right
      rw [hr] at hl
      simp only [Prod.mk.injEq, Except.ok.injEq, and_true] at hl
      have hg := List.find?_some hl.symm
      exact ⟨r, rfl, by simpa using hg⟩
  · rintro (h0 | ⟨r, hr, rfl⟩)
    · apply policyRight_of_lookup
      rw [heq, h0]
      rfl
    · apply policyRight_of_lookup
      rw [heq, hr, rowOf_eq_of_inForce hr]

theorem policyRight_medium : PolicyRight atStart .protectMedium :=
  (policyRight_iff (by decide) _).2 (Or.inr ⟨_, rfl, rfl⟩)

/-- An allocation of grade `SH_PROTECT_LOW` is handled under the row of `SH_PROTECT_MEDIUM`. -/
theorem not_policyRight_low : ¬ PolicyRight atStart .protectLow := by
  intro h
  have hl := congrArg Prod.fst h.lookup
  have hfound : (shGetProtectionPolicy .protectLow atStart).1 =
      .ok (rowOf .protectMedium shProtectionPolicies) := rfl
  rw [hfound] at hl
  exact absurd (Except.ok.inj hl) (by decide)

end SafeHeap
