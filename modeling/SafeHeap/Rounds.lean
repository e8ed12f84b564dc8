import Mathlib.Logic.Function.Iterate
import SafeHeap.Room

/-!
# The rounds of the segmentation loop, and the table they leave

`remaining` follows the `int` that the loop of `sh_malloc` counts down, with the subtraction in
`size_t` and the conversion back. In the loop it is the true difference (`remaining_eq`), so that there
are `⌈n / k⌉` rounds for a length that is `n` as an `int`, whatever the allocator does (`loopEnds`).

With memory for every call, the table that is passed on is well formed (`wellFormed`): a descriptor of
its own in every slot, and every descriptor with the length of its block.
-/

namespace SafeHeap

open CMachine

/-! ### What is left -/

/-- The step of the loop: the subtraction is one of `size_t`. -/
def stepLeft (k : ℕ) (r : ℤ) : ℤ := toInt (toSize (toSize r - k))

/-- The value of `remaining` after `i` rounds. -/
def remaining (k : ℕ) (r : ℤ) (i : ℕ) : ℤ := (stepLeft k)^[i] r

lemma remaining_succ (k : ℕ) (r : ℤ) (i : ℕ) : remaining k r (i + 1) = remaining k (stepLeft k r) i :=
  Function.iterate_succ_apply (stepLeft k) i r

lemma map_remaining_succ (k : ℕ) (r : ℤ) (n : ℕ) : (List.range (n + 1)).map (remaining k r) =
    r :: (List.range n).map (remaining k (stepLeft k r)) := by
  rw [List.range_succ_eq_map, List.map_cons, List.map_map]
  exact List.cons_eq_cons.2 ⟨rfl, List.map_congr_left fun i _ => remaining_succ k r i⟩

/-- The number of rounds from a value of `remaining` on. -/
def roundsOf (k : ℕ) (r : ℤ) : ℕ := r.toNat ⌈/⌉ k

section Remaining

variable {k : ℕ} {r : ℤ}

lemma stepLeft_of_pos (hk : k ≤ INT_MAX) (h0 : 0 < r) (hr : r ≤ INT_MAX) : stepLeft k r = r - k := by
  lift r to ℕ using h0.le
  exact toInt_left (by exact_mod_cast hr) hk

lemma roundsOf_of_nonpos (h : r ≤ 0) : roundsOf k r = 0 := by
  unfold roundsOf
  rw [Int.toNat_of_nonpos h]
  exact zero_ceilDiv k

lemma roundsOf_of_pos (hk : 0 < k) (h : 0 < r) : roundsOf k r = roundsOf k (r - k) + 1 := by
  have hsub : (r - k).toNat = r.toNat - k := by omega
  unfold roundsOf
  rw [hsub]
  exact ceilDiv_of_pos hk (by omega)

lemma pos_of_roundsOf (h : 0 < roundsOf k r) : 0 < r := by
  by_contra hr
  rw [roundsOf_of_nonpos (not_lt.1 hr)] at h
  omega

lemma nonpos_of_roundsOf (hk : 0 < k) (h : roundsOf k r = 0) : r ≤ 0 := by
  by_contra hr
  rw [roundsOf_of_pos hk (not_le.1 hr)] at h
  omega

/-- **In the loop the subtraction is exact**: one step of it for each round. -/
theorem remaining_eq (hk : 0 < k) (hkmax : k ≤ INT_MAX) : ∀ (i : ℕ) {r : ℤ}, r ≤ INT_MAX →
    i ≤ roundsOf k r → remaining k r i = r - i * k := by
  intro i
  induction i with
  | zero =>
    intro r _ _
    rw [Nat.cast_zero, Int.zero_mul, Int.sub_zero]
    rfl
  | succ i ih =>
    intro r hr hi
    have h0 : 0 < r := pos_of_roundsOf (k := k) (by omega)
    rw [roundsOf_of_pos hk h0] at hi
    rw [remaining_succ, stepLeft_of_pos hkmax h0 hr, ih (by omega) (by omega)]
    push_cast
    ring

/-- The rounds go over the value, but not by a whole one. -/
lemma roundsOf_mul (hk : 0 < k) : r ≤ roundsOf k r * k ∧ (roundsOf k r : ℤ) * k < max r 0 + k := by
  obtain ⟨hlow, hhigh⟩ := le_ceilDiv_mul hk r.toNat
  have hcast : ((r.toNat ⌈/⌉ k : ℕ) : ℤ) * k = ((r.toNat ⌈/⌉ k) * k : ℕ) := by push_cast; rfl
  unfold roundsOf
  rw [hcast]
  omega

lemma remaining_pos (hk : 0 < k) (hkmax : k ≤ INT_MAX) (hr : r ≤ INT_MAX) {i : ℕ} (hi : i < roundsOf k r) :
    0 < remaining k r i := by
  have hpos := pos_of_roundsOf (r := r) (k := k) (by omega)
  have hmul : (i + 1 : ℤ) * k ≤ roundsOf k r * k :=
    mul_le_mul_of_nonneg_right (by exact_mod_cast hi) (Int.natCast_nonneg k)
  have hover := (roundsOf_mul (r := r) hk).2
  rw [max_eq_left hpos.le] at hover
  rw [remaining_eq hk hkmax i hr hi.le]
  linarith

lemma remaining_last (hk : 0 < k) (hkmax : k ≤ INT_MAX) (hr : r ≤ INT_MAX) :
    remaining k r (roundsOf k r) ≤ 0 := by
  rw [remaining_eq hk hkmax _ hr le_rfl]
  linarith [(roundsOf_mul (r := r) hk).1]

lemma roundsOf_le (hk : 0 < k) : roundsOf k r ≤ r.toNat := by
  have h := (le_ceilDiv_mul hk r.toNat).2
  unfold roundsOf
  by_contra hlt
  have hmul : (r.toNat + 1) * k ≤ (r.toNat ⌈/⌉ k) * k := Nat.mul_le_mul_right k (by omega)
  have hle : r.toNat ≤ r.toNat * k := Nat.le_mul_of_pos_right _ hk
  rw [Nat.add_mul, Nat.one_mul] at hmul
  omega

end Remaining

/-! ### The loop as a list of rounds -/

section Rounds

variable (policy : ShProtectionPolicy) (c : ℕ)

/-- A round for each of the values in turn. -/
def segmentRounds : List ℤ → Ptr → ℕ → Prog (Ptr × ℕ)
  | [], segmentsTable, segmentIndex => pure (segmentsTable, segmentIndex)
  | remaining :: rest, segmentsTable, segmentIndex => do
    let segmentsTable ← segmentStep policy c remaining segmentsTable segmentIndex
    segmentRounds rest segmentsTable (segmentIndex + 1)

variable {policy c}

/-- **The loop is its rounds**, one for each value that is positive; any further fuel is left over. -/
theorem segmentLoop_eq_rounds (hk : 0 < policy.segmentSize) (hkmax : policy.segmentSize ≤ INT_MAX) :
    ∀ (n : ℕ) {r : ℤ}, r ≤ INT_MAX → roundsOf policy.segmentSize r = n → ∀ fuel, n < fuel → ∀ t i,
      segmentLoop policy c fuel r t i =
        segmentRounds policy c ((List.range n).map (remaining policy.segmentSize r)) t i := by
  intro n
  induction n with
  | zero =>
    intro r _ hn fuel hfuel t i
    obtain ⟨fuel, rfl⟩ : ∃ f, fuel = f + 1 := ⟨fuel - 1, by omega⟩
    funext s
    exact segmentLoop_of_nonpos (nonpos_of_roundsOf hk hn) t i s
  | succ n ih =>
    intro r hr hn fuel hfuel t i
    obtain ⟨fuel, rfl⟩ : ∃ f, fuel = f + 1 := ⟨fuel - 1, by omega⟩
    have h0 : 0 < r := pos_of_roundsOf (k := policy.segmentSize) (by omega)
    have hnext : toInt (toSize (toSize r - policy.segmentSize)) = r - policy.segmentSize :=
      stepLeft_of_pos hkmax h0 hr
    rw [roundsOf_of_pos hk h0] at hn
    have hrest : ∀ t', segmentLoop policy c fuel (r - policy.segmentSize) t' (i + 1) = _ := fun t' =>
      ih (by omega) (by omega) fuel (by omega) t' (i + 1)
    rw [map_remaining_succ, stepLeft_of_pos hkmax h0 hr, segmentRounds, segmentLoop, if_pos h0, hnext]
    simp only [hrest]

lemma amount_of_rounds : ∀ {values : List ℤ} {t t' : Ptr} {i m : ℕ} {s s' : State},
    segmentRounds policy c values t i s = (.ok (t', m), s') → m = i + values.length := by
  intro values
  induction values with
  | nil =>
    intro t t' i m s s' h
    cases h
    rfl
  | cons x values ih =>
    intro t t' i m s s' h
    obtain ⟨t₁, s₁, -, h₁⟩ := Exec.bind_eq_ok.1 h
    rw [ih h₁, List.length_cons]
    omega

lemma faultsOfMemory_placeBlock (t : Ptr) (i size : ℕ) : FaultsOfMemory (placeBlock t i size) := by
  refine (faultsOfMemory_shInternalMalloc _).bind fun a => ?_
  refine (faultsOfMemory_readSlot t i).bind fun d => ?_
  refine (faultsOfMemory_modify Block.descriptors d _).bind fun _ => ?_
  exact (faultsOfMemory_readSlot t i).bind fun d => faultsOfMemory_modify Block.descriptors d _

lemma faultsOfMemory_newDescriptor (t : Ptr) (i : ℕ) : FaultsOfMemory (newDescriptor t i) := by
  refine (faultsOfMemory_shInternalRealloc t _).bind fun t' => ?_
  refine (faultsOfMemory_shInternalMalloc _).bind fun d => ?_
  exact (faultsOfMemory_writeSlot t' i d).bind fun _ => faultsOfMemory_pure t'

lemma faultsOfMemory_segmentStep (r : ℤ) (t : Ptr) (i : ℕ) : FaultsOfMemory (segmentStep policy c r t i) := by
  refine (faultsOfMemory_newDescriptor t i).bind fun t' => ?_
  have hfull : FaultsOfMemory (placeBlock t' i (toSize (policy.segmentSize + c)) >>= fun _ => pure t') :=
    (faultsOfMemory_placeBlock t' i _).bind fun _ => faultsOfMemory_pure t'
  dsimp only
  split
  · exact (faultsOfMemory_placeBlock t' i _).bind fun _ => hfull
  · exact hfull

lemma faultsOfMemory_segmentRounds : ∀ (values : List ℤ) (t : Ptr) (i : ℕ),
    FaultsOfMemory (segmentRounds policy c values t i) := by
  intro values
  induction values with
  | nil => exact fun t i => faultsOfMemory_pure (t, i)
  | cons x values ih => exact fun t i => (faultsOfMemory_segmentStep x t i).bind fun t' => ih t' (i + 1)

end Rounds

/-- The loop ends, after a round for each chunk of the length as an `int`. -/
structure LoopEnds (s : State) (g : ShProtectionGrade) (policy : ShProtectionPolicy) (c size : ℕ) : Prop where
  /-- No subtraction wraps around on its way back to `int`. -/
  exact : ∀ i ≤ roundsOf policy.segmentSize (toInt size),
    remaining policy.segmentSize (toInt size) i = toInt size - i * policy.segmentSize
  positive : ∀ i < roundsOf policy.segmentSize (toInt size), 0 < remaining policy.segmentSize (toInt size) i
  finished : remaining policy.segmentSize (toInt size) (roundsOf policy.segmentSize (toInt size)) ≤ 0
  /-- The loop is as many rounds, whatever the fuel beyond them. -/
  rounds : ∀ fuel, roundsOf policy.segmentSize (toInt size) < fuel → ∀ t i,
    segmentLoop policy c fuel (toInt size) t i = segmentRounds policy c
      ((List.range (roundsOf policy.segmentSize (toInt size))).map (remaining policy.segmentSize (toInt size))) t i
  /-- It does not go on for ever. -/
  ends : ∀ t s', shMallocSegments t size g s ≠ (.error .diverges, s')
  /-- The number of rounds is the amount that is passed on. -/
  amount : ∀ t r s', shMallocSegments t size g s = (.ok r, s') → r.2 = roundsOf policy.segmentSize (toInt size)
  /-- With memory for every call, the table is passed on. -/
  passes : s.Generous → ∀ t, t = 0 ∨ s.heap.Live t →
    ∃ t' s', shMallocSegments t size g s = (.ok (t', roundsOf policy.segmentSize (toInt size)), s')

/-- The table is passed on, so that no slot has been written outside of it, and the `segs` are its segments:
there are as many as the amount says, slot after slot holds the descriptor that was made for it, and every
descriptor knows how long its block is. -/
def WellFormed (s : State) (t : Ptr) (size : ℕ) (g : ShProtectionGrade) : Prop :=
  Exec.Ends (shMallocSegments t size g) s fun r s' =>
    ∃ segs, segs.length = r.2 ∧ SegmentsAt s'.heap r.1 segs ∧ (∀ x ∈ segs, x.size = x.data.length) ∧
      descriptors s'.trace = descriptors s.trace ++ segs.map (·.descriptor)

section Allocation

variable {s : State} {g : ShProtectionGrade} {policy : ShProtectionPolicy} {c : ℕ}
  (hpolicy : shGetProtectionPolicy g s = (.ok (some policy), s))
  (hc : shGetCipherOutsizeDiff policy.cipherPolicy.algorithm policy.cipherPolicy.mode s = (.ok (some c), s))
include hpolicy hc

/-- **Every loop ends**, whatever the length and the answers of the allocator. -/
theorem loopEnds (hseg : policy.segmentationEnabled = true) (hk : 1 ≤ policy.segmentSize)
    (hkmax : policy.segmentSize ≤ INT_MAX) (size : ℕ) : LoopEnds s g policy c size := by
  have hle : toInt size ≤ INT_MAX := toInt_le size
  have hrounds := segmentLoop_eq_rounds (c := c) hk hkmax _ hle rfl
  have hfuel : roundsOf policy.segmentSize (toInt size) < INT_MAX + 1 := by
    have := roundsOf_le (k := policy.segmentSize) (r := toInt size) hk
    omega
  let values :=
    (List.range (roundsOf policy.segmentSize (toInt size))).map (remaining policy.segmentSize (toInt size))
  have hrun : ∀ t, shMallocSegments t size g s = segmentRounds policy c values t 0 s := by
    intro t
    rw [shMallocSegments_eq hpolicy hc, if_pos hseg, hrounds _ hfuel]
  have hamount : ∀ t r s', shMallocSegments t size g s = (.ok r, s') →
      r.2 = roundsOf policy.segmentSize (toInt size) := by
    rintro t ⟨t', m⟩ s' h
    rw [hrun t] at h
    rw [amount_of_rounds h, List.length_map, List.length_range, Nat.zero_add]
  refine ⟨fun i => remaining_eq hk hkmax i hle, fun i => remaining_pos hk hkmax hle,
    remaining_last hk hkmax hle, hrounds, fun t s' h => ?_, hamount, fun hgen t ht => ?_⟩
  · rw [hrun t] at h
    exact faultsOfMemory_segmentRounds _ t 0 s _ s' h
  · rcases le_or_gt (toInt size) 0 with hr | hr
    · refine ⟨t, s, ?_⟩
      rw [shMallocSegments_of_nonpos hpolicy hc hseg hr t, roundsOf_of_nonpos hr]
    · obtain ⟨n, hn⟩ : ∃ n : ℕ, toInt size = n := ⟨(toInt size).toNat, by omega⟩
      obtain ⟨t', rounds, s', hok, -⟩ := shMallocSegments_of_pos hgen hpolicy hc hseg hk hkmax hn ht
      refine ⟨t', s', ?_⟩
      rw [← hamount t _ s' hok]
      exact hok

/-- **The table is well formed**, for every length and overhead. -/
theorem wellFormed (hgen : s.Generous)
    (hk : policy.segmentationEnabled = true → 1 ≤ policy.segmentSize ∧ policy.segmentSize ≤ INT_MAX)
    (size : ℕ) : WellFormed s 0 size g := by
  by_cases hseg : policy.segmentationEnabled = true
  · obtain ⟨hk1, hkmax⟩ := hk hseg
    rcases le_or_gt (toInt size) 0 with hr | hr
    · -- no round: the table is empty
      refine Exec.ends_of_eq (shMallocSegments_of_nonpos hpolicy hc hseg hr 0) ?_
      exact ⟨[], rfl, segmentsAt_nil _ _, by simp, by simp⟩
    · obtain ⟨n, hn⟩ : ∃ n : ℕ, toInt size = n := ⟨(toInt size).toNat, by omega⟩
      obtain ⟨t', rounds, s', hrun, hat, hall, hnew⟩ :=
        shMallocSegments_of_pos hgen hpolicy hc hseg hk1 hkmax hn (Or.inl rfl)
      refine Exec.ends_of_eq hrun ⟨_, rfl, hat, fun x hx => ?_, ?_⟩
      · obtain ⟨r, hr, rfl⟩ := List.mem_map.1 hx
        exact (full_of_takes hall r hr).2
      · rw [hnew.descriptors, List.map_map]
        rfl
  · obtain ⟨t', x, s', hrun, hat, -, hsize, hnew⟩ := singleBlock_spec hgen c size
    have hrun' : shMallocSegments 0 size g s = (.ok (t', 1), s') := by
      rw [shMallocSegments_eq hpolicy hc, if_neg hseg, hrun]
    refine Exec.ends_of_eq hrun' ⟨[x], rfl, hat, fun y hy => ?_, hnew.descriptors⟩
    rw [List.mem_singleton.1 hy]
    exact hsize

end Allocation

/-- A length of `2^32 + 25` bytes is `25` as an `int`. -/
theorem loopEnds_medium : LoopEnds atStart .protectMedium mediumRow 16 4294967321 :=
  loopEnds policy_atStart overhead_atStart rfl (by decide) (by decide) 4294967321

theorem wellFormed_medium : WellFormed atStart 0 25 .protectMedium :=
  wellFormed policy_atStart overhead_atStart (fun _ => rfl) (fun _ => by decide) 25

end SafeHeap
