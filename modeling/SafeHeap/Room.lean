import SafeHeap.Segments

/-!
# How much room an allocation has, and in which blocks

`sh_malloc` should pass on a segments table with at least as much room as was asked for
(`RoomEnough`), and without waste: a length that is not a multiple of the segment size should end in a
block of the remainder, and every block allocated should be in the table (`ExactSegments`).

The length goes through an `int` on its way into the loop, every block of the loop is a full one, and
the first resize of the table starts from an uninitialised variable; `roomEnough_iff` and
`exactSegments_iff` say what is left of the two.
-/

namespace SafeHeap

open CMachine

/-- The bytes that segments have beside the overhead, without wrap-around. -/
def room (c : ℕ) (segs : List Segment) : ℤ := (segs.map fun x => (x.data.length : ℤ) - c).sum

/-- A table is passed on, with room for `size` bytes. -/
def RoomEnough (s : State) (t : Ptr) (size : ℕ) (g : ShProtectionGrade) (c : ℕ) : Prop :=
  Exec.Ends (shMallocSegments t size g) s fun r s' =>
    ∃ segs, segs.length = r.2 ∧ SegmentsAt s'.heap r.1 segs ∧ (size : ℤ) ≤ room c segs

/-- A table is passed on whose blocks are, in order, those of the chunks of `size`, each with the
overhead; its descriptors know their lengths, and every block of bytes that has been allocated is that
of exactly one of them. -/
def ExactSegments (s : State) (t : Ptr) (size : ℕ) (g : ShProtectionGrade) (k c : ℕ) : Prop :=
  Exec.Ends (shMallocSegments t size g) s fun r s' =>
    ∃ segs new, segs.length = r.2 ∧ SegmentsAt s'.heap r.1 segs ∧
      segs.map (·.data.length) = (chunks k size).map (· + c) ∧ (∀ x ∈ segs, x.size = x.data.length) ∧
        payloads s'.trace = payloads s.trace ++ new ∧
          ∀ p ∈ new, (segs.map (·.address)).count p.1 = 1

/-! ### Rounds -/

lemma full_of_takes {k c : ℕ} {ns : List ℕ} {rounds : List Round}
    (h : List.Forall₂ (Round.Takes k c) ns rounds) : ∀ r ∈ rounds,
      r.segment.data.length = toSize (k + c) ∧ r.segment.size = r.segment.data.length := by
  induction h with
  | nil => simp
  | cons h _ ih =>
    intro r hr
    rcases List.mem_cons.1 hr with rfl | hr
    · exact ⟨h.full, h.size⟩
    · exact ih r hr

lemma allocated_of_takes {k c : ℕ} {ns : List ℕ} {rounds : List Round}
    (h : List.Forall₂ (Round.Takes k c) ns rounds) (hfull : ∀ n ∈ ns, n = k) :
    rounds.flatMap Round.allocated = (rounds.map Round.segment).map fun x => (x.address, x.data) := by
  induction h with
  | nil => rfl
  | @cons n r ns rounds h _ ih =>
    have hlost : r.lost = [] := by
      have hmap := h.lost
      rw [hfull n List.mem_cons_self, if_neg (Nat.lt_irrefl k)] at hmap
      exact List.map_eq_nil_iff.1 hmap
    have hrest := ih fun m hm => hfull m (List.mem_cons_of_mem _ hm)
    rw [List.flatMap_cons, hrest, Round.allocated, hlost]
    rfl

lemma room_of_full {c l : ℕ} {segs : List Segment} (h : ∀ x ∈ segs, x.data.length = l) :
    room c segs = segs.length * ((l : ℤ) - c) := by
  have hmap : (segs.map fun x => (x.data.length : ℤ) - c) = List.replicate segs.length ((l : ℤ) - c) := by
    apply List.map_eq_replicate_iff.2
    intro x hx
    rw [h x hx]
  rw [room, hmap, List.sum_replicate, nsmul_eq_mul]

/-- The room of full blocks for a length as an `int` is enough for the length itself. -/
lemma le_full_blocks_iff {k c size n : ℕ} (hk : 1 ≤ k) (hkmax : k ≤ INT_MAX) (hc : c < SIZE_RANGE) (hn : 0 < n)
    (hr : toInt size = n) :
    (size : ℤ) ≤ (n ⌈/⌉ k : ℕ) * ((toSize (k + c) : ℕ) - (c : ℤ)) ↔ size ≤ INT_MAX ∧ k + c < SIZE_RANGE := by
  obtain ⟨hlow, hhigh⟩ := le_ceilDiv_mul hk n
  have hpos : size ≠ 0 := by
    rintro rfl
    have h0 : toInt (0 : ℕ) = 0 := by decide
    omega
  by_cases hkc : k + c < SIZE_RANGE
  · have hblock : ((toSize (k + c) : ℕ) : ℤ) - c = k := by
      rw [toSize_add_of_lt hkc]
      omega
    rw [hblock]
    constructor
    · intro h
      refine ⟨?_, hkc⟩
      by_contra hbig
      have hless := toInt_lt_of_big (not_le.1 hbig)
      have hle : size ≤ (n ⌈/⌉ k) * k := by exact_mod_cast h
      unfold INT_MAX at hkmax
      omega
    · rintro ⟨hle, -⟩
      rw [toInt_of_range (by omega) (by omega)] at hr
      have hn' : size = n := by exact_mod_cast hr
      rw [hn']
      exact_mod_cast hlow
  · -- a full block with its overhead wraps around, and is shorter than the overhead
    have hblock : ((toSize (k + c) : ℕ) : ℤ) - c ≤ 0 := by
      unfold toSize
      unfold SIZE_RANGE at hkc hc
      unfold INT_MAX at hkmax
      omega
    have hneg := mul_nonpos_of_nonneg_of_nonpos (Int.natCast_nonneg (n ⌈/⌉ k)) hblock
    constructor
    · intro h
      omega
    · rintro ⟨-, h⟩
      exact absurd h hkc

lemma roomEnough_of_run {s s' : State} {g : ShProtectionGrade} {c size : ℕ} {t t' : Ptr} {segs : List Segment}
    (hrun : shMallocSegments t size g s = (.ok (t', segs.length), s')) (hat : SegmentsAt s'.heap t' segs) :
    RoomEnough s t size g c ↔ (size : ℤ) ≤ room c segs := by
  refine (Exec.ends_iff_of_eq hrun).trans ⟨?_, fun h => ⟨segs, rfl, hat, h⟩⟩
  rintro ⟨segs', hlen, hsegs, h⟩
  rwa [hsegs.unique hat hlen] at h

section Allocation

variable {s : State} (hgen : s.Generous) {g : ShProtectionGrade} {policy : ShProtectionPolicy} {c : ℕ}
  (hpolicy : shGetProtectionPolicy g s = (.ok (some policy), s))
  (hc : shGetCipherOutsizeDiff policy.cipherPolicy.algorithm policy.cipherPolicy.mode s = (.ok (some c), s))
include hpolicy hc

lemma shMallocSegments_of_nonpos (hseg : policy.segmentationEnabled = true) {size : ℕ}
    (hr : toInt size ≤ 0) (t : Ptr) : shMallocSegments t size g s = (.ok (t, 0), s) := by
  rw [shMallocSegments_eq hpolicy hc, if_pos hseg, segmentLoop_of_nonpos hr]

lemma shMallocSegments_of_dead (hseg : policy.segmentationEnabled = true) {size : ℕ} (hr : 0 < toInt size)
    {t : Ptr} (ht : ¬ (t = 0 ∨ s.heap.Live t)) :
    shMallocSegments t size g s = (.error (.badRealloc t), s) := by
  rw [not_or] at ht
  rw [shMallocSegments_eq hpolicy hc, if_pos hseg, segmentLoop_of_dead hr ht.1 ht.2]

include hgen

lemma shMallocSegments_of_pos (hseg : policy.segmentationEnabled = true) (hk : 1 ≤ policy.segmentSize)
    (hkmax : policy.segmentSize ≤ INT_MAX) {size n : ℕ} (hr : toInt size = n) {t : Ptr}
    (ht : t = 0 ∨ s.heap.Live t) : ∃ t' rounds s',
      shMallocSegments t size g s = (.ok (t', (rounds.map Round.segment).length), s') ∧
        SegmentsAt s'.heap t' (rounds.map Round.segment) ∧
          List.Forall₂ (Round.Takes policy.segmentSize c) (chunks policy.segmentSize n) rounds ∧
            Allocated s s' (rounds.map fun r => r.segment.descriptor) (rounds.flatMap Round.allocated) := by
  have hle := toInt_le size
  obtain ⟨t', rounds, s', hrun, h, hall, hp⟩ := segmentLoop_spec (c := c) hk hkmax (INT_MAX + 1) n t [] s
    (by omega) (by simp only [List.length_nil]; omega) hgen (segmentsAt_nil _ _) fun _ _ => ht
  refine ⟨t', rounds, s', ?_, h, hall, hp⟩
  rw [shMallocSegments_eq hpolicy hc, if_pos hseg, hr, List.length_map]
  rw [List.length_nil, Nat.zero_add] at hrun
  exact hrun

lemma roomEnough_segmented_iff {size : ℕ} (hsize : size < SIZE_RANGE) (hcsize : c < SIZE_RANGE)
    (hseg : policy.segmentationEnabled = true) (hk : 1 ≤ policy.segmentSize)
    (hkmax : policy.segmentSize ≤ INT_MAX) (t : Ptr) : RoomEnough s t size g c ↔
      size = 0 ∨ (size ≤ INT_MAX ∧ policy.segmentSize + c < SIZE_RANGE ∧ (t = 0 ∨ s.heap.Live t)) := by
  rcases le_or_gt (toInt size) 0 with hr | hr
  · -- the loop makes no round
    have hrun := shMallocSegments_of_nonpos hpolicy hc hseg hr t
    have hroom : RoomEnough s t size g c ↔ (size : ℤ) ≤ room c [] := roomEnough_of_run hrun (segmentsAt_nil _ _)
    rw [hroom]
    have hzero : size ≤ INT_MAX → size = 0 := by
      intro hle
      rw [toInt_of_range (by omega) (by omega)] at hr
      omega
    constructor
    · intro h
      simp only [room, List.map_nil, List.sum_nil] at h
      exact Or.inl (by omega)
    · intro h
      have h0 : size = 0 := h.elim id fun h => hzero h.1
      simp [room, h0]
  have hpos : size ≠ 0 := by
    rintro rfl
    exact absurd hr (by decide)
  by_cases ht : t = 0 ∨ s.heap.Live t
  · obtain ⟨n, hn⟩ : ∃ n : ℕ, toInt size = n := ⟨(toInt size).toNat, by omega⟩
    obtain ⟨t', rounds, s', hrun, hat, hall, -⟩ := shMallocSegments_of_pos hgen hpolicy hc hseg hk hkmax hn ht
    have hcount : (rounds.map Round.segment).length = n ⌈/⌉ policy.segmentSize := by
      rw [List.length_map, ← hall.length_eq, length_chunks hk]
    have hroom : room c (rounds.map Round.segment) = _ := room_of_full fun x hx => by
      obtain ⟨r, hr, rfl⟩ := List.mem_map.1 hx
      exact (full_of_takes hall r hr).1
    rw [roomEnough_of_run hrun hat, hroom, hcount, le_full_blocks_iff hk hkmax hcsize (by omega) hn]
    constructor
    · rintro ⟨hmax, hkc⟩
      exact Or.inr ⟨hmax, hkc, ht⟩
    · rintro (h | ⟨hmax, hkc, -⟩)
      · exact absurd h hpos
      · exact ⟨hmax, hkc⟩
  · have hrun := shMallocSegments_of_dead hpolicy hc hseg hr ht
    constructor
    · intro h
      exact absurd h (Exec.not_ends_of_error hrun)
    · rintro (h | ⟨-, -, h⟩)
      · exact absurd h hpos
      · exact absurd h ht

lemma roomEnough_single_iff {size : ℕ} (hsize : size < SIZE_RANGE) (hcsize : c < SIZE_RANGE)
    (hseg : ¬ policy.segmentationEnabled = true) (t : Ptr) : RoomEnough s t size g c ↔ size + c < SIZE_RANGE := by
  obtain ⟨t', x, s', hrun, hat, hlen, -⟩ := singleBlock_spec hgen c size
  have hrun' : shMallocSegments t size g s = (.ok (t', [x].length), s') := by
    rw [shMallocSegments_eq hpolicy hc, if_neg hseg, hrun]
    rfl
  have hroom : room c [x] = (toSize (size + c) : ℕ) - (c : ℤ) := by
    simp [room, hlen]
  rw [roomEnough_of_run hrun' hat, hroom]
  unfold toSize
  unfold SIZE_RANGE at *
  omega

/-- **How much room there is**: in the segmented branch enough for a length that is an `int`, if the
loop finds a table to start from and a full block with its overhead is not too long; in the other
branch enough for a length that is not too long with the overhead. -/
theorem roomEnough_iff {size : ℕ} (hsize : size < SIZE_RANGE) (hcsize : c < SIZE_RANGE)
    (hk : policy.segmentationEnabled = true → 1 ≤ policy.segmentSize ∧ policy.segmentSize ≤ INT_MAX) (t : Ptr) :
    RoomEnough s t size g c ↔
      if policy.segmentationEnabled then
        size = 0 ∨ (size ≤ INT_MAX ∧ policy.segmentSize + c < SIZE_RANGE ∧ (t = 0 ∨ s.heap.Live t))
      else size + c < SIZE_RANGE := by
  by_cases hseg : policy.segmentationEnabled = true
  · obtain ⟨hk1, hkmax⟩ := hk hseg
    rw [if_pos hseg]
    exact roomEnough_segmented_iff hgen hpolicy hc hsize hcsize hseg hk1 hkmax t
  · rw [if_neg hseg]
    exact roomEnough_single_iff hgen hpolicy hc hsize hcsize hseg t

/-- **When segmentation is exact**: when the segment size divides the length, and the loop finds a
table to start from. -/
theorem exactSegments_iff (hseg : policy.segmentationEnabled = true) (hk : 1 ≤ policy.segmentSize)
    (hkmax : policy.segmentSize ≤ INT_MAX) (hkc : policy.segmentSize + c < SIZE_RANGE) {size : ℕ}
    (hpos : 0 < size) (hmax : size ≤ INT_MAX) (t : Ptr) :
    ExactSegments s t size g policy.segmentSize c ↔ policy.segmentSize ∣ size ∧ (t = 0 ∨ s.heap.Live t) := by
  have hr : toInt size = size := toInt_of_range (by omega) (by omega)
  by_cases ht : t = 0 ∨ s.heap.Live t
  · obtain ⟨t', rounds, s', hrun, hat, hall, hp⟩ :=
      shMallocSegments_of_pos hgen hpolicy hc hseg hk hkmax hr ht
    have hblock : toSize (policy.segmentSize + c) = policy.segmentSize + c := toSize_add_of_lt hkc
    have hfull : ∀ x ∈ rounds.map Round.segment,
        x.data.length = policy.segmentSize + c ∧ x.size = x.data.length := by
      intro x hx
      obtain ⟨r, hr, rfl⟩ := List.mem_map.1 hx
      rw [← hblock]
      exact full_of_takes hall r hr
    have hlengths : (rounds.map Round.segment).map (·.data.length) =
        (List.replicate (size ⌈/⌉ policy.segmentSize) policy.segmentSize).map (· + c) := by
      rw [List.map_eq_replicate_iff.2 fun x hx => (hfull x hx).1, List.map_replicate, List.length_map,
        ← hall.length_eq, length_chunks hk]
    constructor
    · intro h
      obtain ⟨segs, new, hlen, hsegs, hplan, -⟩ := (Exec.ends_iff_of_eq hrun).1 h
      rw [hsegs.unique hat hlen, hlengths] at hplan
      have hchunks := List.map_injective_iff.2 (add_left_injective c) hplan
      exact ⟨(chunks_eq_replicate_iff hk).1 hchunks.symm, ht⟩
    · rintro ⟨hdvd, -⟩
      have hchunks := (chunks_eq_replicate_iff hk).2 hdvd
      have halloc := allocated_of_takes hall fun n hn => by
        rw [hchunks] at hn
        exact List.eq_of_mem_replicate hn
      refine (Exec.ends_iff_of_eq hrun).2
        ⟨_, _, rfl, hat, by rw [hlengths, hchunks], fun x hx => (hfull x hx).2, hp.payloads, fun p hp => ?_⟩
      rw [halloc] at hp
      obtain ⟨x, hx, rfl⟩ := List.mem_map.1 hp
      exact List.count_eq_one_of_mem hat.distinct.blocks (List.mem_map_of_mem hx)
  · have hpos' : 0 < toInt size := by omega
    have hrun := shMallocSegments_of_dead hpolicy hc hseg hpos' ht
    constructor
    · intro h
      exact absurd h (Exec.not_ends_of_error hrun)
    · rintro ⟨-, h⟩
      exact absurd h ht

end Allocation

/-- The row that the initial table has in force. -/
def mediumRow : ShProtectionPolicy :=
  ⟨.protectMedium, true, true, 10, ⟨gcryCipherAes192, gcryCipherModeGcm, gcryCipherSecure, .tpmStore, 0⟩⟩

lemma policy_atStart : shGetProtectionPolicy .protectMedium atStart = (.ok (some mediumRow), atStart) := rfl

lemma overhead_atStart : shGetCipherOutsizeDiff mediumRow.cipherPolicy.algorithm mediumRow.cipherPolicy.mode
    atStart = (.ok (some 16), atStart) := rfl

theorem roomEnough_medium : RoomEnough atStart 0 25 .protectMedium 16 := by
  refine (roomEnough_iff (fun _ => rfl) policy_atStart overhead_atStart (by decide) (by decide)
    (fun _ => by decide) 0).2 ?_
  rw [if_pos (by decide)]
  exact Or.inr ⟨by decide, by decide, Or.inl rfl⟩

/-- A length of `2^31` bytes is negative as an `int`: nothing is allocated. -/
theorem not_roomEnough_big : ¬ RoomEnough atStart 0 2147483648 .protectMedium 16 := by
  have hrun : shMallocSegments 0 2147483648 .protectMedium atStart = (.ok (0, 0), atStart) := rfl
  intro h
  obtain ⟨segs, hlen, -, hroom⟩ := (Exec.ends_iff_of_eq hrun).1 h
  obtain rfl := List.length_eq_zero_iff.1 hlen
  exact absurd hroom (by decide)

theorem exactSegments_medium : ExactSegments atStart 0 20 .protectMedium 10 16 :=
  (exactSegments_iff (fun _ => rfl) policy_atStart overhead_atStart rfl (by decide) (by decide) (by decide)
    (by decide) (by decide) 0).2 ⟨by decide, Or.inl rfl⟩

/-- A length of `5` bytes should take a block of `21`; it takes one of `26`. -/
theorem not_exactSegments_rest : ¬ ExactSegments atStart 0 5 .protectMedium 10 16 := by
  rintro ⟨r, s', hrun, segs, new, hlen, hat, hplan, -⟩
  have hr : (shMallocSegments 0 5 .protectMedium atStart).1 = .ok (1, 1) := rfl
  have hs : (shMallocSegments 0 5 .protectMedium atStart).2 = s' := by rw [hrun]
  rw [hrun] at hr
  cases hr
  obtain ⟨x, rfl⟩ := List.length_eq_one_iff.1 hlen
  -- from the table to the descriptor, and from there to the block
  have htable : s'.heap.get 1 = some (.pointers [3]) := by rw [← hs]; rfl
  have hdescriptor : s'.heap.get 3 = some (.descriptor ⟨7, 26⟩) := by rw [← hs]; rfl
  have hblock : s'.heap.get 7 = some (.bytes (List.replicate 26 0)) := by rw [← hs]; rfl
  obtain ⟨d, a, n, data⟩ := x
  have h₁ := hat.table (by simp)
  rw [htable] at h₁
  obtain rfl : 3 = d := (List.cons.inj (Block.pointers.inj (Option.some.inj h₁))).1
  have h₂ := hat.stored.descriptors _ List.mem_cons_self
  rw [hdescriptor] at h₂
  obtain rfl : 7 = a := (ShSegmentDescriptor.mk.inj (Block.descriptor.inj (Option.some.inj h₂))).1
  have h₃ := hat.stored.blocks _ List.mem_cons_self
  rw [hblock] at h₃
  obtain rfl : List.replicate 26 0 = data := Block.bytes.inj (Option.some.inj h₃)
  have hlengths : [26] = [21] := hplan
  exact absurd hlengths (by decide)

end SafeHeap
