import SafeHeap.Malloc

/-!
# The segments table that `sh_malloc` builds

* `SegmentsAt h t segs` — the array at `t` holds the descriptors of the segments `segs`, and every
  descriptor the address and the size of its block; no two share a descriptor or a block;
* `segmentLoop_spec` — with memory for every call, the loop over a length `n` adds one segment for
  each of `chunks k n`. Whatever the chunk, its block is a full one; of a chunk that is not full, the
  round has allocated a block that no descriptor names (`Round`);
* `singleBlock_spec` — the branch without segmentation builds one segment.
-/

namespace SafeHeap

open CMachine

/-! ### Segments in the heap -/

/-- A segment: its descriptor, what that says, and the block. -/
structure Segment where
  descriptor : Ptr
  address : Ptr
  size : ℕ
  data : List UInt8

/-- The segments are in the heap. -/
structure Stored (h : Heap Block) (segs : List Segment) : Prop where
  descriptors : ∀ x ∈ segs, h.get x.descriptor = some (.descriptor ⟨x.address, x.size⟩)
  blocks : ∀ x ∈ segs, h.get x.address = some (.bytes x.data)

/-- No two segments share a descriptor or a block. -/
structure Distinct (segs : List Segment) : Prop where
  descriptors : (segs.map (·.descriptor)).Nodup
  blocks : (segs.map (·.address)).Nodup

/-- The array at `t` holds the segments, and nothing else. -/
structure SegmentsAt (h : Heap Block) (t : Ptr) (segs : List Segment) : Prop where
  stored : Stored h segs
  distinct : Distinct segs
  table : segs ≠ [] → h.get t = some (.pointers (segs.map (·.descriptor)))

lemma stored_nil (h : Heap Block) : Stored h [] := ⟨by simp, by simp⟩

lemma distinct_nil : Distinct [] := ⟨by simp, by simp⟩

lemma segmentsAt_nil (h : Heap Block) (t : Ptr) : SegmentsAt h t [] :=
  ⟨stored_nil h, distinct_nil, fun h0 => absurd rfl h0⟩

lemma Stored.mono {h h' : Heap Block} {segs : List Segment} (hs : Stored h segs)
    (hd : ∀ x ∈ segs, h'.get x.descriptor = h.get x.descriptor)
    (hb : ∀ x ∈ segs, h'.get x.address = h.get x.address) : Stored h' segs :=
  ⟨fun x hx => (hd x hx).trans (hs.descriptors x hx), fun x hx => (hb x hx).trans (hs.blocks x hx)⟩

lemma SegmentsAt.unique {h : Heap Block} {t : Ptr} : ∀ {segs segs' : List Segment}, SegmentsAt h t segs →
    SegmentsAt h t segs' → segs.length = segs'.length → segs = segs' := by
  intro segs segs' hs hs' hlen
  by_cases h0 : segs = []
  · subst h0
    exact (List.length_eq_zero_iff.1 hlen.symm).symm
  have h0' : segs' ≠ [] := by
    rintro rfl
    exact h0 (List.length_eq_zero_iff.1 hlen)
  have ht := hs.table h0
  rw [hs'.table h0', Option.some.injEq, Block.pointers.injEq] at ht
  refine List.ext_getElem hlen fun i hi hi' => ?_
  -- segment by segment: the descriptor, what it says, and the block
  have hd : segs'[i].descriptor = segs[i].descriptor := by
    have := congrArg (fun l : List Ptr => l[i]?) ht
    simpa [List.getElem?_eq_getElem, hi, hi'] using this
  have h₁ := hs.stored.descriptors _ (List.getElem_mem hi)
  have h₂ := hs'.stored.descriptors _ (List.getElem_mem hi')
  rw [hd, h₁, Option.some.injEq, Block.descriptor.injEq, ShSegmentDescriptor.mk.injEq] at h₂
  have h₃ := hs.stored.blocks _ (List.getElem_mem hi)
  have h₄ := hs'.stored.blocks _ (List.getElem_mem hi')
  rw [← h₂.1, h₃, Option.some.injEq, Block.bytes.injEq] at h₄
  rcases hx : segs[i] with ⟨d, a, n, data⟩
  rcases hy : segs'[i] with ⟨d', a', n', data'⟩
  rw [hx, hy] at hd h₂ h₄
  obtain ⟨rfl, rfl⟩ := h₂
  obtain rfl : d' = d := hd
  obtain rfl : data = data' := h₄
  rfl

/-- The blocks of bytes that have been allocated. -/
def payloads (evs : List (Event Block)) : List (Ptr × List UInt8) :=
  evs.filterMap fun
    | .alloc p (.bytes data) => some (p, data)
    | _ => none

@[simp] lemma payloads_append (evs evs' : List (Event Block)) :
    payloads (evs ++ evs') = payloads evs ++ payloads evs' := List.filterMap_append

/-- The descriptors that have been allocated. -/
def descriptors (evs : List (Event Block)) : List Ptr :=
  evs.filterMap fun
    | .alloc p (.descriptor _) => some p
    | _ => none

@[simp] lemma descriptors_append (evs evs' : List (Event Block)) :
    descriptors (evs ++ evs') = descriptors evs ++ descriptors evs' := List.filterMap_append

/-- What a stretch of the run has allocated: the descriptors, and the blocks of bytes. -/
structure Allocated (s s' : State) (ds : List Ptr) (bs : List (Ptr × List UInt8)) : Prop where
  descriptors : descriptors s'.trace = descriptors s.trace ++ ds
  payloads : payloads s'.trace = payloads s.trace ++ bs

lemma Allocated.refl (s : State) : Allocated s s [] [] := ⟨by simp, by simp⟩

lemma Allocated.trans {s s' s'' : State} {ds ds' : List Ptr} {bs bs' : List (Ptr × List UInt8)}
    (h : Allocated s s' ds bs) (h' : Allocated s' s'' ds' bs') : Allocated s s'' (ds ++ ds') (bs ++ bs') := by
  constructor
  · rw [h'.descriptors, h.descriptors, List.append_assoc]
  · rw [h'.payloads, h.payloads, List.append_assoc]

/-! ### One block -/

/-- A new block at `a`, and the descriptor `d` says so. -/
structure Placed (s s' : State) (d a : Ptr) (data : List UInt8) : Prop where
  fresh : s.heap.get a = none
  block : s'.heap.get a = some (.bytes data)
  descriptor : s'.heap.get d = some (.descriptor ⟨a, data.length⟩)
  frame : ∀ q, q ≠ a → q ≠ d → s'.heap.get q = s.heap.get q
  trace : s'.trace = s.trace ++ [.alloc a (.bytes data)]
  answer : s'.answer = s.answer

lemma Placed.allocated {s s' : State} {d a : Ptr} {data : List UInt8} (h : Placed s s' d a data) :
    Allocated s s' [] [(a, data)] := by
  constructor
  · rw [h.trace, descriptors_append]
    rfl
  · rw [h.trace, payloads_append]
    rfl

lemma placeBlock_spec {s : State} (hgen : s.Generous) {t d : Ptr} {l : List Ptr} {i : ℕ}
    {x : ShSegmentDescriptor} (ht : s.heap.get t = some (.pointers l)) (hi : l[i]? = some d)
    (hd : s.heap.get d = some (.descriptor x)) (n : ℕ) : ∃ a data s',
      placeBlock t i n s = (.ok (), s') ∧ data.length = n ∧ Placed s s' d a data := by
  let data := resize [] n fun j => UInt8.ofNat (s.next.fill j)
  let a := s.newAddr
  let s₁ := s.granted (.bytes data)
  let s₂ := s₁.stored d (.descriptor { x with address := a })
  let s₃ := s₂.stored d (.descriptor ⟨a, n⟩)
  have ha0 : a ≠ 0 := s.newAddr_ne_null
  have hfresh : s.heap.get a = none := s.get_newAddr
  have hda : d ≠ a := Heap.ne_fresh hd _
  have hta : t ≠ a := Heap.ne_fresh ht _
  have htd : t ≠ d := Heap.ne_of_get ht hd (by simp)
  have hd0 : d ≠ 0 := Heap.ne_null hd
  have ht₁ : s₁.heap.get t = some (.pointers l) := by
    rw [Machine.heap_granted, Heap.get_put_ne _ hta, ht]
  have hd₁ : s₁.heap.get d = some (.descriptor x) := by
    rw [Machine.heap_granted, Heap.get_put_ne _ hda, hd]
  have ht₂ : s₂.heap.get t = some (.pointers l) := by
    rw [Machine.heap_stored, Heap.get_put_ne _ htd, ht₁]
  have hd₂ : s₂.heap.get d = some (.descriptor { x with address := a }) := by
    rw [Machine.heap_stored, Heap.get_put_self _ hd0]
  have hget : ∀ q, s₃.heap.get q =
      if q = d then some (.descriptor ⟨a, n⟩) else if q = a then some (.bytes data) else s.heap.get q := by
    intro q
    rw [Machine.heap_stored, Heap.get_put _ hd0, Machine.heap_stored, Heap.get_put _ hd0,
      Machine.heap_granted, Heap.get_put _ ha0]
    by_cases hq : q = d
    · rw [if_pos hq, if_pos hq]
    · rw [if_neg hq, if_neg hq, if_neg hq]
  have hmalloc : shInternalMalloc (.bytes n) s = (.ok a, s₁) := shInternalMalloc_of_ok (hgen _) _
  have haddress : Block.descriptors.modify d (fun x => { x with address := a }) s₁ = (.ok (), s₂) :=
    Block.descriptors.modify_of_get hd₁ _
  have hrun : placeBlock t i n s = (.ok (), s₃) := by
    unfold placeBlock
    rw [Exec.bind_of_ok hmalloc, Exec.bind_of_ok (readSlot_of_get ht₁ hi), Exec.bind_of_ok haddress,
      Exec.bind_of_ok (readSlot_of_get ht₂ hi)]
    exact Block.descriptors.modify_of_get hd₂ _
  have hlen : data.length = n := length_resize _ _ _
  refine ⟨a, data, s₃, hrun, hlen, hfresh, ?_, ?_, fun q hqa hqd => ?_, rfl, rfl⟩
  · rw [hget, if_neg (Ne.symm hda), if_pos rfl]
  · rw [hget, if_pos rfl, hlen]
  · rw [hget, if_neg hqd, if_neg hqa]

/-! ### One slot -/

/-- The array at `t` holds the segments, and behind them a descriptor `d` that is not yet to be
relied on. -/
structure Opened (h : Heap Block) (t : Ptr) (segs : List Segment) (d : Ptr) : Prop where
  stored : Stored h segs
  distinct : Distinct segs
  table : h.get t = some (.pointers (segs.map (·.descriptor) ++ [d]))
  descriptor : ∃ x, h.get d = some (.descriptor x)
  new : d ∉ segs.map (·.descriptor)

lemma getElem?_descriptor {segs : List Segment} (d : Ptr) :
    (segs.map (·.descriptor) ++ [d])[segs.length]? = some d := by
  rw [List.getElem?_append_right (by simp)]
  simp

/-- A block placed at the open slot leaves it open, and makes a segment of it. -/
lemma Opened.place {s s' : State} {t d a : Ptr} {segs : List Segment} {data : List UInt8}
    (h : Opened s.heap t segs d) (hp : Placed s s' d a data) :
    Opened s'.heap t segs d ∧ SegmentsAt s'.heap t (segs ++ [⟨d, a, data.length, data⟩]) := by
  obtain ⟨y, hy⟩ := h.descriptor
  have hnea : ∀ {q b}, s.heap.get q = some b → q ≠ a := by
    rintro q b hq rfl
    rw [hp.fresh] at hq
    cases hq
  have hstored : Stored s'.heap segs := by
    refine h.stored.mono (fun x hx => ?_) (fun x hx => ?_)
    · apply hp.frame _ (hnea (h.stored.descriptors x hx))
      rintro rfl
      exact h.new (List.mem_map_of_mem hx)
    · exact hp.frame _ (hnea (h.stored.blocks x hx)) (Heap.ne_of_get (h.stored.blocks x hx) hy (by simp))
  have htable : s'.heap.get t = some (.pointers (segs.map (·.descriptor) ++ [d])) := by
    rw [hp.frame t (hnea h.table) (Heap.ne_of_get h.table hy (by simp)), h.table]
  have hnew : a ∉ segs.map (·.address) := by
    intro ha
    obtain ⟨x, hx, rfl⟩ := List.mem_map.1 ha
    exact hnea (h.stored.blocks x hx) rfl
  refine ⟨⟨hstored, h.distinct, htable, ⟨_, hp.descriptor⟩, h.new⟩, ⟨fun x hx => ?_, fun x hx => ?_⟩,
    ⟨?_, ?_⟩, fun _ => ?_⟩
  · rcases List.mem_append.1 hx with hx | hx
    · exact hstored.descriptors x hx
    · rw [List.mem_singleton.1 hx]
      exact hp.descriptor
  · rcases List.mem_append.1 hx with hx | hx
    · exact hstored.blocks x hx
    · rw [List.mem_singleton.1 hx]
      exact hp.block
  · rw [List.map_append, List.map_singleton, ← List.concat_eq_append]
    exact h.distinct.descriptors.concat h.new
  · rw [List.map_append, List.map_singleton, ← List.concat_eq_append]
    exact h.distinct.blocks.concat hnew
  · rw [htable, List.map_append, List.map_singleton]

lemma slots_of_grown {l ds : List Ptr} {i : ℕ} (d : Ptr) (hl : l.length = i + 1) (ht : l.take i = ds) :
    l.set i d = ds ++ [d] := by
  rw [List.set_eq_take_append_cons_drop, if_pos (by omega), ht, List.drop_of_length_le (by omega)]

lemma take_resized {h : Heap Block} {t : Ptr} {segs : List Segment} (hs : SegmentsAt h t segs) (fill : ℕ → ℕ) :
    (resize (Block.slots? (h.get t)) (segs.length + 1) fill).take segs.length = segs.map (·.descriptor) := by
  by_cases h0 : segs = []
  · subst h0
    rfl
  · have hold : Block.slots? (h.get t) = segs.map (·.descriptor) := by
      rw [hs.table h0]
      rfl
    rw [hold, resize_of_ge (by rw [List.length_map]; omega),
      List.take_append_of_le_length (by rw [List.length_map]), List.take_of_length_le (by rw [List.length_map])]

lemma newDescriptor_spec {s : State} (hgen : s.Generous) {t : Ptr} {segs : List Segment}
    (h : SegmentsAt s.heap t segs) (ht : segs = [] → t = 0 ∨ s.heap.Live t)
    (hlen : segs.length ≤ INT_MAX) : ∃ t' d s', newDescriptor t segs.length s = (.ok t', s') ∧
      Opened s'.heap t' segs d ∧ Allocated s s' [d] [] ∧ s'.answer = s.answer := by
  have hlive : t = 0 ∨ s.heap.Live t := by
    by_cases h0 : segs = []
    · exact ht h0
    · exact Or.inr (Heap.live_of_get (h.table h0))
  have hsize : toSize (sizeofPointer * toSize (segs.length + 1)) / sizeofPointer = segs.length + 1 := by
    unfold toSize sizeofPointer
    unfold INT_MAX at hlen
    omega
  -- the array after the resize
  let l := resize (Block.slots? (s.heap.get t)) (segs.length + 1) s.next.fill
  have hl : l.length = segs.length + 1 := length_resize _ _ _
  let t' := s.movedAddr t
  let s₁ := s.moved t (.pointers l)
  let d := s₁.newAddr
  let y : ShSegmentDescriptor := ⟨s₁.next.fill 0, s₁.next.fill 1 % SIZE_RANGE⟩
  let s₂ := s₁.granted (.descriptor y)
  let s₃ := s₂.stored t' (.pointers (l.set segs.length d))
  have ht0 : t' ≠ 0 := s.movedAddr_ne_null t
  have hd0 : d ≠ 0 := s₁.newAddr_ne_null
  have ht₁ : s₁.heap.get t' = some (.pointers l) := by
    rw [Machine.heap_moved, Heap.get_put_self _ ht0]
  have htd : t' ≠ d := Heap.ne_fresh ht₁ _
  have ht₂ : s₂.heap.get t' = some (.pointers l) := by
    rw [Machine.heap_granted, Heap.get_put_ne _ htd, ht₁]
  -- what is neither the old array nor in its new place stays
  have hframe : ∀ {q b}, s.heap.get q = some b → q ≠ t → s₃.heap.get q = some b ∧ q ≠ d := by
    intro q b hq hqt
    have hqt' : q ≠ t' := Machine.ne_movedAddr hq hqt
    have hq₁ : s₁.heap.get q = some b := by
      rw [Machine.heap_moved, Heap.get_put_ne _ hqt', Heap.get_erase_ne hqt, hq]
    have hqd : q ≠ d := Heap.ne_fresh hq₁ _
    refine ⟨?_, hqd⟩
    rw [Machine.heap_stored, Heap.get_put_ne _ hqt', Machine.heap_granted, Heap.get_put_ne _ hqd, hq₁]
  have hnet : ∀ x ∈ segs, x.descriptor ≠ t ∧ x.address ≠ t := by
    intro x hx
    have htable := h.table (List.ne_nil_of_mem hx)
    exact ⟨Heap.ne_of_get (h.stored.descriptors x hx) htable (by simp),
      Heap.ne_of_get (h.stored.blocks x hx) htable (by simp)⟩
  have hrealloc : shInternalRealloc t (.pointers (toSize (sizeofPointer * toSize (segs.length + 1)))) s =
      (.ok t', s₁) := by
    rw [shInternalRealloc_of_ok hlive (hgen _), Request.make, hsize]
  have hok : s₁.next.ok = true := hgen _
  have hmalloc : shInternalMalloc .descriptor s₁ = (.ok d, s₂) := shInternalMalloc_of_ok hok _
  have hwrite : writeSlot t' segs.length d s₂ = (.ok (), s₃) := writeSlot_of_get ht₂ (by omega) d
  refine ⟨t', d, s₃, ?_, ⟨?_, h.distinct, ?_, ⟨y, ?_⟩, ?_⟩, ?_, rfl⟩
  · unfold newDescriptor
    rw [Exec.bind_of_ok hrealloc, Exec.bind_of_ok hmalloc, Exec.bind_of_ok hwrite]
    rfl
  · refine h.stored.mono (fun x hx => ?_) (fun x hx => ?_)
    · rw [(hframe (h.stored.descriptors x hx) (hnet x hx).1).1, h.stored.descriptors x hx]
    · rw [(hframe (h.stored.blocks x hx) (hnet x hx).2).1, h.stored.blocks x hx]
  · have hset : l.set segs.length d = segs.map (·.descriptor) ++ [d] := slots_of_grown d hl (take_resized h _)
    rw [Machine.heap_stored, Heap.get_put_self _ ht0, hset]
  · rw [Machine.heap_stored, Heap.get_put_ne _ (Ne.symm htd), Machine.heap_granted, Heap.get_put_self _ hd0]
  · intro hmem
    obtain ⟨x, hx, hxd⟩ := List.mem_map.1 hmem
    exact (hframe (h.stored.descriptors x hx) (hnet x hx).1).2 hxd
  · constructor
    · show descriptors ((s.trace ++ [_]) ++ [_]) = _
      rw [descriptors_append, descriptors_append, List.append_assoc]
      rfl
    · show payloads ((s.trace ++ [_]) ++ [_]) = _
      rw [payloads_append, payloads_append]
      simp [payloads]

/-! ### The loop -/

/-- A round of the loop: the segment it has added, and the blocks that it has allocated besides. -/
structure Round where
  segment : Segment
  lost : List (Ptr × List UInt8)

/-- The blocks of bytes of a round, as they have been allocated. -/
def Round.allocated (r : Round) : List (Ptr × List UInt8) :=
  r.lost ++ [(r.segment.address, r.segment.data)]

/-- The round for a chunk of length `n`: its block is a full one, and if the chunk is not full, a block
for the chunk is lost. -/
structure Round.Takes (k c n : ℕ) (r : Round) : Prop where
  full : r.segment.data.length = toSize (k + c)
  size : r.segment.size = r.segment.data.length
  lost : r.lost.map (·.2.length) = if n < k then [toSize (n + c)] else []

section Loop

variable (policy : ShProtectionPolicy) (c : ℕ)

lemma segmentStep_spec {s : State} (hgen : s.Generous) {t : Ptr} {segs : List Segment}
    (h : SegmentsAt s.heap t segs) (ht : segs = [] → t = 0 ∨ s.heap.Live t)
    (hlen : segs.length ≤ INT_MAX) {n : ℕ} (hn : n < SIZE_RANGE) : ∃ (t' : Ptr) (r : Round) (s' : State),
      segmentStep policy c n t segs.length s = (.ok t', s') ∧
        SegmentsAt s'.heap t' (segs ++ [r.segment]) ∧ r.Takes policy.segmentSize c n ∧
          Allocated s s' [r.segment.descriptor] r.allocated ∧ s'.answer = s.answer := by
  obtain ⟨t', d, s₁, hopen, ho, hp₁, ha₁⟩ := newDescriptor_spec hgen h ht hlen
  have hgen₁ : s₁.Generous := hgen.of_answer_eq ha₁
  obtain ⟨y, hy⟩ := ho.descriptor
  have hplace := placeBlock_spec hgen₁ ho.table (getElem?_descriptor d) hy
  unfold segmentStep
  rw [toSize_of_lt hn, Exec.bind_of_ok hopen]
  by_cases hlt : n < policy.segmentSize
  · -- a block for the rest of the length first, and then a full one in its place
    obtain ⟨a, data, s₂, hrun, hdata, hpl⟩ := hplace (toSize (n + c))
    obtain ⟨ho₂, -⟩ := ho.place hpl
    have hgen₂ : s₂.Generous := hgen₁.of_answer_eq hpl.answer
    obtain ⟨a', data', s₃, hrun', hdata', hpl'⟩ :=
      placeBlock_spec hgen₂ ho₂.table (getElem?_descriptor d) hpl.descriptor (toSize (policy.segmentSize + c))
    refine ⟨t', ⟨⟨d, a', data'.length, data'⟩, [(a, data)]⟩, s₃, ?_, (ho₂.place hpl').2,
      ⟨hdata', rfl, by simp [hlt, hdata]⟩, ?_, hpl'.answer.trans (hpl.answer.trans ha₁)⟩
    · rw [if_pos hlt, Exec.bind_of_ok hrun]
      exact Exec.bind_of_ok hrun' _
    · exact hp₁.trans (hpl.allocated.trans hpl'.allocated)
  · obtain ⟨a, data, s₂, hrun, hdata, hpl⟩ := hplace (toSize (policy.segmentSize + c))
    refine ⟨t', ⟨⟨d, a, data.length, data⟩, []⟩, s₂, ?_, (ho.place hpl).2,
      ⟨hdata, rfl, by simp [hlt]⟩, ?_, hpl.answer.trans ha₁⟩
    · rw [if_neg hlt]
      exact Exec.bind_of_ok hrun _
    · exact hp₁.trans hpl.allocated

variable {policy c}

lemma segmentLoop_of_nonpos {fuel : ℕ} {r : ℤ} (hr : r ≤ 0) (t : Ptr) (i : ℕ) (s : State) :
    segmentLoop policy c (fuel + 1) r t i s = (.ok (t, i), s) := by
  unfold segmentLoop
  rw [if_neg (by omega)]
  rfl

/-- What is left after a round that took up all of `k`, as the loop computes it. -/
lemma toInt_left {n k : ℕ} (hn : n ≤ INT_MAX) (hk : k ≤ INT_MAX) :
    toInt (toSize ((toSize n : ℤ) - k)) = (n : ℤ) - k := by
  have hsize : (n : ℤ) < SIZE_RANGE := by
    unfold INT_MAX at hn
    unfold SIZE_RANGE
    omega
  rw [toInt_toSize, toSize_of_lt (by exact_mod_cast hsize)]
  apply toInt_of_range
  · unfold INT_MAX at hk
    omega
  · omega

/-- **The loop over a length `n`** adds a segment for each chunk of it, with memory for every call. -/
theorem segmentLoop_spec (hk : 1 ≤ policy.segmentSize) (hkmax : policy.segmentSize ≤ INT_MAX) :
    ∀ (fuel n : ℕ) (t : Ptr) (segs : List Segment) (s : State), n < fuel → segs.length + n ≤ INT_MAX →
      s.Generous → SegmentsAt s.heap t segs → (0 < n → segs = [] → t = 0 ∨ s.heap.Live t) →
        ∃ t' rounds s', segmentLoop policy c fuel n t segs.length s =
            (.ok (t', segs.length + rounds.length), s') ∧
          SegmentsAt s'.heap t' (segs ++ rounds.map Round.segment) ∧
          List.Forall₂ (Round.Takes policy.segmentSize c) (chunks policy.segmentSize n) rounds ∧
          Allocated s s' (rounds.map fun r => r.segment.descriptor) (rounds.flatMap Round.allocated) := by
  intro fuel
  induction fuel with
  | zero => intro n t segs s hfuel; omega
  | succ fuel ih =>
    intro n t segs s hfuel hlen hgen h ht
    rcases Nat.eq_zero_or_pos n with rfl | hpos
    · refine ⟨t, [], s, segmentLoop_of_nonpos le_rfl t _ s, by simpa using h, ?_, Allocated.refl s⟩
      rw [chunks_zero]
      exact List.Forall₂.nil
    have hn : n ≤ INT_MAX := by omega
    have hrange : n < SIZE_RANGE := by
      unfold INT_MAX at hn
      unfold SIZE_RANGE
      omega
    obtain ⟨t₁, r, s₁, hstep, h₁, htakes, hp₁, ha₁⟩ :=
      segmentStep_spec policy c hgen h (ht hpos) (by omega) hrange
    have hgen₁ : s₁.Generous := hgen.of_answer_eq ha₁
    have hunfold : segmentLoop policy c (fuel + 1) n t segs.length s =
        segmentLoop policy c fuel ((n : ℤ) - policy.segmentSize) t₁ (segs.length + 1) s₁ := by
      rw [← toInt_left hn hkmax]
      conv_lhs => unfold segmentLoop
      rw [if_pos (by omega), Exec.bind_of_ok hstep]
    have hseglen : (segs ++ [r.segment]).length = segs.length + 1 := by simp
    rcases Nat.lt_or_ge n policy.segmentSize with hlt | hge
    · -- the last chunk, not a full one: what is left is negative
      obtain ⟨fuel, rfl⟩ : ∃ f, fuel = f + 1 := ⟨fuel - 1, by omega⟩
      refine ⟨t₁, [r], s₁, ?_, by simpa using h₁, ?_, by simpa using hp₁⟩
      · rw [hunfold, segmentLoop_of_nonpos (by omega)]
        rfl
      · rw [chunks_of_lt hpos hlt]
        exact .cons htakes .nil
    · obtain ⟨t₂, rounds, s₂, hrun, h₂, hall, hp₂⟩ := ih (n - policy.segmentSize) t₁ (segs ++ [r.segment]) s₁
        (by omega) (by rw [hseglen]; omega) hgen₁ h₁ (fun _ h0 => by simp at h0)
      have hcast : ((n - policy.segmentSize : ℕ) : ℤ) = (n : ℤ) - policy.segmentSize := by omega
      rw [hseglen, hcast] at hrun
      refine ⟨t₂, r :: rounds, s₂, ?_, by simpa using h₂, ?_, ?_⟩
      · rw [hunfold, hrun, List.length_cons, Nat.add_assoc, Nat.add_comm 1]
      · have hfull : r.Takes policy.segmentSize c policy.segmentSize :=
          ⟨htakes.full, htakes.size, by rw [htakes.lost, if_neg (by omega), if_neg (by omega)]⟩
        rw [chunks_of_le hk hge]
        exact .cons hfull hall
      · exact hp₁.trans hp₂

end Loop

/-- A loop that has to start from an address that is not live stops at once. -/
lemma segmentLoop_of_dead {policy : ShProtectionPolicy} {c fuel : ℕ} {r : ℤ} (hr : 0 < r) {t : Ptr} {s : State}
    (ht : t ≠ 0) (hl : ¬ s.heap.Live t) (i : ℕ) :
    segmentLoop policy c (fuel + 1) r t i s = (.error (.badRealloc t), s) := by
  have hnew : newDescriptor t i s = (.error (.badRealloc t), s) := by
    unfold newDescriptor
    rw [Exec.bind_of_error (shInternalRealloc_of_dead ht hl _)]
  have hstep : segmentStep policy c r t i s = (.error (.badRealloc t), s) := by
    unfold segmentStep
    rw [Exec.bind_of_error hnew]
  unfold segmentLoop
  rw [if_pos hr, Exec.bind_of_error hstep]

/-! ### The whole table -/

/-- The branch without segmentation builds one segment, with memory for every call. -/
lemma singleBlock_spec {s : State} (hgen : s.Generous) (c size : ℕ) : ∃ t x s',
    singleBlock c size s = (.ok (t, 1), s') ∧ SegmentsAt s'.heap t [x] ∧
      x.data.length = toSize (size + c) ∧ x.size = x.data.length ∧
        Allocated s s' [x.descriptor] [(x.address, x.data)] := by
  let t := s.newAddr
  let l := resize ([] : List Ptr) (sizeofPointer / sizeofPointer) s.next.fill
  let s₁ := s.granted (.pointers l)
  let d := s₁.newAddr
  let y : ShSegmentDescriptor := ⟨s₁.next.fill 0, s₁.next.fill 1 % SIZE_RANGE⟩
  let s₂ := s₁.granted (.descriptor y)
  let s₃ := s₂.stored t (.pointers (l.set 0 d))
  have ht0 : t ≠ 0 := s.newAddr_ne_null
  have hd0 : d ≠ 0 := s₁.newAddr_ne_null
  have ht₁ : s₁.heap.get t = some (.pointers l) := by
    rw [Machine.heap_granted, Heap.get_put_self _ ht0]
  have htd : t ≠ d := Heap.ne_fresh ht₁ _
  have ht₂ : s₂.heap.get t = some (.pointers l) := by
    rw [Machine.heap_granted, Heap.get_put_ne _ htd, ht₁]
  have ho : Opened s₃.heap t [] d := by
    refine ⟨stored_nil _, distinct_nil, ?_, ⟨y, ?_⟩, by simp⟩
    · rw [Machine.heap_stored, Heap.get_put_self _ ht0]
      rfl
    · rw [Machine.heap_stored, Heap.get_put_ne _ (Ne.symm htd), Machine.heap_granted, Heap.get_put_self _ hd0]
  have hok : s₁.next.ok = true := hgen _
  have htable : shInternalMalloc (.pointers sizeofPointer) s = (.ok t, s₁) := shInternalMalloc_of_ok (hgen _) _
  have hdesc : shInternalMalloc .descriptor s₁ = (.ok d, s₂) := shInternalMalloc_of_ok hok _
  have hwrite : writeSlot t 0 d s₂ = (.ok (), s₃) := writeSlot_of_get ht₂ Nat.one_pos d
  have hgen₃ : s₃.Generous := hgen
  obtain ⟨z, hz⟩ := ho.descriptor
  obtain ⟨a, data, s₄, hrun, hdata, hpl⟩ :=
    placeBlock_spec hgen₃ ho.table (getElem?_descriptor d) hz (toSize (size + c))
  refine ⟨t, ⟨d, a, data.length, data⟩, s₄, ?_, (ho.place hpl).2, hdata, rfl, ?_⟩
  · unfold singleBlock
    rw [Exec.bind_of_ok htable, Exec.bind_of_ok hdesc, Exec.bind_of_ok hwrite]
    exact Exec.bind_of_ok hrun _
  · have hopened : Allocated s s₃ [d] [] := by
      constructor
      · show descriptors ((s.trace ++ [_]) ++ [_]) = _
        rw [descriptors_append, descriptors_append, List.append_assoc]
        rfl
      · show payloads ((s.trace ++ [_]) ++ [_]) = _
        rw [payloads_append, payloads_append]
        simp [payloads]
    exact hopened.trans hpl.allocated

/-- The branch that the policy in force selects. -/
lemma shMallocSegments_eq {s : State} {g : ShProtectionGrade} {policy : ShProtectionPolicy} {c : ℕ}
    (hpolicy : shGetProtectionPolicy g s = (.ok (some policy), s))
    (hc : shGetCipherOutsizeDiff policy.cipherPolicy.algorithm policy.cipherPolicy.mode s = (.ok (some c), s))
    (t : Ptr) (size : ℕ) : shMallocSegments t size g s =
      if policy.segmentationEnabled then segmentLoop policy c (INT_MAX + 1) (toInt size) t 0 s
      else singleBlock c size s := by
  unfold shMallocSegments segmentsUnder
  rw [Exec.bind_of_ok (deref_of_ok hpolicy), Exec.bind_of_ok (use_of_ok hc)]
  split <;> rfl

end SafeHeap
