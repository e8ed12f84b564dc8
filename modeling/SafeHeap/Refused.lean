import SafeHeap.Entry
import SafeHeap.Isolation
import SafeHeap.Rounds
import SafeHeap.Store

/-!
# Calls of `sh_malloc` that the allocator refuses

A call of `sh_malloc` asks for the room of a slot, a descriptor and a block for every segment, and for its
entry and the room of that (`Demand`). It stops, for want of memory, exactly where the room of a slot, a
descriptor or the entry is refused. Where a block is refused, it goes on: its segment has a length and no
block, and nothing tells the caller (`shMalloc_outcome`). So a run of calls, with a protected table to begin
with and `NULL` in the uninitialised variable of each, comes to an end exactly if all that they cannot do
without is granted, and in the end there are the blocks that were granted and no others (`mallocs_outcome`).
-/

namespace SafeHeap

open CMachine Exec

/-! ### What a call asks for -/

/-- What a call asks for: the segments, whether a block is taken besides and lost, and the length of the
blocks that the descriptors name. -/
structure Demand where
  segments : ℕ
  lost : ℕ
  length : ℕ

/-- What the loop over a length `n` asks for. -/
def segmentDemand (k c n : ℕ) : Demand := ⟨n ⌈/⌉ k, if k ∣ n then 0 else 1, toSize (k + c)⟩

def demandUnder (policy : ShProtectionPolicy) (c size : ℕ) : Demand :=
  if policy.segmentationEnabled then segmentDemand policy.segmentSize c (toInt size).toNat
  else ⟨1, 0, toSize (size + c)⟩

namespace Demand

variable (x : Demand) (answer : ℕ → Answer) (n : ℕ)

/-- The number of the call for the block of segment `j`; the lost block is asked for in the last round. -/
def blockCall (j : ℕ) : ℕ := 3 * j + 2 + if j + 1 = x.segments then x.lost else 0

def entryCall : ℕ := 3 * x.segments + x.lost

/-- The calls of the allocator, with that for the room of the entry. -/
def calls : ℕ := x.entryCall + 2

/-- From call number `n` on, every slot gets its room and its descriptor. -/
def Opens : Prop := ∀ j < x.segments, (answer (n + 3 * j)).ok = true ∧ (answer (n + 3 * j + 1)).ok = true

/-- All that the call cannot do without is granted. -/
def Met : Prop := x.Opens answer n ∧ (answer (n + x.entryCall)).ok = true

instance : Decidable (x.Opens answer n) := inferInstanceAs (Decidable (∀ j < x.segments, _))

instance : Decidable (x.Met answer n) := inferInstanceAs (Decidable (_ ∧ _))

end Demand

/-! ### Parts -/

/-- A part of an allocation, one for each slot of its segments table: the address of the descriptor, and what
that holds. -/
structure Part where
  descriptor : Ptr
  record : ShSegmentDescriptor

/-- The parts are in the heap; a descriptor that names a block knows its length. -/
structure PartsIn (h : Heap Block) (parts : List Part) : Prop where
  descriptors : ∀ x ∈ parts, h.get x.descriptor = some (.descriptor x.record)
  blocks : ∀ x ∈ parts, x.record.address = 0 ∨
    ∃ data, h.get x.record.address = some (.bytes data) ∧ data.length = x.record.size

/-- The array at `t` holds the parts, and nothing else. -/
structure PartsAt (h : Heap Block) (t : Ptr) (parts : List Part) : Prop where
  stored : PartsIn h parts
  distinct : (parts.map (·.descriptor)).Nodup
  table : parts ≠ [] → h.get t = some (.pointers (parts.map (·.descriptor)))

/-- The parts are as demanded: a block is missing exactly where it was refused. -/
structure Filled (x : Demand) (answer : ℕ → Answer) (n : ℕ) (parts : List Part) : Prop where
  length : parts.length = x.segments
  slot : ∀ j (hj : j < parts.length), parts[j].record.size = x.length ∧
    (parts[j].record.address = 0 ↔ (answer (n + x.blockCall j)).ok = false)

lemma partsAt_nil (h : Heap Block) (t : Ptr) : PartsAt h t [] :=
  ⟨⟨by simp, by simp⟩, by simp, fun h0 => absurd rfl h0⟩

lemma PartsIn.mono {h h' : Heap Block} {parts : List Part} (hs : PartsIn h parts)
    (hd : ∀ x ∈ parts, ∀ b, h.get x.descriptor = some b → h'.get x.descriptor = some b)
    (hb : ∀ x ∈ parts, ∀ b, h.get x.record.address = some b → h'.get x.record.address = some b) :
    PartsIn h' parts := by
  refine ⟨fun x hx => hd x hx _ (hs.descriptors x hx), fun x hx => ?_⟩
  refine (hs.blocks x hx).imp_right ?_
  rintro ⟨data, hdata, hlen⟩
  exact ⟨data, hb x hx _ hdata, hlen⟩

section Steps

variable {s s' : State} {t : Ptr}

/-- What a call of the allocator comes to, granted or not. -/
structure Answered (s s' : State) (r : Request) (a : Ptr) : Prop where
  refused : a = 0 ↔ s.next.ok = false
  block : a = 0 ∨ ∃ fill, s'.heap.get a = some (r.make none fill)
  frame : ∀ q b, s.heap.get q = some b → s'.heap.get q = some b ∧ q ≠ a
  answer : s'.answer = s.answer
  calls : s'.calls = s.calls + 1

lemma shInternalMalloc_answered (s : State) (r : Request) :
    ∃ a s', shInternalMalloc r s = (.ok a, s') ∧ Answered s s' r a := by
  by_cases hok : s.next.ok = true
  · refine ⟨_, _, shInternalMalloc_of_ok hok r, ⟨?_, Or.inr ⟨_, s.heap.get_put_self _ s.newAddr_ne_null⟩,
      fun q b hq => ?_, rfl, rfl⟩⟩
    · simp [hok, s.newAddr_ne_null]
    · have hne : q ≠ s.newAddr := Heap.ne_fresh hq _
      exact ⟨(Heap.get_put_ne _ hne).trans hq, hne⟩
  · rw [Bool.not_eq_true] at hok
    exact ⟨_, _, shInternalMalloc_of_refused hok r, ⟨by simp [hok], Or.inl rfl,
      fun q b hq => ⟨hq, Heap.ne_null hq⟩, rfl, rfl⟩⟩

/-! ### One block -/

/-- After a block has been placed, or refused, for the descriptor `d`. -/
structure Supplied (s s' : State) (d : Ptr) (n : ℕ) : Prop where
  supply : ∃ a, s'.heap.get d = some (.descriptor ⟨a, n⟩) ∧ (a = 0 ↔ s.next.ok = false) ∧
    (a = 0 ∨ ∃ data, s'.heap.get a = some (.bytes data) ∧ data.length = n)
  frame : ∀ q b, s.heap.get q = some b → q ≠ d → s'.heap.get q = some b
  answer : s'.answer = s.answer
  calls : s'.calls = s.calls + 1

lemma placeBlock_supplied {d : Ptr} {l : List Ptr} {i : ℕ} {y : ShSegmentDescriptor}
    (ht : s.heap.get t = some (.pointers l)) (hi : l[i]? = some d) (hd : s.heap.get d = some (.descriptor y))
    (n : ℕ) : ∃ s', placeBlock t i n s = (.ok (), s') ∧ Supplied s s' d n := by
  obtain ⟨a, s₁, hmalloc, ha⟩ := shInternalMalloc_answered s (.bytes n)
  let s₂ := s₁.stored d (.descriptor { y with address := a })
  let s₃ := s₂.stored d (.descriptor ⟨a, n⟩)
  have hd0 : d ≠ 0 := Heap.ne_null hd
  have htd : t ≠ d := Heap.ne_of_get ht hd (by simp)
  obtain ⟨hd₁, hda⟩ := ha.frame d _ hd
  obtain ⟨ht₁, -⟩ := ha.frame t _ ht
  have ht₂ : s₂.heap.get t = some (.pointers l) := by
    rw [Machine.heap_stored, Heap.get_put_ne _ htd, ht₁]
  have hd₂ : s₂.heap.get d = some (.descriptor { y with address := a }) := Heap.get_put_self _ hd0
  have haddress : Block.descriptors.modify d (fun y => { y with address := a }) s₁ = (.ok (), s₂) :=
    Block.descriptors.modify_of_get hd₁ _
  have hkept : ∀ q, q ≠ d → s₃.heap.get q = s₁.heap.get q := by
    intro q hq
    rw [Machine.heap_stored, Heap.get_put_ne _ hq, Machine.heap_stored, Heap.get_put_ne _ hq]
  refine ⟨s₃, ?_, ⟨⟨a, Heap.get_put_self _ hd0, ha.refused, ?_⟩, fun q b hq hqd => ?_, ha.answer, ha.calls⟩⟩
  · unfold placeBlock
    rw [Exec.bind_of_ok hmalloc, Exec.bind_of_ok (readSlot_of_get ht₁ hi), Exec.bind_of_ok haddress,
      Exec.bind_of_ok (readSlot_of_get ht₂ hi)]
    exact Block.descriptors.modify_of_get hd₂ _
  · refine ha.block.imp_right ?_
    rintro ⟨fill, hfill⟩
    exact ⟨_, (hkept a (Ne.symm hda)).trans hfill, length_resize _ _ _⟩
  · rw [hkept q hqd]
    exact (ha.frame q b hq).1

lemma not_placeBlock_of_null {l : List Ptr} {i n : ℕ} (ht : s.heap.get t = some (.pointers l))
    (hi : l[i]? = some 0) : placeBlock t i n s ≠ (.ok (), s') := by
  intro h
  obtain ⟨a, s₁, hmalloc, ha⟩ := shInternalMalloc_answered s (.bytes n)
  unfold placeBlock at h
  rw [Exec.bind_of_ok hmalloc, Exec.bind_of_ok (readSlot_of_get (ha.frame t _ ht).1 hi)] at h
  cases h

/-! ### One slot -/

lemma newDescriptor_granted {ds : List Ptr} (htable : ds ≠ [] → s.heap.get t = some (.pointers ds))
    (ht : ds = [] → t = 0) (hlen : ds.length ≤ INT_MAX) (h₀ : (s.answer s.calls).ok = true)
    (h₁ : (s.answer (s.calls + 1)).ok = true) : ∃ t' d y s', newDescriptor t ds.length s = (.ok t', s') ∧
      s'.heap.get t' = some (.pointers (ds ++ [d])) ∧ s'.heap.get d = some (.descriptor y) ∧
        (∀ q b, s.heap.get q = some b → q ≠ t → s'.heap.get q = some b ∧ q ≠ d) ∧
          s'.answer = s.answer ∧ s'.calls = s.calls + 2 := by
  have hlive : t = 0 ∨ s.heap.Live t := by
    by_cases h0 : ds = []
    · exact Or.inl (ht h0)
    · exact Or.inr (Heap.live_of_get (htable h0))
  have hsize : toSize (sizeofPointer * toSize (ds.length + 1)) / sizeofPointer = ds.length + 1 := by
    unfold toSize sizeofPointer
    unfold INT_MAX at hlen
    omega
  let l := resize (Block.slots? (s.heap.get t)) (ds.length + 1) s.next.fill
  have hl : l.length = ds.length + 1 := length_resize _ _ _
  have htake : l.take ds.length = ds := by
    by_cases h0 : ds = []
    · subst h0
      rfl
    · have hold : Block.slots? (s.heap.get t) = ds := by
        rw [htable h0]
        rfl
      show (resize (Block.slots? (s.heap.get t)) (ds.length + 1) s.next.fill).take ds.length = ds
      rw [hold, resize_of_ge (by omega), List.take_append_of_le_length le_rfl, List.take_length]
  let t' := s.movedAddr t
  let s₁ := s.moved t (.pointers l)
  have ht0 : t' ≠ 0 := s.movedAddr_ne_null t
  have ht₁ : s₁.heap.get t' = some (.pointers l) := Heap.get_put_self _ ht0
  have hrealloc : shInternalRealloc t (.pointers (toSize (sizeofPointer * toSize (ds.length + 1)))) s =
      (.ok t', s₁) := by
    rw [shInternalRealloc_of_ok hlive h₀, Request.make, hsize]
  obtain ⟨d, s₂, hmalloc, hd⟩ := shInternalMalloc_answered s₁ .descriptor
  have hd0 : d ≠ 0 := by
    intro h0
    have hrefused : (s.answer (s.calls + 1)).ok = false := hd.refused.1 h0
    rw [h₁] at hrefused
    cases hrefused
  obtain ⟨fill, hfill⟩ := hd.block.resolve_left hd0
  obtain ⟨ht₂, htd⟩ := hd.frame t' _ ht₁
  let s₃ := s₂.stored t' (.pointers (l.set ds.length d))
  refine ⟨t', d, _, s₃, ?_, ?_, (Heap.get_put_ne _ (Ne.symm htd)).trans hfill, fun q b hq hqt => ?_, hd.answer,
    hd.calls⟩
  · unfold newDescriptor
    rw [Exec.bind_of_ok hrealloc, Exec.bind_of_ok hmalloc, Exec.bind_of_ok (writeSlot_of_get ht₂ (by omega) d)]
    rfl
  · rw [Machine.heap_stored, Heap.get_put_self _ ht0, slots_of_grown d hl htake]
  · have hqt' : q ≠ t' := Machine.ne_movedAddr hq hqt
    have hq₁ : s₁.heap.get q = some b := by
      rw [Machine.heap_moved, Heap.get_put_ne _ hqt', Heap.get_erase_ne hqt, hq]
    obtain ⟨hq₂, hqd⟩ := hd.frame q b hq₁
    exact ⟨(Heap.get_put_ne _ hqt').trans hq₂, hqd⟩

/-- The array at `t` has the parts, and behind them a descriptor `d` that is not yet to be relied on. -/
structure OpenAt (h : Heap Block) (t : Ptr) (parts : List Part) (d : Ptr) : Prop where
  stored : PartsIn h parts
  distinct : (parts.map (·.descriptor) ++ [d]).Nodup
  table : h.get t = some (.pointers (parts.map (·.descriptor) ++ [d]))
  record : ∃ y, h.get d = some (.descriptor y)

/-- A block placed, or refused, at the open slot leaves it open, and makes a part of it. -/
lemma OpenAt.supply {parts : List Part} {d : Ptr} {n : ℕ} (h : OpenAt s.heap t parts d)
    (hs : Supplied s s' d n) : OpenAt s'.heap t parts d ∧ ∃ y : ShSegmentDescriptor, y.size = n ∧
      (y.address = 0 ↔ s.next.ok = false) ∧ PartsAt s'.heap t (parts ++ [⟨d, y⟩]) := by
  obtain ⟨y₀, hy₀⟩ := h.record
  obtain ⟨a, ha, hrefused, hblock⟩ := hs.supply
  have hd : d ∉ parts.map (·.descriptor) := by
    have hdisj := List.disjoint_of_nodup_append h.distinct
    exact fun hmem => hdisj hmem List.mem_cons_self
  have hstored : PartsIn s'.heap parts := by
    refine ⟨fun x hx => ?_, fun x hx => ?_⟩
    · refine hs.frame _ _ (h.stored.descriptors x hx) ?_
      rintro rfl
      exact hd (List.mem_map_of_mem hx)
    · refine (h.stored.blocks x hx).imp_right ?_
      rintro ⟨data, hdata, hlen⟩
      exact ⟨data, hs.frame _ _ hdata (Heap.ne_of_get hdata hy₀ (by simp)), hlen⟩
  have htable := hs.frame t _ h.table (Heap.ne_of_get h.table hy₀ (by simp))
  refine ⟨⟨hstored, h.distinct, htable, _, ha⟩, ⟨a, n⟩, rfl, hrefused, ⟨fun x hx => ?_, fun x hx => ?_⟩, ?_,
    fun _ => ?_⟩
  · rcases List.mem_append.1 hx with hx | hx
    · exact hstored.descriptors x hx
    · rw [List.mem_singleton.1 hx]
      exact ha
  · rcases List.mem_append.1 hx with hx | hx
    · exact hstored.blocks x hx
    · rw [List.mem_singleton.1 hx]
      exact hblock
  · rw [List.map_append, List.map_singleton]
    exact h.distinct
  · rw [htable, List.map_append, List.map_singleton]

lemma newDescriptor_opens {parts : List Part} (h : PartsAt s.heap t parts) (ht : parts = [] → t = 0)
    (hlen : parts.length ≤ INT_MAX) (h₀ : (s.answer s.calls).ok = true)
    (h₁ : (s.answer (s.calls + 1)).ok = true) : ∃ t' d s', newDescriptor t parts.length s = (.ok t', s') ∧
      OpenAt s'.heap t' parts d ∧ s'.answer = s.answer ∧ s'.calls = s.calls + 2 := by
  have hds : (parts.map (·.descriptor)).length = parts.length := List.length_map _
  obtain ⟨t', d, y, s', hrun, htable, hd, hframe, hans, hcalls⟩ := @newDescriptor_granted s t
    (parts.map (·.descriptor)) (fun h0 => h.table fun he => h0 (by rw [he]; rfl))
    (fun h0 => ht (List.map_eq_nil_iff.1 h0)) (by rwa [hds]) h₀ h₁
  rw [hds] at hrun
  -- no part is in the array that has been moved
  have hkept : ∀ x ∈ parts, ∀ q b, (∀ l, b ≠ .pointers l) → s.heap.get q = some b →
      s'.heap.get q = some b ∧ q ≠ d := by
    intro x hx q b hb hq
    exact hframe q b hq (Heap.ne_of_get hq (h.table (List.ne_nil_of_mem hx)) (hb _))
  refine ⟨t', d, s', hrun, ⟨⟨fun x hx => ?_, fun x hx => ?_⟩, ?_, htable, y, hd⟩, hans, hcalls⟩
  · exact (hkept x hx _ _ (by simp) (h.stored.descriptors x hx)).1
  · refine (h.stored.blocks x hx).imp_right ?_
    rintro ⟨data, hdata, hlen'⟩
    exact ⟨data, (hkept x hx _ _ (by simp) hdata).1, hlen'⟩
  · rw [← List.concat_eq_append]
    refine h.distinct.concat fun hmem => ?_
    obtain ⟨x, hx, he⟩ := List.mem_map.1 hmem
    exact (hkept x hx _ _ (by simp) (h.stored.descriptors x hx)).2 he

/-- A slot is written only if there is room for it; without a descriptor, what is written is `NULL`. -/
lemma granted_of_newDescriptor {t' : Ptr} {i : ℕ} (ht : i = 0 → t = 0)
    (htable : i ≠ 0 → ∃ l, s.heap.get t = some (.pointers l) ∧ l.length = i)
    (h : newDescriptor t i s = (.ok t', s')) : (s.answer s.calls).ok = true ∧
      ((s.answer (s.calls + 1)).ok = false → ∃ l, s'.heap.get t' = some (.pointers l) ∧ l[i]? = some 0) := by
  have hlive : t = 0 ∨ s.heap.Live t := by
    by_cases h0 : i = 0
    · exact Or.inl (ht h0)
    · obtain ⟨l, hl, -⟩ := htable h0
      exact Or.inr (Heap.live_of_get hl)
  obtain ⟨t₁, s₁, hrealloc, h⟩ := Exec.bind_eq_ok.1 h
  obtain ⟨d, s₂, hmalloc, h⟩ := Exec.bind_eq_ok.1 h
  obtain ⟨⟨⟩, s₃, hwrite, h⟩ := Exec.bind_eq_ok.1 h
  cases h
  obtain ⟨l, hl, hi, rfl⟩ := writeSlot_eq_ok.1 hwrite
  obtain ⟨d', s₂', hmalloc', hd⟩ := shInternalMalloc_answered s₁ .descriptor
  rw [hmalloc] at hmalloc'
  cases hmalloc'
  by_cases hok : s.next.ok = true
  · refine ⟨hok, fun hrefused => ?_⟩
    rw [shInternalRealloc_of_ok hlive hok] at hrealloc
    cases hrealloc
    obtain rfl : d = 0 := hd.refused.2 hrefused
    exact ⟨l.set i 0, Heap.get_put_self _ (Heap.ne_null hl), List.getElem?_set_self hi⟩
  · -- the old array has come back, and has no such slot
    rw [shInternalRealloc_of_refused hlive (by simpa using hok)] at hrealloc
    cases hrealloc
    by_cases h0 : i = 0
    · exact absurd (ht h0) (Heap.ne_null hl)
    · obtain ⟨l', hl', hlen⟩ := htable h0
      rw [(hd.frame _ _ hl').1] at hl
      cases hl
      omega

/-! ### One round -/

section Round

variable (policy : ShProtectionPolicy) (c : ℕ)

/-- A round whose slot gets its room and its descriptor: the block that counts is the last one asked for. -/
lemma segmentStep_granted {parts : List Part} (h : PartsAt s.heap t parts) (ht : parts = [] → t = 0)
    (hlen : parts.length ≤ INT_MAX) {n : ℕ} (hn : n < SIZE_RANGE) (h₀ : (s.answer s.calls).ok = true)
    (h₁ : (s.answer (s.calls + 1)).ok = true) : ∃ (t' : Ptr) (x : Part) (s' : State),
      segmentStep policy c n t parts.length s = (.ok t', s') ∧ PartsAt s'.heap t' (parts ++ [x]) ∧
        x.record.size = toSize (policy.segmentSize + c) ∧
          (x.record.address = 0 ↔
            (s.answer (s.calls + (2 + if n < policy.segmentSize then 1 else 0))).ok = false) ∧
              s'.answer = s.answer ∧ s'.calls = s.calls + (3 + if n < policy.segmentSize then 1 else 0) := by
  obtain ⟨t', d, s₁, hrun, hopen, ha₁, hc₁⟩ := newDescriptor_opens h ht hlen h₀ h₁
  have hslot : (parts.map (·.descriptor) ++ [d])[parts.length]? = some d := by
    rw [List.getElem?_append_right (by simp)]
    simp
  unfold segmentStep
  rw [toSize_of_lt hn, Exec.bind_of_ok hrun]
  obtain ⟨y, hy⟩ := hopen.record
  by_cases hlt : n < policy.segmentSize
  · obtain ⟨s₂, hrun₂, hs₂⟩ := placeBlock_supplied hopen.table hslot hy (toSize (n + c))
    obtain ⟨hopen₂, -⟩ := hopen.supply hs₂
    obtain ⟨y₂, hy₂⟩ := hopen₂.record
    obtain ⟨s₃, hrun₃, hs₃⟩ := placeBlock_supplied hopen₂.table hslot hy₂ (toSize (policy.segmentSize + c))
    obtain ⟨-, z, hsize, hnull, hat⟩ := hopen₂.supply hs₃
    refine ⟨t', ⟨d, z⟩, s₃, ?_, hat, hsize, ?_, hs₃.answer.trans (hs₂.answer.trans ha₁), ?_⟩
    · rw [if_pos hlt, Exec.bind_of_ok hrun₂]
      exact Exec.bind_of_ok hrun₃ _
    · rw [hnull, if_pos hlt, Machine.next, hs₂.answer, ha₁, hs₂.calls, hc₁]
    · rw [hs₃.calls, hs₂.calls, hc₁, if_pos hlt]
  · obtain ⟨s₂, hrun₂, hs₂⟩ := placeBlock_supplied hopen.table hslot hy (toSize (policy.segmentSize + c))
    obtain ⟨-, z, hsize, hnull, hat⟩ := hopen.supply hs₂
    refine ⟨t', ⟨d, z⟩, s₂, ?_, hat, hsize, ?_, hs₂.answer.trans ha₁, ?_⟩
    · rw [if_neg hlt]
      exact Exec.bind_of_ok hrun₂ _
    · rw [hnull, if_neg hlt, Machine.next, ha₁, hc₁]
    · rw [hs₂.calls, hc₁, if_neg hlt]

lemma granted_of_segmentStep {r : ℤ} {t' : Ptr} {i : ℕ} (ht : i = 0 → t = 0)
    (htable : i ≠ 0 → ∃ l, s.heap.get t = some (.pointers l) ∧ l.length = i)
    (h : segmentStep policy c r t i s = (.ok t', s')) :
    (s.answer s.calls).ok = true ∧ (s.answer (s.calls + 1)).ok = true := by
  obtain ⟨t₁, s₁, hnew, h⟩ := Exec.bind_eq_ok.1 h
  obtain ⟨h₀, hnull⟩ := granted_of_newDescriptor ht htable hnew
  refine ⟨h₀, ?_⟩
  by_contra hrefused
  obtain ⟨l, hl, hi⟩ := hnull (by simpa using hrefused)
  split at h
  · obtain ⟨⟨⟩, s₂, hplace, -⟩ := Exec.bind_eq_ok.1 h
    exact not_placeBlock_of_null hl hi hplace
  · obtain ⟨⟨⟩, s₂, hplace, -⟩ := Exec.bind_eq_ok.1 h
    exact not_placeBlock_of_null hl hi hplace

end Round

end Steps

/-! ### The loop -/

section Demands

variable {k c n : ℕ}

lemma segmentDemand_zero : segmentDemand k c 0 = ⟨0, 0, toSize (k + c)⟩ := by
  unfold segmentDemand
  rw [zero_ceilDiv, if_pos (dvd_zero k)]

lemma segmentDemand_of_lt (h0 : 0 < n) (hlt : n < k) : segmentDemand k c n = ⟨1, 1, toSize (k + c)⟩ := by
  have hceil : n ⌈/⌉ k = 1 := by
    rw [ceilDiv_of_pos (by omega) h0, Nat.sub_eq_zero_of_le hlt.le, zero_ceilDiv]
  unfold segmentDemand
  rw [hceil, if_neg (Nat.not_dvd_of_pos_of_lt h0 hlt)]

lemma segmentDemand_of_le (hk : 1 ≤ k) (hle : k ≤ n) : segmentDemand k c n =
    ⟨(segmentDemand k c (n - k)).segments + 1, (segmentDemand k c (n - k)).lost, toSize (k + c)⟩ := by
  have hdvd : k ∣ n ↔ k ∣ n - k := by
    rw [Nat.dvd_sub_self_right]
    refine ⟨Or.inl, ?_⟩
    rintro (h | h)
    · exact h
    · rw [Nat.le_antisymm h hle]
  unfold segmentDemand
  rw [ceilDiv_of_pos hk (by omega)]
  simp only [hdvd]

variable {answer : ℕ → Answer} {m : ℕ}

lemma opens_of_le (hk : 1 ≤ k) (hle : k ≤ n) : (segmentDemand k c n).Opens answer m ↔
    ((answer m).ok = true ∧ (answer (m + 1)).ok = true) ∧ (segmentDemand k c (n - k)).Opens answer (m + 3) := by
  unfold Demand.Opens
  rw [segmentDemand_of_le hk hle]
  constructor
  · intro h
    refine ⟨h 0 (by simp), fun j hj => ?_⟩
    have hnext := h (j + 1) (by simpa using hj)
    rwa [show m + 3 * (j + 1) = m + 3 + 3 * j by ring] at hnext
  · rintro ⟨hfirst, hrest⟩ j hj
    rcases j with _ | j
    · exact hfirst
    · rw [show m + 3 * (j + 1) = m + 3 + 3 * j by ring]
      exact hrest j (by simpa using hj)

/-- The block of the first segment is asked for behind its descriptor, and those of the others as by the
loop over what is left. -/
lemma blockCall_of_le (hk : 1 ≤ k) (hle : k ≤ n) : (segmentDemand k c n).blockCall 0 = 2 ∧
    ∀ j, (segmentDemand k c n).blockCall (j + 1) = 3 + (segmentDemand k c (n - k)).blockCall j := by
  unfold Demand.blockCall
  rw [segmentDemand_of_le hk hle]
  refine ⟨?_, fun j => ?_⟩
  · by_cases hlast : n = k
    · simp [hlast, segmentDemand_zero]
    · have hmore : 0 < (segmentDemand k c (n - k)).segments := by
        have hceil := ceilDiv_of_pos (k := k) (n := n - k) hk (by omega)
        simp only [segmentDemand, hceil]
        omega
      rw [if_neg (by simp only; omega)]
  · simp only [Nat.add_right_cancel_iff]
    ring

lemma Filled.cons (hk : 1 ≤ k) (hle : k ≤ n) {x : Part} {new : List Part}
    (hsize : x.record.size = toSize (k + c))
    (hnull : x.record.address = 0 ↔ (answer (m + 2)).ok = false)
    (h : Filled (segmentDemand k c (n - k)) answer (m + 3) new) :
    Filled (segmentDemand k c n) answer m (x :: new) := by
  obtain ⟨hfirst, hrest⟩ := blockCall_of_le (c := c) hk hle
  constructor
  · rw [List.length_cons, h.length, segmentDemand_of_le hk hle]
  · intro j hj
    rcases j with _ | j
    · rw [hfirst]
      exact ⟨hsize, hnull⟩
    · have hslot := h.slot j (by simpa using hj)
      rw [hrest, ← Nat.add_assoc]
      exact hslot

end Demands

section Loop

variable {policy : ShProtectionPolicy} {c : ℕ}

lemma PartsAt.length {h : Heap Block} {t : Ptr} {parts : List Part} (hp : PartsAt h t parts)
    (h0 : parts.length ≠ 0) : ∃ l, h.get t = some (.pointers l) ∧ l.length = parts.length :=
  ⟨_, hp.table fun he => h0 (by rw [he]; rfl), List.length_map _⟩

lemma segmentLoop_of_pos (hkmax : policy.segmentSize ≤ INT_MAX) {n : ℕ} (hpos : 0 < n) (hn : n ≤ INT_MAX)
    (fuel : ℕ) (t : Ptr) (i : ℕ) (s : State) : segmentLoop policy c (fuel + 1) n t i s =
      (segmentStep policy c n t i >>= fun t' =>
        segmentLoop policy c fuel ((n : ℤ) - policy.segmentSize) t' (i + 1)) s := by
  rw [← toInt_left hn hkmax]
  conv_lhs => unfold segmentLoop
  rw [if_pos (by omega)]

variable (hk : 1 ≤ policy.segmentSize) (hkmax : policy.segmentSize ≤ INT_MAX)
include hk hkmax

/-- **The loop over a length `n`** gets through if every slot gets its room and its descriptor, and there is a
block wherever one was granted. -/
theorem segmentLoop_filled : ∀ (fuel n : ℕ) (t : Ptr) (parts : List Part) (s : State), n < fuel →
    parts.length + n ≤ INT_MAX → PartsAt s.heap t parts → (parts = [] → t = 0) →
      (segmentDemand policy.segmentSize c n).Opens s.answer s.calls → ∃ t' new s',
        segmentLoop policy c fuel n t parts.length s = (.ok (t', parts.length + new.length), s') ∧
          PartsAt s'.heap t' (parts ++ new) ∧
            Filled (segmentDemand policy.segmentSize c n) s.answer s.calls new ∧ s'.answer = s.answer ∧
              s'.calls = s.calls + (segmentDemand policy.segmentSize c n).entryCall := by
  intro fuel
  induction fuel with
  | zero => intro n t parts s hfuel; omega
  | succ fuel ih =>
    intro n t parts s hfuel hlen h ht hopens
    rcases Nat.eq_zero_or_pos n with rfl | hpos
    · rw [segmentDemand_zero]
      exact ⟨t, [], s, segmentLoop_of_nonpos le_rfl t _ s, by simpa using h, ⟨rfl, by simp⟩, rfl, rfl⟩
    have hrange : n < SIZE_RANGE := lt_sizeRange (by omega)
    have hround := segmentStep_granted policy c h ht (by omega) hrange
    rw [segmentLoop_of_pos hkmax hpos (by omega)]
    rcases Nat.lt_or_ge n policy.segmentSize with hlt | hge
    · -- the last chunk, not a full one
      obtain ⟨fuel, rfl⟩ : ∃ f, fuel = f + 1 := ⟨fuel - 1, by omega⟩
      rw [segmentDemand_of_lt hpos hlt] at hopens ⊢
      obtain ⟨h₀, h₁⟩ := hopens 0 (by simp)
      obtain ⟨t₁, x, s₁, hstep, h₁', hsize, hnull, ha, hc⟩ := hround h₀ h₁
      rw [if_pos hlt] at hnull hc
      refine ⟨t₁, [x], s₁, ?_, h₁', ⟨rfl, fun j hj => ?_⟩, ha, hc⟩
      · rw [Exec.bind_of_ok hstep, segmentLoop_of_nonpos (by omega)]
        rfl
      · obtain rfl : j = 0 := by simpa using hj
        exact ⟨hsize, hnull⟩
    · have hcast : ((n - policy.segmentSize : ℕ) : ℤ) = (n : ℤ) - policy.segmentSize := by omega
      obtain ⟨⟨h₀, h₁⟩, hrest⟩ := (opens_of_le hk hge).1 hopens
      obtain ⟨t₁, x, s₁, hstep, h₁', hsize, hnull, ha, hc⟩ := hround h₀ h₁
      rw [if_neg (Nat.not_lt.2 hge)] at hnull hc
      have hseglen : (parts ++ [x]).length = parts.length + 1 := by simp
      have hmore := ih (n - policy.segmentSize) t₁ (parts ++ [x]) s₁ (by omega) (by rw [hseglen]; omega) h₁'
        (fun h0 => by simp at h0)
      rw [ha, hc, hseglen, hcast] at hmore
      obtain ⟨t₂, new, s₂, hrun, h₂, hfilled, ha₂, hc₂⟩ := hmore hrest
      refine ⟨t₂, x :: new, s₂, ?_, by simpa using h₂, hfilled.cons hk hge hsize hnull, ha₂, ?_⟩
      · rw [Exec.bind_of_ok hstep, hrun, List.length_cons, Nat.add_assoc, Nat.add_comm 1]
      · rw [hc₂, segmentDemand_of_le hk hge]
        unfold Demand.entryCall
        simp only
        ring

/-- **It gets through only then.** -/
theorem opens_of_segmentLoop : ∀ (fuel n : ℕ) (t : Ptr) (parts : List Part) (s : State),
    parts.length + n ≤ INT_MAX → PartsAt s.heap t parts → (parts = [] → t = 0) →
      ∀ {r s'}, segmentLoop policy c fuel n t parts.length s = (.ok r, s') →
        (segmentDemand policy.segmentSize c n).Opens s.answer s.calls := by
  intro fuel
  induction fuel with
  | zero => exact fun n t parts s _ _ _ r s' hrun => by cases hrun
  | succ fuel ih =>
    intro n t parts s hlen h ht r s' hrun
    rcases Nat.eq_zero_or_pos n with rfl | hpos
    · rw [segmentDemand_zero]
      exact fun j hj => absurd hj (by simp)
    rw [segmentLoop_of_pos hkmax hpos (by omega)] at hrun
    obtain ⟨t₁, s₁, hstep, hrun⟩ := Exec.bind_eq_ok.1 hrun
    obtain ⟨h₀, h₁⟩ := granted_of_segmentStep policy c (fun h0 => ht (List.length_eq_zero_iff.1 h0)) h.length hstep
    rcases Nat.lt_or_ge n policy.segmentSize with hlt | hge
    · rw [segmentDemand_of_lt hpos hlt]
      intro j hj
      obtain rfl : j = 0 := by simpa using hj
      exact ⟨h₀, h₁⟩
    · have hrange : n < SIZE_RANGE := lt_sizeRange (by omega)
      obtain ⟨t₂, x, s₂, hstep₂, h₂, -, -, ha, hc⟩ := segmentStep_granted policy c h ht (by omega) hrange h₀ h₁
      rw [hstep] at hstep₂
      cases hstep₂
      rw [if_neg (Nat.not_lt.2 hge)] at hc
      have hcast : (n : ℤ) - policy.segmentSize = ((n - policy.segmentSize : ℕ) : ℤ) := by omega
      have hseglen : parts.length + 1 = (parts ++ [x]).length := by simp
      rw [hcast, hseglen] at hrun
      have hmore := ih (n - policy.segmentSize) t₁ (parts ++ [x]) s₁ (by rw [← hseglen]; omega) h₂
        (fun h0 => by simp at h0) hrun
      rw [ha, hc] at hmore
      exact (opens_of_le hk hge).2 ⟨⟨h₀, h₁⟩, hmore⟩

end Loop

/-! ### The whole table -/

section Table

variable {s : State} {policy : ShProtectionPolicy} {c : ℕ}

lemma writeSlot_of_answered {s₁ s₂ : State} {t d : Ptr} (h₁ : Answered s s₁ (.pointers sizeofPointer) t)
    (h₂ : Answered s₁ s₂ .descriptor d) (ht0 : t ≠ 0) : ∃ s₃, writeSlot t 0 d s₂ = (.ok (), s₃) ∧
      s₃.heap.get t = some (.pointers [d]) ∧ (d ≠ 0 → ∃ y, s₃.heap.get d = some (.descriptor y)) ∧
        s₃.answer = s.answer ∧ s₃.calls = s.calls + 2 := by
  obtain ⟨fill, hfill⟩ := h₁.block.resolve_left ht0
  obtain ⟨ht₂, htd⟩ := h₂.frame t _ hfill
  refine ⟨_, writeSlot_of_get ht₂ (by rw [length_resize]; exact Nat.one_pos) d, Heap.get_put_self _ ht0,
    fun hd0 => ?_, h₂.answer.trans h₁.answer, ?_⟩
  · obtain ⟨fill', hfill'⟩ := h₂.block.resolve_left hd0
    exact ⟨_, (Heap.get_put_ne _ (Ne.symm htd)).trans hfill'⟩
  · rw [Machine.calls_stored, h₂.calls, h₁.calls]

lemma singleBlock_filled (c size : ℕ) (h : (Demand.mk 1 0 (toSize (size + c))).Opens s.answer s.calls) :
    ∃ t x s', singleBlock c size s = (.ok (t, 1), s') ∧ PartsAt s'.heap t [x] ∧
      Filled ⟨1, 0, toSize (size + c)⟩ s.answer s.calls [x] ∧ s'.answer = s.answer ∧ s'.calls = s.calls + 3 := by
  obtain ⟨hok₀, hok₁⟩ := h 0 Nat.one_pos
  obtain ⟨t, s₁, hrun₁, h₁⟩ := shInternalMalloc_answered s (.pointers sizeofPointer)
  obtain ⟨d, s₂, hrun₂, h₂⟩ := shInternalMalloc_answered s₁ .descriptor
  have ht0 : t ≠ 0 := fun h0 => absurd hok₀ (Bool.eq_false_iff.1 (h₁.refused.1 h0))
  have hd0 : d ≠ 0 := fun h0 => by
    have hrefused := h₂.refused.1 h0
    rw [Machine.next, h₁.answer, h₁.calls] at hrefused
    exact absurd hok₁ (Bool.eq_false_iff.1 hrefused)
  obtain ⟨s₃, hwrite, htable, hd, ha₃, hc₃⟩ := writeSlot_of_answered h₁ h₂ ht0
  obtain ⟨y, hy⟩ := hd hd0
  have hopen : OpenAt s₃.heap t [] d := ⟨⟨by simp, by simp⟩, by simp, htable, y, hy⟩
  obtain ⟨s₄, hplace, h₄⟩ := @placeBlock_supplied s₃ t d [d] 0 y htable rfl hy (toSize (size + c))
  obtain ⟨-, z, hsize, hnull, hat⟩ := hopen.supply h₄
  refine ⟨t, ⟨d, z⟩, s₄, ?_, hat, ⟨rfl, fun j hj => ?_⟩, h₄.answer.trans ha₃, by rw [h₄.calls, hc₃]⟩
  · unfold singleBlock
    rw [Exec.bind_of_ok hrun₁, Exec.bind_of_ok hrun₂, Exec.bind_of_ok hwrite]
    exact Exec.bind_of_ok hplace _
  · obtain rfl : j = 0 := by simpa using hj
    refine ⟨hsize, ?_⟩
    rw [Machine.next, ha₃, hc₃] at hnull
    exact hnull

lemma opens_of_singleBlock {r : Ptr × ℕ} {s' : State} {size : ℕ} (hrun : singleBlock c size s = (.ok r, s')) :
    (Demand.mk 1 0 (toSize (size + c))).Opens s.answer s.calls := by
  intro j hj
  obtain rfl : j = 0 := by simpa using hj
  obtain ⟨t, s₁, hrun₁, h₁⟩ := shInternalMalloc_answered s (.pointers sizeofPointer)
  obtain ⟨d, s₂, hrun₂, h₂⟩ := shInternalMalloc_answered s₁ .descriptor
  unfold singleBlock at hrun
  rw [Exec.bind_of_ok hrun₁, Exec.bind_of_ok hrun₂] at hrun
  obtain ⟨⟨⟩, s₃, hwrite, hrun⟩ := Exec.bind_eq_ok.1 hrun
  obtain ⟨⟨⟩, s₄, hplace, -⟩ := Exec.bind_eq_ok.1 hrun
  have ht0 : t ≠ 0 := by
    obtain ⟨l, hl, -⟩ := writeSlot_eq_ok.1 hwrite
    exact Heap.ne_null hl
  obtain ⟨s₃', hwrite', htable, -⟩ := writeSlot_of_answered h₁ h₂ ht0
  rw [hwrite] at hwrite'
  cases hwrite'
  have hd0 : d ≠ 0 := by
    rintro rfl
    exact not_placeBlock_of_null htable rfl hplace
  constructor
  · by_contra hrefused
    exact ht0 (h₁.refused.2 (Bool.eq_false_iff.2 hrefused))
  · by_contra hrefused
    refine hd0 (h₂.refused.2 ?_)
    rw [Machine.next, h₁.answer, h₁.calls]
    exact Bool.eq_false_iff.2 hrefused

variable (hk : policy.segmentationEnabled = true → 1 ≤ policy.segmentSize ∧ policy.segmentSize ≤ INT_MAX)
include hk

lemma shMallocSegments_outcome (hconf : Configured s policy c) (size : ℕ) (g : ShProtectionGrade) :
    ((demandUnder policy c size).Opens s.answer s.calls → ∃ t parts s',
      shMallocSegments 0 size g s = (.ok (t, parts.length), s') ∧ PartsAt s'.heap t parts ∧
        Filled (demandUnder policy c size) s.answer s.calls parts ∧ s'.answer = s.answer ∧
          s'.calls = s.calls + (demandUnder policy c size).entryCall) ∧
    ∀ r s', shMallocSegments 0 size g s = (.ok r, s') → (demandUnder policy c size).Opens s.answer s.calls := by
  have hdiff := hconf.diff policy.cipherPolicy.algorithm policy.cipherPolicy.mode
  rw [shMallocSegments_eq (hconf.policy g) hdiff]
  unfold demandUnder
  by_cases hseg : policy.segmentationEnabled = true
  · obtain ⟨hk1, hkmax⟩ := hk hseg
    rw [if_pos hseg, if_pos hseg]
    rcases le_or_gt (toInt size) 0 with hr | hr
    · rw [Int.toNat_of_nonpos hr, segmentDemand_zero]
      refine ⟨fun _ => ⟨0, [], s, segmentLoop_of_nonpos hr 0 0 s, partsAt_nil _ _, ⟨rfl, by simp⟩, rfl, rfl⟩,
        fun r s' _ j hj => absurd hj (by simp)⟩
    · obtain ⟨n, hn⟩ : ∃ n : ℕ, toInt size = n := ⟨(toInt size).toNat, by omega⟩
      have hle := toInt_le size
      rw [hn, Int.toNat_natCast]
      have hlen : ([] : List Part).length + n ≤ INT_MAX := by
        rw [List.length_nil]
        omega
      constructor
      · have hloop := segmentLoop_filled (c := c) hk1 hkmax (INT_MAX + 1) n 0 [] s (by omega) hlen
          (partsAt_nil _ _) fun _ => rfl
        simpa using hloop
      · exact fun r s' hrun => opens_of_segmentLoop hk1 hkmax (INT_MAX + 1) n 0 [] s hlen (partsAt_nil _ _)
          (fun _ => rfl) hrun
  · rw [if_neg hseg, if_neg hseg]
    refine ⟨fun hopens => ?_, fun r s' hrun => opens_of_singleBlock hrun⟩
    obtain ⟨t, x, s', hrun, hat, hfilled, ha, hc⟩ := singleBlock_filled c size hopens
    exact ⟨t, [x], s', hrun, hat, hfilled, ha, hc⟩

lemma stops_shMallocSegments (hconf : Configured s policy c) (t : Ptr) (size : ℕ) (g : ShProtectionGrade) :
    Stops Fault.OfMemory (shMallocSegments t size g) s := by
  intro f s' hrun
  have hdiff := hconf.diff policy.cipherPolicy.algorithm policy.cipherPolicy.mode
  rw [shMallocSegments_eq (hconf.policy g) hdiff] at hrun
  split at hrun
  · next hseg =>
    obtain ⟨hk1, hkmax⟩ := hk hseg
    rw [segmentLoop_eq_rounds hk1 hkmax _ (toInt_le size) rfl (INT_MAX + 1)] at hrun
    · exact faultsOfMemory_segmentRounds _ _ _ s f s' hrun
    · have hle := roundsOf_le (k := policy.segmentSize) (r := toInt size) hk1
      have hmax := toInt_le size
      omega
  · have hsingle : FaultsOfMemory (singleBlock c size) := by
      refine (faultsOfMemory_shInternalMalloc _).bind fun t => (faultsOfMemory_shInternalMalloc _).bind fun d => ?_
      refine (faultsOfMemory_writeSlot t 0 d).bind fun _ => ?_
      exact (faultsOfMemory_placeBlock t 0 _).bind fun _ => faultsOfMemory_pure (t, 1)
    exact hsingle s f s' hrun

end Table

/-! ### The whole call -/

/-- An allocation that has been handed out, with blocks or without. -/
structure HandedOut where
  entry : Ptr
  protection : ShProtectionGrade
  table : Ptr
  parts : List Part

/-- The allocation is in the heap. -/
structure Made (h : Heap Block) (a : HandedOut) : Prop where
  entry : h.get a.entry = some (.entry ⟨0, a.protection, a.parts.length, a.table⟩)
  parts : PartsAt h a.table a.parts

/-- The allocations are in the heap, beside the protected table, whose array is none of theirs. -/
def Standing (s : State) (as : List HandedOut) : Prop :=
  ∃ x, TableAt s s.globals.shProtectedTable x ∧
    ∀ a ∈ as, Made s.heap a ∧ (a.parts ≠ [] → a.table ≠ x.entries)

lemma Made.mono {h h' : Heap Block} {a : HandedOut} {p q : Ptr} {x : ShProtectedMemoryTable} (ha : Made h a)
    (hp : h.get p = some (.table x)) (hq : q = 0 ∨ ∃ l, h.get q = some (.pointers l))
    (hne : a.parts ≠ [] → a.table ≠ q)
    (hs : ∀ r b, h.get r = some b → r ≠ p → r ≠ q → h'.get r = some b) : Made h' a := by
  have hkept : ∀ r b, (∀ y, b ≠ .table y) → (∀ l, b ≠ .pointers l) → h.get r = some b → h'.get r = some b := by
    intro r b hbt hbp hr
    refine hs r b hr (Heap.ne_of_get hr hp (hbt x)) ?_
    rcases hq with rfl | ⟨l, hl⟩
    · exact Heap.ne_null hr
    · exact Heap.ne_of_get hr hl (hbp l)
  refine ⟨hkept _ _ (by simp) (by simp) ha.entry,
    ha.parts.stored.mono (fun y hy b hb => ?_) (fun y hy b hb => ?_), ha.parts.distinct, fun h0 => ?_⟩
  · have hd := ha.parts.stored.descriptors y hy
    rw [hd] at hb
    cases hb
    exact hkept _ _ (by simp) (by simp) hd
  · rcases ha.parts.stored.blocks y hy with h0 | ⟨data, hdata, -⟩
    · exact absurd h0 (Heap.ne_null hb)
    · rw [hdata] at hb
      cases hb
      exact hkept _ _ (by simp) (by simp) hdata
  · have htable := ha.parts.table h0
    exact hs _ _ htable (Heap.ne_of_get htable hp (by simp)) (hne h0)

section Call

variable {s : State} {policy : ShProtectionPolicy} {c : ℕ}
  (hk : policy.segmentationEnabled = true → 1 ≤ policy.segmentSize ∧ policy.segmentSize ≤ INT_MAX)
include hk

omit hk in
lemma Standing.append {s' : State} {as : List HandedOut} {a : HandedOut} (h : Standing s as)
    (hsame : ∀ q b, s.heap.get q = some b → s'.heap.get q = some b)
    (htable : s'.globals.shProtectedTable = s.globals.shProtectedTable) (ha : Made s'.heap a)
    (hnew : ¬ s.heap.Live a.table) : Standing s' (as ++ [a]) := by
  obtain ⟨x, hx, has⟩ := h
  have hx' : TableAt s' s'.globals.shProtectedTable x := by
    rw [htable]
    exact hx.mono hsame
  refine ⟨x, hx', fun b hb => ?_⟩
  rcases List.mem_append.1 hb with hb | hb
  · obtain ⟨hmade, hne⟩ := has b hb
    exact ⟨hmade.mono hx.table hx.entries hne fun r y hr _ _ => hsame r y hr, hne⟩
  · rw [List.mem_singleton.1 hb]
    refine ⟨ha, fun h0 he => ?_⟩
    rcases hx.entries with hnull | ⟨l, hl⟩
    · exact Heap.ne_null (ha.parts.table h0) (he.trans hnull)
    · rw [← he] at hl
      exact hnew (Heap.live_of_get hl)

omit hk in
lemma Standing.grow {as : List HandedOut} (h : Standing s as) : ∃ s', growEntries s = (.ok (), s') ∧
    Standing s' as ∧ s'.globals = { s.globals with printed := s'.globals.printed } ∧ s'.answer = s.answer ∧
      s'.calls = s.calls + 1 := by
  obtain ⟨x, hx, has⟩ := h
  obtain ⟨entries, s', hrun, hx', hframe, hg, ha, hc⟩ := growEntries_spec hx
  refine ⟨s', hrun, ⟨{ x with entries := entries }, ?_, fun b hb => ?_⟩, hg, ha, hc⟩
  · rw [hg]
    exact hx'
  · obtain ⟨hmade, hne⟩ := has b hb
    refine ⟨hmade.mono hx.table hx.entries hne fun r y hr hrp hrq => (hframe r y hr hrp hrq).1, fun h0 => ?_⟩
    have hat := hmade.parts.table h0
    exact (hframe _ _ hat (Heap.ne_of_get hat hx.table (by simp)) (hne h0)).2

/-- **A call of `sh_malloc`, whatever the allocator answers**: it hands out an allocation if all that it
cannot do without is granted, and stops for want of memory if not. -/
lemma shMalloc_outcome (hconf : Configured s policy c) {as : List HandedOut} (h : Standing s as) (size : ℕ)
    (g : ShProtectionGrade) :
    ((demandUnder policy c size).Met s.answer s.calls → ∃ (a : HandedOut) (s' : State),
      shMalloc 0 size g s = (.ok a.entry, s') ∧ a.protection = g ∧
        Filled (demandUnder policy c size) s.answer s.calls a.parts ∧ Standing s' (as ++ [a]) ∧
          s'.globals = { s.globals with printed := s'.globals.printed } ∧ s'.answer = s.answer ∧
            s'.calls = s.calls + (demandUnder policy c size).calls) ∧
    (¬ (demandUnder policy c size).Met s.answer s.calls → ∃ f s',
      shMalloc 0 size g s = (.error f, s') ∧ f.OfMemory) := by
  obtain ⟨hgo, hback⟩ := shMallocSegments_outcome hk hconf size g
  by_cases hopens : (demandUnder policy c size).Opens s.answer s.calls
  · obtain ⟨t, parts, s₁, hrun₁, hat, hfilled, ha₁, hc₁⟩ := hgo hopens
    have hnext : s₁.next = s.answer (s.calls + (demandUnder policy c size).entryCall) := by
      rw [Machine.next, ha₁, hc₁]
    by_cases hok : (s.answer (s.calls + (demandUnder policy c size).entryCall)).ok = true
    · refine ⟨fun _ => ?_, fun hmet => absurd ⟨hopens, hok⟩ hmet⟩
      obtain ⟨hintact, hdead, hg₁⟩ := shMallocSegments_frame hrun₁
      obtain ⟨s₂, hrun₂, hentry, hsame₂, hg₂, ha₂, hc₂⟩ :=
        newEntry_of_ok t parts.length g (s := s₁) (by rw [hnext]; exact hok)
      let a : HandedOut := ⟨s₁.newAddr, g, t, parts⟩
      have ha : Made s₂.heap a := by
        refine ⟨hentry, hat.stored.mono (fun y _ b => hsame₂ _ b) (fun y _ b => hsame₂ _ b), hat.distinct,
          fun h0 => ?_⟩
        exact hsame₂ _ _ (hat.table h0)
      have hsame : ∀ q b, s.heap.get q = some b → s₂.heap.get q = some b := fun q b hq =>
        hsame₂ q b (by rw [hintact.get_eq (Heap.live_of_get hq), hq])
      have h₂ : Standing s₂ (as ++ [a]) := h.append hsame (by rw [hg₂, hg₁]) ha hdead
      obtain ⟨s₃, hrun₃, h₃, hg₃, ha₃, hc₃⟩ := h₂.grow
      refine ⟨a, s₃, ?_, rfl, hfilled, h₃, by rw [hg₃, hg₂, hg₁], ha₃.trans (ha₂.trans ha₁), ?_⟩
      · unfold shMalloc shAddProtectionEntry
        rw [Exec.bind_of_ok hrun₁, Exec.bind_of_ok hrun₂, Exec.bind_of_ok hrun₃]
        rfl
      · rw [hc₃, hc₂, hc₁]
        rfl
    · refine ⟨fun hmet => absurd hmet.2 hok, fun _ => ⟨.nullDeref, turnedDown s₁, ?_, trivial⟩⟩
      unfold shMalloc shAddProtectionEntry
      rw [Exec.bind_of_ok hrun₁, Exec.bind_of_error (newEntry_of_refused t parts.length g ?_)]
      rw [hnext]
      exact Bool.eq_false_iff.2 hok
  · refine ⟨fun hmet => absurd hmet.1 hopens, fun _ => ?_⟩
    rcases hrun : shMallocSegments 0 size g s with ⟨f | r, s'⟩
    · exact ⟨f, s', Exec.bind_of_error hrun _, stops_shMallocSegments hk hconf 0 size g f s' hrun⟩
    · exact absurd (hback r s' hrun) hopens

/-- All that a run of calls cannot do without is granted, from call number `n` on. -/
def AllMet (policy : ShProtectionPolicy) (c : ℕ) (answer : ℕ → Answer) : ℕ → List Call → Prop
  | _, [] => True
  | n, call :: calls => (demandUnder policy c call.size).Met answer n ∧
      AllMet policy c answer (n + (demandUnder policy c call.size).calls) calls

/-- The allocations are those of a run of calls: of the grade and the lengths asked for, and with the blocks that
were granted. -/
def AllFilled (policy : ShProtectionPolicy) (c : ℕ) (answer : ℕ → Answer) :
    ℕ → List Call → List HandedOut → Prop
  | _, [], [] => True
  | n, call :: calls, a :: as => a.protection = call.protection ∧
      Filled (demandUnder policy c call.size) answer n a.parts ∧
        AllFilled policy c answer (n + (demandUnder policy c call.size).calls) calls as
  | _, _, _ => False

/-- **A run of calls of `sh_malloc`, whatever the allocator answers**: with a table standing and `NULL` to start
from, it comes to an end exactly if all that the calls cannot do without is granted, and stops for want of memory
otherwise. In the end every allocation is there, with a block wherever one was granted. -/
theorem mallocs_outcome : ∀ {calls : List Call} {s : State} {as : List HandedOut},
    (∀ call ∈ calls, call.segmentsTable = 0) → Configured s policy c → Standing s as →
      (AllMet policy c s.answer s.calls calls →
        Ends (inTurn (fun call : Call => shMalloc call.segmentsTable call.size call.protection) calls) s
          fun handed s' => ∃ new, handed = new.map (·.entry) ∧ Standing s' (as ++ new) ∧
            AllFilled policy c s.answer s.calls calls new) ∧
      (¬ AllMet policy c s.answer s.calls calls → ∃ f s',
        inTurn (fun call : Call => shMalloc call.segmentsTable call.size call.protection) calls s =
          (.error f, s') ∧ f.OfMemory) := by
  intro calls
  induction calls with
  | nil =>
    intro s as _ _ h
    exact ⟨fun _ => ⟨[], s, rfl, [], rfl, by simpa using h, trivial⟩, fun hmet => absurd trivial hmet⟩
  | cons call calls ih =>
    intro s as hnull hconf h
    obtain ⟨hgo, hstop⟩ := shMalloc_outcome hk hconf h call.size call.protection
    rw [← hnull call List.mem_cons_self] at hgo hstop
    by_cases hmet : (demandUnder policy c call.size).Met s.answer s.calls
    · obtain ⟨a, s₁, hrun, hprotection, hfilled, h₁, hg, ha, hc⟩ := hgo hmet
      obtain ⟨hgo₁, hstop₁⟩ := ih (fun call' hmem => hnull call' (List.mem_cons_of_mem _ hmem)) (hconf.mono hg) h₁
      rw [ha, hc] at hgo₁ hstop₁
      refine ⟨fun hall => ?_, fun hall => ?_⟩
      · obtain ⟨handed, s₂, hruns, new, rfl, h₂, hfilled₂⟩ := hgo₁ hall.2
        refine ⟨a.entry :: new.map (·.entry), s₂, ?_, a :: new, rfl, by simpa using h₂, hprotection, hfilled,
          hfilled₂⟩
        unfold Exec.inTurn
        rw [Exec.bind_of_ok hrun, Exec.bind_of_ok hruns]
        rfl
      · obtain ⟨f, s₂, hruns, hf⟩ := hstop₁ fun hrest => hall ⟨hmet, hrest⟩
        refine ⟨f, s₂, ?_, hf⟩
        unfold Exec.inTurn
        rw [Exec.bind_of_ok hrun, Exec.bind_of_error hruns]
    · refine ⟨fun hall => absurd hall.1 hmet, fun _ => ?_⟩
      obtain ⟨f, s₁, hrun, hf⟩ := hstop hmet
      refine ⟨f, s₁, ?_, hf⟩
      unfold Exec.inTurn
      rw [Exec.bind_of_error hrun]

end Call

lemma standing_started (answer : ℕ → Answer) (h0 : (answer 0).fill 0 = 0) (h1 : (answer 0).fill 1 = 0) :
    Standing (started (Machine.start answer Globals.initial)) [] := by
  refine ⟨⟨0, 0⟩, ⟨?_, Or.inl rfl⟩, by simp⟩
  rw [get_started]
  show some (Block.table ⟨(answer 0).fill 0 % SIZE_RANGE, (answer 0).fill 1⟩) = _
  rw [h0, h1]
  rfl

/-- Of three segments, the block of the first is refused, and the call comes to an end; if the descriptor of the
second is, it does not. -/
theorem mallocs_outcome_refused :
    (Ends (inTurn (fun call : Call => shMalloc call.segmentsTable call.size call.protection)
        [⟨0, 25, .protectMedium⟩]) (started (Machine.start (refusing 3) Globals.initial))
          fun handed s' => ∃ new, handed = new.map (·.entry) ∧ Standing s' ([] ++ new) ∧
            AllFilled mediumRow 16 (refusing 3) 1 [⟨0, 25, .protectMedium⟩] new) ∧
      ∃ f s', inTurn (fun call : Call => shMalloc call.segmentsTable call.size call.protection)
        [⟨0, 25, .protectMedium⟩] (started (Machine.start (refusing 5) Globals.initial)) = (.error f, s') ∧
          f.OfMemory := by
  have hdemand : demandUnder mediumRow 16 25 = ⟨3, 1, 26⟩ := rfl
  constructor
  · refine (mallocs_outcome (fun _ => by decide) (by simp) (configured_initial rfl rfl)
      (standing_started _ rfl rfl)).1 ⟨?_, trivial⟩
    rw [hdemand]
    refine ⟨fun j hj => ?_, rfl⟩
    show decide (1 + 3 * j ≠ 3) = true ∧ decide (1 + 3 * j + 1 ≠ 3) = true
    constructor <;> exact decide_eq_true (by omega)
  · refine (mallocs_outcome (fun _ => by decide) (by simp) (configured_initial rfl rfl)
      (standing_started _ rfl rfl)).2 fun hmet => ?_
    have hsecond := (hmet.1.1 1 (by rw [hdemand]; decide)).2
    exact absurd hsecond (by decide)

end SafeHeap
