import SafeHeap.Lookup
import SafeHeap.ReadLoop

/-!
# Reading an allocation back

`sh_read` should use memory only while it is live, leave the blocks of the entry alone (`HeapSafe`),
and give the contents of the segments back, one after the other (`Reassembles`).

It releases the buffer first, and goes on with it, so that the only buffer to read with is `NULL`, and
the contents go through `strcat` into memory that nothing has initialised: `heapSafe_iff` says when the
strings in the segments fit, and `reassembles_iff` when the buffer happens to end up right.
-/

namespace SafeHeap

open CMachine

variable {shDecryptBuffer : Ptr → Ptr → Prog Unit}

/-! ### Before and behind the loop -/

/-- **What the end of `sh_read` comes to**, after the lookup of the policy. -/
lemma finishRead_eq {s : State} {p : Ptr} {e : ShProtectedEntry} (he : s.heap.get p = some (.entry e))
    {r : Except Fault (Option ShProtectionPolicy)} (hpolicy : shGetProtectionPolicy e.protection s = (r, s))
    (b : Ptr) : finishRead shDecryptBuffer p b s = match r with
      | .error f => (.error f, s)
      | .ok none => (.error .nullRow, s)
      | .ok (some policy) =>
        if policy.encryptionEnabled then (shDecryptBuffer b p >>= fun _ => pure b) s else (.ok b, s) := by
  unfold finishRead
  rw [Exec.bind_of_ok (Block.entries.read_of_get he)]
  rcases r with f | _ | policy
  · have hstop : (shGetProtectionPolicy e.protection >>= deref) s = (.error f, s) := by
      rw [Exec.bind_of_error hpolicy]
    rw [Exec.bind_of_error hstop]
  · have hstop : (shGetProtectionPolicy e.protection >>= deref) s = (.error .nullRow, s) := by
      rw [Exec.bind_of_ok hpolicy]
      rfl
    rw [Exec.bind_of_error hstop]
  · rw [Exec.bind_of_ok (deref_of_ok hpolicy)]
    show _ = if policy.encryptionEnabled then (shDecryptBuffer b p >>= fun _ => pure b) s else (.ok b, s)
    by_cases henc : policy.encryptionEnabled = true
    · rw [if_pos henc, if_pos henc]
    · rw [if_neg henc, if_neg henc]
      rfl

lemma finishRead_safe {s : State} {p b : Ptr} {e : ShProtectedEntry} (he : s.heap.get p = some (.entry e))
    (hdecrypt : ∀ buffer entry s, ∃ s', shDecryptBuffer buffer entry s = (.ok (), s') ∧ s'.trace = s.trace) :
    (∀ f, (finishRead shDecryptBuffer p b s).1 = .error f → ¬ f.OfMemory) ∧
      (finishRead shDecryptBuffer p b s).2.trace = s.trace := by
  obtain ⟨r, hpolicy, hfault⟩ := shGetProtectionPolicy_pure e.protection s.globals.shProtectionPolicies
  rw [finishRead_eq he (hpolicy s rfl)]
  rcases r with f | _ | policy
  · refine ⟨fun f' hf' => ?_, rfl⟩
    cases hf'
    exact hfault f rfl
  · refine ⟨fun f' hf' => ?_, rfl⟩
    cases hf'
    exact id
  · simp only
    by_cases henc : policy.encryptionEnabled = true
    · obtain ⟨s', hdec, htrace⟩ := hdecrypt b p s
      rw [if_pos henc, Exec.bind_of_ok hdec]
      refine ⟨fun f' hf' => ?_, htrace⟩
      cases hf'
    · rw [if_neg henc]
      refine ⟨fun f' hf' => ?_, rfl⟩
      cases hf'

lemma shRead_eq {s : State} {p b : Ptr} {e : ShProtectedEntry}
    (hlookup : shGetProtectedEntry b s = (.ok (some p), s)) (he : s.heap.get p = some (.entry e)) :
    shRead shDecryptBuffer b s = (free b >>= fun _ => readLoop p (INT_MAX + 1) 0 0 b >>= fun buffer =>
      finishRead shDecryptBuffer p buffer) (checked s e b) := by
  have hreset := shResetWith_eq hlookup he
  unfold shRead shReadWith collectWith
  simp only [Exec.bind_assoc, Exec.pure_bind]
  rw [Exec.bind_of_ok hlookup]
  show (shResetWith shGetProtectedEntry b >>= fun _ => readLoop p (INT_MAX + 1) 0 0 b >>= fun buffer =>
    finishRead shDecryptBuffer p buffer) s = _
  rw [Exec.bind_apply, hreset]
  rfl

lemma faultsOfMemory_segmentOf (p : Ptr) (i : ℕ) : FaultsOfMemory (segmentOf p i) := by
  refine (faultsOfMemory_read _ _).bind fun e => ?_
  exact (faultsOfMemory_readSlot _ i).bind fun d => faultsOfMemory_read _ _

lemma keeps_segmentOf (p : Ptr) (i : ℕ) : Exec.Keeps Eq (segmentOf p i) := by
  refine (Block.entries.keeps_read p).bind fun e => ?_
  exact (keeps_readSlot _ i).bind fun d => Block.descriptors.keeps_read d

/-- A loop with segments that has to start from the buffer just released stops. -/
lemma readLoop_of_released {s s₁ : State} {p b : Ptr} {e : ShProtectedEntry} {segs : List Segment}
    (he : EntryAt s.heap p e segs) (hheap : s₁.heap = s.heap.erase b) (hb : b ≠ 0) (hne : segs ≠ [] ∨ b = p)
    (left : ℕ) : ∃ f s', readLoop p (left + 1) 0 0 b s₁ = (.error f, s') ∧ f.OfMemory := by
  have hgone : s₁.heap.get b = none := by rw [hheap, Heap.get_erase, if_pos rfl]
  unfold readLoop
  by_cases hbp : b = p
  · subst hbp
    rw [Exec.bind_of_error (Block.entries.read_of_dead hb hgone)]
    exact ⟨_, _, rfl, trivial⟩
  have hentry : s₁.heap.get p = some (.entry e) := by
    rw [hheap, Heap.get_erase_ne (Ne.symm hbp), he.entry]
  have hpos : 0 < e.segmentAmount := by
    rw [he.amount]
    exact List.length_pos_iff.2 (hne.resolve_right hbp)
  rw [Exec.bind_of_ok (Block.entries.read_of_get hentry), if_pos hpos]
  -- the segment is read, if the buffer was not a part of it; then the buffer is resized
  rcases hx : segmentOf p 0 s₁ with ⟨f | x, s₂⟩
  · rw [Exec.bind_of_error hx]
    exact ⟨f, s₂, rfl, faultsOfMemory_segmentOf p 0 _ _ _ hx⟩
  · obtain rfl : s₁ = s₂ := (keeps_segmentOf p 0).of_eq hx
    have hdead : ¬ s₁.heap.Live b := by
      intro hl
      obtain ⟨c, hc⟩ := Heap.get_of_live hl
      rw [hgone] at hc
      cases hc
    rw [Exec.bind_of_ok hx, Exec.bind_of_error (shInternalRealloc_of_dead hb hdead _)]
    exact ⟨_, _, rfl, trivial⟩

lemma readLoop_of_no_segments {s : State} {p : Ptr} {e : ShProtectedEntry}
    (he : s.heap.get p = some (.entry e)) (h0 : e.segmentAmount = 0) (left : ℕ) (b : Ptr) :
    readLoop p (left + 1) 0 0 b s = (.ok b, s) := by
  unfold readLoop
  rw [Exec.bind_of_ok (Block.entries.read_of_get he), if_neg (by rw [h0]; exact Nat.lt_irrefl 0)]
  rfl

/-! ### What a read comes to -/

@[simp] lemma answer_checked (s : State) (e : ShProtectedEntry) (b : Ptr) : (checked s e b).answer = s.answer := by
  unfold checked
  split <;> rfl

@[simp] lemma calls_checked (s : State) (e : ShProtectedEntry) (b : Ptr) : (checked s e b).calls = s.calls := by
  unfold checked
  split <;> rfl

@[simp] lemma trace_checked (s : State) (e : ShProtectedEntry) (b : Ptr) : (checked s e b).trace = s.trace := by
  unfold checked
  split <;> rfl

section Read

variable {s : State} {p b : Ptr} {e : ShProtectedEntry} {segs : List Segment}

/-- With `NULL`, `sh_read` assembles the strings of the segments, as far as the counter goes. -/
lemma shRead_null (hlookup : shGetProtectedEntry 0 s = (.ok (some p), s)) (he : EntryAt s.heap p e segs) :
    match assemble none (piecesOf s.answer s.calls 0 (segs.take (INT_MAX + 1))) with
    | none => ∃ f s', f.OfMemory ∧ ∀ shDecryptBuffer, shRead shDecryptBuffer 0 s = (.error f, s')
    | some buf => ∃ b' s', EntryAt s'.heap p e segs ∧ HoldsBuffer s'.heap (blocksOf p e segs) b' buf ∧
        Spared (blocksOf p e segs) s s' ∧ ∀ shDecryptBuffer, shRead shDecryptBuffer 0 s =
          if segs.length ≤ INT_MAX then finishRead shDecryptBuffer p b' s' else (.error .intOverflow, s') := by
  have he₀ : EntryAt (checked s e 0).heap p e segs := by rwa [heap_checked]
  have hloop := readLoop_spec (INT_MAX + 1) [] segs 0 0 none (checked s e 0) (List.nil_append segs).symm he₀ rfl
  rw [answer_checked, calls_checked, List.length_nil] at hloop
  have hread : ∀ shDecryptBuffer, shRead shDecryptBuffer 0 s = (readLoop p (INT_MAX + 1) 0 0 0 >>= fun buffer =>
      finishRead shDecryptBuffer p buffer) (checked s e 0) := by
    intro shDecryptBuffer
    rw [shRead_eq hlookup he.entry, Exec.bind_of_ok free_null]
  rcases hres : assemble none (piecesOf s.answer s.calls 0 (segs.take (INT_MAX + 1))) with _ | buf
  · rw [hres] at hloop
    obtain ⟨f, s', hrun, hf⟩ := hloop
    exact ⟨f, s', hf, fun d => by rw [hread, Exec.bind_of_error hrun]⟩
  · rw [hres] at hloop
    obtain ⟨b', s', hrun, he', hb', hsp⟩ := hloop
    refine ⟨b', s', he', hb', ⟨?_, ?_⟩, fun d => ?_⟩
    · rw [← trace_checked s e 0]
      exact hsp.trace
    · rw [hsp.policies, globals_checked]
    · rw [hread]
      by_cases hlen : segs.length ≤ INT_MAX
      · rw [if_pos (Nat.lt_succ_of_le hlen)] at hrun
        rw [if_pos hlen, Exec.bind_of_ok hrun]
      · rw [if_neg (by omega)] at hrun
        rw [if_neg hlen, Exec.bind_of_error hrun]

lemma shRead_of_released (hlookup : shGetProtectedEntry b s = (.ok (some p), s)) (he : EntryAt s.heap p e segs)
    (hb : b ≠ 0) (hstop : segs ≠ [] ∨ b = p ∨ ¬ s.heap.Live b) (shDecryptBuffer : Ptr → Ptr → Prog Unit) :
    ∃ f s', f.OfMemory ∧ shRead shDecryptBuffer b s = (.error f, s') := by
  rw [shRead_eq hlookup he.entry]
  by_cases hl : s.heap.Live b
  · rw [Exec.bind_of_ok (free_of_live (by rwa [heap_checked]))]
    -- the loop, or its first look at the entry, is on the buffer that is gone
    have hne : segs ≠ [] ∨ b = p := by
      rcases hstop with h | h | h
      · exact Or.inl h
      · exact Or.inr h
      · exact absurd hl h
    have hheap : ((checked s e b).released b).heap = s.heap.erase b := by
      rw [Machine.heap_released, heap_checked]
    obtain ⟨f, s', hrun, hf⟩ := readLoop_of_released he hheap hb hne INT_MAX
    exact ⟨f, s', hf, Exec.bind_of_error hrun _⟩
  · exact ⟨.badFree b, checked s e b, trivial, Exec.bind_of_error (free_of_dead hb (by rwa [heap_checked])) _⟩

lemma shRead_of_no_segments (hlookup : shGetProtectedEntry b s = (.ok (some p), s))
    (he : EntryAt s.heap p e segs) (h0 : segs = []) (hbp : b ≠ p) (hl : s.heap.Live b)
    (shDecryptBuffer : Ptr → Ptr → Prog Unit) :
    ((checked s e b).released b).heap.get p = some (.entry e) ∧
      shRead shDecryptBuffer b s = finishRead shDecryptBuffer p b ((checked s e b).released b) := by
  have hentry : ((checked s e b).released b).heap.get p = some (.entry e) := by
    rw [Machine.heap_released, heap_checked, Heap.get_erase_ne (Ne.symm hbp), he.entry]
  have hamount : e.segmentAmount = 0 := by rw [he.amount, h0, List.length_nil]
  refine ⟨hentry, ?_⟩
  rw [shRead_eq hlookup he.entry, Exec.bind_of_ok (free_of_live (by rwa [heap_checked])),
    Exec.bind_of_ok (readLoop_of_no_segments hentry hamount INT_MAX b)]

end Read

/-! ### A table with one entry -/

/-- A table of one entry, at `3`, with one segment, whose descriptor is at `5` and whose block, at `6`,
is all payload; `rows` are the policies. -/
def oneEntry (rows : List ShProtectionPolicy) (data : List UInt8) : State :=
  let h : Heap Block := Heap.empty
  { (Machine.start Answer.zeros
      { Globals.initial with shProtectedTable := 1, shProtectionPolicies := rows } : State) with
    heap := (((((h.put 1 (.table ⟨1, 2⟩)).put 2 (.pointers [3])).put 3 (.entry ⟨0, .protectLow, 1, 4⟩)).put 4
      (.pointers [5])).put 5 (.descriptor ⟨6, data.length⟩)).put 6 (.bytes data) }

/-- The segment of that entry. -/
def oneSegment (data : List UInt8) : List Segment := [⟨5, 6, data.length, data⟩]

lemma entryAt_oneEntry (rows : List ShProtectionPolicy) (data : List UInt8) :
    EntryAt (oneEntry rows data).heap 3 ⟨0, .protectLow, 1, 4⟩ (oneSegment data) := by
  refine ⟨rfl, rfl, fun _ => ⟨[], rfl⟩, fun x hx => ?_, fun x hx => ?_⟩
  · cases List.mem_singleton.1 hx
    rfl
  · cases List.mem_singleton.1 hx
    rfl

/-! ### Use of memory -/

/-- No fault of memory, and none of the blocks released or resized. -/
structure HeapSafe (own : List Ptr) (s : State) (r : Except Fault Ptr × State) : Prop where
  memory : ∀ f, r.1 = .error f → ¬ f.OfMemory
  spares : ∃ evs, r.2.trace = s.trace ++ evs ∧ Spares own evs

/-- The fresh memory of the first resize, which has to be granted, holds a string; and with that string
in front, the strings of all segments fit into the buffer as it is granted along the way. Segments
beyond the reach of the counter do not count. -/
def ReadFits (s : State) (segs : List Segment) : Prop :=
  segs = [] ∨ ∃ f z, freshBytes s.next = some f ∧ FirstZero f z ∧
    Fits z 0 (piecesOf s.answer s.calls 0 (segs.take (INT_MAX + 1)))

lemma readFits_iff (s : State) (segs : List Segment) : ReadFits s segs ↔
    (assemble none (piecesOf s.answer s.calls 0 (segs.take (INT_MAX + 1)))).isSome := by
  cases segs with
  | nil => exact ⟨fun _ => rfl, fun _ => Or.inl rfl⟩
  | cons x segs =>
    rw [List.take_succ_cons, piecesOf, assemble_null_isSome_iff]
    unfold ReadFits
    rw [List.take_succ_cons, piecesOf]
    exact ⟨fun h => h.resolve_left (List.cons_ne_nil _ _), Or.inr⟩

lemma not_heapSafe_of_fault {own : List Ptr} {s s' : State} {f : Fault} (hf : f.OfMemory) :
    ¬ HeapSafe own s (.error f, s') := fun h => h.memory f rfl hf

section Safe

variable {s : State} {p b : Ptr} {e : ShProtectedEntry} {segs : List Segment}

lemma heapSafe_null_iff (hlookup : shGetProtectedEntry 0 s = (.ok (some p), s)) (he : EntryAt s.heap p e segs)
    (hdecrypt : ∀ buffer entry s, ∃ s', shDecryptBuffer buffer entry s = (.ok (), s') ∧ s'.trace = s.trace) :
    HeapSafe (blocksOf p e segs) s (shRead shDecryptBuffer 0 s) ↔ ReadFits s segs := by
  have hread := shRead_null hlookup he
  rw [readFits_iff]
  rcases hres : assemble none (piecesOf s.answer s.calls 0 (segs.take (INT_MAX + 1))) with _ | buf
  · -- a string does not fit
    rw [hres] at hread
    obtain ⟨f, s', hf, hrun⟩ := hread
    rw [hrun]
    constructor
    · intro h
      exact absurd h (not_heapSafe_of_fault hf)
    · intro h
      cases h
  · rw [hres] at hread
    obtain ⟨b', s', he', -, hsp, hrun⟩ := hread
    obtain ⟨evs, htrace, hspares⟩ := hsp.trace
    refine ⟨fun _ => rfl, fun _ => ?_⟩
    rw [hrun]
    by_cases hlen : segs.length ≤ INT_MAX
    · obtain ⟨hmem, htr⟩ := finishRead_safe he'.entry (b := b') hdecrypt
      rw [if_pos hlen]
      exact ⟨hmem, evs, by rw [htr, htrace], hspares⟩
    · rw [if_neg hlen]
      refine ⟨fun f hf => ?_, evs, htrace, hspares⟩
      cases hf
      exact id

lemma heapSafe_of_ne_null_iff (hlookup : shGetProtectedEntry b s = (.ok (some p), s))
    (he : EntryAt s.heap p e segs) (hb : b ≠ 0)
    (hdecrypt : ∀ buffer entry s, ∃ s', shDecryptBuffer buffer entry s = (.ok (), s') ∧ s'.trace = s.trace) :
    HeapSafe (blocksOf p e segs) s (shRead shDecryptBuffer b s) ↔
      segs = [] ∧ s.heap.Live b ∧ b ∉ blocksOf p e segs := by
  by_cases hstop : segs ≠ [] ∨ b = p ∨ ¬ s.heap.Live b
  · obtain ⟨f, s', hf, hrun⟩ := shRead_of_released hlookup he hb hstop shDecryptBuffer
    rw [hrun]
    constructor
    · intro h
      exact absurd h (not_heapSafe_of_fault hf)
    · rintro ⟨h0, hl, hnot⟩
      rcases hstop with h | rfl | h
      · exact absurd h0 h
      · exact absurd (by simp [blocksOf]) hnot
      · exact absurd hl h
  · simp only [not_or, not_not] at hstop
    obtain ⟨h0, hbp, hl⟩ := hstop
    obtain ⟨hentry, hrun⟩ := shRead_of_no_segments hlookup he h0 hbp hl shDecryptBuffer
    obtain ⟨hmem, htr⟩ := finishRead_safe hentry (b := b) hdecrypt
    rw [Machine.trace_released, trace_checked] at htr
    rw [hrun]
    constructor
    · intro h
      obtain ⟨evs, hevs, hspares⟩ := h.spares
      rw [htr] at hevs
      have hrel := List.append_cancel_left hevs
      refine ⟨h0, hl, fun hmem => (hspares b hmem).1 ?_⟩
      rw [← hrel]
      exact List.mem_singleton_self _
    · rintro ⟨-, -, hnot⟩
      refine ⟨hmem, [.release b], htr, fun q hq => ⟨fun hrel => ?_, by simp⟩⟩
      simp only [List.mem_singleton, Event.release.injEq] at hrel
      exact hnot (hrel ▸ hq)

end Safe

/-- **When `sh_read` uses memory as it should**: either the buffer is `NULL`, and the strings in the
segments fit; or there is no segment, and the buffer is a live block that is none of those of the entry. -/
theorem heapSafe_iff {s : State} {p b : Ptr} {e : ShProtectedEntry} {segs : List Segment}
    (hlookup : shGetProtectedEntry b s = (.ok (some p), s)) (he : EntryAt s.heap p e segs)
    (hdecrypt : ∀ buffer entry s, ∃ s', shDecryptBuffer buffer entry s = (.ok (), s') ∧ s'.trace = s.trace) :
    HeapSafe (blocksOf p e segs) s (shRead shDecryptBuffer b s) ↔
      (b = 0 ∧ ReadFits s segs) ∨ (segs = [] ∧ s.heap.Live b ∧ b ∉ blocksOf p e segs) := by
  by_cases hb : b = 0
  · subst hb
    rw [heapSafe_null_iff hlookup he hdecrypt]
    constructor
    · intro h
      exact Or.inl ⟨rfl, h⟩
    · rintro (⟨-, h⟩ | ⟨-, hl, -⟩)
      · exact h
      · obtain ⟨c, hc⟩ := Heap.get_of_live hl
        exact absurd rfl (Heap.ne_null hc)
  · rw [heapSafe_of_ne_null_iff hlookup he hb hdecrypt]
    constructor
    · exact Or.inr
    · rintro (⟨h, -⟩ | h)
      · exact absurd h hb
      · exact h

theorem heapSafe_hi : HeapSafe (blocksOf 3 ⟨0, .protectLow, 1, 4⟩ (oneSegment [104, 105, 0, 0]))
    (oneEntry shProtectionPolicies [104, 105, 0, 0])
    (shRead (fun _ _ => pure ()) 0 (oneEntry shProtectionPolicies [104, 105, 0, 0])) := by
  refine (heapSafe_iff rfl (entryAt_oneEntry _ _) fun _ _ s => ⟨s, rfl, rfl⟩).2 (Or.inl ⟨rfl, Or.inr ?_⟩)
  refine ⟨fun _ => 0, 0, rfl, ⟨rfl, fun i hi => absurd hi (Nat.not_lt_zero i)⟩, ?_⟩
  exact fits_cons.2 ⟨⟨by decide, by decide⟩, fits_nil _ _⟩

/-- What `sh_malloc` hands out is the address of the entry: reading with it releases the entry. -/
theorem not_heapSafe_identifier : ¬ HeapSafe (blocksOf 3 ⟨0, .protectLow, 1, 4⟩ (oneSegment [104, 105, 0, 0]))
    (oneEntry shProtectionPolicies [104, 105, 0, 0])
    (shRead (fun _ _ => pure ()) (addrOfSharedBuffer 3) (oneEntry shProtectionPolicies [104, 105, 0, 0])) := by
  intro h
  have hfault : (shRead (fun _ _ => pure ()) (addrOfSharedBuffer 3)
      (oneEntry shProtectionPolicies [104, 105, 0, 0])).1 = .error (.dangling 3) := rfl
  exact h.memory _ hfault trivial

/-! ### Contents -/

/-- The contents of segments, one after the other. -/
def contents (segs : List Segment) : List UInt8 := segs.flatMap fun x => x.data.take x.size

/-- What the fresh memory of all resizes would make of the buffer. -/
def freshBuffer (s : State) (segs : List Segment) : List UInt8 :=
  freshAfter [] (piecesOf s.answer s.calls 0 segs)

/-- The buffer returned holds the contents, and nothing else; `NULL` holds none. No decryption is to
have a hand in it. -/
def Reassembles (s : State) (b : Ptr) (segs : List Segment) : Prop :=
  ∀ shDecryptBuffer : Ptr → Ptr → Prog Unit, Exec.Ends (shRead shDecryptBuffer b) s fun q s' =>
    (q = 0 ∧ contents segs = []) ∨ s'.heap.get q = some (.bytes (contents segs))

/-- The sizes do not add up to too much; all segments but the first start with a zero; and the fresh
memory does so, too, and holds by chance what follows the string of the first segment. -/
def FreshIsRight (s : State) (segs : List Segment) : Prop :=
  (segs.map (·.size)).sum < SIZE_RANGE ∧ ∃ x rest d, segs = x :: rest ∧ cstr x.data = some d ∧
    d.length < x.size ∧ (∀ y ∈ rest, cstr y.data = some []) ∧ (freshBuffer s segs).head? = some 0 ∧
      (contents segs).drop (d.length + 1) = (freshBuffer s segs).drop (d.length + 1)

lemma length_contents {segs : List Segment} (h : ∀ x ∈ segs, x.size ≤ x.data.length) :
    (contents segs).length = (segs.map (·.size)).sum := by
  induction segs with
  | nil => rfl
  | cons x segs ih =>
    have hx := h x List.mem_cons_self
    have hrest := ih fun y hy => h y (List.mem_cons_of_mem _ hy)
    unfold contents at hrest ⊢
    rw [List.flatMap_cons, List.length_append, List.length_take, hrest, List.map_cons, List.sum_cons]
    omega

/-- The contents start with the string of the first segment, if that is within its size. -/
lemma cstr_contents {x : Segment} {d : List UInt8} (hd : cstr x.data = some d) (hlt : d.length < x.size)
    (rest : List Segment) : cstr (contents (x :: rest)) = some d := by
  have htake := cstr_take hd x.size
  rw [if_pos hlt] at htake
  obtain ⟨h0, tail, ht⟩ := cstr_eq_some.1 htake
  rw [contents, List.flatMap_cons, ht, List.append_assoc, List.cons_append]
  exact cstr_split h0 _

lemma size_lt_of_mem_pieces {answer : ℕ → Answer} : ∀ {segs : List Segment} {i total : ℕ},
    ∀ p ∈ piecesOf answer i total segs, p.size < SIZE_RANGE := by
  intro segs
  induction segs with
  | nil => simp [piecesOf]
  | cons x segs ih =>
    intro i total p hp
    rcases List.mem_cons.1 hp with rfl | hp
    · exact toSize_lt (total + x.size)
    · exact ih p hp

lemma src_of_mem_pieces {answer : ℕ → Answer} {P : List UInt8 → Prop} : ∀ {segs : List Segment} {i total : ℕ},
    (∀ p ∈ piecesOf answer i total segs, P p.src) ↔ ∀ x ∈ segs, P x.data := by
  intro segs
  induction segs with
  | nil => simp [piecesOf]
  | cons x segs ih =>
    intro i total
    rw [piecesOf, List.forall_mem_cons, List.forall_mem_cons, ih]

lemma growing_pieces {answer : ℕ → Answer} (hok : ∀ i, (answer i).ok = true) : ∀ {segs : List Segment} {i total : ℕ},
    total + (segs.map (·.size)).sum < SIZE_RANGE → Growing total (piecesOf answer i total segs) := by
  intro segs
  induction segs with
  | nil => intro i total _; trivial
  | cons x segs ih =>
    intro i total h
    rw [List.map_cons, List.sum_cons] at h
    have htotal : toSize (total + x.size) = total + x.size := by
      apply toSize_add_of_lt
      omega
    refine ⟨?_, ?_, ?_⟩
    · simp [freshBytes, hok]
    · show total ≤ toSize (total + x.size)
      omega
    · show Growing (toSize (total + x.size)) (piecesOf answer (i + 1) (toSize (total + x.size)) segs)
      rw [htotal]
      exact ih (by omega)

/-- **When the buffer ends up as the contents.** -/
lemma assemble_eq_contents_iff {s : State} (hgen : s.Generous) {segs : List Segment} (hne : segs ≠ [])
    (hsize : ∀ x ∈ segs, x.size ≤ x.data.length) :
    assemble none (piecesOf s.answer s.calls 0 segs) = some (some (contents segs)) ↔ FreshIsRight s segs := by
  -- the sum of the sizes is the length of the contents, and that is the size of a buffer
  have hsum : assemble none (piecesOf s.answer s.calls 0 segs) = some (some (contents segs)) →
      (segs.map (·.size)).sum < SIZE_RANGE := by
    intro h
    rw [← length_contents hsize, length_assemble h]
    exact capacityAfter_lt (by decide) size_lt_of_mem_pieces
  obtain ⟨x, rest, rfl⟩ := List.exists_cons_of_ne_nil hne
  have hiff : (List.map (·.size) (x :: rest)).sum < SIZE_RANGE →
      (assemble none (piecesOf s.answer s.calls 0 (x :: rest)) = some (some (contents (x :: rest))) ↔
        ∃ d, cstr x.data = some d ∧ d.length < x.size ∧ (∀ y ∈ rest, cstr y.data = some []) ∧
          (freshBuffer s (x :: rest)).head? = some 0 ∧
            (contents (x :: rest)).drop (d.length + 1) = (freshBuffer s (x :: rest)).drop (d.length + 1)) := by
    intro hlt
    have hgrow : Growing 0 (piecesOf s.answer s.calls 0 (x :: rest)) := growing_pieces hgen (by omega)
    have hx : x.size < SIZE_RANGE := by
      rw [List.map_cons, List.sum_cons] at hlt
      omega
    have hsz : toSize ((0 : ℕ) + x.size) = x.size := by
      rw [Nat.cast_zero, zero_add, toSize_of_lt hx]
    have hpieces : piecesOf s.answer s.calls 0 (x :: rest) =
        ⟨freshBytes (s.answer s.calls), x.size, x.data⟩ :: piecesOf s.answer (s.calls + 1) x.size rest := by
      rw [piecesOf, hsz]
    have hsrc : (∀ q ∈ piecesOf s.answer (s.calls + 1) x.size rest, cstr q.src = some []) ↔
        ∀ y ∈ rest, cstr y.data = some [] := src_of_mem_pieces (P := fun l => cstr l = some [])
    rw [hpieces] at hgrow
    rw [freshBuffer, hpieces, assemble_null_eq_iff hgrow fun d hd hdlt => cstr_contents hd hdlt rest, hsrc]
  constructor
  · intro h
    obtain ⟨d, hd⟩ := (hiff (hsum h)).1 h
    exact ⟨hsum h, x, rest, d, rfl, hd⟩
  · rintro ⟨hlt, x', rest', d, he, hd⟩
    cases he
    exact (hiff hlt).2 ⟨d, hd⟩

lemma finishRead_of_plain {s : State} {p : Ptr} {e : ShProtectedEntry} (he : s.heap.get p = some (.entry e))
    {policy : ShProtectionPolicy} (hpolicy : shGetProtectionPolicy e.protection s = (.ok (some policy), s))
    (henc : policy.encryptionEnabled = false) (b : Ptr) : finishRead shDecryptBuffer p b s = (.ok b, s) := by
  rw [finishRead_eq he hpolicy]
  simp only [henc, Bool.false_eq_true, if_false]

/-- Where `sh_read` comes to an end whatever the decryption does, there is none. -/
lemma plain_of_finishRead {s s' : State} {p b q : Ptr} {e : ShProtectedEntry}
    (he : s.heap.get p = some (.entry e)) {f : Fault}
    (h : finishRead (fun _ _ => Exec.fault f) p b s = (.ok q, s')) :
    q = b ∧ s' = s ∧ ∃ policy, shGetProtectionPolicy e.protection s = (.ok (some policy), s) ∧
      policy.encryptionEnabled = false := by
  obtain ⟨r, hpolicy, -⟩ := shGetProtectionPolicy_pure e.protection s.globals.shProtectionPolicies
  rw [finishRead_eq he (hpolicy s rfl)] at h
  rcases r with f | _ | policy
  · cases h
  · cases h
  · rcases henc : policy.encryptionEnabled with _ | _
    · simp only [henc, Bool.false_eq_true, if_false] at h
      cases h
      exact ⟨rfl, rfl, policy, hpolicy s rfl, henc⟩
    · simp only [henc, if_true] at h
      cases h

lemma not_reassembles_of_ne_null {s : State} {p b : Ptr} {e : ShProtectedEntry} {segs : List Segment}
    (hlookup : shGetProtectedEntry b s = (.ok (some p), s)) (he : EntryAt s.heap p e segs) (hb : b ≠ 0) :
    ¬ Reassembles s b segs := by
  intro h
  obtain ⟨q, s', hrun, hq⟩ := h fun _ _ => Exec.fault .diverges
  by_cases hstop : segs ≠ [] ∨ b = p ∨ ¬ s.heap.Live b
  · obtain ⟨f, s₁, -, hfault⟩ := shRead_of_released hlookup he hb hstop fun _ _ => Exec.fault .diverges
    rw [hfault] at hrun
    cases hrun
  · simp only [not_or, not_not] at hstop
    obtain ⟨h0, hbp, hl⟩ := hstop
    obtain ⟨hentry, heq⟩ := shRead_of_no_segments hlookup he h0 hbp hl fun _ _ => Exec.fault .diverges
    rw [heq] at hrun
    obtain ⟨rfl, rfl, -⟩ := plain_of_finishRead hentry hrun
    rcases hq with ⟨hq0, -⟩ | hq
    · exact hb hq0
    · rw [Machine.heap_released, Heap.get_erase, if_pos rfl] at hq
      cases hq

section Contents

variable {s : State} {p : Ptr} {e : ShProtectedEntry} {segs : List Segment}

lemma right_of_reassembles (hgen : s.Generous) (hlookup : shGetProtectedEntry 0 s = (.ok (some p), s))
    (he : EntryAt s.heap p e segs) (hsize : ∀ x ∈ segs, x.size ≤ x.data.length) (h : Reassembles s 0 segs) :
    segs.length ≤ INT_MAX ∧ (∃ policy, shGetProtectionPolicy e.protection s = (.ok (some policy), s) ∧
      policy.encryptionEnabled = false) ∧ (segs = [] ∨ FreshIsRight s segs) := by
  have hread := shRead_null hlookup he
  -- a decryption that stops does not get in the way
  obtain ⟨q, s', hrun, hq⟩ := h fun _ _ => Exec.fault .diverges
  rcases hres : assemble none (piecesOf s.answer s.calls 0 (segs.take (INT_MAX + 1))) with _ | buf
  · rw [hres] at hread
    obtain ⟨f, s₁, -, hfault⟩ := hread
    rw [hfault] at hrun
    cases hrun
  rw [hres] at hread
  obtain ⟨b', s₁, he', hb', hsp, heq⟩ := hread
  rw [heq] at hrun
  by_cases hlen : segs.length ≤ INT_MAX
  swap
  · rw [if_neg hlen] at hrun
    cases hrun
  rw [if_pos hlen] at hrun
  obtain ⟨rfl, rfl, policy, hpolicy, henc⟩ := plain_of_finishRead he'.entry hrun
  refine ⟨hlen, ⟨policy, shGetProtectionPolicy_congr hsp.policies.symm hpolicy, henc⟩, ?_⟩
  rcases segs with _ | ⟨x, rest⟩
  · exact Or.inl rfl
  right
  rw [List.take_of_length_le (by omega)] at hres
  rw [← assemble_eq_contents_iff hgen (List.cons_ne_nil _ _) hsize, hres]
  obtain ⟨l, rfl⟩ : ∃ l, buf = some l := by
    rw [piecesOf, assemble_cons] at hres
    obtain ⟨l₁, -, hres⟩ := Option.bind_eq_some_iff.1 hres
    exact exists_of_assemble hres
  rcases hq with ⟨h0, -⟩ | hq
  · exact absurd h0 (Heap.ne_null hb'.1)
  · rw [hb'.1] at hq
    cases hq
    rfl

lemma reassembles_of_right (hgen : s.Generous) (hlookup : shGetProtectedEntry 0 s = (.ok (some p), s))
    (he : EntryAt s.heap p e segs) (hsize : ∀ x ∈ segs, x.size ≤ x.data.length) (hlen : segs.length ≤ INT_MAX)
    {policy : ShProtectionPolicy} (hpolicy : shGetProtectionPolicy e.protection s = (.ok (some policy), s))
    (henc : policy.encryptionEnabled = false) (hright : segs = [] ∨ FreshIsRight s segs) :
    Reassembles s 0 segs := by
  have hread := shRead_null hlookup he
  rw [List.take_of_length_le (by omega)] at hread
  -- `NULL` for no segments, and the contents otherwise
  obtain ⟨buf, hres, hbuf⟩ : ∃ buf, assemble none (piecesOf s.answer s.calls 0 segs) = some buf ∧
      ((buf = none ∧ contents segs = []) ∨ buf = some (contents segs)) := by
    rcases hright with rfl | hfresh
    · exact ⟨none, rfl, Or.inl ⟨rfl, rfl⟩⟩
    · have hne : segs ≠ [] := by
        obtain ⟨-, x, rest, d, rfl, -⟩ := hfresh
        exact List.cons_ne_nil _ _
      exact ⟨_, (assemble_eq_contents_iff hgen hne hsize).2 hfresh, Or.inr rfl⟩
  rw [hres] at hread
  obtain ⟨b', s', he', hb', hsp, heq⟩ := hread
  intro d
  refine ⟨b', s', ?_, ?_⟩
  · rw [heq, if_pos hlen]
    exact finishRead_of_plain he'.entry (shGetProtectionPolicy_congr hsp.policies hpolicy) henc b'
  · rcases hbuf with ⟨rfl, h0⟩ | rfl
    · exact Or.inl ⟨hb', h0⟩
    · exact Or.inr hb'.1

end Contents

/-- **When `sh_read` gives the contents back**, with an allocator that grants every call: the buffer is
`NULL`, the counter gets to the last segment, the policy found asks for no decryption, and either there
is no segment, or the contents are one string and the fresh memory holds by chance what follows it. -/
theorem reassembles_iff {s : State} (hgen : s.Generous) {p b : Ptr} {e : ShProtectedEntry}
    {segs : List Segment} (hlookup : shGetProtectedEntry b s = (.ok (some p), s))
    (he : EntryAt s.heap p e segs) (hsize : ∀ x ∈ segs, x.size ≤ x.data.length) :
    Reassembles s b segs ↔ b = 0 ∧ segs.length ≤ INT_MAX ∧
      (∃ policy, shGetProtectionPolicy e.protection s = (.ok (some policy), s) ∧
        policy.encryptionEnabled = false) ∧ (segs = [] ∨ FreshIsRight s segs) := by
  constructor
  · intro h
    by_cases hb : b = 0
    · subst hb
      exact ⟨rfl, right_of_reassembles hgen hlookup he hsize h⟩
    · exact absurd h (not_reassembles_of_ne_null hlookup he hb)
  · rintro ⟨rfl, hlen, ⟨policy, hpolicy, henc⟩, hright⟩
    exact reassembles_of_right hgen hlookup he hsize hlen hpolicy henc hright

theorem reassembles_hi : Reassembles (oneEntry (shProtectionPolicies.drop 2) [104, 105, 0, 0]) 0
    (oneSegment [104, 105, 0, 0]) := by
  refine (reassembles_iff (fun _ => rfl) rfl (entryAt_oneEntry _ _) (by decide)).2 ⟨rfl, by decide, ?_, Or.inr ?_⟩
  · exact ⟨_, rfl, rfl⟩
  · exact ⟨by decide, _, [], [104, 105], rfl, by decide, by decide, by decide, by decide, by decide⟩

/-- What stands behind a zero is lost, even if the decryption, which the policy of the entry does not
ask for, leaves the buffer as it is. -/
theorem not_reassembles_zero : ¬ Reassembles (oneEntry shProtectionPolicies [104, 0, 105, 33]) 0
    (oneSegment [104, 0, 105, 33]) := by
  intro h
  obtain ⟨q, s', hrun, hq⟩ := h fun _ _ => pure ()
  have hres : (shRead (fun _ _ => pure ()) 0 (oneEntry shProtectionPolicies [104, 0, 105, 33])).1 = .ok 8 := rfl
  have hbuf : (shRead (fun _ _ => pure ()) 0 (oneEntry shProtectionPolicies [104, 0, 105, 33])).2.heap.get 8 =
      some (.bytes [104, 0, 0, 0]) := rfl
  rw [hrun] at hres hbuf
  cases hres
  rcases hq with ⟨h0, -⟩ | hq
  · cases h0
  · rw [hbuf] at hq
    exact absurd hq (by decide)

end SafeHeap
