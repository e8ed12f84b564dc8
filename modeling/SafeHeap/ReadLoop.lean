import SafeHeap.CMachine.Assemble
import SafeHeap.Io
import SafeHeap.Segments

/-!
# The loop of `sh_read` is an assembly of strings

`EntryAt h p e segs`: the entry `e` at `p`, its table, and the segments `segs` are in the heap. With
that, the loop of `sh_read` does on the heap what `assemble` does with the pieces that the segments and
the answers of the allocator make (`readLoop_spec`): it comes to an end with a buffer that holds the
result, or it stops in a fault of memory where there is none. It leaves the blocks of the entry alone,
as long as the buffer is not one of them (`Spared`).
-/

namespace SafeHeap

open CMachine

/-- The entry `e` at `p`, with its segments, is in the heap. -/
structure EntryAt (h : Heap Block) (p : Ptr) (e : ShProtectedEntry) (segs : List Segment) : Prop where
  entry : h.get p = some (.entry e)
  amount : e.segmentAmount = segs.length
  table : segs ≠ [] → ∃ rest, h.get e.segmentsTable = some (.pointers (segs.map (·.descriptor) ++ rest))
  stored : Stored h segs

/-- The blocks of an entry: its own, its table, its descriptors, and the blocks of its segments. -/
def blocksOf (p : Ptr) (e : ShProtectedEntry) (segs : List Segment) : List Ptr :=
  p :: e.segmentsTable :: (segs.map (·.descriptor) ++ segs.map (·.address))

/-- None of the blocks is released or resized. -/
def Spares (own : List Ptr) (evs : List (Event Block)) : Prop :=
  ∀ q ∈ own, .release q ∉ evs ∧ ∀ q' b, .resize q q' b ∉ evs

/-- What a stretch of the run leaves alone. -/
structure Spared (own : List Ptr) (s s' : State) : Prop where
  trace : ∃ evs, s'.trace = s.trace ++ evs ∧ Spares own evs
  policies : s'.globals.shProtectionPolicies = s.globals.shProtectionPolicies

lemma Spared.refl (own : List Ptr) (s : State) : Spared own s s :=
  ⟨⟨[], by simp, fun q _ => by simp⟩, rfl⟩

lemma Spared.trans {own : List Ptr} {s s' s'' : State} (h : Spared own s s') (h' : Spared own s' s'') :
    Spared own s s'' := by
  obtain ⟨evs, he, hs⟩ := h.trace
  obtain ⟨evs', he', hs'⟩ := h'.trace
  refine ⟨⟨evs ++ evs', by rw [he', he, List.append_assoc], fun q hq => ⟨?_, fun q' b => ?_⟩⟩,
    h'.policies.trans h.policies⟩
  · rw [List.mem_append, not_or]
    exact ⟨(hs q hq).1, (hs' q hq).1⟩
  · rw [List.mem_append, not_or]
    exact ⟨(hs q hq).2 q' b, (hs' q hq).2 q' b⟩

section Entry

variable {h h' : Heap Block} {p : Ptr} {e : ShProtectedEntry} {segs : List Segment}

lemma mem_blocksOf {x : Segment} (hx : x ∈ segs) :
    x.descriptor ∈ blocksOf p e segs ∧ x.address ∈ blocksOf p e segs := by
  have hd := List.mem_map_of_mem (f := fun x : Segment => x.descriptor) hx
  have ha := List.mem_map_of_mem (f := fun x : Segment => x.address) hx
  unfold blocksOf
  exact ⟨by simp [hd], by simp [ha]⟩

lemma EntryAt.mono (he : EntryAt h p e segs)
    (hk : ∀ q ∈ blocksOf p e segs, ∀ b, h.get q = some b → h'.get q = some b) : EntryAt h' p e segs := by
  refine ⟨hk p (by simp [blocksOf]) _ he.entry, he.amount, fun hne => ?_, fun x hx => ?_, fun x hx => ?_⟩
  · obtain ⟨rest, ht⟩ := he.table hne
    exact ⟨rest, hk _ (by simp [blocksOf]) _ ht⟩
  · exact hk _ (mem_blocksOf hx).1 _ (he.stored.descriptors x hx)
  · exact hk _ (mem_blocksOf hx).2 _ (he.stored.blocks x hx)

lemma EntryAt.live (he : EntryAt h p e segs) (hne : segs ≠ []) :
    ∀ q ∈ blocksOf p e segs, ∃ b, h.get q = some b := by
  intro q hq
  obtain ⟨rest, ht⟩ := he.table hne
  simp only [blocksOf, List.mem_cons, List.mem_append, List.mem_map] at hq
  rcases hq with rfl | rfl | ⟨x, hx, rfl⟩ | ⟨x, hx, rfl⟩
  · exact ⟨_, he.entry⟩
  · exact ⟨_, ht⟩
  · exact ⟨_, he.stored.descriptors x hx⟩
  · exact ⟨_, he.stored.blocks x hx⟩

lemma EntryAt.segmentOf {s : State} (he : EntryAt s.heap p e segs) {i : ℕ} {x : Segment}
    (hx : segs[i]? = some x) : segmentOf p i s = (.ok ⟨x.address, x.size⟩, s) := by
  have hmem := List.mem_of_getElem? hx
  obtain ⟨rest, ht⟩ := he.table (List.ne_nil_of_mem hmem)
  have hslot : (segs.map (·.descriptor) ++ rest)[i]? = some x.descriptor := by
    obtain ⟨hi, -⟩ := List.getElem?_eq_some_iff.1 hx
    rw [List.getElem?_append_left (by simpa using hi), List.getElem?_map, hx]
    rfl
  unfold SafeHeap.segmentOf
  rw [Exec.bind_of_ok (Block.entries.read_of_get he.entry), Exec.bind_of_ok (readSlot_of_get ht hslot)]
  exact Block.descriptors.read_of_get (he.stored.descriptors x hmem)

end Entry

/-! ### The buffer -/

/-- The buffer at `b` holds `buf`, and is none of the blocks `own`. -/
def HoldsBuffer (h : Heap Block) (own : List Ptr) (b : Ptr) : Option (List UInt8) → Prop
  | none => b = 0
  | some l => h.get b = some (.bytes l) ∧ b ∉ own

/-- The bytes of the fresh memory, where there is some. -/
def freshBytes (a : Answer) : Option (ℕ → UInt8) := if a.ok then some fun i => UInt8.ofNat (a.fill i) else none

lemma freshBytes_of_ok {a : Answer} (h : a.ok = true) : freshBytes a = some fun i => UInt8.ofNat (a.fill i) := by
  unfold freshBytes
  rw [h]
  rfl

lemma freshBytes_of_refused {a : Answer} (h : a.ok = false) : freshBytes a = none := by
  unfold freshBytes
  rw [h]
  rfl

lemma HoldsBuffer.live {h : Heap Block} {own : List Ptr} {b : Ptr} {buf : Option (List UInt8)}
    (hb : HoldsBuffer h own b buf) : b = 0 ∨ h.Live b := by
  cases buf with
  | none => exact Or.inl hb
  | some l => exact Or.inr (Heap.live_of_get hb.1)

lemma HoldsBuffer.data {h : Heap Block} {own : List Ptr} {b : Ptr} {buf : Option (List UInt8)}
    (hb : HoldsBuffer h own b buf) : Block.data? (h.get b) = buf.getD [] := by
  cases buf with
  | none =>
    obtain rfl : b = 0 := hb
    rw [h.get_null]
    rfl
  | some l =>
    rw [hb.1]
    rfl

lemma HoldsBuffer.ne_own {h : Heap Block} {p b : Ptr} {e : ShProtectedEntry} {segs : List Segment}
    {buf : Option (List UInt8)} (hb : HoldsBuffer h (blocksOf p e segs) b buf) (he : EntryAt h p e segs)
    (hne : segs ≠ []) : ∀ q ∈ blocksOf p e segs, q ≠ b := by
  rintro q hq rfl
  cases buf with
  | none =>
    obtain ⟨c, hc⟩ := he.live hne q hq
    exact Heap.ne_null hc hb
  | some l => exact hb.2 hq

section Buffer

variable {s : State} {p b : Ptr} {e : ShProtectedEntry} {segs : List Segment} {buf : Option (List UInt8)}

/-- The resize of a round. -/
lemma resizeBuffer_spec (he : EntryAt s.heap p e segs) (hne : segs ≠ [])
    (hb : HoldsBuffer s.heap (blocksOf p e segs) b buf) (n : ℕ) (src : List UInt8) : ∃ b' s',
      shInternalRealloc b (.bytes n) s = (.ok b', s') ∧ EntryAt s'.heap p e segs ∧
        HoldsBuffer s'.heap (blocksOf p e segs) b' ((⟨freshBytes s.next, n, src⟩ : Piece UInt8).room buf) ∧
          Spared (blocksOf p e segs) s s' ∧ s'.answer = s.answer ∧ s'.calls = s.calls + 1 := by
  have hlive := hb.live
  have hneb := hb.ne_own he hne
  rcases hok : s.next.ok with _ | _
  · -- the buffer stays as it is
    refine ⟨b, turnedDown s, shInternalRealloc_of_refused hlive hok _, he, ?_, ⟨⟨[.refuse], rfl, ?_⟩, rfl⟩, rfl, rfl⟩
    · rw [Piece.room_of_refused (freshBytes_of_refused hok)]
      exact hb
    · intro q hq
      simp
  · have hkeep : ∀ q ∈ blocksOf p e segs, ∀ c, s.heap.get q = some c →
        (s.moved b ((Request.bytes n).make (s.heap.get b) s.next.fill)).heap.get q = some c := by
      intro q hq c hc
      rw [Machine.heap_moved, Heap.get_put_ne _ (Machine.ne_movedAddr hc (hneb q hq)),
        Heap.get_erase_ne (hneb q hq), hc]
    refine ⟨s.movedAddr b, _, shInternalRealloc_of_ok hlive hok _, he.mono hkeep, ?_,
      ⟨⟨[.resize b (s.movedAddr b) _], rfl, ?_⟩, rfl⟩, rfl, rfl⟩
    · rw [Piece.room_of_fill (freshBytes_of_ok hok)]
      refine ⟨?_, fun hmem => ?_⟩
      · rw [Machine.heap_moved, Heap.get_put_self _ (s.movedAddr_ne_null b), ← hb.data]
        rfl
      · obtain ⟨c, hc⟩ := he.live hne _ hmem
        exact Machine.ne_movedAddr hc (hneb _ hmem) rfl
    · intro q hq
      refine ⟨by simp, fun q' c hmem => hneb q hq ?_⟩
      simp only [List.mem_singleton, Event.resize.injEq] at hmem
      exact hmem.1

/-- The concatenation of a round: what `strcat` makes of the buffer is what the buffer then holds. -/
lemma strcatAt_of_some (he : EntryAt s.heap p e segs) (hb : HoldsBuffer s.heap (blocksOf p e segs) b buf)
    {x : Segment} (hx : x ∈ segs) {l : List UInt8} (hl : (buf.bind fun l => strcat l x.data) = some l) :
    strcatAt b x.address s = (.ok b, s.stored b (.bytes l)) ∧ EntryAt (s.stored b (.bytes l)).heap p e segs ∧
      HoldsBuffer (s.stored b (.bytes l)).heap (blocksOf p e segs) b (some l) := by
  cases buf with
  | none => cases hl
  | some l₀ =>
    obtain ⟨hget, hnot⟩ := hb
    rw [Option.bind_some] at hl
    have hne : b ≠ x.address := by
      rintro rfl
      exact hnot (mem_blocksOf hx).2
    refine ⟨?_, he.mono fun q hq c hc => ?_, ?_, hnot⟩
    · unfold strcatAt
      rw [Exec.bind_of_ok (Block.byteArrays.read_of_get hget),
        Exec.bind_of_ok (Block.byteArrays.read_of_get (he.stored.blocks x hx)), if_neg hne]
      simp only [hl]
      rw [Exec.bind_of_ok (store_of_live (Heap.live_of_get hget) _)]
      rfl
    · have hqb : q ≠ b := by
        rintro rfl
        exact hnot hq
      rw [Machine.heap_stored, Heap.get_put_ne _ hqb, hc]
    · rw [Machine.heap_stored, Heap.get_put_self _ (Heap.ne_null hget)]

lemma strcatAt_of_none (he : EntryAt s.heap p e segs) (hb : HoldsBuffer s.heap (blocksOf p e segs) b buf)
    {x : Segment} (hx : x ∈ segs) (hl : (buf.bind fun l => strcat l x.data) = none) :
    ∃ f, strcatAt b x.address s = (.error f, s) ∧ f.OfMemory := by
  cases buf with
  | none =>
    obtain rfl : b = 0 := hb
    exact ⟨.nullDeref, rfl, trivial⟩
  | some l =>
    obtain ⟨hget, hnot⟩ := hb
    rw [Option.bind_some] at hl
    have hne : b ≠ x.address := by
      rintro rfl
      exact hnot (mem_blocksOf hx).2
    refine ⟨.outOfBounds (if (cstr x.data).isNone then x.address else b), ?_, trivial⟩
    unfold strcatAt
    rw [Exec.bind_of_ok (Block.byteArrays.read_of_get hget),
      Exec.bind_of_ok (Block.byteArrays.read_of_get (he.stored.blocks x hx)), if_neg hne]
    simp only [hl]
    rfl

end Buffer

/-! ### The loop -/

/-- The pieces that segments make: what the allocator answers, the total so far, and the block. -/
def piecesOf (answer : ℕ → Answer) : ℕ → ℕ → List Segment → List (Piece UInt8)
  | _, _, [] => []
  | i, total, x :: segs =>
    ⟨freshBytes (answer i), toSize (total + x.size), x.data⟩ ::
      piecesOf answer (i + 1) (toSize (total + x.size)) segs

section Loop

variable {p : Ptr} {e : ShProtectedEntry} {segs : List Segment}

/-- A round, for the first of the segments that are left. -/
lemma readLoop_round {s : State} {done todo : List Segment} {x : Segment} (hsegs : segs = done ++ x :: todo)
    (he : EntryAt s.heap p e segs) {b : Ptr} {buf : Option (List UInt8)}
    (hb : HoldsBuffer s.heap (blocksOf p e segs) b buf) (left total : ℕ) :
    match (⟨freshBytes s.next, toSize (total + x.size), x.data⟩ : Piece UInt8).appendTo buf with
    | none => ∃ f s', readLoop p (left + 1) done.length total b s = (.error f, s') ∧ f.OfMemory
    | some l => ∃ b' s', readLoop p (left + 1) done.length total b s =
        readLoop p left (done.length + 1) (toSize (total + x.size)) b' s' ∧ EntryAt s'.heap p e segs ∧
          HoldsBuffer s'.heap (blocksOf p e segs) b' (some l) ∧ Spared (blocksOf p e segs) s s' ∧
            s'.answer = s.answer ∧ s'.calls = s.calls + 1 := by
  have hx : segs[done.length]? = some x := by
    rw [hsegs, List.getElem?_append_right le_rfl, Nat.sub_self]
    rfl
  have hmem := List.mem_of_getElem? hx
  have hlt : done.length < e.segmentAmount := by
    rw [he.amount, hsegs, List.length_append, List.length_cons]
    omega
  obtain ⟨b₁, s₁, hrun, he₁, hb₁, hsp, ha, hcalls⟩ :=
    resizeBuffer_spec he (List.ne_nil_of_mem hmem) hb (toSize (total + x.size)) x.data
  have hunfold : readLoop p (left + 1) done.length total b s = (strcatAt b₁ x.address >>= fun buffer =>
      readLoop p left (done.length + 1) (toSize (total + x.size)) buffer) s₁ := by
    conv_lhs => unfold readLoop
    rw [Exec.bind_of_ok (Block.entries.read_of_get he.entry), if_pos hlt, Exec.bind_of_ok (he.segmentOf hx),
      Exec.bind_of_ok hrun, Exec.bind_of_ok (he₁.segmentOf hx)]
  rcases hl : (⟨freshBytes s.next, toSize (total + x.size), x.data⟩ : Piece UInt8).appendTo buf with _ | l
  · obtain ⟨f, hcat, hf⟩ := strcatAt_of_none he₁ hb₁ hmem hl
    exact ⟨f, s₁, by rw [hunfold, Exec.bind_of_error hcat], hf⟩
  · obtain ⟨hcat, he₂, hb₂⟩ := strcatAt_of_some he₁ hb₁ hmem hl
    exact ⟨b₁, _, by rw [hunfold, Exec.bind_of_ok hcat], he₂, hb₂, ⟨hsp.trace, hsp.policies⟩, ha, hcalls⟩

/-- **The loop assembles**: with `left` values of the counter to go, it takes as many segments, and
comes to an end if that is not the last of the values. -/
theorem readLoop_spec : ∀ (left : ℕ) (done todo : List Segment) (total : ℕ) (b : Ptr)
    (buf : Option (List UInt8)) (s : State), segs = done ++ todo → EntryAt s.heap p e segs →
      HoldsBuffer s.heap (blocksOf p e segs) b buf →
        match assemble buf (piecesOf s.answer s.calls total (todo.take left)) with
        | none => ∃ f s', readLoop p left done.length total b s = (.error f, s') ∧ f.OfMemory
        | some buf' => ∃ b' s', readLoop p left done.length total b s =
            (if todo.length < left then .ok b' else .error .intOverflow, s') ∧ EntryAt s'.heap p e segs ∧
              HoldsBuffer s'.heap (blocksOf p e segs) b' buf' ∧ Spared (blocksOf p e segs) s s' := by
  intro left
  induction left with
  | zero =>
    intro done todo total b buf s _ he hb
    exact ⟨b, s, rfl, he, hb, Spared.refl _ s⟩
  | succ left ih =>
    intro done todo total b buf s hsegs he hb
    cases todo with
    | nil =>
      refine ⟨b, s, ?_, he, hb, Spared.refl _ s⟩
      have hend : ¬ done.length < e.segmentAmount := by
        rw [he.amount, hsegs, List.append_nil]
        omega
      unfold readLoop
      rw [Exec.bind_of_ok (Block.entries.read_of_get he.entry), if_neg hend]
      rfl
    | cons x todo =>
      have hround := readLoop_round hsegs he hb left total
      rw [List.take_succ_cons, piecesOf, assemble_cons]
      rcases hl : (⟨freshBytes (s.answer s.calls), toSize (total + x.size), x.data⟩ : Piece UInt8).appendTo buf
        with _ | l
      · rw [show freshBytes s.next = freshBytes (s.answer s.calls) from rfl, hl] at hround
        exact hround
      · rw [show freshBytes s.next = freshBytes (s.answer s.calls) from rfl, hl] at hround
        obtain ⟨b₁, s₁, hrun, he₁, hb₁, hsp, ha, hcalls⟩ := hround
        have hrest := ih (done ++ [x]) todo (toSize (total + x.size)) b₁ (some l) s₁ (by simp [hsegs]) he₁ hb₁
        rw [ha, hcalls, List.length_append, List.length_singleton, ← hrun] at hrest
        rw [Option.bind_some]
        rcases hres : assemble (some l) (piecesOf s.answer (s.calls + 1) (toSize (total + x.size)) (todo.take left))
          with _ | buf'
        · rw [hres] at hrest
          exact hrest
        · rw [hres] at hrest
          obtain ⟨b', s', hrun', he', hb', hsp'⟩ := hrest
          refine ⟨b', s', ?_, he', hb', hsp.trans hsp'⟩
          rw [hrun']
          simp only [List.length_cons, Nat.add_lt_add_iff_right]

end Loop

end SafeHeap
