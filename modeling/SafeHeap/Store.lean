import SafeHeap.CMachine.Simulate
import SafeHeap.Entry
import SafeHeap.Isolation
import SafeHeap.Parameters
import SafeHeap.Rounds

/-!
# `sh_malloc` as a store of allocations

What the library is for is a store: under every pointer handed out it keeps an item, with its grade and its
contents, segment by segment; a new item comes under a new pointer, and leaves the others as they are
(`Store.Adds`).

With memory for every call and `NULL` in the uninitialised variable, calls of `sh_malloc` simulate that
(`shMalloc_simulates`, `simulates_mallocs`), as far as an item can be reached from the pointer handed out: the
pointer is that of its entry, and the entry leads through its table to the blocks of its segments. No two
allocations share a block (`StoreHolds`). So a run of calls fills a store (`mallocs_fill`).
-/

namespace SafeHeap

open CMachine Exec

/-! ### The store -/

/-- What is kept of an allocation. -/
structure Item where
  protection : ShProtectionGrade
  contents : List (List UInt8)
  deriving DecidableEq

/-- The items, by the pointers that have been handed out. -/
abbrev Store := Ptr → Option Item

/-- A new item, with contents of the lengths planned, comes under a new pointer. -/
def Store.Adds (plan : List ℕ) (protection : ShProtectionGrade) (st : Store) (handed : Ptr) (st' : Store) :
    Prop :=
  st handed = none ∧ ∃ contents : List (List UInt8), contents.map List.length = plan ∧
    st' = Function.update st handed (some ⟨protection, contents⟩)

/-- Every item is where it was. -/
def Store.Extends (st st' : Store) : Prop := ∀ p x, st p = some x → st' p = some x

namespace Store

instance : Std.Refl Extends := ⟨fun _ _ _ h => h⟩

instance : IsTrans Store Extends := ⟨fun _ _ _ h₁ h₂ p x h => h₂ p x (h₁ p x h)⟩

lemma Adds.extends {plan : List ℕ} {g : ShProtectionGrade} {st st' : Store} {p : Ptr} (h : Adds plan g st p st') :
    Extends st st' := by
  obtain ⟨hnew, contents, -, rfl⟩ := h
  intro q x hq
  have hqp : q ≠ p := by
    rintro rfl
    rw [hnew] at hq
    cases hq
  rw [Function.update_of_ne hqp, hq]

end Store

/-- The lengths of the blocks of an allocation under a policy. -/
def planUnder (policy : ShProtectionPolicy) (c size : ℕ) : List ℕ :=
  if policy.segmentationEnabled then
    List.replicate (roundsOf policy.segmentSize (toInt size)) (toSize (policy.segmentSize + c))
  else [toSize (size + c)]

/-! ### Allocations in the heap -/

/-- An allocation: the address of its entry, its grade, its segments table and its segments. -/
structure Holding where
  entry : Ptr
  protection : ShProtectionGrade
  table : Ptr
  segments : List Segment

namespace Holding

/-- The blocks of the segments: the table, if there is a segment, the descriptors and the payload. -/
def segmentBlocks (a : Holding) : List Ptr :=
  if a.segments = [] then [] else a.table :: (a.segments.map (·.descriptor) ++ a.segments.map (·.address))

def blocks (a : Holding) : List Ptr := a.entry :: a.segmentBlocks

def item (a : Holding) : Item := ⟨a.protection, a.segments.map (·.data)⟩

end Holding

/-- The allocation is in the heap. -/
structure Holds (h : Heap Block) (a : Holding) : Prop where
  entry : h.get a.entry = some (.entry ⟨0, a.protection, a.segments.length, a.table⟩)
  segments : SegmentsAt h a.table a.segments
  sizes : ∀ x ∈ a.segments, x.size = x.data.length

/-- The allocations are in the heap, beside the protected table, and no two share a block. -/
structure StoreHolds (s : State) (as : List Holding) : Prop where
  table : ∃ t, TableAt s s.globals.shProtectedTable t ∧ ∀ a ∈ as, t.entries ∉ a.blocks
  holds : ∀ a ∈ as, Holds s.heap a
  apart : (as.flatMap Holding.blocks).Nodup

/-- The items of allocations. -/
def storeOf (as : List Holding) : Store := fun p => (as.find? fun a => a.entry = p).map Holding.item

section Holds

variable {h h' : Heap Block} {a : Holding}

lemma Holds.cases_blocks (ha : Holds h a) {p : Ptr} (hp : p ∈ a.segmentBlocks) :
    (∃ l, h.get p = some (.pointers l)) ∨ (∃ x, h.get p = some (.descriptor x)) ∨
      ∃ l, h.get p = some (.bytes l) := by
  unfold Holding.segmentBlocks at hp
  split at hp
  · simp at hp
  · next hne =>
    simp only [List.mem_cons, List.mem_append, List.mem_map] at hp
    rcases hp with rfl | ⟨x, hx, rfl⟩ | ⟨x, hx, rfl⟩
    · exact Or.inl ⟨_, ha.segments.table hne⟩
    · exact Or.inr (Or.inl ⟨_, ha.segments.stored.descriptors x hx⟩)
    · exact Or.inr (Or.inr ⟨_, ha.segments.stored.blocks x hx⟩)

lemma Holds.live (ha : Holds h a) {p : Ptr} (hp : p ∈ a.blocks) : ∃ b, h.get p = some b := by
  rcases List.mem_cons.1 hp with rfl | hp
  · exact ⟨_, ha.entry⟩
  · rcases ha.cases_blocks hp with ⟨l, hl⟩ | ⟨x, hx⟩ | ⟨l, hl⟩
    · exact ⟨_, hl⟩
    · exact ⟨_, hx⟩
    · exact ⟨_, hl⟩

lemma Holds.not_table (ha : Holds h a) {p : Ptr} {t : ShProtectedMemoryTable} (hp : h.get p = some (.table t)) :
    p ∉ a.blocks := by
  intro hmem
  rcases List.mem_cons.1 hmem with rfl | hmem
  · rw [ha.entry] at hp
    cases hp
  · rcases ha.cases_blocks hmem with ⟨l, hl⟩ | ⟨x, hx⟩ | ⟨l, hl⟩
    · rw [hl] at hp
      cases hp
    · rw [hx] at hp
      cases hp
    · rw [hl] at hp
      cases hp

lemma Holds.mono (ha : Holds h a) (hs : ∀ p ∈ a.blocks, ∀ b, h.get p = some b → h'.get p = some b) :
    Holds h' a := by
  have hsegment : ∀ p ∈ a.segmentBlocks, ∀ b, h.get p = some b → h'.get p = some b := fun p hp =>
    hs p (List.mem_cons_of_mem _ hp)
  refine ⟨hs _ List.mem_cons_self _ ha.entry, ⟨⟨fun x hx => ?_, fun x hx => ?_⟩, ha.segments.distinct,
    fun hne => ?_⟩, ha.sizes⟩
  · have hmem : x.descriptor ∈ a.segmentBlocks := by
      have hd := List.mem_map_of_mem (f := fun x : Segment => x.descriptor) hx
      simp [Holding.segmentBlocks, List.ne_nil_of_mem hx, hd]
    exact hsegment _ hmem _ (ha.segments.stored.descriptors x hx)
  · have hmem : x.address ∈ a.segmentBlocks := by
      have hd := List.mem_map_of_mem (f := fun x : Segment => x.address) hx
      simp [Holding.segmentBlocks, List.ne_nil_of_mem hx, hd]
    exact hsegment _ hmem _ (ha.segments.stored.blocks x hx)
  · have hmem : a.table ∈ a.segmentBlocks := by simp [Holding.segmentBlocks, hne]
    exact hsegment _ hmem _ (ha.segments.table hne)

/-- The blocks of an allocation are distinct: those of a kind by what is known of the segments, the others
by their kinds. -/
lemma Holds.nodup (ha : Holds h a) : a.blocks.Nodup := by
  refine List.nodup_cons.2 ⟨fun hmem => ?_, ?_⟩
  · rcases ha.cases_blocks hmem with ⟨l, hl⟩ | ⟨x, hx⟩ | ⟨l, hl⟩
    · rw [ha.entry] at hl
      cases hl
    · rw [ha.entry] at hx
      cases hx
    · rw [ha.entry] at hl
      cases hl
  · unfold Holding.segmentBlocks
    split
    · exact List.nodup_nil
    · next hne =>
      have htable := ha.segments.table hne
      refine List.nodup_cons.2 ⟨fun hmem => ?_, ?_⟩
      · simp only [List.mem_append, List.mem_map] at hmem
        rcases hmem with ⟨x, hx, he⟩ | ⟨x, hx, he⟩
        · exact Heap.ne_of_get (ha.segments.stored.descriptors x hx) htable (by simp) he
        · exact Heap.ne_of_get (ha.segments.stored.blocks x hx) htable (by simp) he
      · refine List.Nodup.append ha.segments.distinct.descriptors ha.segments.distinct.blocks ?_
        intro p hd hb
        obtain ⟨x, hx, rfl⟩ := List.mem_map.1 hd
        obtain ⟨y, hy, he⟩ := List.mem_map.1 hb
        exact Heap.ne_of_get (ha.segments.stored.blocks y hy) (ha.segments.stored.descriptors x hx) (by simp) he

end Holds

/-! ### Building the segments -/

/-- The row in force and the overhead of its cipher, whatever the grade. -/
structure Configured (s : State) (policy : ShProtectionPolicy) (c : ℕ) : Prop where
  policy : ∀ g, shGetProtectionPolicy g s = (.ok (some policy), s)
  overhead : ∃ first rest, s.globals.shCiphertextSzDiffTable = first :: rest ∧ first.deIncRecommend = c

section Builds

variable {s s' : State} {policy : ShProtectionPolicy} {c : ℕ}

lemma Configured.mono (h : Configured s policy c)
    (hg : s'.globals = { s.globals with printed := s'.globals.printed }) : Configured s' policy c := by
  refine ⟨fun g => shGetProtectionPolicy_congr ?_ (h.policy g), ?_⟩
  · rw [hg]
  · rw [hg]
    exact h.overhead

lemma Configured.diff (h : Configured s policy c) (algorithm mode : ℤ) :
    shGetCipherOutsizeDiff algorithm mode s = (.ok (some c), s) := by
  obtain ⟨first, rest, htable, rfl⟩ := h.overhead
  exact shGetCipherOutsizeDiff_of_cons htable algorithm mode

lemma not_mem_of_allocated {own : Set Ptr} {ds : List Ptr} {bs : List (Ptr × List UInt8)} (h : Intact own s s')
    (ha : Allocated s s' ds bs) : (∀ d ∈ ds, d ∉ own) ∧ ∀ x ∈ bs, x.1 ∉ own := by
  obtain ⟨evs, htrace, hevs⟩ := h.calls
  have hd := ha.descriptors
  have hb := ha.payloads
  rw [htrace, descriptors_append, List.append_cancel_left_eq] at hd
  rw [htrace, payloads_append, List.append_cancel_left_eq] at hb
  refine ⟨fun d hmem => ?_, fun x hmem => ?_⟩
  · rw [← hd] at hmem
    obtain ⟨e, he, hed⟩ := List.mem_filterMap.1 hmem
    rcases e with ⟨p, b⟩ | ⟨p, q, b⟩ | p | _
    · cases b <;> cases hed
      exact hevs _ he
    all_goals cases hed
  · rw [← hb] at hmem
    obtain ⟨e, he, hed⟩ := List.mem_filterMap.1 hmem
    rcases e with ⟨p, b⟩ | ⟨p, q, b⟩ | p | _
    · cases b <;> cases hed
      exact hevs _ he
    all_goals cases hed

variable (hk : policy.segmentationEnabled = true → 1 ≤ policy.segmentSize ∧ policy.segmentSize ≤ INT_MAX)
include hk

lemma shMallocSegments_planned (hgen : s.Generous) (hconf : Configured s policy c) (size : ℕ)
    (g : ShProtectionGrade) : ∃ t segs s' bs, shMallocSegments 0 size g s = (.ok (t, segs.length), s') ∧
      SegmentsAt s'.heap t segs ∧ (∀ x ∈ segs, x.size = x.data.length) ∧
        segs.map (fun x => x.data.length) = planUnder policy c size ∧
          Allocated s s' (segs.map (·.descriptor)) bs ∧ ∀ x ∈ segs, (x.address, x.data) ∈ bs := by
  have hpolicy := hconf.policy g
  have hc := hconf.diff policy.cipherPolicy.algorithm policy.cipherPolicy.mode
  unfold planUnder
  by_cases hseg : policy.segmentationEnabled = true
  · obtain ⟨hk1, hkmax⟩ := hk hseg
    rw [if_pos hseg]
    rcases le_or_gt (toInt size) 0 with hr | hr
    · refine ⟨0, [], s, [], shMallocSegments_of_nonpos hpolicy hc hseg hr 0, segmentsAt_nil _ _, by simp, ?_,
        Allocated.refl s, by simp⟩
      rw [roundsOf_of_nonpos hr]
      rfl
    · obtain ⟨n, hn⟩ : ∃ n : ℕ, toInt size = n := ⟨(toInt size).toNat, by omega⟩
      obtain ⟨t, rounds, s', hrun, hat, hall, hnew⟩ :=
        shMallocSegments_of_pos hgen hpolicy hc hseg hk1 hkmax hn (Or.inl rfl)
      have hfull := full_of_takes hall
      refine ⟨t, rounds.map Round.segment, s', rounds.flatMap Round.allocated, hrun, hat, fun x hx => ?_, ?_, ?_,
        fun x hx => ?_⟩
      · obtain ⟨r, hr, rfl⟩ := List.mem_map.1 hx
        exact (hfull r hr).2
      · have hlen : rounds.length = roundsOf policy.segmentSize (toInt size) := by
          have hamount := (loopEnds hpolicy hc hseg hk1 hkmax size).amount 0 _ s' hrun
          rwa [List.length_map] at hamount
        rw [← hlen, List.map_map]
        exact List.map_eq_replicate_iff.2 fun r hr => (hfull r hr).1
      · rw [List.map_map]
        exact hnew
      · obtain ⟨r, hr, rfl⟩ := List.mem_map.1 hx
        exact List.mem_flatMap.2 ⟨r, hr, List.mem_append_right _ List.mem_cons_self⟩
  · rw [if_neg hseg]
    obtain ⟨t, x, s', hrun, hat, hlen, hsize, hnew⟩ := singleBlock_spec hgen c size
    refine ⟨t, [x], s', [(x.address, x.data)], ?_, hat, fun y hy => ?_, by simp [hlen], hnew, fun y hy => ?_⟩
    · rw [shMallocSegments_eq hpolicy hc, if_neg hseg, hrun]
      rfl
    · rw [List.mem_singleton.1 hy]
      exact hsize
    · rw [List.mem_singleton.1 hy]
      exact List.mem_cons_self

end Builds

/-! ### One call -/

lemma shMallocSegments_frame {s s' : State} {t : Ptr} {m size : ℕ} {g : ShProtectionGrade}
    (hrun : shMallocSegments 0 size g s = (.ok (t, m), s')) : Intact { p | s.heap.Live p } s s' ∧
      ¬ s.heap.Live t ∧ s'.globals = { s.globals with printed := s'.globals.printed } := by
  have h0 : (0 : Ptr) ∉ { p | s.heap.Live p } := fun hlive => by
    obtain ⟨b, hb⟩ := Heap.get_of_live hlive
    exact Heap.ne_null hb rfl
  have hleaves := leaves_shMallocSegments (Intact.refl (m := s) fun _ hp => hp) h0 size g
  have hintact := hleaves.1
  rw [hrun] at hintact
  have hkeeps : Keeps (NoNew (fun _ : Block => (none : Option Unit)) fun x : Globals => { x with printed := [] })
      (shMallocSegments 0 size g) :=
    keeps_shMallocSegments (fun _ _ => rfl) (fun _ => rfl) (fun _ => rfl) (fun _ => rfl) 0 size g
  have hglobals := (hkeeps.of_eq hrun).kept
  refine ⟨hintact, hleaves.2 _ _ hrun, ?_⟩
  rcases hx : s'.globals with ⟨_, _, _, _, _, _⟩
  rcases hy : s.globals with ⟨_, _, _, _, _, _⟩
  rw [hx, hy] at hglobals
  simp only [Globals.mk.injEq] at hglobals ⊢
  tauto

section Step

variable {s : State} {policy : ShProtectionPolicy} {c : ℕ}
  (hk : policy.segmentationEnabled = true → 1 ≤ policy.segmentSize ∧ policy.segmentSize ≤ INT_MAX)
include hk

lemma shMallocSegments_fresh (hgen : s.Generous) (hconf : Configured s policy c) (size : ℕ)
    (g : ShProtectionGrade) : ∃ t segs s', shMallocSegments 0 size g s = (.ok (t, segs.length), s') ∧
      SegmentsAt s'.heap t segs ∧ (∀ x ∈ segs, x.size = x.data.length) ∧
        segs.map (fun x => x.data.length) = planUnder policy c size ∧
          (∀ e, ∀ p ∈ (Holding.mk e g t segs).segmentBlocks, s.heap.get p = none) ∧
            (∀ q b, s.heap.get q = some b → s'.heap.get q = some b) ∧
              s'.globals = { s.globals with printed := s'.globals.printed } ∧ s'.answer = s.answer := by
  obtain ⟨t, segs, s', bs, hrun, hat, hsize, hplan, halloc, hbs⟩ := shMallocSegments_planned hk hgen hconf size g
  -- all that was live is intact, so that what is new is elsewhere
  obtain ⟨hintact, htable, hglobals⟩ := shMallocSegments_frame hrun
  obtain ⟨hds, has⟩ := not_mem_of_allocated hintact halloc
  have hnone : ∀ {p}, ¬ s.heap.Live p → s.heap.get p = none := fun {p} hp => by
    by_contra hget
    obtain ⟨b, hb⟩ := Option.ne_none_iff_exists'.1 hget
    exact hp (Heap.live_of_get hb)
  refine ⟨t, segs, s', hrun, hat, hsize, hplan, fun e p hp => ?_, fun q b hq => ?_, hglobals, hintact.answer⟩
  · unfold Holding.segmentBlocks at hp
    split at hp
    · cases hp
    · simp only [List.mem_cons, List.mem_append, List.mem_map] at hp
      rcases hp with rfl | ⟨x, hx, rfl⟩ | ⟨x, hx, rfl⟩
      · exact hnone htable
      · exact hnone (hds _ (List.mem_map_of_mem hx))
      · exact hnone (has _ (hbs x hx))
  · rw [hintact.get_eq (Heap.live_of_get hq), hq]

omit hk in
lemma StoreHolds.cons {s' : State} {as : List Holding} {a : Holding} (h : StoreHolds s as)
    (hsame : ∀ q b, s.heap.get q = some b → s'.heap.get q = some b)
    (htable : s'.globals.shProtectedTable = s.globals.shProtectedTable) (ha : Holds s'.heap a)
    (hnew : ∀ p ∈ a.blocks, s.heap.get p = none) : StoreHolds s' (a :: as) := by
  obtain ⟨⟨x, hx, hapart⟩, hall, hnodup⟩ := h
  have harray : x.entries ∉ a.blocks := by
    intro hmem
    rcases hx.entries with h0 | ⟨l, hl⟩
    · obtain ⟨y, hy⟩ := ha.live hmem
      exact Heap.ne_null hy h0
    · rw [hnew _ hmem] at hl
      cases hl
  refine ⟨⟨x, ?_, List.forall_mem_cons.2 ⟨harray, hapart⟩⟩, List.forall_mem_cons.2 ⟨ha, fun b hb => ?_⟩, ?_⟩
  · rw [htable]
    exact hx.mono hsame
  · exact (hall b hb).mono fun p _ => hsame p
  · rw [List.flatMap_cons]
    refine ha.nodup.append hnodup fun p hpa hp => ?_
    obtain ⟨b, hb, hpb⟩ := List.mem_flatMap.1 hp
    obtain ⟨y, hy⟩ := (hall b hb).live hpb
    rw [hnew p hpa] at hy
    cases hy

omit hk in
/-- Making room in the table moves nothing of an allocation. -/
lemma StoreHolds.grow {as : List Holding} (h : StoreHolds s as) : ∃ s', growEntries s = (.ok (), s') ∧
    StoreHolds s' as ∧ s'.globals = { s.globals with printed := s'.globals.printed } ∧ s'.answer = s.answer := by
  obtain ⟨⟨x, hx, hapart⟩, hall, hnodup⟩ := h
  obtain ⟨entries, s', hrun, hx', hframe, hg, ha, -⟩ := growEntries_spec hx
  have hstays : ∀ b ∈ as, ∀ p ∈ b.blocks, ∀ y, s.heap.get p = some y → s'.heap.get p = some y ∧ p ≠ entries :=
    fun b hb p hp y hy =>
      hframe p y hy (fun he => (hall b hb).not_table hx.table (he ▸ hp)) fun he => hapart b hb (he ▸ hp)
  refine ⟨s', hrun, ⟨⟨{ x with entries := entries }, ?_, fun b hb hmem => ?_⟩, fun b hb => ?_, hnodup⟩, hg, ha⟩
  · rw [hg]
    exact hx'
  · obtain ⟨y, hy⟩ := (hall b hb).live hmem
    exact (hstays b hb _ hmem y hy).2 rfl
  · exact (hall b hb).mono fun p hp y hy => (hstays b hb p hp y hy).1

/-- **A call of `sh_malloc`** makes a new allocation, of the lengths planned, and leaves the others where
they are. -/
lemma shMalloc_spec (hgen : s.Generous) (hconf : Configured s policy c) {as : List Holding}
    (h : StoreHolds s as) (size : ℕ) (g : ShProtectionGrade) : ∃ (a : Holding) (s' : State),
      shMalloc 0 size g s = (.ok a.entry, s') ∧ a.protection = g ∧
        a.segments.map (fun x => x.data.length) = planUnder policy c size ∧ (∀ b ∈ as, b.entry ≠ a.entry) ∧
          StoreHolds s' (a :: as) ∧ s'.globals = { s.globals with printed := s'.globals.printed } ∧
            s'.answer = s.answer := by
  obtain ⟨t, segs, s₁, hrun₁, hat, hsize, hplan, hfresh, hsame₁, hg₁, ha₁⟩ :=
    shMallocSegments_fresh hk hgen hconf size g
  obtain ⟨s₂, hrun₂, hentry, hsame₂, hg₂, ha₂, -⟩ :=
    newEntry_of_ok t segs.length g (s := s₁) (hgen.of_answer_eq ha₁ _)
  let a : Holding := ⟨s₁.newAddr, g, t, segs⟩
  have hholds : Holds s₂.heap a := by
    refine ⟨hentry, ⟨hat.stored.mono (fun y hy => ?_) (fun y hy => ?_), hat.distinct, fun hne => ?_⟩, hsize⟩
    · rw [hat.stored.descriptors y hy, hsame₂ _ _ (hat.stored.descriptors y hy)]
    · rw [hat.stored.blocks y hy, hsame₂ _ _ (hat.stored.blocks y hy)]
    · exact hsame₂ _ _ (hat.table hne)
  -- nothing of the new allocation was live before
  have hnew : ∀ p ∈ a.blocks, s.heap.get p = none := by
    intro p hp
    rcases List.mem_cons.1 hp with rfl | hp
    · by_contra hget
      obtain ⟨b, hb⟩ := Option.ne_none_iff_exists'.1 hget
      exact Heap.ne_fresh (hsame₁ _ b hb) _ rfl
    · exact hfresh _ p hp
  have h₂ : StoreHolds s₂ (a :: as) :=
    h.cons (fun q b hq => hsame₂ q b (hsame₁ q b hq)) (by rw [hg₂, hg₁]) hholds hnew
  obtain ⟨s₃, hrun₃, h₃, hg₃, ha₃⟩ := h₂.grow
  refine ⟨a, s₃, ?_, rfl, hplan, fun b hb he => ?_, h₃, by rw [hg₃, hg₂, hg₁], ha₃.trans (ha₂.trans ha₁)⟩
  · unfold shMalloc shAddProtectionEntry
    rw [Exec.bind_of_ok hrun₁, Exec.bind_of_ok hrun₂, Exec.bind_of_ok hrun₃]
    rfl
  · have hlive := (h.holds b hb).entry
    rw [he, hnew a.entry List.mem_cons_self] at hlive
    cases hlive

end Step

/-! ### Runs -/

/-- The store that a state stands for; the configuration is in force, and there is memory for every call. -/
def Represents (policy : ShProtectionPolicy) (c : ℕ) (s : State) (st : Store) : Prop :=
  s.Generous ∧ Configured s policy c ∧ ∃ as, StoreHolds s as ∧ st = storeOf as

/-- The addition that a call is for. -/
def addsFor (policy : ShProtectionPolicy) (c : ℕ) (call : Call) : Store → Ptr → Store → Prop :=
  Store.Adds (planUnder policy c call.size) call.protection

/-- The item that a call has made: new, of the grade asked for and of the lengths planned. -/
def MadeBy (policy : ShProtectionPolicy) (c : ℕ) (st st' : Store) (call : Call) (handed : Ptr) : Prop :=
  st handed = none ∧ ∃ x, st' handed = some x ∧ x.protection = call.protection ∧
    x.contents.map List.length = planUnder policy c call.size

lemma addsFor_extends {policy : ShProtectionPolicy} {c : ℕ} {calls : List Call} {st st' : Store}
    {handed : List Ptr} (h : Steps (addsFor policy c) calls st handed st') : Store.Extends st st' :=
  h.keeps fun _ _ _ _ _ hadds => Store.Adds.extends hadds

lemma madeBy_of_steps {policy : ShProtectionPolicy} {c : ℕ} {calls : List Call} {st st' : Store}
    {handed : List Ptr} (h : Steps (addsFor policy c) calls st handed st') :
    handed.Nodup ∧ List.Forall₂ (MadeBy policy c st st') calls handed := by
  induction h with
  | nil => exact ⟨List.nodup_nil, .nil⟩
  | @cons call calls p handed st st₁ st₂ hadds hrest ih =>
    obtain ⟨hnodup, hmade⟩ := ih
    have hext := addsFor_extends hrest
    have hfirst := Store.Adds.extends hadds
    obtain ⟨hnew, contents, hplan, rfl⟩ := hadds
    refine ⟨List.nodup_cons.2 ⟨fun hmem => ?_, hnodup⟩,
      .cons ⟨hnew, ⟨call.protection, contents⟩, ?_, rfl, hplan⟩ ?_⟩
    · -- the pointer of the first item is not handed out again
      obtain ⟨i, hi, rfl⟩ := List.getElem_of_mem hmem
      have hat := (List.forall₂_iff_get.1 hmade).2 i (by rw [hmade.length_eq]; exact hi) hi
      have hnone := hat.1
      simp at hnone
    · exact hext p _ (by simp)
    · refine hmade.imp fun call q hq => ⟨?_, hq.2⟩
      rcases hst : st q with _ | x
      · rfl
      · have hq' := hq.1
        rw [hfirst q x hst] at hq'
        cases hq'

lemma storeOf_cons (a : Holding) (as : List Holding) :
    storeOf (a :: as) = Function.update (storeOf as) a.entry (some a.item) := by
  funext p
  by_cases hp : p = a.entry
  · subst hp
    simp [storeOf]
  · rw [Function.update_of_ne hp]
    simp [storeOf, Ne.symm hp]

lemma storeOf_eq_none {as : List Holding} {p : Ptr} (h : ∀ a ∈ as, a.entry ≠ p) : storeOf as p = none := by
  have hfind : as.find? (fun a => a.entry = p) = none := by simpa using h
  unfold storeOf
  rw [hfind]
  rfl

section Runs

variable {policy : ShProtectionPolicy} {c : ℕ}
  (hk : policy.segmentationEnabled = true → 1 ≤ policy.segmentSize ∧ policy.segmentSize ≤ INT_MAX)
include hk

lemma shMalloc_simulates (size : ℕ) (g : ShProtectionGrade) :
    Simulates (Represents policy c) (Store.Adds (planUnder policy c size) g) (shMalloc 0 size g) := by
  rintro s _ ⟨hgen, hconf, as, has, rfl⟩
  obtain ⟨a, s', hrun, rfl, hplan, hne, has', hg, ha⟩ := shMalloc_spec hk hgen hconf has size g
  refine ends_of_eq hrun ⟨_, ⟨storeOf_eq_none hne, a.segments.map (·.data), ?_, rfl⟩, hgen.of_answer_eq ha,
    hconf.mono hg, a :: as, has', ?_⟩
  · rw [List.map_map]
    exact hplan
  · rw [storeOf_cons]
    rfl

/-- **Calls of `sh_malloc` simulate additions to a store**, one after the other. -/
theorem simulates_mallocs {calls : List Call} (hnull : ∀ call ∈ calls, call.segmentsTable = 0) :
    Simulates (Represents policy c)
      (Steps (addsFor policy c) calls)
      (inTurn (fun call : Call => shMalloc call.segmentsTable call.size call.protection) calls) := by
  refine Simulates.inTurn fun call hcall => ?_
  rw [hnull call hcall]
  exact shMalloc_simulates hk call.size call.protection

/-- **A run of calls of `sh_malloc` fills a store**: the items that were there stay as they are, and each
call adds one of the grade and the lengths it is to have, under a pointer that was handed to no other. -/
theorem mallocs_fill {calls : List Call} (hnull : ∀ call ∈ calls, call.segmentsTable = 0) {s : State} {st : Store}
    (h : Represents policy c s st) :
    Ends (inTurn (fun call : Call => shMalloc call.segmentsTable call.size call.protection) calls) s
      fun handed s' => ∃ st', Represents policy c s' st' ∧ Store.Extends st st' ∧ handed.Nodup ∧
        List.Forall₂ (MadeBy policy c st st') calls handed := by
  obtain ⟨handed, s', hrun, st', hsteps, h'⟩ := simulates_mallocs hk hnull s st h
  exact ends_of_eq hrun ⟨st', h', addsFor_extends hsteps, madeBy_of_steps hsteps⟩

end Runs

lemma configured_initial {s : State} (hrows : s.globals.shProtectionPolicies = shProtectionPolicies)
    (hdiffs : s.globals.shCiphertextSzDiffTable = shCiphertextSzDiffTable) : Configured s mediumRow 16 := by
  have hpolicy : shGetProtectionPolicy .protectMedium s = (.ok (some mediumRow), s) :=
    shGetProtectionPolicy_congr hrows policy_atStart
  exact ⟨fun _ => hpolicy, _, _, hdiffs, rfl⟩

lemma represents_started : Represents mediumRow 16 (started atStart) (storeOf []) :=
  ⟨fun _ => rfl, configured_initial rfl rfl, [], ⟨⟨⟨0, 0⟩, ⟨rfl, Or.inl rfl⟩, by simp⟩, by simp, by simp⟩, rfl⟩

/-- Two allocations in turn, of 25 bytes and of 5. -/
theorem mallocs_fill_two :
    Ends (inTurn (fun call : Call => shMalloc call.segmentsTable call.size call.protection)
      [⟨0, 25, .protectMedium⟩, ⟨0, 5, .protectHigh⟩]) (started atStart) fun handed s' =>
        ∃ st', Represents mediumRow 16 s' st' ∧ Store.Extends (storeOf []) st' ∧ handed.Nodup ∧
          List.Forall₂ (MadeBy mediumRow 16 (storeOf []) st')
            [⟨0, 25, .protectMedium⟩, ⟨0, 5, .protectHigh⟩] handed :=
  mallocs_fill (fun _ => by decide) (by simp) represents_started

end SafeHeap
