import SafeHeap.CMachine.Intact
import SafeHeap.Session

/-!
# Blocks that a session leaves alone

Blocks of anyone's (those of earlier allocations, of the client, or a protected table that has been
replaced) stay exactly as they are through any session, and the allocator is never asked about them
(`untouched_session`). They have to be live, and the session must not be pointed at them: by a buffer, by
the uninitialised variable of `sh_malloc`, by the protected table in force, or by what the memory of a new
table happens to hold (`Operation.Avoids`, `Untouched`).
-/

namespace SafeHeap

open CMachine Exec

/-- What a call is given is none of the addresses. -/
def Operation.Avoids (own : Set Ptr) (answer : ℕ → Answer) : Operation → Prop
  | .initProtection _ => ∀ i, (answer i).fill 1 ∉ own
  | .malloc c => c.segmentsTable ∉ own
  | .reset buffer => buffer ∉ own
  | .read buffer => buffer ∉ own
  | .getKey _ key => key ∉ own
  | .generateKey _ key _ => key ∉ own
  | .initCheck | .write _ | .encryptSegment .. => True

/-- The blocks are intact, and the library has no pointer to one of them in its tables. -/
structure Untouched (own : Set Ptr) (s₀ s : State) : Prop extends Intact own s₀ s where
  table : s.globals.shProtectedTable ∉ own
  entries : ∀ p x, p ∉ own → s.heap.get p = some (.table x) → x.entries ∉ own

/-- The array that a table in memory points to. -/
def Block.entries? : Block → Option Ptr
  | .table t => some t.entries
  | _ => none

section Intact

variable {own : Set Ptr} {s₀ s : State}

lemma leaves_shInternalMalloc (h : Intact own s₀ s) (r : Request) :
    Leaves (Intact own s₀) (shInternalMalloc r) s fun a _ => a ∉ own := by
  refine (h.leaves_malloc _).bind fun a s' h' ha => ?_
  dsimp only
  split
  · exact leaves_of_ok rfl (h'.step_quiet (fun _ _ => rfl) rfl rfl) ha
  · exact leaves_pure h' ha

lemma leaves_shInternalRealloc (h : Intact own s₀ s) {p : Ptr} (hp : p ∉ own) (r : Request) :
    Leaves (Intact own s₀) (shInternalRealloc p r) s fun a _ => a ∉ own := by
  refine (h.leaves_realloc hp _).bind fun a s' h' ha => ?_
  split
  · exact leaves_of_ok rfl (h'.step_quiet (fun _ _ => rfl) rfl rfl) hp
  · exact leaves_pure h' ha

/-- Whatever pointer there is in slot `i` of the array at `t` is none of the addresses. -/
def SlotApart (own : Set Ptr) (t : Ptr) (i : ℕ) (s : State) : Prop :=
  ∀ l d, s.heap.get t = some (.pointers l) → l[i]? = some d → d ∉ own

lemma SlotApart.mono {t : Ptr} {i : ℕ} {s' : State} (h : SlotApart own t i s)
    (hs : NoNew Block.pointerArrays.get Globals.shProtectedTable s s') : SlotApart own t i s' := by
  intro l d hl hd
  have hseen := hs.seen t l (by rw [Machine.observe_of_get hl]; rfl)
  obtain ⟨b, hb, hbl⟩ := Option.bind_eq_some_iff.1 hseen
  rw [Block.pointerArrays.get_eq_some] at hbl
  exact h l d (by rw [hb, hbl]; rfl) hd

lemma leaves_readSlot (h : Intact own s₀ s) {t : Ptr} {i : ℕ} (hslot : SlotApart own t i s) :
    Leaves (Intact own s₀) (readSlot t i) s fun d s' => s' = s ∧ d ∉ own := by
  refine ⟨(leaves_of_reads (keeps_readSlot t i) h).1, fun d s' hd => ?_⟩
  obtain ⟨l, hl, hi, rfl⟩ := readSlot_eq_ok.1 hd
  exact ⟨rfl, hslot l d hl hi⟩

lemma leaves_writeSlot (h : Intact own s₀ s) {t d : Ptr} (ht : t ∉ own) (hd : d ∉ own) (i : ℕ) :
    Leaves (Intact own s₀) (writeSlot t i d) s fun _ s' => SlotApart own t i s' := by
  have hwrite : Leaves (Intact own s₀) (writeSlot t i d) s fun _ _ => True := by
    refine (h.leaves_read Block.pointerArrays t).bind fun l s' h' _ => ?_
    split
    · exact h'.leaves_store ht _
    · exact leaves_fault h'
  refine ⟨hwrite.1, fun _ s' hok => ?_⟩
  obtain ⟨l, hl, hi, rfl⟩ := writeSlot_eq_ok.1 hok
  intro l' d' hl' hd'
  rw [Machine.heap_stored, Heap.get_put_self _ (Heap.ne_null hl)] at hl'
  cases hl'
  rw [List.getElem?_set_self hi] at hd'
  cases hd'
  exact hd

/-! ### Building a segments table -/

lemma leaves_placeBlock (h : Intact own s₀ s) {t : Ptr} {i : ℕ} (hslot : SlotApart own t i s) (n : ℕ) :
    Leaves (Intact own s₀) (placeBlock t i n) s fun _ s' => SlotApart own t i s' := by
  have hkeeps : Keeps (NoNew Block.pointerArrays.get Globals.shProtectedTable) (placeBlock t i n) :=
    keeps_placeBlock (fun _ _ => rfl) (fun _ => rfl) (fun _ => rfl) t i n
  have hmodify : ∀ (d : Ptr) (k : ShSegmentDescriptor → ShSegmentDescriptor),
      Keeps (NoNew Block.pointerArrays.get Globals.shProtectedTable)
        (Block.descriptors.modify d k : Prog Unit) := fun d k =>
    NoNew.keeps_modify Block.descriptors d fun x a ha => by cases ha
  have hplace : Leaves (Intact own s₀) (placeBlock t i n) s fun _ _ => True := by
    have hmalloc : Keeps (NoNew Block.pointerArrays.get Globals.shProtectedTable)
        (shInternalMalloc (.bytes n)) := keeps_shInternalMalloc (fun _ _ => rfl) fun _ => rfl
    refine ((leaves_shInternalMalloc h _).and_keeps hmalloc).bind fun a s₁ h₁ hs₁ => ?_
    have hslot₁ := hslot.mono hs₁.2
    refine (leaves_readSlot h₁ hslot₁).bind fun d s₂ h₂ hd => ?_
    obtain ⟨rfl, hd⟩ := hd
    refine ((h₂.leaves_modify Block.descriptors hd _).and_keeps (hmodify d _)).bind fun _ s₃ h₃ hs₃ => ?_
    refine (leaves_readSlot h₃ (hslot₁.mono hs₃.2)).bind fun d' s₄ h₄ hd' => ?_
    exact h₄.leaves_modify Block.descriptors hd'.2 _
  exact (hplace.and_keeps hkeeps).mono fun _ s' _ hs' => hslot.mono hs'.2

lemma leaves_newDescriptor (h : Intact own s₀ s) {t : Ptr} (ht : t ∉ own) (i : ℕ) :
    Leaves (Intact own s₀) (newDescriptor t i) s fun t' s' => t' ∉ own ∧ SlotApart own t' i s' := by
  refine (leaves_shInternalRealloc h ht _).bind fun t' s₁ h₁ ht' => ?_
  refine (leaves_shInternalMalloc h₁ _).bind fun d s₂ h₂ hd => ?_
  refine (leaves_writeSlot h₂ ht' hd i).bind fun _ s₃ h₃ hslot => ?_
  exact leaves_pure h₃ ⟨ht', hslot⟩

lemma leaves_segmentStep (h : Intact own s₀ s) (policy : ShProtectionPolicy) (c : ℕ) (r : ℤ) {t : Ptr}
    (ht : t ∉ own) (i : ℕ) : Leaves (Intact own s₀) (segmentStep policy c r t i) s fun t' _ => t' ∉ own := by
  refine (leaves_newDescriptor h ht i).bind fun t' s₁ h₁ ht' => ?_
  obtain ⟨ht', hslot⟩ := ht'
  split
  · refine (leaves_placeBlock h₁ hslot _).bind fun _ s₂ h₂ hslot₂ => ?_
    exact (leaves_placeBlock h₂ hslot₂ _).bind fun _ s₃ h₃ _ => leaves_pure h₃ ht'
  · exact (leaves_placeBlock h₁ hslot _).bind fun _ s₂ h₂ _ => leaves_pure h₂ ht'

/-- The invariant of the loop is that the table is none of the blocks. -/
lemma leaves_segmentLoop (policy : ShProtectionPolicy) (c : ℕ) : ∀ (fuel : ℕ) (r : ℤ) {t : Ptr} (i : ℕ)
    {s : State}, Intact own s₀ s → t ∉ own →
      Leaves (Intact own s₀) (segmentLoop policy c fuel r t i) s fun x _ => x.1 ∉ own := by
  intro fuel
  induction fuel with
  | zero => exact fun r t i s h _ => leaves_fault h
  | succ fuel ih =>
    intro r t i s h ht
    unfold segmentLoop
    split
    · exact (leaves_segmentStep h policy c r ht i).bind fun t' s₁ h₁ ht' => ih _ _ h₁ ht'
    · exact leaves_pure h ht

lemma leaves_singleBlock (h : Intact own s₀ s) (c size : ℕ) :
    Leaves (Intact own s₀) (singleBlock c size) s fun x _ => x.1 ∉ own := by
  refine (leaves_shInternalMalloc h _).bind fun t s₁ h₁ ht => ?_
  refine (leaves_shInternalMalloc h₁ _).bind fun d s₂ h₂ hd => ?_
  refine (leaves_writeSlot h₂ ht hd 0).bind fun _ s₃ h₃ hslot => ?_
  exact (leaves_placeBlock h₃ hslot _).bind fun _ s₄ h₄ _ => leaves_pure h₄ ht

/-- **Building a segments table** leaves the blocks alone, unless it is made to resize one, and the table is
none of them. -/
theorem leaves_shMallocSegments (h : Intact own s₀ s) {t : Ptr} (ht : t ∉ own) (size : ℕ)
    (g : ShProtectionGrade) : Leaves (Intact own s₀) (shMallocSegments t size g) s fun x _ => x.1 ∉ own := by
  have hpolicy : Keeps Eq (shGetProtectionPolicy g >>= deref) :=
    (keeps_shGetProtectionPolicy g).bind fun o => keeps_deref o
  refine (leaves_of_reads hpolicy h).bind fun policy s₁ h₁ _ => ?_
  have hdiff : Keeps Eq
      (shGetCipherOutsizeDiff policy.cipherPolicy.algorithm policy.cipherPolicy.mode >>= use) :=
    (keeps_shGetCipherOutsizeDiff _ _).bind fun o => keeps_use o
  refine (leaves_of_reads hdiff h₁).bind fun c s₂ h₂ _ => ?_
  split
  · exact leaves_segmentLoop policy c _ _ 0 h₂ ht
  · exact leaves_singleBlock h₂ c size

lemma leaves_newEntry (h : Intact own s₀ s) (segments : Ptr) (amount : ℕ) (g : ShProtectionGrade) :
    Leaves (Intact own s₀) (newEntry segments amount g) s fun _ _ => True := by
  refine (leaves_shInternalMalloc h _).bind fun e s₁ h₁ he => ?_
  refine (h₁.leaves_modify Block.entries he _).bind fun _ s₂ h₂ _ => ?_
  refine (h₂.leaves_modify Block.entries he _).bind fun _ s₃ h₃ _ => ?_
  refine (h₃.leaves_modify Block.entries he _).bind fun _ s₄ h₄ _ => ?_
  refine (h₄.leaves_modify Block.entries he _).bind fun _ s₅ h₅ _ => ?_
  exact leaves_pure h₅ trivial

/-! ### Reading, keys and encryption -/

lemma leaves_shGetProtectedEntry (h : Intact own s₀ s) (b : Ptr) :
    Leaves (Intact own s₀) (shGetProtectedEntry b >>= use) s fun _ _ => True := by
  have hlookup : Keeps Eq (shGetProtectedEntry b >>= use) :=
    (keeps_shGetProtectedEntry b).bind fun o => keeps_use o
  exact (leaves_of_reads hlookup h).mono fun _ _ _ _ => trivial

lemma leaves_shReset (h : Intact own s₀ s) {b : Ptr} (hb : b ∉ own) :
    Leaves (Intact own s₀) (shReset b) s fun _ _ => True := by
  refine (leaves_shGetProtectedEntry h b).bind fun p s₁ h₁ _ => ?_
  refine (h₁.leaves_read Block.entries p).bind fun e s₂ h₂ _ => ?_
  have hfree : ∀ s', Intact own s₀ s' → Leaves (Intact own s₀) (free b : Prog Unit) s' fun _ _ => True :=
    fun s' h' => h'.leaves_free hb
  split
  · refine Leaves.bind (Q := fun _ _ => True) (leaves_of_ok rfl ?_ trivial) fun _ s₃ h₃ _ => hfree s₃ h₃
    exact h₂.step_quiet (fun _ _ => rfl) rfl rfl
  · exact hfree s₂ h₂

lemma leaves_strcatAt (h : Intact own s₀ s) {dst : Ptr} (hdst : dst ∉ own) (src : Ptr) :
    Leaves (Intact own s₀) (strcatAt dst src) s fun b _ => b ∉ own := by
  refine (h.leaves_read Block.byteArrays dst).bind fun d s₁ h₁ _ => ?_
  refine (h₁.leaves_read Block.byteArrays src).bind fun x s₂ h₂ _ => ?_
  split
  · exact leaves_fault h₂
  · split
    · exact (h₂.leaves_store hdst _).bind fun _ s₃ h₃ _ => leaves_pure h₃ hdst
    · exact leaves_fault h₂

lemma leaves_strcpyAt (h : Intact own s₀ s) {dst : Ptr} (hdst : dst ∉ own) (src : Ptr) :
    Leaves (Intact own s₀) (strcpyAt dst src) s fun _ _ => True := by
  refine (h.leaves_read Block.byteArrays dst).bind fun d s₁ h₁ _ => ?_
  refine (h₁.leaves_read Block.byteArrays src).bind fun x s₂ h₂ _ => ?_
  split
  · exact leaves_fault h₂
  · split
    · exact h₂.leaves_store hdst _
    · exact leaves_fault h₂

/-- The invariant of the loop is that the buffer is none of the blocks. -/
lemma leaves_readLoop (entry : Ptr) : ∀ (left i total : ℕ) {b : Ptr} {s : State}, Intact own s₀ s → b ∉ own →
    Leaves (Intact own s₀) (readLoop entry left i total b) s fun b' _ => b' ∉ own := by
  intro left
  induction left with
  | zero => exact fun i total b s h _ => leaves_fault h
  | succ left ih =>
    intro i total b s h hb
    refine (h.leaves_read Block.entries entry).bind fun e s₁ h₁ _ => ?_
    split
    · refine (leaves_of_reads (keeps_segmentOf entry i) h₁).bind fun x s₂ h₂ _ => ?_
      refine (leaves_shInternalRealloc h₂ hb _).bind fun b₁ s₃ h₃ hb₁ => ?_
      refine (leaves_of_reads (keeps_segmentOf entry i) h₃).bind fun y s₄ h₄ _ => ?_
      exact (leaves_strcatAt h₄ hb₁ y.address).bind fun b₂ s₅ h₅ hb₂ => ih _ _ h₅ hb₂
    · exact leaves_pure h₁ hb

lemma leaves_shRead {shDecryptBuffer : Ptr → Ptr → Prog Unit} (hd : DecryptsInPlace shDecryptBuffer)
    (h : Intact own s₀ s) {b : Ptr} (hb : b ∉ own) :
    Leaves (Intact own s₀) (shRead shDecryptBuffer b) s fun b' _ => b' ∉ own := by
  have hcollect : Leaves (Intact own s₀) (collectWith shGetProtectedEntry b) s fun r _ => r.2 ∉ own := by
    refine (leaves_shGetProtectedEntry h b).bind fun p s₁ h₁ _ => ?_
    refine Leaves.bind (leaves_shReset h₁ hb) fun _ s₂ h₂ _ => ?_
    exact (leaves_readLoop p _ _ _ h₂ hb).bind fun b' s₃ h₃ hb' => leaves_pure h₃ hb'
  refine hcollect.bind fun r s₁ h₁ hr => ?_
  refine (h₁.leaves_read Block.entries r.1).bind fun e s₂ h₂ _ => ?_
  have hpolicy : Keeps Eq (shGetProtectionPolicy e.protection >>= deref) :=
    (keeps_shGetProtectionPolicy _).bind fun o => keeps_deref o
  refine (leaves_of_reads hpolicy h₂).bind fun policy s₃ h₃ _ => ?_
  dsimp only
  split
  · -- the decryption is in the buffer
    have hdecrypt : Leaves (Intact own s₀) (shDecryptBuffer r.2 r.1) s₃ fun _ _ => True := by
      have hdiff := hd r.2 r.1 s₃
      refine ⟨h₃.step_quiet (fun q hq => hdiff.blocks q fun he => hr (he ▸ hq)) hdiff.trace hdiff.answer, ?_⟩
      exact fun _ _ _ => trivial
    exact hdecrypt.bind fun _ s₄ h₄ _ => leaves_pure h₄ hr
  · exact leaves_pure h₃ hr

lemma leaves_shGetKey (h : Intact own s₀ s) (entry : Ptr) {key : Ptr} (hk : key ∉ own) :
    Leaves (Intact own s₀) (shGetKey entry key) s fun _ _ => True := by
  refine (h.leaves_read Block.entries entry).bind fun e s₁ h₁ _ => ?_
  have hpolicy : Keeps Eq (shGetProtectionPolicy e.protection >>= deref) :=
    (keeps_shGetProtectionPolicy _).bind fun o => keeps_deref o
  refine (leaves_of_reads hpolicy h₁).bind fun policy s₂ h₂ _ => ?_
  have hcopy : ∀ s', Intact own s₀ s' →
      Leaves (Intact own s₀) (strcpyAt key policy.cipherPolicy.unsecureKey) s' fun _ _ => True :=
    fun s' h' => leaves_strcpyAt h' hk _
  have herrno : Leaves (Intact own s₀) (setErrno EINVAL) s₂ fun _ _ => True :=
    leaves_of_ok rfl (h₂.step_quiet (fun _ _ => rfl) rfl rfl) trivial
  cases policy.cipherPolicy.keyStoreType with
  | tpmStore =>
    have hrest : ∀ s', Intact own s₀ s' → Leaves (Intact own s₀)
        (shTpmGetKey entry key >>= fun _ => strcpyAt key policy.cipherPolicy.unsecureKey) s' fun _ _ => True :=
      fun s' h' => hcopy s' h'
    dsimp only
    split
    · exact hrest s₂ h₂
    · exact herrno.bind fun _ s₃ h₃ _ => hrest s₃ h₃
  | memoryStore =>
    dsimp only
    split
    · exact hcopy s₂ h₂
    · exact herrno.bind fun _ s₃ h₃ _ => hcopy s₃ h₃

/-- Only local arrays are written. -/
lemma leaves_shEncryptSegment (h : Intact own s₀ s) (cipher : Cipher) (iv : List UInt8)
    (keyFill outFill : ℕ → UInt8) (segment entry : Ptr) :
    Leaves (Intact own s₀) (shEncryptSegment cipher iv keyFill outFill segment entry) s fun _ _ => True := by
  have hsize : ∀ g, Keeps Eq (shGetKeySize g >>= use) := fun g =>
    (keeps_shGetKeySize g).bind fun o => keeps_use o
  have hopen : Leaves (Intact own s₀) (openCipher iv keyFill entry) s fun r _ => r.1 ∉ own := by
    refine (h.leaves_read Block.entries entry).bind fun e s₁ h₁ _ => ?_
    refine (leaves_of_reads (hsize _) h₁).bind fun n s₂ h₂ _ => ?_
    refine (h₂.leaves_newLocal _).bind fun key s₃ h₃ hk => ?_
    have hrest : Leaves (Intact own s₀) (setUpCipher iv entry key) s₃ fun _ _ => True := by
      refine (leaves_shGetKey h₃ entry hk).bind fun _ s₄ h₄ _ => ?_
      refine (h₄.leaves_read Block.entries entry).bind fun e' s₅ h₅ _ => ?_
      have hpolicy : Keeps Eq (shGetProtectionPolicy e'.protection >>= deref) :=
        (keeps_shGetProtectionPolicy _).bind fun o => keeps_deref o
      refine (leaves_of_reads hpolicy h₅).bind fun policy s₆ h₆ _ => ?_
      refine (leaves_of_reads (hsize _) h₆).bind fun n' s₇ h₇ _ => ?_
      refine (h₇.leaves_read Block.byteArrays key).bind fun k s₈ h₈ _ => ?_
      split
      · exact leaves_pure h₈ trivial
      · exact leaves_fault h₈
    exact hrest.bind fun handle s₄ h₄ _ => leaves_pure h₄ hk
  refine hopen.bind fun r s₁ h₁ hr => ?_
  have hunder : Leaves (Intact own s₀) (encryptUnder cipher outFill r.2 segment) s₁ fun _ _ => True := by
    refine (h₁.leaves_read Block.descriptors segment).bind fun x s₂ h₂ _ => ?_
    refine (h₂.leaves_newLocal _).bind fun out s₃ h₃ hout => ?_
    refine (h₃.leaves_read Block.descriptors segment).bind fun x' s₄ h₄ _ => ?_
    have hcall : Leaves (Intact own s₀) (gcryCipherEncrypt cipher r.2 out x'.address x'.size) s₄
        fun _ _ => True := by
      refine (h₄.leaves_read Block.byteArrays out).bind fun o s₅ h₅ _ => ?_
      refine (h₅.leaves_read Block.byteArrays x'.address).bind fun d s₆ h₆ _ => ?_
      split
      · split
        · exact (h₆.leaves_store hout _).bind fun _ s₇ h₇ _ => leaves_pure h₇ trivial
        · exact leaves_pure h₆ trivial
      · exact leaves_fault h₆
    refine hcall.bind fun retcode s₅ h₅ _ => ?_
    have hend : ∀ s', Intact own s₀ s' → Leaves (Intact own s₀) (endLocal out : Prog Unit) s' fun _ _ => True :=
      fun s' h' => h'.leaves_endLocal hout
    dsimp only
    split
    · refine Leaves.bind (Q := fun _ _ => True) (leaves_of_ok rfl ?_ trivial) fun _ s₆ h₆ _ => hend s₆ h₆
      exact h₅.step_quiet (fun _ _ => rfl) rfl rfl
    · exact hend s₅ h₅
  exact hunder.bind fun _ s₂ h₂ _ => h₂.leaves_endLocal hr

lemma leaves_shGenerateKey (h : Intact own s₀ s) (urandom : Option (List UInt8)) {key : Ptr} (hk : key ∉ own)
    (g : ShProtectionGrade) : Leaves (Intact own s₀) (shGenerateKey urandom key g) s fun _ _ => True := by
  have hsize : Keeps Eq (shGetKeySize g >>= use) := (keeps_shGetKeySize g).bind fun o => keeps_use o
  refine (leaves_of_reads hsize h).bind fun n s₁ h₁ _ => ?_
  refine (leaves_shInternalRealloc h₁ hk _).bind fun key' s₂ h₂ hk' => ?_
  have hpolicy : Keeps Eq (shGetProtectionPolicy g >>= deref) :=
    (keeps_shGetProtectionPolicy _).bind fun o => keeps_deref o
  refine (leaves_of_reads hpolicy h₂).bind fun policy s₃ h₃ _ => ?_
  cases policy.cipherPolicy.keyStoreType with
  | tpmStore =>
    refine (leaves_of_reads keeps_globals h₃).bind fun x s₄ h₄ _ => ?_
    dsimp only
    split
    · exact leaves_fault h₄
    · exact leaves_pure h₄ trivial
  | memoryStore =>
    have hread : Leaves (Intact own s₀) (fread key' n urandom) s₃ fun _ _ => True := by
      cases urandom with
      | none => exact leaves_fault h₃
      | some source =>
        refine (h₃.leaves_read Block.byteArrays key').bind fun d s₄ h₄ _ => ?_
        split
        · exact (h₄.leaves_store hk' _).bind fun _ s₅ h₅ _ => leaves_pure h₅ trivial
        · exact leaves_fault h₄
    have hdraw : Leaves (Intact own s₀) (drawKey urandom key' n) s₃ fun _ _ => True := by
      refine hread.bind fun items s₄ h₄ _ => ?_
      split
      · exact leaves_of_ok rfl (h₄.step_quiet (fun _ _ => rfl) rfl rfl) trivial
      · exact leaves_pure h₄ trivial
    exact hdraw.bind fun _ s₄ h₄ _ => leaves_pure h₄ trivial

end Intact

/-! ### The tables -/

section Untouched

variable {own : Set Ptr} {s₀ s : State}

/-- What brings up no table leaves the library without a pointer to one of the blocks. -/
lemma Untouched.of_noNew {s' : State} (h : Untouched own s₀ s) (hi : Intact own s₀ s')
    (hs : NoNew Block.entries? Globals.shProtectedTable s s') : Untouched own s₀ s' := by
  refine ⟨hi, by rw [hs.kept]; exact h.table, fun p x hp hx => ?_⟩
  obtain ⟨b, hb, hbx⟩ := Option.bind_eq_some_iff.1 (hs.seen p x.entries (Machine.observe_of_get hx _))
  cases b with
  | table y =>
    have hy := h.entries p y hp hb
    rwa [Option.some.inj hbx] at hy
  | _ => cases hbx

lemma Untouched.leaves {α : Type} {x : Prog α} {Q : α → State → Prop} (h : Untouched own s₀ s)
    (hx : Leaves (Intact own s₀) x s Q) (hs : Keeps (NoNew Block.entries? Globals.shProtectedTable) x) :
    Leaves (Untouched own s₀) x s Q :=
  ⟨h.of_noNew hx.1 (hs s), hx.2⟩

/-- Room is made in the array of the table in force, which is none of the blocks. -/
lemma leaves_growEntries (h : Untouched own s₀ s) : Leaves (Untouched own s₀) growEntries s fun _ _ => True := by
  let p := s.globals.shProtectedTable
  show Leaves (Untouched own s₀) (Block.tables.read p >>= fun t =>
    shInternalRealloc t.entries (.pointers (toSize (sizeofEntry * toSize (t.amount + 1)))) >>= fun entries =>
      Block.tables.modify p fun t => { t with entries := entries }) s _
  refine (h.leaves (h.leaves_read Block.tables p) (Block.tables.keeps_read p)).bind fun t s₁ h₁ ht => ?_
  obtain ⟨rfl, ht⟩ := ht
  have hrealloc := leaves_shInternalRealloc h₁.toIntact (h₁.entries p t h.table ht)
    (.pointers (toSize (sizeofEntry * toSize (t.amount + 1))))
  refine (h₁.leaves hrealloc (keeps_shInternalRealloc (fun _ _ => rfl) fun _ _ => rfl)).bind
    fun entries s₂ h₂ he => ?_
  have hmodify := h₂.leaves_modify Block.tables h.table fun t => { t with entries := entries }
  rcases Block.tables.modify_cases p (fun t => { t with entries := entries }) s₂ with
    ⟨y, hy, hrun⟩ | ⟨e, hrun⟩
  · refine ⟨⟨hmodify.1, ?_, fun q x hq hx => ?_⟩, fun _ _ _ => trivial⟩
    · rw [hrun]
      exact h₂.table
    · rw [hrun, Machine.heap_stored, Heap.get_put _ (Heap.ne_null hy)] at hx
      split at hx
      · cases hx
        exact he
      · exact h₂.entries q x hq hx
  · exact leaves_of_error hrun h₂

lemma leaves_shMalloc (h : Untouched own s₀ s) {t : Ptr} (ht : t ∉ own) (size : ℕ) (g : ShProtectionGrade) :
    Leaves (Untouched own s₀) (shMalloc t size g) s fun _ _ => True := by
  have hsegments := h.leaves (leaves_shMallocSegments h.toIntact ht size g)
    (keeps_shMallocSegments (fun _ _ => rfl) (fun _ => rfl) (fun _ => rfl) (fun _ => rfl) t size g)
  refine hsegments.bind fun r s₁ h₁ _ => ?_
  have hentry := h₁.leaves (leaves_newEntry h₁.toIntact r.1 r.2 g)
    (keeps_newEntry (fun _ _ => rfl) (fun _ => rfl) r.1 r.2 g)
  refine hentry.bind fun e s₂ h₂ _ => ?_
  exact (leaves_growEntries h₂).bind fun _ s₃ h₃ _ => leaves_pure h₃ trivial

/-- The table that is made may not point to one of the blocks by chance. -/
lemma leaves_shInitProtection (h : Untouched own s₀ s) (hfill : ∀ i, (s₀.answer i).fill 1 ∉ own)
    (tpmEnabled : Bool) : Leaves (Untouched own s₀) (shInitProtection tpmEnabled) s fun _ _ => True := by
  cases tpmEnabled with
  | true => exact leaves_of_error (shInitProtection_true s) h
  | false =>
    have halloc := (leaves_shInternalMalloc h.toIntact .table).1
    by_cases hok : s.next.ok = true
    · have hnew : s.newAddr ∉ own := h.not_mem_of_get s.get_newAddr
      rw [shInternalMalloc_of_ok hok] at halloc
      refine leaves_of_ok (shInitProtection_false hok)
        ⟨halloc.step_quiet (fun _ _ => rfl) rfl rfl, hnew, fun p x hp hx => ?_⟩ trivial
      change (s.heap.put s.newAddr _).get p = _ at hx
      rw [Heap.get_put _ s.newAddr_ne_null] at hx
      split at hx
      · cases hx
        show (s.answer s.calls).fill 1 ∉ own
        rw [h.answer]
        exact hfill _
      · exact h.entries p x hp hx
    · rw [shInternalMalloc_of_refused (by simpa using hok)] at halloc
      refine leaves_of_ok (shInitProtection_refused (by simpa using hok))
        ⟨halloc.step_quiet (fun _ _ => rfl) rfl rfl, h.null_not_mem, h.entries⟩ trivial

/-- One call. -/
lemma leaves_run {shDecryptBuffer : Ptr → Ptr → Prog Unit} {cipher : Cipher}
    (hd : DecryptsInPlace shDecryptBuffer) {o : Operation} (ho : o.Avoids own s₀.answer)
    (h : Untouched own s₀ s) : Leaves (Untouched own s₀) (o.run shDecryptBuffer cipher) s fun _ _ => True := by
  have hs : (∀ b, o ≠ .initProtection b) → (∀ c, o ≠ .malloc c) →
      Keeps (NoNew Block.entries? Globals.shProtectedTable) (o.run shDecryptBuffer cipher) := fun hi hm =>
    keeps_run (fun _ => rfl) (fun _ _ => rfl) hd (fun b hb => absurd hb (hi b)) fun c hc => absurd hc (hm c)
  cases o with
  | initProtection b => exact leaves_shInitProtection h ho b
  | malloc c => exact (leaves_shMalloc h ho c.size c.protection).bind fun _ _ h' _ => leaves_pure h' trivial
  | initCheck => exact (leaves_of_reads keeps_shInitCheck h).bind fun _ _ h' _ => leaves_pure h' trivial
  | reset b => exact h.leaves (leaves_shReset h.toIntact ho) (hs nofun nofun)
  | read b =>
    have hread := (leaves_shRead hd h.toIntact ho).bind fun _ _ h' _ =>
      (leaves_pure h' trivial : Leaves _ (pure ()) _ fun _ _ => True)
    exact h.leaves hread (hs nofun nofun)
  | write b => exact leaves_pure h trivial
  | getKey entry key => exact h.leaves (leaves_shGetKey h.toIntact entry ho) (hs nofun nofun)
  | encryptSegment iv keyFill outFill segment entry =>
    exact h.leaves (leaves_shEncryptSegment h.toIntact cipher iv keyFill outFill segment entry) (hs nofun nofun)
  | generateKey urandom key g =>
    have hgenerate := (leaves_shGenerateKey h.toIntact urandom ho g).bind fun _ _ h' _ =>
      (leaves_pure h' trivial : Leaves _ (pure ()) _ fun _ _ => True)
    exact h.leaves hgenerate (hs nofun nofun)

end Untouched

end SafeHeap
