import SafeHeap.CMachine.Agree
import SafeHeap.Session

/-!
# What the library is blind to

Sessions that differ only in the grades asked for come to the same result: the same calls of the allocator,
the same addresses and contents, the same faults (`session_blind_to_grades`). So does, but for the contents, a
session that makes, allocates, resets and generates keys, whatever the blocks hold and the keys are
(`session_blind_to_contents`).

Both are facts about two runs. `Block.Like D` relates the blocks of the two: an entry to one that differs in
its grade, bytes to bytes as `D` allows, and any other block to itself.
-/

namespace SafeHeap

open CMachine Exec

/-- The entries differ in their grades, if at all. -/
structure ShProtectedEntry.SameButGrade (e e' : ShProtectedEntry) : Prop where
  sharedBuffer : e.sharedBuffer = e'.sharedBuffer
  segmentAmount : e.segmentAmount = e'.segmentAmount
  segmentsTable : e.segmentsTable = e'.segmentsTable

/-- The blocks differ in a grade, or in bytes as `D` allows, if at all. -/
inductive Block.Like (D : List UInt8 → List UInt8 → Prop) : Block → Block → Prop
  | table (t : ShProtectedMemoryTable) : Like D (.table t) (.table t)
  | entry {e e' : ShProtectedEntry} (h : e.SameButGrade e') : Like D (.entry e) (.entry e')
  | descriptor (d : ShSegmentDescriptor) : Like D (.descriptor d) (.descriptor d)
  | pointers (l : List Ptr) : Like D (.pointers l) (.pointers l)
  | bytes {l l' : List UInt8} (h : D l l') : Like D (.bytes l) (.bytes l')

/-- What contents can be told apart by: no more than what resizing and overwriting keep, and their lengths. -/
structure Contents (D : List UInt8 → List UInt8 → Prop) : Prop where
  refl : ∀ l, D l l
  length : ∀ {l l'}, D l l' → l.length = l'.length
  take : ∀ {l l'} n, D l l' → D (l.take n) (l'.take n)
  drop : ∀ {l l'} n, D l l' → D (l.drop n) (l'.drop n)
  append : ∀ {l l' r r'}, D l l' → D r r' → D (l ++ r) (l' ++ r')

/-- Contents of the same length. -/
def SameLength (l l' : List UInt8) : Prop := l.length = l'.length

lemma contents_eq : Contents Eq :=
  ⟨fun _ => rfl, fun h => congrArg _ h, fun _ h => congrArg _ h, fun _ h => congrArg _ h,
    fun h h' => h ▸ h' ▸ rfl⟩

lemma contents_sameLength : Contents SameLength := by
  refine ⟨fun _ => rfl, id, fun n h => ?_, fun n h => ?_, fun h h' => ?_⟩
  · unfold SameLength at *
    rw [List.length_take, List.length_take, h]
  · unfold SameLength at *
    rw [List.length_drop, List.length_drop, h]
  · unfold SameLength at *
    rw [List.length_append, List.length_append, h, h']

/-- The two computations agree on states that differ as `D` allows, with the same value. -/
abbrev Blind {α : Type} (D : List UInt8 → List UInt8 → Prop) (x y : Prog α) : Prop :=
  Agree (Alike (Block.Like D)) Eq x y

section Blind

variable {D : List UInt8 → List UInt8 → Prop}

section Views

variable {b b' : Block}

lemma rel_tables (h : Block.Like D b b') : Option.Rel Eq (Block.tables.get b) (Block.tables.get b') := by
  cases h
  case table => exact .some rfl
  all_goals exact .none

lemma rel_entries (h : Block.Like D b b') :
    Option.Rel ShProtectedEntry.SameButGrade (Block.entries.get b) (Block.entries.get b') := by
  cases h
  case entry h => exact .some h
  all_goals exact .none

lemma rel_descriptors (h : Block.Like D b b') :
    Option.Rel Eq (Block.descriptors.get b) (Block.descriptors.get b') := by
  cases h
  case descriptor => exact .some rfl
  all_goals exact .none

lemma rel_pointerArrays (h : Block.Like D b b') :
    Option.Rel Eq (Block.pointerArrays.get b) (Block.pointerArrays.get b') := by
  cases h
  case pointers => exact .some rfl
  all_goals exact .none

lemma rel_byteArrays (h : Block.Like D b b') :
    Option.Rel D (Block.byteArrays.get b) (Block.byteArrays.get b') := by
  cases h
  case bytes h => exact .some h
  all_goals exact .none

end Views

lemma resize_like (hD : Contents D) {l l' : List UInt8} (h : D l l') (n : ℕ) (fill : ℕ → UInt8) :
    D (resize l n fill) (resize l' n fill) := by
  unfold resize
  rw [hD.length h]
  exact hD.append (hD.take n h) (hD.refl _)

/-- Requests are answered alike. -/
lemma make_like (hD : Contents D) (r : Request) {o o' : Option Block} (h : Option.Rel (Block.Like D) o o')
    (fill : ℕ → ℕ) : Block.Like D (r.make o fill) (r.make o' fill) := by
  cases r with
  | table => exact .table _
  | entry => exact .entry ⟨rfl, rfl, rfl⟩
  | descriptor => exact .descriptor _
  | pointers size =>
    have hslots : Block.slots? o = Block.slots? o' := by
      cases h with
      | none => rfl
      | some h => cases h <;> rfl
    simp only [Request.make, hslots]
    exact .pointers _
  | bytes size =>
    have hdata : D (Block.data? o) (Block.data? o') := by
      cases h with
      | none => exact hD.refl []
      | some h =>
        cases h
        case bytes h => exact h
        all_goals exact hD.refl []
    exact .bytes (resize_like hD hdata size _)

/-! ### What only reads -/

lemma blind_use {α : Type} (o : Option α) : Blind D (use o) (use o) := by
  cases o with
  | none => exact agree_fault _
  | some a => exact agree_pure rfl

lemma blind_deref {α : Type} (o : Option α) : Blind D (deref o) (deref o) := by
  cases o with
  | none => exact agree_fault _
  | some a => exact agree_pure rfl

/-- The row in force is the same, whatever the grades. -/
lemma blind_policy (g g' : ShProtectionGrade) :
    Blind D (shGetProtectionPolicy g >>= deref) (shGetProtectionPolicy g' >>= deref) := by
  have hlookup : Blind D (shGetProtectionPolicy g) (shGetProtectionPolicy g') :=
    agree_globals.bind_eq fun _ => agree_scan _ _ _ _
  exact hlookup.bind_eq blind_deref

lemma blind_outsizeDiff (algorithm mode : ℤ) : Blind D (shGetCipherOutsizeDiff algorithm mode >>= use)
    (shGetCipherOutsizeDiff algorithm mode >>= use) := by
  have hlookup : Blind D (shGetCipherOutsizeDiff algorithm mode) (shGetCipherOutsizeDiff algorithm mode) :=
    agree_globals.bind_eq fun _ => agree_scan _ _ _ _
  exact hlookup.bind_eq blind_use

lemma blind_keySize (g g' : ShProtectionGrade) : Blind D (shGetKeySize g >>= use) (shGetKeySize g' >>= use) := by
  have hlookup : Blind D (shGetKeySize g) (shGetKeySize g') :=
    (blind_policy g g').bind_eq fun _ => agree_globals.bind_eq fun _ => agree_scan _ _ _ _
  exact hlookup.bind_eq blind_use

lemma blind_readSlot (t : Ptr) (i : ℕ) : Blind D (readSlot t i) (readSlot t i) := by
  refine (agree_read (fun _ _ => rel_pointerArrays) t).bind_eq fun l => ?_
  rcases l[i]? with _ | q
  · exact agree_fault _
  · exact agree_pure rfl

lemma blind_findEntry : ∀ left e, Blind D (findEntry left e) (findEntry left e) := by
  intro left
  induction left with
  | zero => exact fun _ => agree_fault _
  | succ left ih =>
    intro e
    refine agree_globals.bind_eq fun g => ?_
    refine (agree_read (fun _ _ => rel_tables) _).bind_eq fun t => ?_
    refine agree_ite (fun _ => ?_) fun _ => agree_pure rfl
    refine (blind_readSlot _ _).bind_eq fun entry => ?_
    exact agree_ite (fun _ => agree_pure rfl) fun _ => ih _

lemma blind_shGetProtectedEntry (b : Ptr) :
    Blind D (shGetProtectedEntry b >>= use) (shGetProtectedEntry b >>= use) :=
  (blind_findEntry _ _).bind_eq blind_use

/-! ### The allocator -/

lemma blind_shError : Blind D shError shError := by
  refine agree_update fun s s' h => ⟨h.blocks, h.top, h.answer, h.calls, h.trace, h.errno, ?_⟩
  show { s.globals with printed := s.globals.printed ++ [s.errno] } =
    { s'.globals with printed := s'.globals.printed ++ [s'.errno] }
  rw [h.globals, h.errno]

lemma blind_setErrno (e : ℕ) : Blind D (setErrno e) (setErrno e) :=
  agree_update fun _ _ h => ⟨h.blocks, h.top, h.answer, h.calls, h.trace, rfl, h.globals⟩

variable (hD : Contents D)
include hD

lemma blind_shInternalMalloc (r : Request) : Blind D (shInternalMalloc r) (shInternalMalloc r) := by
  refine (agree_malloc fun fill => make_like hD r .none fill).bind_eq fun tmp => ?_
  exact agree_ite (fun _ => blind_shError.bind_eq fun _ => agree_pure rfl) fun _ => agree_pure rfl

lemma blind_shInternalRealloc (p : Ptr) (r : Request) :
    Blind D (shInternalRealloc p r) (shInternalRealloc p r) := by
  refine (agree_realloc p fun _ _ fill h => make_like hD r h fill).bind_eq fun tmp => ?_
  exact agree_ite (fun _ => blind_shError.bind_eq fun _ => agree_pure rfl) fun _ => agree_pure rfl

/-! ### Allocating -/

omit hD in
lemma blind_writeSlot (t : Ptr) (i : ℕ) (d : Ptr) : Blind D (writeSlot t i d) (writeSlot t i d) := by
  refine (agree_read (fun _ _ => rel_pointerArrays) t).bind_eq fun l => ?_
  exact agree_ite (fun _ => agree_store t (.pointers _)) fun _ => agree_fault _

lemma blind_placeBlock (t : Ptr) (i n : ℕ) : Blind D (placeBlock t i n) (placeBlock t i n) := by
  have hmodify : ∀ (d : Ptr) (k : ShSegmentDescriptor → ShSegmentDescriptor),
      Blind D (Block.descriptors.modify d k) (Block.descriptors.modify d k) := fun d k =>
    agree_modify (fun _ _ => rel_descriptors) d fun _ _ h => by
      rw [h]
      exact .descriptor _
  refine (blind_shInternalMalloc hD _).bind_eq fun a => (blind_readSlot t i).bind_eq fun d => ?_
  exact (hmodify d _).bind_eq fun _ => (blind_readSlot t i).bind_eq fun d' => hmodify d' _

lemma blind_newDescriptor (t : Ptr) (i : ℕ) : Blind D (newDescriptor t i) (newDescriptor t i) := by
  refine (blind_shInternalRealloc hD t _).bind_eq fun t' => (blind_shInternalMalloc hD _).bind_eq fun d => ?_
  exact (blind_writeSlot t' i d).bind_eq fun _ => agree_pure rfl

lemma blind_segmentStep (policy : ShProtectionPolicy) (c : ℕ) (r : ℤ) (t : Ptr) (i : ℕ) :
    Blind D (segmentStep policy c r t i) (segmentStep policy c r t i) := by
  refine (blind_newDescriptor hD t i).bind_eq fun t' => ?_
  have hfull : ∀ _ : Unit, Blind D
      (placeBlock t' i (toSize (policy.segmentSize + c)) >>= fun _ => pure t')
      (placeBlock t' i (toSize (policy.segmentSize + c)) >>= fun _ => pure t') := fun _ =>
    (blind_placeBlock hD t' i _).bind_eq fun _ => agree_pure rfl
  exact agree_ite (fun _ => (blind_placeBlock hD t' i _).bind_eq hfull) fun _ => hfull ()

lemma blind_segmentLoop (policy : ShProtectionPolicy) (c : ℕ) :
    ∀ fuel r t i, Blind D (segmentLoop policy c fuel r t i) (segmentLoop policy c fuel r t i) := by
  intro fuel
  induction fuel with
  | zero => exact fun _ _ _ => agree_fault _
  | succ fuel ih =>
    intro r t i
    unfold segmentLoop
    exact agree_ite (fun _ => (blind_segmentStep hD policy c r t i).bind_eq fun t' => ih _ t' _)
      fun _ => agree_pure rfl

lemma blind_singleBlock (c size : ℕ) : Blind D (singleBlock c size) (singleBlock c size) := by
  refine (blind_shInternalMalloc hD _).bind_eq fun t => (blind_shInternalMalloc hD _).bind_eq fun d => ?_
  exact (blind_writeSlot t 0 d).bind_eq fun _ => (blind_placeBlock hD t 0 _).bind_eq fun _ => agree_pure rfl

lemma blind_shMallocSegments (t : Ptr) (size : ℕ) (g g' : ShProtectionGrade) :
    Blind D (shMallocSegments t size g) (shMallocSegments t size g') := by
  refine (blind_policy g g').bind_eq fun policy => (blind_outsizeDiff _ _).bind_eq fun c => ?_
  exact agree_ite (fun _ => blind_segmentLoop hD policy c _ _ t 0) fun _ => blind_singleBlock hD c size

/-- The entries made differ in their grades. -/
lemma blind_newEntry (segments : Ptr) (amount : ℕ) (g g' : ShProtectionGrade) :
    Blind D (newEntry segments amount g) (newEntry segments amount g') := by
  have hmodify : ∀ (d : Ptr) (k k' : ShProtectedEntry → ShProtectedEntry),
      (∀ e e', ShProtectedEntry.SameButGrade e e' → (k e).SameButGrade (k' e')) →
        Blind D (Block.entries.modify d k) (Block.entries.modify d k') := fun d _ _ hk =>
    agree_modify (fun _ _ => rel_entries) d fun e e' h => .entry (hk e e' h)
  refine (blind_shInternalMalloc hD _).bind_eq fun e => ?_
  refine (hmodify e (fun e => { e with segmentAmount := amount }) (fun e => { e with segmentAmount := amount })
    fun _ _ h => ⟨h.sharedBuffer, rfl, h.segmentsTable⟩).bind_eq fun _ => ?_
  refine (hmodify e (fun e => { e with protection := g }) (fun e => { e with protection := g' })
    fun _ _ h => ⟨h.sharedBuffer, h.segmentAmount, h.segmentsTable⟩).bind_eq fun _ => ?_
  refine (hmodify e (fun e => { e with segmentsTable := segments }) (fun e => { e with segmentsTable := segments })
    fun _ _ h => ⟨h.sharedBuffer, h.segmentAmount, rfl⟩).bind_eq fun _ => ?_
  refine (hmodify e (fun e => { e with sharedBuffer := 0 }) (fun e => { e with sharedBuffer := 0 })
    fun _ _ h => ⟨rfl, h.segmentAmount, h.segmentsTable⟩).bind_eq fun _ => ?_
  exact agree_pure rfl

lemma blind_growEntries : Blind D growEntries growEntries := by
  refine agree_globals.bind_eq fun g => (agree_read (fun _ _ => rel_tables) _).bind_eq fun t => ?_
  refine (blind_shInternalRealloc hD _ _).bind_eq fun entries => ?_
  refine agree_modify (fun _ _ => rel_tables) _ fun _ _ h => ?_
  rw [h]
  exact .table _

lemma blind_shMalloc (t : Ptr) (size : ℕ) (g g' : ShProtectionGrade) :
    Blind D (shMalloc t size g) (shMalloc t size g') := by
  refine (blind_shMallocSegments hD t size g g').bind_eq fun r => ?_
  refine (blind_newEntry hD r.1 r.2 g g').bind_eq fun e => ?_
  exact (blind_growEntries hD).bind_eq fun _ => agree_pure rfl

lemma blind_shInitProtection (tpmEnabled : Bool) :
    Blind D (shInitProtection tpmEnabled) (shInitProtection tpmEnabled) := by
  have henabled : ∀ b, Blind D (setTpmEnabled b) (setTpmEnabled b) := fun b => by
    refine agree_update fun _ _ h => ⟨h.blocks, h.top, h.answer, h.calls, h.trace, h.errno, ?_⟩
    exact congrArg (fun x : Globals => { x with tpmEnabled := b }) h.globals
  have htable : ∀ t, Blind D (setShProtectedTable t) (setShProtectedTable t) := fun t => by
    refine agree_update fun _ _ h => ⟨h.blocks, h.top, h.answer, h.calls, h.trace, h.errno, ?_⟩
    exact congrArg (fun x : Globals => { x with shProtectedTable := t }) h.globals
  cases tpmEnabled with
  | true => exact agree_fault Fault.noReturn
  | false =>
    have hrest : Blind D
        (setTpmEnabled (false && false) >>= fun _ => shInternalMalloc .table >>= setShProtectedTable)
        (setTpmEnabled (false && false) >>= fun _ => shInternalMalloc .table >>= setShProtectedTable) :=
      (henabled _).bind_eq fun _ => (blind_shInternalMalloc hD _).bind_eq htable
    exact hrest

/-! ### Releasing, and new keys -/

omit hD in
lemma blind_shReset (b : Ptr) : Blind D (shReset b) (shReset b) := by
  refine (blind_shGetProtectedEntry b).bind_eq fun p => ?_
  refine (agree_read (fun _ _ => rel_entries) p).bind fun e e' h => ?_
  have hfree : ∀ _ : Unit, Blind D (free b) (free b) := fun _ => agree_free b
  rw [h.sharedBuffer]
  exact agree_ite (fun _ => (blind_setErrno EINVAL).bind_eq hfree) fun _ => hfree ()

lemma blind_fread (p : Ptr) (n : ℕ) {urandom urandom' : Option (List UInt8)} (h : Option.Rel D urandom urandom') :
    Blind D (fread p n urandom) (fread p n urandom') := by
  cases h with
  | none => exact agree_fault _
  | @some source source' h =>
    refine (agree_read (fun _ _ => rel_byteArrays) p).bind fun d d' hd => ?_
    have htake := hD.length (hD.take n h)
    rw [htake, hD.length hd, hD.length h]
    refine agree_ite (fun _ => ?_) fun _ => agree_fault _
    exact (agree_store p (.bytes (hD.append (hD.take n h) (hD.drop _ hd)))).bind_eq fun _ => agree_pure rfl

lemma blind_shGenerateKey {urandom urandom' : Option (List UInt8)} (h : Option.Rel D urandom urandom') (key : Ptr)
    (g g' : ShProtectionGrade) : Blind D (shGenerateKey urandom key g) (shGenerateKey urandom' key g') := by
  refine (blind_keySize g g').bind_eq fun n => (blind_shInternalRealloc hD key _).bind_eq fun key' => ?_
  refine (blind_policy g g').bind_eq fun policy => ?_
  cases policy.cipherPolicy.keyStoreType with
  | tpmStore =>
    refine agree_globals.bind_eq fun x => ?_
    have hrest : ∀ _ : Bool, Blind D (pure n) (pure n) := fun _ => agree_pure rfl
    exact agree_ite (fun _ => (agree_fault Fault.noReturn).bind_eq hrest) fun _ => hrest false
  | memoryStore =>
    have hdraw : Blind D (drawKey urandom key' n) (drawKey urandom' key' n) := by
      refine (blind_fread hD key' n h).bind_eq fun items => ?_
      exact agree_ite (fun _ => blind_shError) fun _ => agree_pure rfl
    exact hdraw.bind_eq fun _ => agree_pure rfl

end Blind

/-! ### What depends on the contents -/

section Contents

lemma blind_strcatAt (dst src : Ptr) : Blind Eq (strcatAt dst src) (strcatAt dst src) := by
  refine (agree_read (fun _ _ => rel_byteArrays) dst).bind_eq fun d => ?_
  refine (agree_read (fun _ _ => rel_byteArrays) src).bind_eq fun x => ?_
  refine agree_ite (fun _ => agree_fault _) fun _ => ?_
  rcases strcat d x with _ | l
  · exact agree_fault _
  · exact (agree_store dst (.bytes rfl)).bind_eq fun _ => agree_pure rfl

lemma blind_strcpyAt (dst src : Ptr) : Blind Eq (strcpyAt dst src) (strcpyAt dst src) := by
  refine (agree_read (fun _ _ => rel_byteArrays) dst).bind_eq fun d => ?_
  refine (agree_read (fun _ _ => rel_byteArrays) src).bind_eq fun x => ?_
  refine agree_ite (fun _ => agree_fault _) fun _ => ?_
  rcases strcpy d x with _ | l
  · exact agree_fault _
  · exact agree_store dst (.bytes rfl)

lemma blind_segmentOf (entry : Ptr) (i : ℕ) : Blind Eq (segmentOf entry i) (segmentOf entry i) := by
  refine (agree_read (fun _ _ => rel_entries) entry).bind fun e e' h => ?_
  rw [h.segmentsTable]
  exact (blind_readSlot _ i).bind_eq fun d => agree_read (fun _ _ => rel_descriptors) d

lemma blind_readLoop (entry : Ptr) :
    ∀ left i total b, Blind Eq (readLoop entry left i total b) (readLoop entry left i total b) := by
  intro left
  induction left with
  | zero => exact fun _ _ _ => agree_fault _
  | succ left ih =>
    intro i total b
    refine (agree_read (fun _ _ => rel_entries) entry).bind fun e e' h => ?_
    rw [h.segmentAmount]
    refine agree_ite (fun _ => ?_) fun _ => agree_pure rfl
    refine (blind_segmentOf entry i).bind_eq fun x => ?_
    refine (blind_shInternalRealloc contents_eq b _).bind_eq fun b₁ => ?_
    refine (blind_segmentOf entry i).bind_eq fun y => ?_
    exact (blind_strcatAt b₁ y.address).bind_eq fun b₂ => ih _ _ b₂

lemma blind_shRead {shDecryptBuffer : Ptr → Ptr → Prog Unit}
    (hd : ∀ b e, Blind Eq (shDecryptBuffer b e) (shDecryptBuffer b e)) (b : Ptr) :
    Blind Eq (shRead shDecryptBuffer b) (shRead shDecryptBuffer b) := by
  have hcollect : Blind Eq (collectWith shGetProtectedEntry b) (collectWith shGetProtectedEntry b) := by
    refine (blind_shGetProtectedEntry b).bind_eq fun p => Agree.bind_eq (blind_shReset b) fun _ => ?_
    exact (blind_readLoop p _ _ _ b).bind_eq fun b' => agree_pure rfl
  refine hcollect.bind_eq fun r => (agree_read (fun _ _ => rel_entries) r.1).bind fun e e' _ => ?_
  refine (blind_policy _ _).bind_eq fun policy => ?_
  exact agree_ite (fun _ => (hd _ _).bind_eq fun _ => agree_pure rfl) fun _ => agree_pure rfl

lemma blind_shGetKey (entry key : Ptr) : Blind Eq (shGetKey entry key) (shGetKey entry key) := by
  refine (agree_read (fun _ _ => rel_entries) entry).bind fun e e' _ => ?_
  refine (blind_policy _ _).bind_eq fun policy => ?_
  have hcopy : ∀ _ : Unit, Blind Eq (strcpyAt key policy.cipherPolicy.unsecureKey)
      (strcpyAt key policy.cipherPolicy.unsecureKey) := fun _ => blind_strcpyAt key _
  cases policy.cipherPolicy.keyStoreType with
  | tpmStore =>
    have hrest : ∀ _ : Unit, Blind Eq
        (shTpmGetKey entry key >>= fun _ => strcpyAt key policy.cipherPolicy.unsecureKey)
        (shTpmGetKey entry key >>= fun _ => strcpyAt key policy.cipherPolicy.unsecureKey) := fun _ => hcopy ()
    exact agree_ite (fun _ => hrest ()) fun _ => (blind_setErrno EINVAL).bind_eq hrest
  | memoryStore => exact agree_ite (fun _ => hcopy ()) fun _ => (blind_setErrno EINVAL).bind_eq hcopy

lemma blind_shEncryptSegment (cipher : Cipher) (iv : List UInt8) (keyFill outFill : ℕ → UInt8)
    (segment entry : Ptr) : Blind Eq (shEncryptSegment cipher iv keyFill outFill segment entry)
      (shEncryptSegment cipher iv keyFill outFill segment entry) := by
  have hsetUp : ∀ key, Blind Eq (setUpCipher iv entry key) (setUpCipher iv entry key) := by
    intro key
    refine (blind_shGetKey entry key).bind_eq fun _ => ?_
    refine (agree_read (fun _ _ => rel_entries) entry).bind fun e e' _ => ?_
    refine (blind_policy _ _).bind_eq fun policy => (blind_keySize _ _).bind_eq fun n => ?_
    refine (agree_read (fun _ _ => rel_byteArrays) key).bind_eq fun k => ?_
    exact agree_ite (fun _ => agree_pure rfl) fun _ => agree_fault _
  have hopen : Blind Eq (openCipher iv keyFill entry) (openCipher iv keyFill entry) := by
    refine (agree_read (fun _ _ => rel_entries) entry).bind fun e e' _ => (blind_keySize _ _).bind_eq fun n => ?_
    refine (agree_newLocal (.bytes rfl)).bind_eq fun key => ?_
    exact (hsetUp key).bind_eq fun handle => agree_pure rfl
  have hencrypt : ∀ handle out input n, Blind Eq (gcryCipherEncrypt cipher handle out input n)
      (gcryCipherEncrypt cipher handle out input n) := by
    intro handle out input n
    refine (agree_read (fun _ _ => rel_byteArrays) out).bind_eq fun o => ?_
    refine (agree_read (fun _ _ => rel_byteArrays) input).bind_eq fun d => ?_
    refine agree_ite (fun _ => ?_) fun _ => agree_fault _
    rcases cipher.encrypt handle (d.take n) with code | output
    · exact agree_pure rfl
    · exact (agree_store out (.bytes rfl)).bind_eq fun _ => agree_pure rfl
  have herror : ∀ code, Blind Eq (shErrorGcry code) (shErrorGcry code) := fun code => by
    refine agree_update fun _ _ h => ⟨h.blocks, h.top, h.answer, h.calls, h.trace, h.errno, ?_⟩
    exact congrArg (fun x : Globals => { x with printed := x.printed ++ [code] }) h.globals
  have hunder : ∀ handle, Blind Eq (encryptUnder cipher outFill handle segment)
      (encryptUnder cipher outFill handle segment) := by
    intro handle
    refine (agree_read (fun _ _ => rel_descriptors) segment).bind_eq fun x => ?_
    refine (agree_newLocal (.bytes rfl)).bind_eq fun out => ?_
    refine (agree_read (fun _ _ => rel_descriptors) segment).bind_eq fun y => ?_
    refine (hencrypt handle out y.address y.size).bind_eq fun code => ?_
    exact agree_ite (fun _ => (herror code).bind_eq fun _ => agree_endLocal out) fun _ => agree_endLocal out
  exact hopen.bind_eq fun r => (hunder r.2).bind_eq fun _ => agree_endLocal r.1

end Contents

/-! ### Sessions -/

/-- Calls that differ in the grade that they ask for and in the keys that they draw, as `D` allows, and do not
look at contents. -/
inductive Operation.Like (D : List UInt8 → List UInt8 → Prop) : Operation → Operation → Prop
  | initProtection (tpmEnabled : Bool) : Like D (.initProtection tpmEnabled) (.initProtection tpmEnabled)
  | initCheck : Like D .initCheck .initCheck
  | malloc (t : Ptr) (size : ℕ) (g g' : ShProtectionGrade) : Like D (.malloc ⟨t, size, g⟩) (.malloc ⟨t, size, g'⟩)
  | reset (buffer : Ptr) : Like D (.reset buffer) (.reset buffer)
  | write (buffer : Ptr) : Like D (.write buffer) (.write buffer)
  | generateKey {urandom urandom' : Option (List UInt8)} (h : Option.Rel D urandom urandom') (key : Ptr)
      (g g' : ShProtectionGrade) : Like D (.generateKey urandom key g) (.generateKey urandom' key g')

/-- The calls are the same but for the grades that they ask for. -/
def Operation.SameButGrade (o o' : Operation) : Prop := o = o' ∨ o.Like Eq o'

section Sessions

variable {D : List UInt8 → List UInt8 → Prop} {shDecryptBuffer : Ptr → Ptr → Prog Unit} {cipher : Cipher}

lemma blind_initCheck : Blind D (shInitCheck >>= use) (shInitCheck >>= use) := by
  have hcheck : Blind D shInitCheck shInitCheck :=
    agree_globals.bind_eq fun g => agree_ite (fun _ => agree_pure rfl) fun _ => agree_pure rfl
  exact hcheck.bind_eq blind_use

/-- One call that does not look at contents. -/
lemma blind_run (hD : Contents D) {o o' : Operation} (h : o.Like D o') :
    Blind D (o.run shDecryptBuffer cipher) (o'.run shDecryptBuffer cipher) := by
  cases h with
  | initProtection b => exact blind_shInitProtection hD b
  | initCheck => exact blind_initCheck.bind_eq fun _ => agree_pure rfl
  | malloc t size g g' => exact (blind_shMalloc hD t size g g').bind_eq fun _ => agree_pure rfl
  | reset b => exact blind_shReset b
  | write b => exact agree_pure rfl
  | generateKey h key g g' => exact (blind_shGenerateKey hD h key g g').bind_eq fun _ => agree_pure rfl

/-- One call, on contents that are the same. -/
lemma blind_run_self (hd : ∀ b e, Blind Eq (shDecryptBuffer b e) (shDecryptBuffer b e)) (o : Operation) :
    Blind Eq (o.run shDecryptBuffer cipher) (o.run shDecryptBuffer cipher) := by
  cases o with
  | initProtection b => exact blind_run contents_eq (.initProtection b)
  | initCheck => exact blind_run contents_eq .initCheck
  | malloc c => exact blind_run contents_eq (.malloc c.segmentsTable c.size c.protection c.protection)
  | reset b => exact blind_run contents_eq (.reset b)
  | read b => exact (blind_shRead hd b).bind_eq fun _ => agree_pure rfl
  | write b => exact blind_run contents_eq (.write b)
  | getKey entry key => exact blind_shGetKey entry key
  | encryptSegment iv keyFill outFill segment entry =>
    exact blind_shEncryptSegment cipher iv keyFill outFill segment entry
  | generateKey urandom key g =>
    have hself : Option.Rel Eq urandom urandom := by
      cases urandom with
      | none => exact .none
      | some source => exact .some rfl
    exact blind_run contents_eq (.generateKey hself key g g)

/-- Sessions agree if they do call by call. -/
lemma blind_session {ops ops' : List Operation} (h : List.Forall₂
    (fun o o' => Blind D (o.run shDecryptBuffer cipher) (o'.run shDecryptBuffer cipher)) ops ops') :
    Blind D (session shDecryptBuffer cipher ops) (session shDecryptBuffer cipher ops') := by
  induction h with
  | nil => exact agree_pure rfl
  | cons h _ ih => exact h.bind_eq fun _ => ih

/-- **No grade makes a difference**: sessions that differ in the grades they ask for, from states that differ in
the grades of their entries, end in the same way, with the same calls of the allocator made, and differ in
nothing but the grades of their entries. -/
theorem session_blind_to_grades (hd : ∀ b e, Blind Eq (shDecryptBuffer b e) (shDecryptBuffer b e))
    {ops ops' : List Operation} (hops : List.Forall₂ Operation.SameButGrade ops ops') {s s' : State}
    (hs : Alike (Block.Like Eq) s s') :
    Matches Eq (session shDecryptBuffer cipher ops s).1 (session shDecryptBuffer cipher ops' s').1 ∧
      Alike (Block.Like Eq) (session shDecryptBuffer cipher ops s).2
        (session shDecryptBuffer cipher ops' s').2 := by
  refine blind_session (hops.imp fun o o' ho => ?_) s s' hs
  rcases ho with rfl | ho
  · exact blind_run_self hd o
  · exact blind_run contents_eq ho

end Sessions

/-- The highest grade and none at all: an allocation of 25 bytes, which is then to be read. -/
theorem session_blind_to_grades_none :
    Matches Eq (session (fun _ _ => pure ()) flipping
        [.initProtection false, .malloc ⟨0, 25, .protectHigh⟩, .read 9] atStart).1
      (session (fun _ _ => pure ()) flipping
        [.initProtection false, .malloc ⟨0, 25, .protectNone⟩, .read 9] atStart).1 ∧
    Alike (Block.Like Eq)
      (session (fun _ _ => pure ()) flipping
        [.initProtection false, .malloc ⟨0, 25, .protectHigh⟩, .read 9] atStart).2
      (session (fun _ _ => pure ()) flipping
        [.initProtection false, .malloc ⟨0, 25, .protectNone⟩, .read 9] atStart).2 :=
  session_blind_to_grades (fun _ _ => agree_pure rfl)
    (.cons (Or.inl rfl) (.cons (Or.inr (.malloc 0 25 _ _)) (.cons (Or.inl rfl) .nil)))
    ⟨fun _ => .none, rfl, rfl, rfl, .nil, rfl, rfl⟩

section Sessions

variable {shDecryptBuffer : Ptr → Ptr → Prog Unit} {cipher : Cipher}

/-- **No contents make a difference** to a session that makes tables and allocations, resets and generates keys:
from states whose blocks have the same lengths, and with other keys drawn, it ends in the same way, at the same
addresses, with blocks of the same lengths. -/
theorem session_blind_to_contents {ops ops' : List Operation}
    (hops : List.Forall₂ (Operation.Like SameLength) ops ops') {s s' : State}
    (hs : Alike (Block.Like SameLength) s s') :
    Matches Eq (session shDecryptBuffer cipher ops s).1 (session shDecryptBuffer cipher ops' s').1 ∧
      Alike (Block.Like SameLength) (session shDecryptBuffer cipher ops s).2
        (session shDecryptBuffer cipher ops' s').2 :=
  blind_session (hops.imp fun _ _ ho => blind_run contents_sameLength ho) s s' hs

end Sessions

/-- A client that keeps one byte. -/
def keepingByte (b : UInt8) : State := { atStart with heap := Heap.empty.put 4 (.bytes [b]) }

/-- Another byte kept, and another key drawn. -/
theorem session_blind_to_contents_byte :
    Matches Eq (session (fun _ _ => pure ()) flipping
        [.initProtection false, .malloc ⟨0, 25, .protectHigh⟩, .generateKey (some [5, 6]) 4 .protectHigh]
          (keepingByte 1)).1
      (session (fun _ _ => pure ()) flipping
        [.initProtection false, .malloc ⟨0, 25, .protectHigh⟩, .generateKey (some [7, 8]) 4 .protectHigh]
          (keepingByte 2)).1 ∧
    Alike (Block.Like SameLength)
      (session (fun _ _ => pure ()) flipping
        [.initProtection false, .malloc ⟨0, 25, .protectHigh⟩, .generateKey (some [5, 6]) 4 .protectHigh]
          (keepingByte 1)).2
      (session (fun _ _ => pure ()) flipping
        [.initProtection false, .malloc ⟨0, 25, .protectHigh⟩, .generateKey (some [7, 8]) 4 .protectHigh]
          (keepingByte 2)).2 := by
  have hkeys : Option.Rel SameLength (some [5, 6]) (some [7, 8]) := .some rfl
  exact session_blind_to_contents
    (.cons (.initProtection false) (.cons (.malloc 0 25 _ _) (.cons (.generateKey hkeys 4 _ _) .nil)))
    ⟨rel_put (fun _ => .none) (by decide) (.bytes rfl), rfl, rfl, rfl, .nil, rfl, rfl⟩

end SafeHeap
