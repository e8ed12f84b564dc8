import SafeHeap.Encrypt
import SafeHeap.GetKey
import SafeHeap.GenerateKey
import SafeHeap.Read
import SafeHeap.Register

/-!
# Sessions: the calls of a client, in any order

A session is any list of calls of the functions that a client has use for (`Operation`), with any
arguments; it stops at the first call that does. `sh_decrypt_buffer` and libgcrypt are parameters, as in
the functions themselves.

Every invariant of a session is one of its calls (`leaves_session`), and so is what it can stop in
(`stops_session`). What the calls other than `sh_init_protection` and `sh_malloc` can bring into the heap is
bytes (`keeps_run`).
-/

namespace SafeHeap

open CMachine Exec

/-- A call of the library. -/
inductive Operation where
  | initProtection (tpmEnabled : Bool)
  | initCheck
  | malloc (c : Call)
  | reset (buffer : Ptr)
  | read (buffer : Ptr)
  | write (buffer : Ptr)
  | getKey (entry key : Ptr)
  | encryptSegment (iv : List UInt8) (keyFill outFill : ℕ → UInt8) (segment entry : Ptr)
  | generateKey (urandom : Option (List UInt8)) (key : Ptr) (protection : ShProtectionGrade)

section Session

variable (shDecryptBuffer : Ptr → Ptr → Prog Unit) (cipher : Cipher)

/-- The call; the client uses the answer of `sh_init_check`, and keeps all other values to itself. -/
def Operation.run : Operation → Prog Unit
  | .initProtection tpmEnabled => shInitProtection tpmEnabled
  | .initCheck => do
    let _ ← shInitCheck >>= use
    pure ()
  | .malloc c => do
    let _ ← shMalloc c.segmentsTable c.size c.protection
    pure ()
  | .reset buffer => shReset buffer
  | .read buffer => do
    let _ ← shRead shDecryptBuffer buffer
    pure ()
  | .write buffer => shWrite buffer
  | .getKey entry key => shGetKey entry key
  | .encryptSegment iv keyFill outFill segment entry =>
    shEncryptSegment cipher iv keyFill outFill segment entry
  | .generateKey urandom key protection => do
    let _ ← shGenerateKey urandom key protection
    pure ()

/-- One call after the other. -/
def session : List Operation → Prog Unit
  | [] => pure ()
  | o :: ops => do
    o.run shDecryptBuffer cipher
    session ops

variable {shDecryptBuffer cipher}

/-- **A session leaves what each of its calls leaves**; one that comes to an end has got through all of them. -/
theorem leaves_session {I : State → Prop} {P : Operation → Prop} : ∀ {ops : List Operation} {s : State},
    (∀ o ∈ ops, ∀ s, I s → Leaves I (o.run shDecryptBuffer cipher) s fun _ _ => P o) → I s →
      Leaves I (session shDecryptBuffer cipher ops) s fun _ _ => ∀ o ∈ ops, P o := by
  intro ops
  induction ops with
  | nil => exact fun _ hI => leaves_pure hI (by simp)
  | cons o ops ih =>
    intro s h hI
    refine (h o List.mem_cons_self s hI).bind fun _ s' hI' hP => ?_
    have hrest := ih (fun o' ho => h o' (List.mem_cons_of_mem _ ho)) hI'
    exact hrest.mono fun _ _ _ hall => List.forall_mem_cons.2 ⟨hP, hall⟩

/-- **A session stops** in a fault of one of its calls, made where the invariant holds. -/
theorem stops_session {I : State → Prop} {E : Fault → Prop} : ∀ {ops : List Operation} {s : State},
    (∀ o ∈ ops, ∀ s, I s → Leaves I (o.run shDecryptBuffer cipher) s fun _ _ => True) →
      (∀ o ∈ ops, ∀ s, I s → Stops E (o.run shDecryptBuffer cipher) s) → I s →
        Stops E (session shDecryptBuffer cipher ops) s := by
  intro ops
  induction ops with
  | nil => exact fun _ _ _ => stops_of_ok rfl
  | cons o ops ih =>
    intro s h hstops hI
    refine (hstops o List.mem_cons_self s hI).bind fun _ s' hrun => ?_
    have hI' := (h o List.mem_cons_self s hI).1
    rw [hrun] at hI'
    exact ih (fun o' ho => h o' (List.mem_cons_of_mem _ ho)) (fun o' ho => hstops o' (List.mem_cons_of_mem _ ho)) hI'

end Session

/-! ### What the calls bring into the heap -/

/-- The decryption works in place: it changes bytes of the buffer, if anything. -/
def DecryptsInPlace (shDecryptBuffer : Ptr → Ptr → Prog Unit) : Prop :=
  ∀ buffer entry, Keeps (DifferAt buffer) (shDecryptBuffer buffer entry)

lemma decryptsInPlace_pure : DecryptsInPlace fun _ _ => pure () :=
  fun _ _ _ => ⟨fun _ _ => rfl, Or.inl rfl, rfl, rfl, rfl, rfl, rfl, rfl⟩

section Frame

variable {δ ω : Type} {f : Block → Option δ} {g : Globals → ω}

lemma noNew_of_differAt (hb : ∀ l, f (.bytes l) = none) {u : Ptr} {s s' : State} (h : DifferAt u s s') :
    NoNew f g s s' := by
  refine ⟨fun p a hp => ?_, congrArg g h.globals⟩
  by_cases hpu : p = u
  · subst hpu
    rcases h.bytes with heq | ⟨data, data', hdata, hdata', -⟩
    · rwa [Machine.observe, heq] at hp
    · rw [Machine.observe_of_get hdata', hb] at hp
      cases hp
  · rwa [Machine.observe, h.blocks p hpu] at hp

lemma keeps_shGetProtectedEntry {R : State → State → Prop} [Std.Refl R] (b : Ptr) :
    Keeps R (shGetProtectedEntry b) := by
  intro s
  rw [shGetProtectedEntry_snd]
  exact refl_of R s

lemma keeps_shInitCheck : Keeps Eq (shInitCheck >>= use) := by
  refine (keeps_globals.bind fun g => ?_).bind fun o => keeps_use o
  split
  · exact keeps_pure _
  · exact keeps_pure _

lemma keeps_setErrno (e : ℕ) : Keeps (NoNew f g) (setErrno e) := fun _ => NoNew.of_heap_eq rfl rfl

lemma keeps_shReset (b : Ptr) : Keeps (NoNew f g) (shReset b) := by
  refine ((keeps_shGetProtectedEntry b).bind fun o => keeps_use o).bind fun p => ?_
  refine (Block.entries.keeps_read p).bind fun e => ?_
  have hfree : ∀ _ : Unit, Keeps (NoNew f g) (free b : Prog Unit) := fun _ => NoNew.keeps_free b
  split
  · exact Keeps.bind (keeps_setErrno EINVAL) hfree
  · exact (keeps_pure ()).bind hfree

variable (hb : ∀ l, f (.bytes l) = none)
include hb

lemma keeps_strcatAt (dst src : Ptr) : Keeps (NoNew f g) (strcatAt dst src) := by
  refine (Block.byteArrays.keeps_read dst).bind fun d => (Block.byteArrays.keeps_read src).bind fun x => ?_
  split
  · exact keeps_fault _
  · split
    · exact (NoNew.keeps_store (hb _)).bind fun _ => keeps_pure dst
    · exact keeps_fault _

lemma keeps_strcpyAt_bytes (dst src : Ptr) : Keeps (NoNew f g) (strcpyAt dst src) := by
  refine (Block.byteArrays.keeps_read dst).bind fun d => (Block.byteArrays.keeps_read src).bind fun x => ?_
  split
  · exact keeps_fault _
  · split
    · exact NoNew.keeps_store (hb _)
    · exact keeps_fault _

/-- Fetching a key brings in what is copied. -/
lemma keeps_shGetKey_bytes (entry key : Ptr) : Keeps (NoNew f g) (shGetKey entry key) := by
  refine (Block.entries.keeps_read entry).bind fun e => ?_
  refine ((keeps_shGetProtectionPolicy _).bind fun o => keeps_deref o).bind fun policy => ?_
  have hcopy : Keeps (NoNew f g) (strcpyAt key policy.cipherPolicy.unsecureKey) := keeps_strcpyAt_bytes hb key _
  cases policy.cipherPolicy.keyStoreType with
  | tpmStore =>
    have hrest : Keeps (NoNew f g)
        (shTpmGetKey entry key >>= fun _ => strcpyAt key policy.cipherPolicy.unsecureKey) :=
      (keeps_pure ()).bind fun _ => hcopy
    dsimp only
    split
    · exact (keeps_pure ()).bind fun _ => hrest
    · exact Keeps.bind (keeps_setErrno EINVAL) fun _ => hrest
  | memoryStore =>
    dsimp only
    split
    · exact (keeps_pure ()).bind fun _ => hcopy
    · exact Keeps.bind (keeps_setErrno EINVAL) fun _ => hcopy

lemma keeps_openCipher (iv : List UInt8) (keyFill : ℕ → UInt8) (entry : Ptr) :
    Keeps (NoNew f g) (openCipher iv keyFill entry) := by
  refine (Block.entries.keeps_read entry).bind fun e => ?_
  refine ((keeps_shGetKeySize _).bind fun o => keeps_use o).bind fun n => ?_
  refine (NoNew.keeps_newLocal (hb _)).bind fun key => ?_
  have hsetUp : Keeps (NoNew f g) (setUpCipher iv entry key) := by
    refine (keeps_shGetKey_bytes hb entry key).bind fun _ => (Block.entries.keeps_read entry).bind fun e => ?_
    refine ((keeps_shGetProtectionPolicy _).bind fun o => keeps_deref o).bind fun policy => ?_
    refine ((keeps_shGetKeySize _).bind fun o => keeps_use o).bind fun n => ?_
    refine (Block.byteArrays.keeps_read key).bind fun k => ?_
    split
    · exact keeps_pure _
    · exact keeps_fault _
  exact hsetUp.bind fun _ => keeps_pure _

lemma keeps_gcryCipherEncrypt (cipher : Cipher) (handle : CipherHandle) (out input : Ptr) (size : ℕ) :
    Keeps (NoNew f g) (gcryCipherEncrypt cipher handle out input size) := by
  refine (Block.byteArrays.keeps_read out).bind fun o => (Block.byteArrays.keeps_read input).bind fun d => ?_
  split
  · split
    · exact (NoNew.keeps_store (hb _)).bind fun _ => keeps_pure 0
    · exact keeps_pure _
  · exact keeps_fault _

variable (hg : ∀ x l, g { x with printed := l } = g x)
include hg

lemma keeps_readLoop (entry : Ptr) : ∀ left i total b, Keeps (NoNew f g) (readLoop entry left i total b) := by
  intro left
  induction left with
  | zero => exact fun i total b => keeps_fault _
  | succ left ih =>
    intro i total b
    refine (Block.entries.keeps_read entry).bind fun e => ?_
    split
    · refine (keeps_segmentOf entry i).of_reads.bind fun x => ?_
      refine (keeps_shInternalRealloc hg fun _ _ => hb _).bind fun b' => ?_
      refine (keeps_segmentOf entry i).of_reads.bind fun y => ?_
      exact (keeps_strcatAt hb b' y.address).bind fun b'' => ih _ _ _
    · exact keeps_pure b

lemma keeps_shRead {shDecryptBuffer : Ptr → Ptr → Prog Unit} (hd : DecryptsInPlace shDecryptBuffer) (b : Ptr) :
    Keeps (NoNew f g) (shRead shDecryptBuffer b) := by
  have hcollect : Keeps (NoNew f g) (collectWith shGetProtectedEntry b) := by
    refine ((keeps_shGetProtectedEntry b).bind fun o => keeps_use o).bind fun p => ?_
    refine (keeps_shReset b).bind fun _ => ?_
    exact (keeps_readLoop hb hg p _ _ _ b).bind fun b' => keeps_pure _
  refine hcollect.bind fun r => (Block.entries.keeps_read r.1).bind fun e => ?_
  refine ((keeps_shGetProtectionPolicy _).bind fun o => keeps_deref o).bind fun policy => ?_
  have hdecrypt : Keeps (NoNew f g) (shDecryptBuffer r.2 r.1) := fun s =>
    noNew_of_differAt hb (hd r.2 r.1 s)
  dsimp only
  split
  · exact hdecrypt.bind fun _ => keeps_pure _
  · exact (keeps_pure ()).bind fun _ => keeps_pure _

lemma keeps_shEncryptSegment (cipher : Cipher) (iv : List UInt8) (keyFill outFill : ℕ → UInt8)
    (segment entry : Ptr) : Keeps (NoNew f g) (shEncryptSegment cipher iv keyFill outFill segment entry) := by
  refine (keeps_openCipher hb iv keyFill entry).bind fun r => ?_
  have hunder : Keeps (NoNew f g) (encryptUnder cipher outFill r.2 segment) := by
    refine (Block.descriptors.keeps_read segment).bind fun x => (NoNew.keeps_newLocal (hb _)).bind fun out => ?_
    refine (Block.descriptors.keeps_read segment).bind fun x => ?_
    refine (keeps_gcryCipherEncrypt hb cipher r.2 out x.address x.size).bind fun retcode => ?_
    have hend : ∀ _ : Unit, Keeps (NoNew f g) (endLocal out : Prog Unit) := fun _ => NoNew.keeps_endLocal out
    have hreport : Keeps (NoNew f g) (shErrorGcry retcode) := fun _ => NoNew.of_heap_eq rfl (hg _ _)
    dsimp only
    split
    · exact hreport.bind hend
    · exact (keeps_pure ()).bind hend
  exact hunder.bind fun _ => NoNew.keeps_endLocal r.1

lemma keeps_drawKey (urandom : Option (List UInt8)) (key : Ptr) (n : ℕ) :
    Keeps (NoNew f g) (drawKey urandom key n) := by
  have hread : Keeps (NoNew f g) (fread key n urandom) := by
    cases urandom with
    | none => exact keeps_fault _
    | some source =>
      refine (Block.byteArrays.keeps_read key).bind fun d => ?_
      split
      · exact (NoNew.keeps_store (hb _)).bind fun _ => keeps_pure _
      · exact keeps_fault _
  refine hread.bind fun items => ?_
  split
  · exact keeps_shError hg
  · exact keeps_pure ()

lemma keeps_shGenerateKey (urandom : Option (List UInt8)) (key : Ptr) (p : ShProtectionGrade) :
    Keeps (NoNew f g) (shGenerateKey urandom key p) := by
  refine ((keeps_shGetKeySize p).bind fun o => keeps_use o).bind fun n => ?_
  refine (keeps_shInternalRealloc hg fun _ _ => hb _).bind fun key' => ?_
  refine ((keeps_shGetProtectionPolicy p).bind fun o => keeps_deref o).bind fun policy => ?_
  cases policy.cipherPolicy.keyStoreType with
  | tpmStore =>
    refine keeps_globals.bind fun x => ?_
    dsimp only
    split
    · exact (keeps_fault _).bind fun _ => keeps_pure n
    · exact (keeps_pure _).bind fun _ => keeps_pure n
  | memoryStore => exact (keeps_drawKey hb hg urandom key' n).bind fun _ => keeps_pure n

/-- **What a call can bring into the heap**: bytes, unless it is one of `sh_init_protection` or of
`sh_malloc`. -/
theorem keeps_run {shDecryptBuffer : Ptr → Ptr → Prog Unit} {cipher : Cipher}
    (hd : DecryptsInPlace shDecryptBuffer) {o : Operation}
    (hinit : ∀ b, o = .initProtection b → Keeps (NoNew f g) (shInitProtection b))
    (hmalloc : ∀ c, o = .malloc c → Keeps (NoNew f g) (shMalloc c.segmentsTable c.size c.protection)) :
    Keeps (NoNew f g) (o.run shDecryptBuffer cipher) := by
  cases o with
  | initProtection b => exact hinit b rfl
  | initCheck => exact keeps_shInitCheck.of_reads.bind fun _ => keeps_pure ()
  | malloc c => exact (hmalloc c rfl).bind fun _ => keeps_pure ()
  | reset b => exact keeps_shReset b
  | read b => exact (keeps_shRead hb hg hd b).bind fun _ => keeps_pure ()
  | write b => exact keeps_pure ()
  | getKey entry key => exact keeps_shGetKey_bytes hb entry key
  | encryptSegment iv keyFill outFill segment entry =>
    exact keeps_shEncryptSegment hb hg cipher iv keyFill outFill segment entry
  | generateKey urandom key p => exact (keeps_shGenerateKey hb hg urandom key p).bind fun _ => keeps_pure ()

end Frame

end SafeHeap
