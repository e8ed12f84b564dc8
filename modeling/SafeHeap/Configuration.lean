import SafeHeap.Store

/-!
# The configuration through a session

The library comes with tables of policies, key sizes and growths, and with the TPM switched off. No call changes
them, and none of them is looked up as its name says. So in every state that a session reaches, whatever memory
holds and the allocator answers,

* each grade is served alike, by the row of `SH_PROTECT_MEDIUM` (`configuration_of_session`);
* the key store in force is the TPM, and there is no key in memory: the random source is never looked at, and the
  cipher never opened (`session_eq_of_crypto`).
-/

namespace SafeHeap

open CMachine Exec

/-- The configuration: what `sh_core.h` and the flag of the TPM say. -/
def Globals.config (x : Globals) :
    Bool × List ShProtectionPolicy × List AlgoKeySize × List ShCipherOutsizeDiff :=
  (x.tpmEnabled, x.shProtectionPolicies, x.keySizeTable, x.shCiphertextSzDiffTable)

lemma keeps_resizedBytes (p : Ptr) (n : ℕ) :
    Keeps (NoNew Block.amount? Globals.config) (shInternalRealloc p (.bytes n)) :=
  keeps_shInternalRealloc (fun _ _ => rfl) fun _ _ => rfl

lemma keeps_malloc (c : Call) :
    Keeps (NoNew Block.amount? Globals.config) (shMalloc c.segmentsTable c.size c.protection) :=
  keeps_shMalloc (f := Block.amount?) (fun _ _ => rfl) (fun _ => rfl) (fun _ => rfl) (fun _ => rfl) (fun _ => rfl)
    (fun _ _ _ h => h) c.segmentsTable c.size c.protection

/-- The configuration is the one that the library comes with. -/
structure Original (s : State) : Prop where
  config : s.globals.config = Globals.initial.config

section Original

variable {s s' : State}

lemma Original.mono (h : Original s) (hs : s'.globals.config = s.globals.config) : Original s' :=
  ⟨hs.trans h.config⟩

lemma Original.configured (h : Original s) : Configured s mediumRow 16 :=
  configured_initial (congrArg (fun x => x.2.1) h.config) (congrArg (fun x => x.2.2.2) h.config)

lemma Original.keySize (h : Original s) (g : ShProtectionGrade) : shGetKeySize g s = (.ok (some 24), s) := by
  have hkeys : s.globals.keySizeTable = keySizeTable := congrArg (fun x => x.2.2.1) h.config
  rw [shGetKeySize_eq (h.configured.policy g), hkeys]
  rfl

/-- With the key store in the TPM, and no TPM, nothing is done but to resize the key. -/
lemma Original.shGenerateKey_of_resized (h : Original s) {key key' : Ptr}
    (hrun : shInternalRealloc key (.bytes 24) s = (.ok key', s')) (urandom : Option (List UInt8))
    (g : ShProtectionGrade) : shGenerateKey urandom key g s = (.ok 24, s') := by
  have h' : Original s' := h.mono ((keeps_resizedBytes key 24).of_eq hrun).kept
  have htpm : s'.globals.tpmEnabled = false := congrArg Prod.fst h'.config
  unfold shGenerateKey
  rw [Exec.bind_of_ok (use_of_ok (h.keySize g)), Exec.bind_of_ok hrun,
    Exec.bind_of_ok (deref_of_ok (h'.configured.policy g))]
  simp [mediumRow, globals_bind_apply, htpm]

lemma Original.shGenerateKey_eq (h : Original s) (urandom urandom' : Option (List UInt8)) (key : Ptr)
    (g : ShProtectionGrade) : shGenerateKey urandom key g s = shGenerateKey urandom' key g s := by
  rcases hrun : shInternalRealloc key (.bytes 24) s with ⟨f | key', s'⟩
  · unfold shGenerateKey
    rw [Exec.bind_of_ok (use_of_ok (h.keySize g)), Exec.bind_of_ok (use_of_ok (h.keySize g)),
      Exec.bind_of_error hrun, Exec.bind_of_error hrun]
  · rw [h.shGenerateKey_of_resized hrun urandom g, h.shGenerateKey_of_resized hrun urandom' g]

/-- There is no key to fetch: the copy goes through `NULL`. -/
lemma Original.not_getKey (h : Original s) (entry key : Ptr) :
    ∃ f, f.OfMemory ∧ shGetKey entry key s = (.error f, s) := by
  have hcopy : ∃ f, f.OfMemory ∧ strcpyAt key 0 s = (.error f, s) := by
    rcases hd : Block.byteArrays.read key s with ⟨f | d, s'⟩
    · obtain rfl : s' = s := by
        have hsnd := Block.byteArrays.read_snd key s
        rwa [hd] at hsnd
      exact ⟨f, faultsOfMemory_read Block.byteArrays _ _ _ _ hd, Exec.bind_of_error hd _⟩
    · obtain ⟨-, rfl⟩ := Block.byteArrays.read_eq_ok.1 hd
      have hnull : Block.byteArrays.read 0 s' = (.error .nullDeref, s') := Exec.bind_of_error load_null _
      refine ⟨.nullDeref, trivial, ?_⟩
      unfold strcpyAt
      rw [Exec.bind_of_ok hd, Exec.bind_of_error hnull]
  rcases he : Block.entries.read entry s with ⟨f | e, s'⟩
  · obtain rfl : s' = s := by
      have hsnd := Block.entries.read_snd entry s
      rwa [he] at hsnd
    exact ⟨f, faultsOfMemory_read Block.entries _ _ _ _ he, Exec.bind_of_error he _⟩
  · obtain ⟨-, rfl⟩ := Block.entries.read_eq_ok.1 he
    obtain ⟨f, hmem, hf⟩ := hcopy
    refine ⟨f, hmem, ?_⟩
    unfold shGetKey shGetKeyWith
    rw [Exec.bind_of_ok he, Exec.bind_of_ok (deref_of_ok (h.configured.policy e.protection))]
    exact hf

lemma Original.not_openCipher (h : Original s) (keyFill : ℕ → UInt8) (entry : Ptr) :
    ∃ f s', f.OfMemory ∧ (s' = s ∨ ∃ key, newLocal (.bytes (resize [] 24 keyFill)) s = (.ok key, s')) ∧
      ∀ iv, openCipher iv keyFill entry s = (.error f, s') := by
  rcases he : Block.entries.read entry s with ⟨f | e, s'⟩
  · obtain rfl : s' = s := by
      have hsnd := Block.entries.read_snd entry s
      rwa [he] at hsnd
    exact ⟨f, s', faultsOfMemory_read Block.entries _ _ _ _ he, Or.inl rfl, fun _ => Exec.bind_of_error he _⟩
  · obtain ⟨-, rfl⟩ := Block.entries.read_eq_ok.1 he
    rcases hkey : (newLocal (.bytes (resize [] 24 keyFill)) : Prog Ptr) s' with ⟨f | key, s₁⟩
    · cases hkey
    · have hnew : Keeps (NoNew Block.amount? Globals.config)
          (newLocal (.bytes (resize [] 24 keyFill)) : Prog Ptr) := NoNew.keeps_newLocal rfl
      obtain ⟨f, hmem, hf⟩ := (h.mono (hnew.of_eq hkey).kept).not_getKey entry key
      refine ⟨f, s₁, hmem, Or.inr ⟨key, rfl⟩, fun iv => ?_⟩
      unfold openCipher setUpCipher
      rw [Exec.bind_of_ok he, Exec.bind_of_ok (use_of_ok (h.keySize e.protection)), Exec.bind_of_ok hkey]
      exact Exec.bind_of_error (Exec.bind_of_error hf _) _

lemma Original.shEncryptSegment_eq (h : Original s) (cipher cipher' : Cipher) (iv iv' : List UInt8)
    (keyFill outFill outFill' : ℕ → UInt8) (segment entry : Ptr) :
    shEncryptSegment cipher iv keyFill outFill segment entry s =
      shEncryptSegment cipher' iv' keyFill outFill' segment entry s := by
  obtain ⟨f, s', -, -, hrun⟩ := h.not_openCipher keyFill entry
  unfold shEncryptSegment
  rw [Exec.bind_of_error (hrun iv), Exec.bind_of_error (hrun iv')]

lemma Original.leaves_shInitProtection (h : Original s) (tpmEnabled : Bool) :
    Leaves Original (shInitProtection tpmEnabled) s fun _ _ => tpmEnabled = false := by
  cases tpmEnabled with
  | true => exact leaves_of_error (shInitProtection_true s) h
  | false =>
    have hrest : s.globals.config.2 = Globals.initial.config.2 := congrArg Prod.snd h.config
    have hconfig : (false, s.globals.config.2) = Globals.initial.config := by
      rw [hrest]
      rfl
    by_cases hok : s.next.ok = true
    · exact leaves_of_ok (shInitProtection_false hok) ⟨hconfig⟩ rfl
    · exact leaves_of_ok (shInitProtection_refused (by simpa using hok)) ⟨hconfig⟩ rfl

lemma Original.leaves_run (h : Original s) {shDecryptBuffer : Ptr → Ptr → Prog Unit}
    (hd : DecryptsInPlace shDecryptBuffer) (cipher : Cipher) (o : Operation) :
    Leaves Original (o.run shDecryptBuffer cipher) s fun _ _ => True := by
  have hrest : (∀ b, o ≠ .initProtection b) → Leaves Original (o.run shDecryptBuffer cipher) s fun _ _ => True := by
    intro ho
    have hkeeps : Keeps (NoNew Block.amount? Globals.config) (o.run shDecryptBuffer cipher) :=
      keeps_run (fun _ => rfl) (fun _ _ => rfl) hd (fun b hb => absurd hb (ho b)) fun c _ => keeps_malloc c
    exact ⟨h.mono (hkeeps s).kept, fun _ _ _ => trivial⟩
  cases o with
  | initProtection b => exact (h.leaves_shInitProtection b).mono fun _ _ _ _ => trivial
  | _ => exact hrest nofun

end Original

/-! ### Sessions -/

/-- The calls are the same but for what they have to do with cryptography: the random source that a key is to be
drawn from, and what a segment is to be encrypted with. -/
inductive Operation.SameButCrypto : Operation → Operation → Prop
  | same (o : Operation) : SameButCrypto o o
  | encryptSegment (iv iv' : List UInt8) (keyFill outFill outFill' : ℕ → UInt8) (segment entry : Ptr) :
      SameButCrypto (.encryptSegment iv keyFill outFill segment entry)
        (.encryptSegment iv' keyFill outFill' segment entry)
  | generateKey (urandom urandom' : Option (List UInt8)) (key : Ptr) (g : ShProtectionGrade) :
      SameButCrypto (.generateKey urandom key g) (.generateKey urandom' key g)

section Sessions

variable {s : State} {shDecryptBuffer : Ptr → Ptr → Prog Unit} (h : Original s)
  (hd : DecryptsInPlace shDecryptBuffer) (cipher : Cipher)
include h hd

/-- **Every grade is served alike**, in the end as in the beginning: with the row of `SH_PROTECT_MEDIUM`, keys of
24 bytes, 16 bytes of growth for any cipher, and without the TPM. -/
theorem configuration_of_session (ops : List Operation) (g : ShProtectionGrade) (algorithm mode : ℤ) :
    (shGetProtectionPolicy g (session shDecryptBuffer cipher ops s).2).1 = .ok (some mediumRow) ∧
      (shGetKeySize g (session shDecryptBuffer cipher ops s).2).1 = .ok (some 24) ∧
        (shGetCipherOutsizeDiff algorithm mode (session shDecryptBuffer cipher ops s).2).1 = .ok (some 16) ∧
          (session shDecryptBuffer cipher ops s).2.globals.tpmEnabled = false := by
  have hend : Original (session shDecryptBuffer cipher ops s).2 :=
    (leaves_session (P := fun _ => True) (fun o _ _ h' => h'.leaves_run hd cipher o) h).1
  exact ⟨congrArg Prod.fst (hend.configured.policy g), congrArg Prod.fst (hend.keySize g),
    congrArg Prod.fst (hend.configured.diff algorithm mode), congrArg Prod.fst hend.config⟩

/-- **Nothing comes of the cryptography**: a session is one and the same whatever the cipher does, whatever the
random source holds, and whether it can be opened at all. -/
theorem session_eq_of_crypto (cipher' : Cipher) {ops ops' : List Operation}
    (hops : List.Forall₂ Operation.SameButCrypto ops ops') :
    session shDecryptBuffer cipher ops s = session shDecryptBuffer cipher' ops' s := by
  have hrun : ∀ {s : State} {o o' : Operation}, Original s → o.SameButCrypto o' →
      o.run shDecryptBuffer cipher s = o'.run shDecryptBuffer cipher' s := by
    intro s o o' h ho
    cases ho with
    | same o =>
      cases o with
      | encryptSegment iv keyFill outFill segment entry =>
        exact h.shEncryptSegment_eq cipher cipher' iv iv keyFill outFill outFill segment entry
      | _ => rfl
    | encryptSegment iv iv' keyFill outFill outFill' segment entry =>
      exact h.shEncryptSegment_eq cipher cipher' iv iv' keyFill outFill outFill' segment entry
    | generateKey urandom urandom' key g =>
      change (shGenerateKey urandom key g >>= fun _ => pure ()) s =
        (shGenerateKey urandom' key g >>= fun _ => pure ()) s
      rw [Exec.bind_apply, Exec.bind_apply, h.shGenerateKey_eq urandom urandom' key g]
  induction hops generalizing s with
  | nil => rfl
  | @cons o o' ops ops' ho _ ih =>
    have hleft := (h.leaves_run hd cipher' o').1
    unfold session
    rw [Exec.bind_apply, Exec.bind_apply, hrun h ho]
    rcases hs : o'.run shDecryptBuffer cipher' s with ⟨f | u, s'⟩
    · rfl
    · rw [hs] at hleft
      exact ih hleft

end Sessions

/-- The block of the first segment is refused, and the session stops when the allocation is to be read. -/
theorem configuration_of_session_refusing :
    (shGetProtectionPolicy .protectHigh (session (fun _ _ => pure ()) flipping
        [.initProtection false, .malloc ⟨0, 25, .protectHigh⟩, .read 9]
          (Machine.start (refusing 3) Globals.initial)).2).1 = .ok (some mediumRow) ∧
      (shGetKeySize .protectHigh (session (fun _ _ => pure ()) flipping
        [.initProtection false, .malloc ⟨0, 25, .protectHigh⟩, .read 9]
          (Machine.start (refusing 3) Globals.initial)).2).1 = .ok (some 24) ∧
      (shGetCipherOutsizeDiff gcryCipherNone gcryCipherModeNone (session (fun _ _ => pure ()) flipping
        [.initProtection false, .malloc ⟨0, 25, .protectHigh⟩, .read 9]
          (Machine.start (refusing 3) Globals.initial)).2).1 = .ok (some 16) ∧
      (session (fun _ _ => pure ()) flipping [.initProtection false, .malloc ⟨0, 25, .protectHigh⟩, .read 9]
        (Machine.start (refusing 3) Globals.initial)).2.globals.tpmEnabled = false :=
  configuration_of_session ⟨rfl⟩ decryptsInPlace_pure flipping _ .protectHigh gcryCipherNone gcryCipherModeNone

def failing : Cipher where
  encrypt _ _ := .error 5
  code_ne_zero h := by
    cases h
    decide
  length_eq h := by cases h

theorem session_eq_of_crypto_none :
    session (fun _ _ => pure ()) flipping
        [.initProtection false, .generateKey (some [5, 6]) 0 .protectHigh, .encryptSegment [1] 0 0 3 5] atStart =
      session (fun _ _ => pure ()) failing
        [.initProtection false, .generateKey none 0 .protectHigh, .encryptSegment [2] 0 0 3 5] atStart :=
  session_eq_of_crypto ⟨rfl⟩ decryptsInPlace_pure flipping failing
    (.cons (.same _) (.cons (.generateKey _ _ 0 _) (.cons (.encryptSegment _ _ 0 0 0 3 5) .nil)))

end SafeHeap
