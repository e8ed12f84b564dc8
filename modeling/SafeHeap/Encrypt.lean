import SafeHeap.CMachine.Observe
import SafeHeap.Keys

/-!
# Encrypting a segment

`sh_encrypt_segment` should put what the cipher gives in the place of what the segment held, or report
the code of the cipher and change nothing (`EncryptsOrReports`).

The output stays in a local array, and the code is taken for an error where it is zero: every run that
returns leaves the segment in clear, and reports a success (`shEncryptSegment_ok`). So the segment is
never encrypted, and no failure is reported (`encryptsOrReports_never`).
-/

namespace SafeHeap

open CMachine Exec

/-! ### The key and the handle -/

lemma keeps_strcpyAt (dst src : Ptr) : Keeps (OnlyAt dst) (strcpyAt dst src) := by
  refine (Block.byteArrays.keeps_read dst).bind fun d => (Block.byteArrays.keeps_read src).bind fun b => ?_
  split
  · exact keeps_fault _
  · split
    · exact OnlyAt.keeps_store _
    · exact keeps_fault _

lemma keeps_shGetKey (entry key : Ptr) : Keeps (OnlyAt key) (shGetKey entry key) := by
  refine (Block.entries.keeps_read entry).bind fun e => ?_
  refine ((keeps_shGetProtectionPolicy _).bind fun o => keeps_deref o).bind fun policy => ?_
  have hcopy : Keeps (OnlyAt key) (strcpyAt key policy.cipherPolicy.unsecureKey) := keeps_strcpyAt key _
  have herrno : Keeps (OnlyAt key) (setErrno EINVAL) := fun s => ⟨fun _ _ => rfl, rfl⟩
  cases policy.cipherPolicy.keyStoreType with
  | tpmStore =>
    have hrest : Keeps (OnlyAt key)
        (shTpmGetKey entry key >>= fun _ => strcpyAt key policy.cipherPolicy.unsecureKey) :=
      (keeps_pure ()).bind fun _ => hcopy
    dsimp only
    split
    · exact (keeps_pure ()).bind fun _ => hrest
    · exact herrno.bind fun _ => hrest
  | memoryStore =>
    dsimp only
    split
    · exact (keeps_pure ()).bind fun _ => hcopy
    · exact herrno.bind fun _ => hcopy

lemma keeps_setUpCipher (iv : List UInt8) (entry key : Ptr) : Keeps (OnlyAt key) (setUpCipher iv entry key) := by
  refine (keeps_shGetKey entry key).bind fun _ => (Block.entries.keeps_read entry).bind fun e => ?_
  refine ((keeps_shGetProtectionPolicy _).bind fun o => keeps_deref o).bind fun policy => ?_
  refine ((keeps_shGetKeySize _).bind fun o => keeps_use o).bind fun n => ?_
  refine (Block.byteArrays.keeps_read key).bind fun k => ?_
  split
  · exact keeps_pure _
  · exact keeps_fault _

/-- The blocks of `s` are where they were, and apart from the array at `p`. -/
def Beside (p : Ptr) (s s' : State) : Prop :=
  ∀ q b, s.heap.get q = some b → s'.heap.get q = some b ∧ q ≠ p

lemma openCipher_ok {iv : List UInt8} {keyFill : ℕ → UInt8} {entry : Ptr} {s s' : State} {r : Ptr × CipherHandle}
    (h : openCipher iv keyFill entry s = (.ok r, s')) : Beside r.1 s s' ∧ s'.globals = s.globals := by
  obtain ⟨e, s₁, he, h₁⟩ := bind_eq_ok.1 h
  obtain ⟨-, rfl⟩ := Block.entries.read_eq_ok.1 he
  obtain ⟨n, s₂, hn, h₂⟩ := bind_eq_ok.1 h₁
  have hsize : Keeps Eq (shGetKeySize e.protection >>= use) := (keeps_shGetKeySize _).bind fun o => keeps_use o
  obtain rfl := hsize.of_eq hn
  obtain ⟨key, s₃, hkey, h₃⟩ := bind_eq_ok.1 h₂
  cases hkey
  obtain ⟨handle, s₄, hhandle, h₄⟩ := bind_eq_ok.1 h₃
  cases h₄
  have honly := (keeps_setUpCipher iv entry _).of_eq hhandle
  refine ⟨fun q b hq => ?_, honly.globals⟩
  have hne : q ≠ s₁.localAddr := Heap.ne_fresh hq _
  refine ⟨?_, hne⟩
  rw [honly.frame q hne]
  exact (Heap.get_put_ne _ hne).trans hq

/-! ### The cipher -/

section Encrypt

variable {cipher : Cipher} {outFill : ℕ → UInt8}

/-- What is reported about an outcome of the cipher. -/
def reported : Except ℕ (List UInt8) → List ℕ
  | .ok _ => [0]
  | .error _ => []

lemma gcryCipherEncrypt_ok {handle : CipherHandle} {out input : Ptr} {size retcode : ℕ} {data : List UInt8}
    {s s' : State} (hdata : s.heap.get input = some (.bytes data))
    (h : gcryCipherEncrypt cipher handle out input size s = (.ok retcode, s')) :
    OnlyAt out s s' ∧
      reported (cipher.encrypt handle (data.take size)) = if retcode = 0 then [retcode] else [] := by
  obtain ⟨o, s₁, ho, h₁⟩ := bind_eq_ok.1 h
  obtain ⟨ho, rfl⟩ := Block.byteArrays.read_eq_ok.1 ho
  rw [bind_of_ok (Block.byteArrays.read_of_get hdata)] at h₁
  split at h₁
  · rcases hout : cipher.encrypt handle (data.take size) with code | output
    · rw [hout] at h₁
      cases h₁
      rw [if_neg (cipher.code_ne_zero hout)]
      exact ⟨refl_of (OnlyAt out) _, rfl⟩
    · rw [hout] at h₁
      obtain ⟨⟨⟩, s₂, hstore, h₂⟩ := bind_eq_ok.1 h₁
      cases h₂
      exact ⟨(OnlyAt.keeps_store _).of_eq hstore, rfl⟩
  · cases h₁

/-- **Behind the handle**: the blocks stay as they are, and a success is reported. -/
lemma encryptUnder_ok {handle : CipherHandle} {segment : Ptr} {x : ShSegmentDescriptor} {data : List UInt8}
    {s s' : State} (hx : s.heap.get segment = some (.descriptor x))
    (hdata : s.heap.get x.address = some (.bytes data))
    (h : encryptUnder cipher outFill handle segment s = (.ok (), s')) :
    (∀ q b, s.heap.get q = some b → s'.heap.get q = some b) ∧
      s'.globals.printed = s.globals.printed ++ reported (cipher.encrypt handle (data.take x.size)) := by
  -- the local array is at a new address
  let out := s.localAddr
  let s₁ : State := { s with heap := s.heap.put out (.bytes (resize [] (sizeofPointer * x.size) outFill)) }
  have hframe : ∀ {q b}, s.heap.get q = some b → s₁.heap.get q = some b ∧ q ≠ out := fun hq =>
    have hne := Heap.ne_fresh hq _
    ⟨(Heap.get_put_ne _ hne).trans hq, hne⟩
  have hnew : newLocal (.bytes (resize [] (sizeofPointer * x.size) outFill)) s = (.ok out, s₁) := rfl
  unfold encryptUnder at h
  rw [bind_of_ok (Block.descriptors.read_of_get hx), bind_of_ok hnew,
    bind_of_ok (Block.descriptors.read_of_get (hframe hx).1)] at h
  obtain ⟨retcode, s₂, hcall, h₂⟩ := bind_eq_ok.1 h
  obtain ⟨honly, hreport⟩ := gcryCipherEncrypt_ok (hframe hdata).1 hcall
  have hblocks : ∀ q b, s.heap.get q = some b → (s₂.heap.erase out).get q = some b := fun q b hq => by
    obtain ⟨hq₁, hne⟩ := hframe hq
    rw [Heap.get_erase_ne hne, honly.frame q hne, hq₁]
  rw [hreport]
  dsimp only at h₂
  by_cases hret : retcode = 0
  · rw [if_pos hret] at h₂ ⊢
    cases h₂
    refine ⟨hblocks, ?_⟩
    show s₂.globals.printed ++ [retcode] = _
    rw [honly.globals]
  · rw [if_neg hret] at h₂ ⊢
    cases h₂
    refine ⟨hblocks, ?_⟩
    show s₂.globals.printed = _
    rw [honly.globals, List.append_nil]

/-- **Every segment stays in clear**, and the only outcome of the cipher that is reported is a success. -/
theorem shEncryptSegment_ok {iv : List UInt8} {keyFill : ℕ → UInt8} {segment entry : Ptr}
    {x : ShSegmentDescriptor} {data : List UInt8} {s s₁ s' : State} {r : Ptr × CipherHandle}
    (hx : s.heap.get segment = some (.descriptor x)) (hdata : s.heap.get x.address = some (.bytes data))
    (hopen : openCipher iv keyFill entry s = (.ok r, s₁))
    (h : shEncryptSegment cipher iv keyFill outFill segment entry s = (.ok (), s')) :
    (∀ q b, s.heap.get q = some b → s'.heap.get q = some b) ∧
      s'.globals.printed = s.globals.printed ++ reported (cipher.encrypt r.2 (data.take x.size)) := by
  obtain ⟨hbeside, hglobals⟩ := openCipher_ok hopen
  unfold shEncryptSegment at h
  rw [bind_of_ok hopen] at h
  obtain ⟨⟨⟩, s₂, hunder, h₂⟩ := bind_eq_ok.1 h
  obtain ⟨hblocks, hprinted⟩ := encryptUnder_ok (hbeside _ _ hx).1 (hbeside _ _ hdata).1 hunder
  cases h₂
  refine ⟨fun q b hq => ?_, ?_⟩
  · obtain ⟨hq₁, hne⟩ := hbeside q b hq
    exact (Heap.get_erase_ne hne).trans (hblocks q b hq₁)
  · rw [← hglobals]
    exact hprinted

end Encrypt

/-- **The segment is encrypted, or its failure reported**: with the output of the cipher in the place of
what it took, and no report; or with everything as it was, and the code of the cipher. Either way the
other blocks stay. -/
def EncryptsOrReports (cipher : Cipher) (iv : List UInt8) (keyFill outFill : ℕ → UInt8) (segment entry : Ptr)
    (s : State) : Prop :=
  ∃ x data r s₁, s.heap.get segment = some (.descriptor x) ∧ s.heap.get x.address = some (.bytes data) ∧
    openCipher iv keyFill entry s = (.ok r, s₁) ∧
      Exec.Ends (shEncryptSegment cipher iv keyFill outFill segment entry) s fun _ s' =>
        (∀ q, q ≠ x.address → s'.heap.get q = s.heap.get q) ∧
          match cipher.encrypt r.2 (data.take x.size) with
          | .ok output => s'.heap.get x.address = some (.bytes (output ++ data.drop x.size)) ∧
              s'.globals.printed = s.globals.printed
          | .error code => s'.heap.get x.address = s.heap.get x.address ∧
              s'.globals.printed = s.globals.printed ++ [code]

/-- **Neither ever happens.** -/
theorem encryptsOrReports_never (cipher : Cipher) (iv : List UInt8) (keyFill outFill : ℕ → UInt8)
    (segment entry : Ptr) (s : State) : ¬ EncryptsOrReports cipher iv keyFill outFill segment entry s := by
  rintro ⟨x, data, r, s₁, hx, hdata, hopen, ⟨⟩, s', hrun, -, h⟩
  obtain ⟨-, hprinted⟩ := shEncryptSegment_ok hx hdata hopen hrun
  rcases hout : cipher.encrypt r.2 (data.take x.size) with code | output
  · -- a failure, of which nothing is said
    rw [hout] at h hprinted
    have hlength := congrArg List.length (hprinted.symm.trans h.2)
    simp [reported] at hlength
  · -- a success, reported as an error
    rw [hout] at h hprinted
    have hlength := congrArg List.length (hprinted.symm.trans h.2)
    simp [reported] at hlength

/-- A cipher that always succeeds. -/
def flipping : Cipher where
  encrypt _ input := .ok (input.map fun b => 255 - b)
  code_ne_zero h := by cases h
  length_eq h := by
    cases h
    exact List.length_map _

/-- An entry at `3` with a key of `24` bytes at `5`, and a segment of three bytes at `6` and `7`. -/
def segmentState : State where
  heap := (((Heap.empty.put 3 (.entry ⟨0, .protectMedium, 1, 0⟩)).put 5
    (.bytes (List.replicate 23 1 ++ [0]))).put 6 (.descriptor ⟨7, 3⟩)).put 7 (.bytes [1, 2, 3])
  answer := Answer.zeros
  calls := 0
  trace := []
  errno := 0
  globals := { Globals.initial with shProtectionPolicies :=
    [⟨.protectMedium, true, true, 10, ⟨gcryCipherAes192, gcryCipherModeGcm, gcryCipherSecure, .memoryStore, 5⟩⟩] }

/-- The cipher succeeds; the segment stays in clear, and an error is reported. -/
theorem not_encryptsOrReports_flipping :
    ¬ EncryptsOrReports flipping [] (fun _ => 0) (fun _ => 0) 6 3 segmentState := by
  rintro ⟨x, data, r, s₁, -, -, -, ⟨⟩, s', hrun, -, -, hprinted⟩
  have h : (shEncryptSegment flipping [] (fun _ => 0) (fun _ => 0) 6 3 segmentState).2.globals.printed = [0] := rfl
  rw [hrun] at h
  simp only at h
  rw [h] at hprinted
  exact absurd hprinted (by decide)

end SafeHeap
