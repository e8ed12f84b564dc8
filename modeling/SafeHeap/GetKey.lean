import SafeHeap.Keys

/-!
# Fetching a key

Where the key is in the TPM, or encryption is disabled, `sh_get_key` should not let the unsecure key of
the policy come near the buffer: of two states that differ in that key only, it should make the same
(`KeyConfined`). Where the key is in memory, it should fetch it as it is (`KeyFetched`).

In every case `strcpy` comes last. `keyConfined_iff` says that it may only write what is there already,
and `keyFetched_iff` which keys it copies as a whole.
-/

namespace SafeHeap

open CMachine

lemma strcpyAt_eq_ok {dst src : Ptr} {s s' : State} : strcpyAt dst src s = (.ok (), s') ↔
    dst ≠ src ∧ ∃ d b l, s.heap.get dst = some (.bytes d) ∧ s.heap.get src = some (.bytes b) ∧
      strcpy d b = some l ∧ s' = s.stored dst (.bytes l) := by
  constructor
  · intro h
    obtain ⟨d, s₁, hd, h₁⟩ := Exec.bind_eq_ok.1 h
    obtain ⟨hd, rfl⟩ := Block.byteArrays.read_eq_ok.1 hd
    obtain ⟨b, s₂, hb, h₂⟩ := Exec.bind_eq_ok.1 h₁
    obtain ⟨hb, rfl⟩ := Block.byteArrays.read_eq_ok.1 hb
    split at h₂
    · cases h₂
    · next hne =>
      rcases hl : strcpy d b with _ | l
      · rw [hl] at h₂
        cases h₂
      · rw [hl] at h₂
        simp only [store_of_live (Heap.live_of_get hd), Prod.mk.injEq, true_and] at h₂
        exact ⟨hne, d, b, l, hd, hb, hl, h₂.symm⟩
  · rintro ⟨hne, d, b, l, hd, hb, hl, rfl⟩
    unfold strcpyAt
    rw [Exec.bind_of_ok (Block.byteArrays.read_of_get hd), Exec.bind_of_ok (Block.byteArrays.read_of_get hb),
      if_neg hne]
    simp only [hl, store_of_live (Heap.live_of_get hd)]

/-! ### Up to the copy -/

/-- The states differ in the bytes of the block at `u`, if at all. -/
structure DifferAt (u : Ptr) (s s' : State) : Prop where
  blocks : ∀ q, q ≠ u → s'.heap.get q = s.heap.get q
  bytes : s'.heap.get u = s.heap.get u ∨ ∃ data data', s.heap.get u = some (.bytes data) ∧
    s'.heap.get u = some (.bytes data') ∧ data'.length = data.length
  top : s'.heap.top = s.heap.top
  answer : s'.answer = s.answer
  calls : s'.calls = s.calls
  trace : s'.trace = s.trace
  errno : s'.errno = s.errno
  globals : s'.globals = s.globals

/-- `sh_tpm_get_key` turns a state into `after` of it: it returns, leaves bytes in the key buffer, and
the block at `u` has no influence on it. -/
structure FillsKey (shTpmGetKey : Ptr → Ptr → Prog Unit) (entry key u : Ptr) (after : State → State) : Prop where
  returns : ∀ s, s.heap.Live key → shTpmGetKey entry key s = (.ok (), after s)
  fills : ∀ s k, s.heap.get key = some (.bytes k) → ∃ w, (after s).heap.get key = some (.bytes w)
  blind : ∀ s s', DifferAt u s s' → DifferAt u (after s) (after s')

/-- Behind the safeguard. -/
def guarded (policy : ShProtectionPolicy) (s : State) : State :=
  if policy.encryptionEnabled then s else { s with errno := EINVAL }

/-- Before the unsecure key is copied. -/
def beforeCopy (policy : ShProtectionPolicy) (after : State → State) (s : State) : State :=
  match policy.cipherPolicy.keyStoreType with
  | .tpmStore => after (guarded policy s)
  | .memoryStore => guarded policy s

/-- The string in the block at `p`. -/
def stringAt (s : State) (p : Ptr) : Option (List UInt8) := cstr (Block.data? (s.heap.get p))

section States

variable {policy : ShProtectionPolicy} {after : State → State} {s s' : State} {u : Ptr}

@[simp] lemma heap_guarded : (guarded policy s).heap = s.heap := by
  unfold guarded
  split <;> rfl

lemma errno_guarded (h : policy.encryptionEnabled = false) : (guarded policy s).errno = EINVAL := by
  unfold guarded
  rw [h]
  rfl

lemma beforeCopy_of_tpm (h : policy.cipherPolicy.keyStoreType = .tpmStore) :
    beforeCopy policy after s = after (guarded policy s) := by
  unfold beforeCopy
  rw [h]

lemma beforeCopy_of_memory (h : policy.cipherPolicy.keyStoreType = .memoryStore) :
    beforeCopy policy after s = guarded policy s := by
  unfold beforeCopy
  rw [h]

lemma stringAt_of_get {p : Ptr} {l : List UInt8} (h : s.heap.get p = some (.bytes l)) : stringAt s p = cstr l := by
  unfold stringAt
  rw [h]
  rfl

lemma bytes_of_stringAt {p : Ptr} {d : List UInt8} (h : stringAt s p = some d) :
    ∃ l, s.heap.get p = some (.bytes l) ∧ cstr l = some d := by
  unfold stringAt at h
  rcases hp : s.heap.get p with _ | b
  · rw [hp] at h
    cases h
  · rw [hp] at h
    cases b with
    | bytes l => exact ⟨l, rfl, h⟩
    | _ => cases h

lemma DifferAt.guarded (h : DifferAt u s s') : DifferAt u (guarded policy s) (guarded policy s') := by
  unfold SafeHeap.guarded
  split
  · exact h
  · exact ⟨h.blocks, h.bytes, h.top, h.answer, h.calls, h.trace, rfl, h.globals⟩

lemma DifferAt.get_entry (h : DifferAt u s s') {p : Ptr} {e : ShProtectedEntry}
    (hp : s.heap.get p = some (.entry e)) : s'.heap.get p = some (.entry e) := by
  by_cases hpu : p = u
  · subst hpu
    rcases h.bytes with heq | ⟨data, data', hdata, -⟩
    · rw [heq, hp]
    · rw [hp] at hdata
      cases hdata
  · rw [h.blocks p hpu, hp]

end States

section GetKey

variable {s : State} {entry key : Ptr} {e : ShProtectedEntry} {policy : ShProtectionPolicy}
  (he : s.heap.get entry = some (.entry e))
  (hpolicy : shGetProtectionPolicy e.protection s = (.ok (some policy), s))
include he hpolicy

lemma shGetKeyWith_run (shTpmGetKey : Ptr → Ptr → Prog Unit) : shGetKeyWith shTpmGetKey entry key s =
    ((if policy.cipherPolicy.keyStoreType = .tpmStore then shTpmGetKey entry key else pure ()) >>= fun _ =>
      strcpyAt key policy.cipherPolicy.unsecureKey) (guarded policy s) := by
  unfold shGetKeyWith guarded
  rw [Exec.bind_of_ok (Block.entries.read_of_get he), Exec.bind_of_ok (deref_of_ok hpolicy)]
  cases hstore : policy.cipherPolicy.keyStoreType with
  | tpmStore =>
    rw [if_pos rfl]
    split <;> rfl
  | memoryStore =>
    have hne : KeyStoreType.memoryStore ≠ .tpmStore := nofun
    rw [if_neg hne]
    split <;> rfl

lemma shGetKeyWith_of_memory (hstore : policy.cipherPolicy.keyStoreType = .memoryStore)
    (shTpmGetKey : Ptr → Ptr → Prog Unit) : shGetKeyWith shTpmGetKey entry key s =
      strcpyAt key policy.cipherPolicy.unsecureKey (guarded policy s) := by
  rw [shGetKeyWith_run he hpolicy, if_neg (by simp [hstore])]
  rfl

/-- **The copy comes last**, wherever the key is. -/
theorem shGetKeyWith_eq {shTpmGetKey : Ptr → Ptr → Prog Unit} {after : State → State}
    (htpm : FillsKey shTpmGetKey entry key policy.cipherPolicy.unsecureKey after) (hk : s.heap.Live key) :
    shGetKeyWith shTpmGetKey entry key s =
      strcpyAt key policy.cipherPolicy.unsecureKey (beforeCopy policy after s) := by
  cases hstore : policy.cipherPolicy.keyStoreType with
  | tpmStore =>
    have hlive : (guarded policy s).heap.Live key := by
      rw [heap_guarded]
      exact hk
    rw [shGetKeyWith_run he hpolicy, if_pos hstore, beforeCopy_of_tpm hstore,
      Exec.bind_of_ok (htpm.returns _ hlive)]
  | memoryStore => rw [shGetKeyWith_of_memory he hpolicy hstore, beforeCopy_of_memory hstore]

end GetKey

/-! ### A key from the TPM, or none at all -/

/-- What a request should leave behind. -/
structure KeyLeft (policy : ShProtectionPolicy) (after : State → State) (key : Ptr) (s s₁ : State) : Prop where
  disabled : policy.encryptionEnabled = false → s₁.errno = EINVAL ∧ s₁.heap.get key = s.heap.get key
  tpm : policy.cipherPolicy.keyStoreType = .tpmStore →
    s₁.heap.get key = (after (guarded policy s)).heap.get key

/-- **The unsecure key stays where it is**: in both states the request leaves what it should, and the
contents of the buffer are the same. -/
def KeyConfined (shTpmGetKey : Ptr → Ptr → Prog Unit) (after : State → State) (policy : ShProtectionPolicy)
    (entry key : Ptr) (s s' : State) : Prop :=
  ∃ s₁ s₁', shGetKeyWith shTpmGetKey entry key s = (.ok (), s₁) ∧
    shGetKeyWith shTpmGetKey entry key s' = (.ok (), s₁') ∧ s₁.heap.get key = s₁'.heap.get key ∧
      KeyLeft policy after key s s₁ ∧ KeyLeft policy after key s' s₁'

/-- The unsecure key is a string that the buffer holds already when it is copied; with encryption
disabled, a TPM has left the buffer and `errno` alone. -/
structure CopyIdle (policy : ShProtectionPolicy) (after : State → State) (key : Ptr) (s : State) : Prop where
  apart : key ≠ policy.cipherPolicy.unsecureKey
  same : ∃ d, stringAt (beforeCopy policy after s) policy.cipherPolicy.unsecureKey = some d ∧
    stringAt (beforeCopy policy after s) key = some d
  quiet : policy.encryptionEnabled = false → policy.cipherPolicy.keyStoreType = .tpmStore →
    (after (guarded policy s)).errno = EINVAL ∧ (after (guarded policy s)).heap.get key = s.heap.get key

section Confined

variable {s : State} {entry key : Ptr} {e : ShProtectedEntry} {policy : ShProtectionPolicy} {k : List UInt8}
  {shTpmGetKey : Ptr → Ptr → Prog Unit} {after : State → State}
  (he : s.heap.get entry = some (.entry e))
  (hpolicy : shGetProtectionPolicy e.protection s = (.ok (some policy), s))
  (hcase : policy.cipherPolicy.keyStoreType = .tpmStore ∨ policy.encryptionEnabled = false)
  (hk : s.heap.get key = some (.bytes k))
  (htpm : FillsKey shTpmGetKey entry key policy.cipherPolicy.unsecureKey after)
include hcase

lemma KeyLeft.get_key {s₁ : State} (h : KeyLeft policy after key s s₁) :
    s₁.heap.get key = (beforeCopy policy after s).heap.get key := by
  cases hstore : policy.cipherPolicy.keyStoreType with
  | tpmStore => rw [beforeCopy_of_tpm hstore, h.tpm hstore]
  | memoryStore =>
    have hoff : policy.encryptionEnabled = false := hcase.resolve_left (by simp [hstore])
    rw [beforeCopy_of_memory hstore, heap_guarded, (h.disabled hoff).2]

include he hpolicy hk htpm

/-- One request: it leaves what it should exactly when the copy changes nothing. -/
lemma keyLeft_iff :
    Exec.Ends (shGetKeyWith shTpmGetKey entry key) s (fun _ s₁ => KeyLeft policy after key s s₁) ↔
      CopyIdle policy after key s := by
  have hrun := shGetKeyWith_eq he hpolicy htpm (Heap.live_of_get hk)
  obtain ⟨w, hw⟩ : ∃ w, (beforeCopy policy after s).heap.get key = some (.bytes w) := by
    have hkg : (guarded policy s).heap.get key = some (.bytes k) := by rw [heap_guarded, hk]
    unfold beforeCopy
    split
    · exact htpm.fills _ k hkg
    · exact ⟨k, hkg⟩
  have hw0 : key ≠ 0 := Heap.ne_null hk
  constructor
  · rintro ⟨⟨⟩, s₁, hok, h⟩
    rw [hrun] at hok
    obtain ⟨hne, d, b, l, hd, hb, hl, rfl⟩ := strcpyAt_eq_ok.1 hok
    have hkey := h.get_key hcase
    rw [Machine.heap_stored, Heap.get_put_self _ hw0, hd, Option.some.injEq, Block.bytes.injEq] at hkey
    subst hkey
    obtain ⟨str, hsrc, hdst⟩ := strcpy_eq_self_iff.1 hl
    refine ⟨hne, ⟨str, by rw [stringAt_of_get hb, hsrc], by rw [stringAt_of_get hd, hdst]⟩, fun hoff hstore => ?_⟩
    obtain ⟨herrno, hget⟩ := h.disabled hoff
    have hbefore : beforeCopy policy after s = after (guarded policy s) := beforeCopy_of_tpm hstore
    rw [← h.tpm hstore, ← hbefore]
    exact ⟨herrno, hget⟩
  · rintro ⟨hne, ⟨str, hsrc, hdst⟩, hquiet⟩
    obtain ⟨b, hb, hbs⟩ := bytes_of_stringAt hsrc
    rw [stringAt_of_get hw] at hdst
    have hcopy : strcpy w b = some w := strcpy_eq_self_iff.2 ⟨str, hbs, hdst⟩
    refine ⟨(), _, hrun.trans (strcpyAt_eq_ok.2 ⟨hne, w, b, w, hw, hb, hcopy, rfl⟩), ?_, ?_⟩
    · intro hoff
      rw [Machine.heap_stored, Heap.get_put_self _ hw0, ← hw]
      cases hstore : policy.cipherPolicy.keyStoreType with
      | tpmStore =>
        rw [beforeCopy_of_tpm hstore]
        exact hquiet hoff hstore
      | memoryStore =>
        rw [beforeCopy_of_memory hstore, heap_guarded]
        exact ⟨errno_guarded hoff, rfl⟩
    · intro hstore
      rw [Machine.heap_stored, Heap.get_put_self _ hw0, ← hw, beforeCopy_of_tpm hstore]

/-- **When the unsecure key is confined**: when the copy changes nothing, in either state. -/
theorem keyConfined_iff {s' : State} (hdiff : DifferAt policy.cipherPolicy.unsecureKey s s') :
    KeyConfined shTpmGetKey after policy entry key s s' ↔
      CopyIdle policy after key s ∧ CopyIdle policy after key s' := by
  have he' := hdiff.get_entry he
  have hpolicy' := shGetProtectionPolicy_congr (congrArg Globals.shProtectionPolicies hdiff.globals) hpolicy
  have hkey : key ≠ policy.cipherPolicy.unsecureKey → s'.heap.get key = some (.bytes k) := fun hne => by
    rw [hdiff.blocks key hne, hk]
  constructor
  · rintro ⟨s₁, s₁', hok, hok', -, h, h'⟩
    have hidle := (keyLeft_iff he hpolicy hcase hk htpm).1 ⟨(), s₁, hok, h⟩
    exact ⟨hidle, (keyLeft_iff he' hpolicy' hcase (hkey hidle.apart) htpm).1 ⟨(), s₁', hok', h'⟩⟩
  · rintro ⟨hidle, hidle'⟩
    obtain ⟨⟨⟩, s₁, hok, h⟩ := (keyLeft_iff he hpolicy hcase hk htpm).2 hidle
    obtain ⟨⟨⟩, s₁', hok', h'⟩ := (keyLeft_iff he' hpolicy' hcase (hkey hidle.apart) htpm).2 hidle'
    refine ⟨s₁, s₁', hok, hok', ?_, h, h'⟩
    -- what is left does not come from the block in which the states differ
    rcases hcase with hstore | hoff
    · rw [h.tpm hstore, h'.tpm hstore, (htpm.blind _ _ hdiff.guarded).blocks key hidle.apart]
    · rw [(h.disabled hoff).2, (h'.disabled hoff).2, hdiff.blocks key hidle.apart]

end Confined

/-- An entry at `3`, a key buffer at `4`, and an unsecure key at `5`. -/
def keyState (row : ShProtectionPolicy) (buffer unsecure : List UInt8) : State where
  heap := ((Heap.empty.put 3 (.entry ⟨0, .protectMedium, 0, 0⟩)).put 4 (.bytes buffer)).put 5 (.bytes unsecure)
  answer := Answer.zeros
  calls := 0
  trace := []
  errno := 0
  globals := { Globals.initial with shProtectionPolicies := [row] }

/-- The row for `AES192`, with a key at `5`. -/
def rowWith (store : KeyStoreType) : ShProtectionPolicy :=
  ⟨.protectMedium, true, true, 10, ⟨gcryCipherAes192, gcryCipherModeGcm, gcryCipherSecure, store, 5⟩⟩

lemma fillsKey_shTpmGetKey (entry key u : Ptr) : FillsKey shTpmGetKey entry key u id :=
  ⟨fun _ _ => rfl, fun _ k hk => ⟨k, hk⟩, fun _ _ h => h⟩

lemma differAt_keyState (row : ShProtectionPolicy) (buffer unsecure unsecure' : List UInt8)
    (hlen : unsecure'.length = unsecure.length) :
    DifferAt 5 (keyState row buffer unsecure) (keyState row buffer unsecure') := by
  refine ⟨fun q hq => ?_, Or.inr ⟨unsecure, unsecure', rfl, rfl, hlen⟩, rfl, rfl, rfl, rfl, rfl, rfl⟩
  show Heap.get _ q = Heap.get _ q
  rw [keyState, keyState, Heap.get_put_ne _ hq, Heap.get_put_ne _ hq]

/-- Unsecure keys that differ behind their string, which is in the buffer already. -/
theorem keyConfined_shared : KeyConfined shTpmGetKey id (rowWith .tpmStore) 3 4
    (keyState (rowWith .tpmStore) [97, 98, 0, 7] [97, 98, 0, 1])
    (keyState (rowWith .tpmStore) [97, 98, 0, 7] [97, 98, 0, 2]) := by
  have hdiff := differAt_keyState (rowWith .tpmStore) [97, 98, 0, 7] [97, 98, 0, 1] [97, 98, 0, 2] rfl
  have hidle : ∀ b, CopyIdle (rowWith .tpmStore) id 4 (keyState (rowWith .tpmStore) [97, 98, 0, 7] [97, 98, 0, b]) :=
    fun b => ⟨by decide, ⟨[97, 98], rfl, rfl⟩, fun hoff => absurd hoff (by decide)⟩
  exact (keyConfined_iff (e := ⟨0, .protectMedium, 0, 0⟩) (k := [97, 98, 0, 7]) rfl rfl (Or.inl rfl) rfl
    (fillsKey_shTpmGetKey 3 4 5) hdiff).2 ⟨hidle 1, hidle 2⟩

/-- Where the TPM has left the buffer alone, it ends up with the unsecure key. -/
theorem not_keyConfined_secret : ¬ KeyConfined shTpmGetKey id (rowWith .tpmStore) 3 4
    (keyState (rowWith .tpmStore) [9, 9, 9, 9] [115, 101, 99, 0])
    (keyState (rowWith .tpmStore) [9, 9, 9, 9] [97, 98, 99, 0]) := by
  rintro ⟨s₁, s₁', hok, hok', heq, -⟩
  have h : (shGetKeyWith shTpmGetKey 3 4
      (keyState (rowWith .tpmStore) [9, 9, 9, 9] [115, 101, 99, 0])).2.heap.get 4 =
        some (.bytes [115, 101, 99, 0]) := rfl
  have h' : (shGetKeyWith shTpmGetKey 3 4
      (keyState (rowWith .tpmStore) [9, 9, 9, 9] [97, 98, 99, 0])).2.heap.get 4 =
        some (.bytes [97, 98, 99, 0]) := rfl
  rw [hok] at h
  rw [hok'] at h'
  simp only at h h'
  rw [h, h'] at heq
  exact absurd heq (by decide)

/-! ### A key from memory -/

/-- The buffer ends up with the key, and no byte beyond one of the two has been used. -/
def KeyFetched (entry key : Ptr) (data : List UInt8) (s : State) : Prop :=
  Exec.Ends (shGetKey entry key) s fun _ s' => s'.heap.get key = some (.bytes data)

/-- **Which keys are fetched as a whole**, into a buffer of their length: those with a zero byte, if what
follows the first one is in the buffer already. -/
theorem keyFetched_iff {s : State} {entry key : Ptr} {e : ShProtectedEntry} {policy : ShProtectionPolicy}
    (he : s.heap.get entry = some (.entry e))
    (hpolicy : shGetProtectionPolicy e.protection s = (.ok (some policy), s))
    (hstore : policy.cipherPolicy.keyStoreType = .memoryStore) {k data : List UInt8}
    (hk : s.heap.get key = some (.bytes k))
    (hdata : s.heap.get policy.cipherPolicy.unsecureKey = some (.bytes data)) (hlen : data.length = k.length) :
    KeyFetched entry key data s ↔ key ≠ policy.cipherPolicy.unsecureKey ∧
      ∃ d, cstr data = some d ∧ k.drop (d.length + 1) = data.drop (d.length + 1) := by
  have hrun : shGetKey entry key s = strcpyAt key policy.cipherPolicy.unsecureKey (guarded policy s) :=
    shGetKeyWith_of_memory he hpolicy hstore shTpmGetKey
  have hcopy : strcpy k data = some data ↔
      ∃ d, cstr data = some d ∧ k.drop (d.length + 1) = data.drop (d.length + 1) := by
    rw [strcpy_eq_some_iff_of_length hlen]
    exact exists_congr fun d => by simp
  rw [← hcopy]
  constructor
  · rintro ⟨⟨⟩, s', hok, hget⟩
    rw [hrun] at hok
    obtain ⟨hne, k', data', l, hk', hdata', hl, rfl⟩ := strcpyAt_eq_ok.1 hok
    rw [heap_guarded, hk, Option.some.injEq, Block.bytes.injEq] at hk'
    rw [heap_guarded, hdata, Option.some.injEq, Block.bytes.injEq] at hdata'
    rw [Machine.heap_stored, Heap.get_put_self _ (Heap.ne_null hk), Option.some.injEq, Block.bytes.injEq] at hget
    subst hk' hdata' hget
    exact ⟨hne, hl⟩
  · rintro ⟨hne, hl⟩
    have hkg : (guarded policy s).heap.get key = some (.bytes k) := by rw [heap_guarded, hk]
    have hdg : (guarded policy s).heap.get policy.cipherPolicy.unsecureKey = some (.bytes data) := by
      rw [heap_guarded, hdata]
    refine Exec.ends_of_eq (hrun.trans (strcpyAt_eq_ok.2 ⟨hne, k, data, data, hkg, hdg, hl, rfl⟩)) ?_
    rw [Machine.heap_stored, Heap.get_put_self _ (Heap.ne_null hk)]

theorem keyFetched_zeros : KeyFetched 3 4 (1 :: List.replicate 23 0)
    (keyState (rowWith .memoryStore) (List.replicate 24 0) (1 :: List.replicate 23 0)) := by
  have hdata : (keyState (rowWith .memoryStore) (List.replicate 24 0) (1 :: List.replicate 23 0)).heap.get
      (rowWith .memoryStore).cipherPolicy.unsecureKey = some (.bytes (1 :: List.replicate 23 0)) := rfl
  exact (keyFetched_iff (e := ⟨0, .protectMedium, 0, 0⟩) (k := List.replicate 24 0) rfl rfl rfl rfl hdata rfl).2
    ⟨by decide, [1], rfl, rfl⟩

/-- A key of `24` bytes without a zero is read beyond its end. -/
theorem not_keyFetched_full : ¬ KeyFetched 3 4 (List.replicate 24 1)
    (keyState (rowWith .memoryStore) (List.replicate 24 0) (List.replicate 24 1)) := by
  have hrun : shGetKey 3 4 (keyState (rowWith .memoryStore) (List.replicate 24 0) (List.replicate 24 1)) =
      (.error (.outOfBounds 5), keyState (rowWith .memoryStore) (List.replicate 24 0) (List.replicate 24 1)) := rfl
  exact Exec.not_ends_of_error hrun

end SafeHeap
