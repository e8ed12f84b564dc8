import SafeHeap.Frame
import SafeHeap.Keys

/-!
# Generating a key

`sh_generate_key` should report an error exactly when it could not read a whole key, and leave a whole
key where its caller looks for it (`KeyGenerated`).

It takes the number of items read for a number of bytes, returns the size in any case, and keeps the
address of the resized block to itself; `keyGenerated_iff` says that this comes out right for a key of
one byte that stays in its place.
-/

namespace SafeHeap

open CMachine Exec

/-- A whole key has been read, without a report, and is where the caller looks for it; otherwise there is
a report, and the value returned is another one. -/
structure KeyReported (urandom : Option (List UInt8)) (key : Ptr) (n : ℕ) (s : State) (r : ℕ) (s' : State) :
    Prop where
  full : ∀ source, urandom = some source → n ≤ source.length →
    r = n ∧ s'.globals.printed = s.globals.printed ∧ s'.heap.get key = some (.bytes (source.take n))
  short : (∀ source, urandom = some source → source.length < n) →
    r ≠ n ∧ s'.globals.printed ≠ s.globals.printed

/-- **A key is generated, or its absence seen**, for a key size of `n` bytes. -/
def KeyGenerated (urandom : Option (List UInt8)) (key : Ptr) (g : ShProtectionGrade) (n : ℕ) (s : State) : Prop :=
  Exec.Ends (shGenerateKey urandom key g) s (KeyReported urandom key n s)

/-! ### Reading a key -/

/-- The array at `p`, which holds `d`, after `n` bytes of `source` have been read into it. -/
def filledWith (p : Ptr) (n : ℕ) (source d : List UInt8) (s : State) : State :=
  s.stored p (.bytes (source.take n ++ d.drop (source.take n).length))

/-- And after a report, unless one byte was asked for and there was one. -/
def drawn (p : Ptr) (n : ℕ) (source d : List UInt8) (s : State) : State :=
  let s₁ := filledWith p n source d s
  if n = 1 ∧ n ≤ source.length then s₁
  else { s₁ with globals := { s₁.globals with printed := s₁.globals.printed ++ [s₁.errno] } }

section Drawn

variable {p : Ptr} {n : ℕ} {source d : List UInt8} {s s' : State}

lemma heap_drawn : (drawn p n source d s).heap =
    s.heap.put p (.bytes (source.take n ++ d.drop (source.take n).length)) := by
  unfold drawn
  dsimp only
  split <;> rfl

lemma printed_drawn : (drawn p n source d s).globals.printed =
    s.globals.printed ++ if n = 1 ∧ n ≤ source.length then [] else [s.errno] := by
  unfold drawn
  dsimp only
  split
  · exact (List.append_nil _).symm
  · rfl

lemma fread_eq_ok {urandom : Option (List UInt8)} {items : ℕ} : fread p n urandom s = (.ok items, s') ↔
    ∃ source d, urandom = some source ∧ s.heap.get p = some (.bytes d) ∧ (source.take n).length ≤ d.length ∧
      s' = filledWith p n source d s ∧ items = if 0 < n ∧ n ≤ source.length then 1 else 0 := by
  constructor
  · intro h
    cases urandom with
    | none => cases h
    | some source =>
      obtain ⟨d, s₁, hd, h₁⟩ := bind_eq_ok.1 h
      obtain ⟨hget, rfl⟩ := Block.byteArrays.read_eq_ok.1 hd
      split at h₁
      · next hfit =>
        rw [bind_of_ok (store_of_live (Heap.live_of_get hget) _)] at h₁
        cases h₁
        exact ⟨source, d, rfl, hget, hfit, rfl, rfl⟩
      · cases h₁
  · rintro ⟨source, d, rfl, hget, hfit, rfl, rfl⟩
    unfold fread
    dsimp only
    rw [bind_of_ok (Block.byteArrays.read_of_get hget), if_pos hfit,
      bind_of_ok (store_of_live (Heap.live_of_get hget) _)]
    rfl

lemma drawKey_eq_ok (hn : 1 ≤ n) {urandom : Option (List UInt8)} : drawKey urandom p n s = (.ok (), s') ↔
    ∃ source d, urandom = some source ∧ s.heap.get p = some (.bytes d) ∧ (source.take n).length ≤ d.length ∧
      s' = drawn p n source d s := by
  have hitems : ∀ source : List UInt8,
      (if 0 < n ∧ n ≤ source.length then 1 else 0) < n ↔ ¬ (n = 1 ∧ n ≤ source.length) := by
    intro source
    split <;> omega
  constructor
  · intro h
    obtain ⟨items, s₁, hread, h₁⟩ := bind_eq_ok.1 h
    obtain ⟨source, d, hsource, hget, hfit, rfl, rfl⟩ := fread_eq_ok.1 hread
    refine ⟨source, d, hsource, hget, hfit, ?_⟩
    unfold drawn
    by_cases hone : n = 1 ∧ n ≤ source.length
    · rw [if_neg ((hitems source).not.2 (not_not.2 hone))] at h₁
      rw [if_pos hone]
      cases h₁
      rfl
    · rw [if_pos ((hitems source).2 hone)] at h₁
      rw [if_neg hone]
      cases h₁
      rfl
  · rintro ⟨source, d, hsource, hget, hfit, rfl⟩
    have hread := fread_eq_ok.2 ⟨source, d, hsource, hget, hfit, rfl, rfl⟩
    unfold drawKey drawn
    rw [bind_of_ok hread]
    by_cases hone : n = 1 ∧ n ≤ source.length
    · rw [if_neg ((hitems source).not.2 (not_not.2 hone)), if_pos hone]
      rfl
    · rw [if_pos ((hitems source).2 hone), if_neg hone]
      rfl

end Drawn

/-! ### The whole call -/

section Generate

variable {s : State} {g : ShProtectionGrade} {policy : ShProtectionPolicy} {n : ℕ}
  (hpolicy : shGetProtectionPolicy g s = (.ok (some policy), s))
  (hstore : policy.cipherPolicy.keyStoreType = .memoryStore) (hsize : shGetKeySize g s = (.ok (some n), s))
include hpolicy hstore hsize

/-- The size comes back, whatever has been read. -/
lemma shGenerateKey_eq_ok {urandom : Option (List UInt8)} {key : Ptr} {r : ℕ} {s' : State} :
    shGenerateKey urandom key g s = (.ok r, s') ↔
      r = n ∧ ∃ p s₁, shInternalRealloc key (.bytes n) s = (.ok p, s₁) ∧
        drawKey urandom p n s₁ = (.ok (), s') := by
  have hrest : ∀ {p s₁}, shInternalRealloc key (.bytes n) s = (.ok p, s₁) → shGenerateKey urandom key g s =
      (drawKey urandom p n >>= fun _ => pure n) s₁ := by
    intro p s₁ hrealloc
    have hkept : NoNew (fun _ => (none : Option Unit)) Globals.shProtectionPolicies s s₁ :=
      (keeps_shInternalRealloc (fun _ _ => rfl) fun _ _ => rfl).of_eq hrealloc
    have hpolicy₁ := shGetProtectionPolicy_congr hkept.kept hpolicy
    unfold shGenerateKey
    rw [bind_of_ok (use_of_ok hsize), bind_of_ok hrealloc, bind_of_ok (deref_of_ok hpolicy₁), hstore]
  constructor
  · intro h
    have h₁ := h
    unfold shGenerateKey at h₁
    rw [bind_of_ok (use_of_ok hsize)] at h₁
    obtain ⟨p, s₁, hrealloc, -⟩ := bind_eq_ok.1 h₁
    rw [hrest hrealloc] at h
    obtain ⟨⟨⟩, s₂, hdraw, h₂⟩ := bind_eq_ok.1 h
    cases h₂
    exact ⟨rfl, p, s₁, hrealloc, hdraw⟩
  · rintro ⟨rfl, p, s₁, hrealloc, hdraw⟩
    rw [hrest hrealloc, bind_of_ok hdraw]
    rfl

/-- A resize that is turned down is reported, and so is every key of two bytes or more. -/
lemma resized_of_keyGenerated (hn : 1 ≤ n) {urandom : Option (List UInt8)} {key : Ptr}
    (h : KeyGenerated urandom key g n s) : n = 1 ∧ (∃ source, urandom = some source ∧ source ≠ []) ∧
      s.heap.Live key ∧ s.next.ok = true ∧ s.movedAddr key = key := by
  obtain ⟨r, s', hrun, hfull, hshort⟩ := h
  obtain ⟨rfl, p, s₁, hrealloc, hdraw⟩ := (shGenerateKey_eq_ok hpolicy hstore hsize).1 hrun
  obtain ⟨source, d, rfl, hget, hfit, rfl⟩ := (drawKey_eq_ok hn).1 hdraw
  have hlen : r ≤ source.length := by
    by_contra hlt
    exact (hshort fun source' hs => by cases hs; omega).1 rfl
  obtain ⟨-, hprinted, hkey⟩ := hfull source rfl hlen
  rw [printed_drawn] at hprinted
  rw [heap_drawn] at hkey
  have hlive : key = 0 ∨ s.heap.Live key := by
    by_contra hdead
    rw [not_or] at hdead
    rw [shInternalRealloc_of_dead hdead.1 hdead.2] at hrealloc
    cases hrealloc
  by_cases hok : s.next.ok = true
  · rw [shInternalRealloc_of_ok hlive hok] at hrealloc
    cases hrealloc
    have hone : r = 1 := by
      by_contra hne
      rw [if_neg fun h => hne h.1] at hprinted
      have hlength := congrArg List.length hprinted
      simp at hlength
    -- the block that the caller knows is gone, unless the resized one is in its place
    have hmoved : s.movedAddr key = key := by
      by_contra hne
      rw [Heap.get_put_ne _ (Ne.symm hne), Machine.heap_moved, Heap.get_put_ne _ (Ne.symm hne), Heap.get_erase,
        if_pos rfl] at hkey
      cases hkey
    refine ⟨hone, ⟨source, rfl, ?_⟩, ?_, hok, hmoved⟩
    · rintro rfl
      simp at hlen
      omega
    · refine hlive.resolve_left fun h0 => s.movedAddr_ne_null key ?_
      rw [hmoved, h0]
  · rw [shInternalRealloc_of_refused hlive (by simpa using hok)] at hrealloc
    cases hrealloc
    have hlength := congrArg List.length hprinted
    simp [turnedDown] at hlength

/-- **When a key is generated, or its absence seen**: when it is a single byte, is there to be read, and
stays in its place. -/
theorem keyGenerated_iff (hn : 1 ≤ n) (urandom : Option (List UInt8)) (key : Ptr) :
    KeyGenerated urandom key g n s ↔ n = 1 ∧ (∃ source, urandom = some source ∧ source ≠ []) ∧
      s.heap.Live key ∧ s.next.ok = true ∧ s.movedAddr key = key := by
  constructor
  · exact resized_of_keyGenerated hpolicy hstore hsize hn
  · rintro ⟨rfl, ⟨source, rfl, hsource⟩, hlive, hok, hmoved⟩
    have hlen : 1 ≤ source.length := List.length_pos_iff.2 hsource
    have hrealloc := shInternalRealloc_of_ok (Or.inr hlive) hok (.bytes 1)
    rw [hmoved] at hrealloc
    let d := resize (Block.data? (s.heap.get key)) 1 fun i => UInt8.ofNat (s.next.fill i)
    let s₁ := s.moved key (.bytes d)
    have hd : d.length = 1 := length_resize _ _ _
    have hkey0 : key ≠ 0 := by
      rw [← hmoved]
      exact s.movedAddr_ne_null key
    have hget : s₁.heap.get key = some (.bytes d) := by
      rw [Machine.heap_moved, hmoved, Heap.get_put_self _ hkey0]
    have htake : (source.take 1).length = 1 := by
      rw [List.length_take]
      omega
    have hdraw := (drawKey_eq_ok le_rfl).2 ⟨source, d, rfl, hget, by omega, rfl⟩
    refine ⟨1, _, (shGenerateKey_eq_ok hpolicy hstore hsize).2 ⟨rfl, key, s₁, hrealloc, hdraw⟩, ?_, ?_⟩
    · intro source' hs _
      cases hs
      refine ⟨rfl, ?_, ?_⟩
      · rw [printed_drawn, if_pos ⟨rfl, hlen⟩, List.append_nil]
        rfl
      · rw [heap_drawn, Heap.get_put_self _ hkey0, htake, List.drop_of_length_le (by omega), List.append_nil]
    · intro hnone
      exact absurd (hnone source rfl) (by omega)

end Generate

/-- A key buffer at `4`, and an allocator that leaves it there; `size` is the size of the keys. -/
def generateState (size : ℕ) : State where
  heap := Heap.empty.put 4 (.bytes [9])
  answer := fun _ => ⟨true, 4, fun _ => 0⟩
  calls := 0
  trace := []
  errno := 0
  globals := { Globals.initial with
    shProtectionPolicies :=
      [⟨.protectMedium, true, true, 10, ⟨gcryCipherAes192, gcryCipherModeGcm, gcryCipherSecure, .memoryStore, 0⟩⟩]
    keySizeTable := [⟨gcryCipherAes192, size⟩] }

theorem keyGenerated_byte : KeyGenerated (some [5, 6]) 4 .protectMedium 1 (generateState 1) :=
  (keyGenerated_iff (g := .protectMedium) (s := generateState 1) rfl rfl rfl le_rfl (some [5, 6]) 4).2
    ⟨rfl, ⟨[5, 6], rfl, by decide⟩, by decide, rfl, rfl⟩

/-- A key of `24` bytes is read as a whole, and an error reported. -/
theorem not_keyGenerated_full :
    ¬ KeyGenerated (some (List.replicate 32 5)) 4 .protectMedium 24 (generateState 24) := by
  rintro ⟨r, s', hrun, hfull, -⟩
  obtain ⟨-, hprinted, -⟩ := hfull _ rfl (by decide)
  have h : (shGenerateKey (some (List.replicate 32 5)) 4 .protectMedium
      (generateState 24)).2.globals.printed = [0] := rfl
  rw [hrun] at h
  simp only at h
  rw [h] at hprinted
  exact absurd hprinted (by decide)

end SafeHeap
