import SafeHeap.Configuration
import SafeHeap.Refused

/-!
# Sessions from the start

From the start, where fresh memory reads as zero in the place where a table counts its entries, no table ever
counts an entry (`Pristine`). So in every state that a session reaches, whatever the allocator answers and wherever
the session stops,

* what has been printed is an error for each refusal of the allocator, and nothing else, and not one block has
  been released (`log_of_session`);
* no call has got through that looks for an entry or fetches a key (`passes_of_session`), and what has stopped
  the session is foreseen (`foreseen_of_session`).
-/

namespace SafeHeap

open CMachine Exec

/-- The messages that calls of the allocator lead to. -/
def messagesOf (evs : List (Event Block)) : List ℕ :=
  evs.filterMap fun
    | .refuse => some ENOMEM
    | _ => none

lemma messagesOf_append (evs evs' : List (Event Block)) :
    messagesOf (evs ++ evs') = messagesOf evs ++ messagesOf evs' := List.filterMap_append

/-- One message for each refusal. -/
lemma messagesOf_eq (evs : List (Event Block)) : messagesOf evs = List.replicate (evs.count .refuse) ENOMEM := by
  induction evs with
  | nil => rfl
  | cons e evs ih =>
    rw [← List.singleton_append, messagesOf_append, ih, List.count_append]
    cases e with
    | refuse => rw [List.count_singleton_self, Nat.add_comm, List.replicate_succ]; rfl
    | _ => simp [messagesOf]

/-- The calls of the allocator in between have released nothing, and each refusal has been reported. -/
structure Logged (s s' : State) : Prop where
  log : ∃ evs, s'.trace = s.trace ++ evs ∧ s'.globals.printed = s.globals.printed ++ messagesOf evs ∧
    ∀ p, .release p ∉ evs
  answer : s'.answer = s.answer

namespace Logged

lemma of_quiet {s s' : State} (ht : s'.trace = s.trace) (hp : s'.globals.printed = s.globals.printed)
    (ha : s'.answer = s.answer) : Logged s s' :=
  ⟨⟨[], by simp [ht], by simp [hp, messagesOf], by simp⟩, ha⟩

instance : Std.Refl Logged := ⟨fun _ => of_quiet rfl rfl rfl⟩

instance : IsTrans State Logged := by
  refine ⟨?_⟩
  rintro s₁ s₂ s₃ ⟨⟨evs, ht, hp, hr⟩, ha⟩ ⟨⟨evs', ht', hp', hr'⟩, ha'⟩
  refine ⟨⟨evs ++ evs', by rw [ht', ht, List.append_assoc], ?_, fun p hmem => ?_⟩, ha'.trans ha⟩
  · rw [hp', hp, List.append_assoc, messagesOf_append]
  · rcases List.mem_append.1 hmem with hmem | hmem
    · exact hr p hmem
    · exact hr' p hmem

end Logged

section Logged

lemma logged_turnedDown (s : State) : Logged s (turnedDown s) :=
  ⟨⟨[.refuse], rfl, rfl, by simp⟩, rfl⟩

lemma logs_shInternalMalloc (r : Request) : Keeps Logged (shInternalMalloc r) := by
  intro s
  by_cases hok : s.next.ok = true
  · rw [shInternalMalloc_of_ok hok]
    exact ⟨⟨_, s.trace_granted _, by simp [messagesOf], by simp⟩, rfl⟩
  · rw [shInternalMalloc_of_refused (by simpa using hok)]
    exact logged_turnedDown s

lemma logs_shInternalRealloc (p : Ptr) (r : Request) : Keeps Logged (shInternalRealloc p r) := by
  intro s
  by_cases hp : p = 0 ∨ s.heap.Live p
  · by_cases hok : s.next.ok = true
    · rw [shInternalRealloc_of_ok hp hok]
      exact ⟨⟨_, s.trace_moved p _, by simp [messagesOf], by simp⟩, rfl⟩
    · rw [shInternalRealloc_of_refused hp (by simpa using hok)]
      exact logged_turnedDown s
  · rw [not_or] at hp
    rw [shInternalRealloc_of_dead hp.1 hp.2]
    exact refl_of Logged s

lemma logs_store (p : Ptr) (b : Block) : Keeps Logged (store p b : Prog Unit) := by
  intro s
  unfold store
  split_ifs
  · exact refl_of Logged s
  · exact Logged.of_quiet rfl rfl rfl
  · exact refl_of Logged s

lemma logs_modify {α : Type} (v : View Block α) (p : Ptr) (k : α → α) : Keeps Logged (v.modify p k : Prog Unit) :=
  (v.keeps_read p).bind fun _ => logs_store p _

lemma logs_writeSlot (t : Ptr) (i : ℕ) (d : Ptr) : Keeps Logged (writeSlot t i d) := by
  refine (Block.pointerArrays.keeps_read t).bind fun l => ?_
  split
  · exact logs_store t _
  · exact keeps_fault _

lemma logs_placeBlock (t : Ptr) (i n : ℕ) : Keeps Logged (placeBlock t i n) := by
  refine (logs_shInternalMalloc _).bind fun a => (keeps_readSlot t i).bind fun d => ?_
  exact (logs_modify _ d _).bind fun _ => (keeps_readSlot t i).bind fun d' => logs_modify _ d' _

lemma logs_segmentStep (policy : ShProtectionPolicy) (c : ℕ) (r : ℤ) (t : Ptr) (i : ℕ) :
    Keeps Logged (segmentStep policy c r t i) := by
  have hnew : Keeps Logged (newDescriptor t i) := by
    refine (logs_shInternalRealloc t _).bind fun t' => (logs_shInternalMalloc _).bind fun d => ?_
    exact (logs_writeSlot t' i d).bind fun _ => keeps_pure t'
  refine hnew.bind fun t' => ?_
  have hfull : ∀ _ : Unit, Keeps Logged (placeBlock t' i (toSize (policy.segmentSize + c)) >>= fun _ => pure t') :=
    fun _ => (logs_placeBlock t' i _).bind fun _ => keeps_pure t'
  dsimp only
  split
  · exact (logs_placeBlock t' i _).bind hfull
  · exact hfull ()

lemma logs_segmentLoop (policy : ShProtectionPolicy) (c : ℕ) :
    ∀ fuel r t i, Keeps Logged (segmentLoop policy c fuel r t i) := by
  intro fuel
  induction fuel with
  | zero => exact fun _ _ _ => keeps_fault _
  | succ fuel ih =>
    intro r t i
    unfold segmentLoop
    split
    · exact (logs_segmentStep policy c r t i).bind fun t' => ih _ t' _
    · exact keeps_pure _

lemma logs_shMallocSegments (t : Ptr) (size : ℕ) (g : ShProtectionGrade) :
    Keeps Logged (shMallocSegments t size g) := by
  refine ((keeps_shGetProtectionPolicy g).bind fun o => keeps_deref o).bind fun policy => ?_
  refine ((keeps_shGetCipherOutsizeDiff _ _).bind fun o => keeps_use o).bind fun c => ?_
  split
  · exact logs_segmentLoop policy c _ _ t 0
  · refine (logs_shInternalMalloc _).bind fun t' => (logs_shInternalMalloc _).bind fun d => ?_
    exact (logs_writeSlot t' 0 d).bind fun _ => (logs_placeBlock t' 0 _).bind fun _ => keeps_pure _

lemma logs_shMalloc (t : Ptr) (size : ℕ) (g : ShProtectionGrade) : Keeps Logged (shMalloc t size g) := by
  have hentry : ∀ segments amount, Keeps Logged (newEntry segments amount g) := fun segments amount => by
    refine (logs_shInternalMalloc _).bind fun e => (logs_modify _ e _).bind fun _ => ?_
    exact (logs_modify _ e _).bind fun _ => (logs_modify _ e _).bind fun _ => (logs_modify _ e _).bind fun _ =>
      keeps_pure e
  have hgrow : Keeps Logged growEntries := by
    refine keeps_globals.bind fun x => (Block.tables.keeps_read _).bind fun t => ?_
    exact (logs_shInternalRealloc _ _).bind fun entries => logs_modify _ _ _
  refine (logs_shMallocSegments t size g).bind fun r => (hentry r.1 r.2).bind fun e => ?_
  exact hgrow.bind fun _ => keeps_pure _

lemma logs_shInitProtection (tpmEnabled : Bool) : Keeps Logged (shInitProtection tpmEnabled) := by
  intro s
  cases tpmEnabled with
  | true => exact refl_of Logged s
  | false =>
    by_cases hok : s.next.ok = true
    · rw [shInitProtection_false hok]
      exact ⟨⟨_, s.trace_granted _, by simp [started, messagesOf], by simp⟩, rfl⟩
    · rw [shInitProtection_refused (by simpa using hok)]
      exact ⟨⟨[.refuse], rfl, rfl, by simp⟩, rfl⟩

end Logged

/-! ### The invariant -/

/-- No table counts an entry, and none that is made will. -/
structure Pristine (s : State) : Prop extends Original s where
  tables : ∀ p t, s.heap.get p = some (.table t) → t.amount = 0
  zeros : ∀ i, (s.answer i).fill 0 % SIZE_RANGE = 0

/-- The calls that do not look for an entry, and do not fetch a key. -/
def Operation.Passes : Operation → Prop
  | .initProtection tpmEnabled => tpmEnabled = false
  | .initCheck | .malloc _ | .write _ | .generateKey .. => True
  | .reset _ | .read _ | .getKey .. | .encryptSegment .. => False

section Pristine

variable {s s' : State}

lemma Pristine.of_noNew (h : Pristine s) (hs : NoNew Block.amount? Globals.config s s')
    (ha : s'.answer = s.answer) : Pristine s' := by
  refine ⟨h.toOriginal.mono hs.kept, fun p t ht => ?_, fun i => by rw [ha]; exact h.zeros i⟩
  have hseen := hs.seen p t.amount (Machine.observe_of_get ht _)
  obtain ⟨b, hb, hbt⟩ := Option.bind_eq_some_iff.1 hseen
  cases b with
  | table t' =>
    rw [← Option.some.inj hbt]
    exact h.tables p t' hb
  | _ => cases hbt

/-- No entry is found, for any buffer. -/
lemma Pristine.lookup (h : Pristine s) (b : Ptr) :
    ∃ f, (f.OfMemory ∨ f = .noReturn) ∧ (shGetProtectedEntry b >>= use) s = (.error f, s) := by
  rcases ht : Block.tables.read s.globals.shProtectedTable s with ⟨f | t, s'⟩
  · obtain rfl : s' = s := by
      have hsnd := Block.tables.read_snd s.globals.shProtectedTable s
      rwa [ht] at hsnd
    have hfind : findEntry (INT_MAX + 1) 0 s' = (.error f, s') := by
      unfold findEntry
      rw [globals_bind_apply, Exec.bind_of_error ht]
    exact ⟨f, Or.inl (faultsOfMemory_read Block.tables _ _ _ _ ht), Exec.bind_of_error hfind _⟩
  · obtain ⟨hget, rfl⟩ := Block.tables.read_eq_ok.1 ht
    have hfind : findEntry (INT_MAX + 1) 0 s' = (.ok none, s') := by
      unfold findEntry
      rw [globals_bind_apply, Exec.bind_of_ok ht, if_neg (by rw [h.tables _ _ hget]; exact Nat.lt_irrefl 0)]
      rfl
    exact ⟨.noReturn, Or.inr rfl, Exec.bind_of_ok hfind _⟩

lemma Pristine.reset (h : Pristine s) (b : Ptr) :
    ∃ f, (f.OfMemory ∨ f = .noReturn) ∧ shReset b s = (.error f, s) := by
  obtain ⟨f, hfault, hf⟩ := h.lookup b
  exact ⟨f, hfault, Exec.bind_of_error hf _⟩

lemma Pristine.read (h : Pristine s) (shDecryptBuffer : Ptr → Ptr → Prog Unit) (b : Ptr) :
    ∃ f, (f.OfMemory ∨ f = .noReturn) ∧ shRead shDecryptBuffer b s = (.error f, s) := by
  obtain ⟨f, hfault, hf⟩ := h.lookup b
  have hcollect : collectWith shGetProtectedEntry b s = (.error f, s) := Exec.bind_of_error hf _
  exact ⟨f, hfault, Exec.bind_of_error hcollect _⟩

end Pristine

/-! ### One call -/

/-- The invariant of a session from `s₀`. -/
structure Sealed (s₀ s : State) : Prop extends Pristine s where
  logged : Logged s₀ s

section Sealed

variable {s₀ s : State}

lemma Sealed.leaves {α : Type} {x : Prog α} (h : Sealed s₀ s) (hx : Keeps (NoNew Block.amount? Globals.config) x)
    (hl : Keeps Logged x) : Leaves (Sealed s₀) x s fun _ _ => True :=
  ⟨⟨h.of_noNew (hx s) (hl s).answer, trans_of Logged h.logged (hl s)⟩, fun _ _ _ => trivial⟩

lemma Sealed.leaves_shInitProtection (h : Sealed s₀ s) (tpmEnabled : Bool) :
    Leaves (Sealed s₀) (shInitProtection tpmEnabled) s fun _ _ => tpmEnabled = false := by
  have hlogged := trans_of Logged h.logged (logs_shInitProtection tpmEnabled s)
  have horiginal := (h.toOriginal.leaves_shInitProtection tpmEnabled).1
  cases tpmEnabled with
  | true => exact leaves_of_error (shInitProtection_true s) h
  | false =>
    by_cases hok : s.next.ok = true
    · rw [shInitProtection_false hok] at hlogged horiginal
      refine leaves_of_ok (shInitProtection_false hok) ⟨⟨horiginal, fun p t hp => ?_, h.zeros⟩, hlogged⟩ rfl
      change (s.heap.put s.newAddr _).get p = _ at hp
      rw [Heap.get_put _ s.newAddr_ne_null] at hp
      split at hp
      · cases hp
        exact h.zeros s.calls
      · exact h.tables p t hp
    · rw [Bool.not_eq_true] at hok
      rw [shInitProtection_refused hok] at hlogged horiginal
      exact leaves_of_ok (shInitProtection_refused hok) ⟨⟨horiginal, h.tables, h.zeros⟩, hlogged⟩ rfl

lemma Sealed.leaves_shGenerateKey (h : Sealed s₀ s) (urandom : Option (List UInt8)) (key : Ptr)
    (g : ShProtectionGrade) : Leaves (Sealed s₀) (shGenerateKey urandom key g) s fun _ _ => True := by
  have hsize : Keeps Eq (shGetKeySize g >>= use) := (keeps_shGetKeySize g).bind fun o => keeps_use o
  refine (leaves_of_reads hsize h).bind fun n s₁ h₁ _ => ?_
  refine (h₁.leaves (keeps_resizedBytes key n) (logs_shInternalRealloc key _)).bind fun key' s₂ h₂ _ => ?_
  have hpolicy := deref_of_ok (h₂.configured.policy g)
  refine Leaves.bind (Q := fun a s' => a = mediumRow ∧ s' = s₂) (leaves_of_ok hpolicy h₂ ⟨rfl, rfl⟩) ?_
  rintro policy s₃ h₃ ⟨rfl, rfl⟩
  -- the key store of the row is the TPM
  refine (leaves_of_reads keeps_globals h₃).bind fun x s₄ h₄ _ => ?_
  dsimp only
  split
  · exact leaves_fault h₄
  · exact leaves_pure h₄ trivial

lemma Sealed.leaves_openCipher (h : Sealed s₀ s) (iv : List UInt8) (keyFill : ℕ → UInt8) (entry : Ptr) :
    Leaves (Sealed s₀) (openCipher iv keyFill entry) s fun _ _ => False := by
  obtain ⟨f, s', -, hs', hrun⟩ := h.not_openCipher keyFill entry
  have hkept : NoNew Block.amount? Globals.config s s' :=
    (keeps_openCipher (fun _ => rfl) iv keyFill entry).of_eq (hrun iv)
  have hlogged : Logged s s' := by
    rcases hs' with rfl | ⟨key, hkey⟩
    · exact refl_of Logged s'
    · cases hkey
      exact Logged.of_quiet rfl rfl rfl
  exact leaves_of_error (hrun iv) ⟨h.of_noNew hkept hlogged.answer, trans_of Logged h.logged hlogged⟩

/-- One call. -/
lemma Sealed.leaves_run (h : Sealed s₀ s) (shDecryptBuffer : Ptr → Ptr → Prog Unit) (cipher : Cipher)
    (o : Operation) : Leaves (Sealed s₀) (o.run shDecryptBuffer cipher) s fun _ _ => o.Passes := by
  cases o with
  | initProtection b => exact h.leaves_shInitProtection b
  | initCheck => exact (leaves_of_reads keeps_shInitCheck h).bind fun _ _ h' _ => leaves_pure h' trivial
  | malloc c =>
    have hmalloc := h.leaves (keeps_malloc c) (logs_shMalloc c.segmentsTable c.size c.protection)
    exact hmalloc.bind fun _ _ h' _ => leaves_pure h' trivial
  | reset b =>
    obtain ⟨f, -, hf⟩ := h.reset b
    exact leaves_of_error hf h
  | read b =>
    obtain ⟨f, -, hf⟩ := h.read shDecryptBuffer b
    exact leaves_of_error (Exec.bind_of_error hf _) h
  | write b => exact leaves_pure h trivial
  | getKey entry key =>
    obtain ⟨f, -, hf⟩ := h.not_getKey entry key
    exact leaves_of_error hf h
  | encryptSegment iv keyFill outFill segment entry =>
    exact (h.leaves_openCipher iv keyFill entry).bind fun _ _ _ hfalse => hfalse.elim
  | generateKey urandom key g =>
    exact (h.leaves_shGenerateKey urandom key g).bind fun _ _ h' _ => leaves_pure h' trivial

/-- What a call can stop in: memory that is not there, or the value of a function that returned none. -/
def Fault.Foreseen (f : Fault) : Prop := f.OfMemory ∨ f = .noReturn

lemma stops_of_faultsOfMemory {α : Type} {x : Prog α} (hx : FaultsOfMemory x) (s : State) :
    Stops Fault.Foreseen x s := fun f s' hf => Or.inl (hx s f s' hf)

lemma stops_use {α : Type} (o : Option α) (s : State) : Stops Fault.Foreseen (use o) s := by
  cases o with
  | none => exact stops_of_error rfl (Or.inr rfl)
  | some a => exact stops_of_ok rfl

lemma Sealed.stops_shGenerateKey (h : Sealed s₀ s) (urandom : Option (List UInt8)) (key : Ptr)
    (g : ShProtectionGrade) : Stops Fault.Foreseen (shGenerateKey urandom key g) s := by
  have hsize := use_of_ok (h.keySize g)
  refine Stops.bind (stops_of_ok hsize) fun n s₁ h₁ => ?_
  rw [hsize] at h₁
  cases h₁
  have hsealed := (h.leaves (keeps_resizedBytes key 24) (logs_shInternalRealloc key _)).1
  refine Stops.bind (stops_of_faultsOfMemory (faultsOfMemory_shInternalRealloc key _) s) fun key' s₂ h₂ => ?_
  rw [h₂] at hsealed
  have hpolicy := deref_of_ok (hsealed.configured.policy g)
  refine Stops.bind (stops_of_ok hpolicy) fun policy s₃ h₃ => ?_
  rw [hpolicy] at h₃
  cases h₃
  refine Stops.bind (stops_of_ok (globals_apply)) fun x s₄ h₄ => ?_
  dsimp only
  split
  · exact stops_of_error rfl (Or.inr rfl)
  · exact stops_of_ok rfl

/-- One call. -/
lemma Sealed.stops_run (h : Sealed s₀ s) (shDecryptBuffer : Ptr → Ptr → Prog Unit) (cipher : Cipher)
    (o : Operation) : Stops Fault.Foreseen (o.run shDecryptBuffer cipher) s := by
  have hreturn : ∀ (s' : State), Stops Fault.Foreseen (pure () : Prog Unit) s' := fun _ => stops_of_ok rfl
  cases o with
  | initProtection b =>
    cases b with
    | true => exact stops_of_error (shInitProtection_true s) (Or.inr rfl)
    | false =>
      by_cases hok : s.next.ok = true
      · exact stops_of_ok (shInitProtection_false hok)
      · exact stops_of_ok (shInitProtection_refused (by simpa using hok))
  | initCheck =>
    have hcheck : Stops Fault.Foreseen shInitCheck s := by
      refine Stops.bind (stops_of_ok globals_apply) fun g s' _ => ?_
      split
      · exact stops_of_ok rfl
      · exact stops_of_ok rfl
    exact (hcheck.bind fun o s' _ => stops_use o s').bind fun _ s' _ => hreturn s'
  | malloc c =>
    have hsegments := stops_shMallocSegments (fun _ => by decide) h.configured c.segmentsTable c.size c.protection
    have hmalloc : Stops Fault.Foreseen (shMalloc c.segmentsTable c.size c.protection) s := by
      refine Stops.bind (fun f s' hf => Or.inl (hsegments f s' hf)) fun r s' _ => stops_of_faultsOfMemory ?_ s'
      refine (faultsOfMemory_newEntry r.1 r.2 c.protection).bind fun e => ?_
      exact faultsOfMemory_growEntries.bind fun _ => faultsOfMemory_pure _
    exact hmalloc.bind fun _ s' _ => hreturn s'
  | reset b =>
    obtain ⟨f, hfault, hf⟩ := h.reset b
    exact stops_of_error hf hfault
  | read b =>
    obtain ⟨f, hfault, hf⟩ := h.read shDecryptBuffer b
    exact stops_of_error (Exec.bind_of_error hf _) hfault
  | write b => exact hreturn s
  | getKey entry key =>
    obtain ⟨f, hmem, hf⟩ := h.not_getKey entry key
    exact stops_of_error hf (Or.inl hmem)
  | encryptSegment iv keyFill outFill segment entry =>
    obtain ⟨f, s', hmem, -, hrun⟩ := h.not_openCipher keyFill entry
    exact stops_of_error (Exec.bind_of_error (hrun iv) _) (Or.inl hmem)
  | generateKey urandom key g => exact (h.stops_shGenerateKey urandom key g).bind fun _ s' _ => hreturn s'

/-- A whole session. -/
lemma Pristine.leaves_session (h : Pristine s) (shDecryptBuffer : Ptr → Ptr → Prog Unit) (cipher : Cipher)
    (ops : List Operation) :
    Leaves (Sealed s) (session shDecryptBuffer cipher ops) s fun _ _ => ∀ o ∈ ops, o.Passes :=
  SafeHeap.leaves_session (fun o _ _ h' => h'.leaves_run shDecryptBuffer cipher o) ⟨h, refl_of Logged s⟩

end Sealed

/-! ### Sessions -/

section Sessions

variable {s : State} (h : Pristine s) (shDecryptBuffer : Ptr → Ptr → Prog Unit) (cipher : Cipher)
  (ops : List Operation)
include h

/-- **What has been printed** are the refusals of the allocator, one error for each, and nothing has been
released. -/
theorem log_of_session : ∃ evs, (session shDecryptBuffer cipher ops s).2.trace = s.trace ++ evs ∧
    (session shDecryptBuffer cipher ops s).2.globals.printed =
      s.globals.printed ++ List.replicate (evs.count .refuse) ENOMEM ∧ ∀ p, .release p ∉ evs := by
  obtain ⟨evs, htrace, hprinted, hreleased⟩ := (h.leaves_session shDecryptBuffer cipher ops).1.logged.log
  rw [messagesOf_eq] at hprinted
  exact ⟨evs, htrace, hprinted, hreleased⟩

/-- **No session gets through** a call that looks for an entry or fetches a key: neither a buffer nor a segment is
ever reset, read or encrypted. -/
theorem passes_of_session (hends : Ends (session shDecryptBuffer cipher ops) s fun _ _ => True) :
    ∀ o ∈ ops, o.Passes := by
  obtain ⟨u, s', hrun, -⟩ := hends
  exact (h.leaves_session shDecryptBuffer cipher ops).2 u s' hrun

/-- **What a session stops in**, if it stops, is memory that is not there or the value of a function that returned
none: no search runs over a table of the configuration, no counter overflows, and no loop goes on for ever. -/
theorem foreseen_of_session {f : Fault} {s' : State} (hstop : session shDecryptBuffer cipher ops s = (.error f, s')) :
    f.OfMemory ∨ f = .noReturn := by
  have hstops : Stops Fault.Foreseen (session shDecryptBuffer cipher ops) s :=
    stops_session (fun o _ _ h' => (h'.leaves_run shDecryptBuffer cipher o).mono fun _ _ _ _ => trivial)
      (fun o _ _ h' => h'.stops_run shDecryptBuffer cipher o) (⟨h, refl_of Logged s⟩ : Sealed s s)
  exact hstops f s' hstop

end Sessions

lemma pristine_start {answer : ℕ → Answer} (h : ∀ i, (answer i).fill 0 % SIZE_RANGE = 0) :
    Pristine (Machine.start answer Globals.initial) :=
  ⟨⟨rfl⟩, fun _ _ ht => (by cases ht), h⟩

/-- The block of the first segment is refused, and the session stops when the allocation is to be read. -/
theorem log_of_session_refusing : ∃ evs,
    (session (fun _ _ => pure ()) flipping [.initProtection false, .malloc ⟨0, 25, .protectHigh⟩, .read 9]
      (Machine.start (refusing 3) Globals.initial)).2.trace = [] ++ evs ∧
    (session (fun _ _ => pure ()) flipping [.initProtection false, .malloc ⟨0, 25, .protectHigh⟩, .read 9]
      (Machine.start (refusing 3) Globals.initial)).2.globals.printed =
        [] ++ List.replicate (evs.count .refuse) ENOMEM ∧ ∀ p, .release p ∉ evs :=
  log_of_session (pristine_start fun _ => rfl) _ flipping _

lemma pristine_atStart : Pristine atStart := pristine_start fun _ => rfl

/-- A session without such a call does come to an end. -/
theorem passes_of_session_malloc :
    [Operation.initProtection false, .malloc ⟨0, 25, .protectHigh⟩, .write 9].Forall Operation.Passes := by
  refine List.forall_iff_forall_mem.2 (passes_of_session pristine_atStart (fun _ _ => pure ()) flipping _ ?_)
  have hinit : shInitProtection false atStart = (.ok (), started atStart) := shInitProtection_false rfl
  obtain ⟨hgen, hconf, as, has, -⟩ := represents_started
  obtain ⟨a, s', hmalloc, -⟩ := shMalloc_spec (fun _ => by decide) hgen hconf has 25 .protectHigh
  refine ⟨(), s', ?_, trivial⟩
  simp only [session, Operation.run]
  rw [Exec.bind_of_ok hinit, Exec.bind_of_ok (Exec.bind_of_ok hmalloc _)]
  rfl

/-- The session with the refused block does stop, since it is to read an allocation. -/
theorem foreseen_of_session_refusing : ∃ f s',
    session (fun _ _ => pure ()) flipping [.initProtection false, .malloc ⟨0, 25, .protectHigh⟩, .read 9]
      (Machine.start (refusing 3) Globals.initial) = (.error f, s') ∧ (f.OfMemory ∨ f = .noReturn) := by
  have h : Pristine (Machine.start (refusing 3) Globals.initial) := pristine_start fun _ => rfl
  rcases hrun : session (fun _ _ => pure ()) flipping
    [.initProtection false, .malloc ⟨0, 25, .protectHigh⟩, .read 9]
    (Machine.start (refusing 3) Globals.initial) with ⟨f | u, s'⟩
  · exact ⟨f, s', rfl, foreseen_of_session h (fun _ _ => pure ()) flipping _ hrun⟩
  · have hread := (h.leaves_session (fun _ _ => pure ()) flipping _).2 u s' hrun (.read 9) (by simp)
    exact absurd hread id

end SafeHeap
