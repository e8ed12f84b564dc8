import SafeHeap.Sealed

/-!
# When a session comes to an end

Of a session from the start it is enough to keep in mind whether there is a protected table, and how many
requests the allocator has answered (`Course`): from these and the answers it can be told, call by call, whether
the session goes on (`Operation.advance`), without a heap.

Where fresh memory reads as zero in a table, and calls that go on with a pointer are given `NULL`, the session
mirrors that: it comes to its end exactly if every call advances the course, and ends where the course does
(`session_follows_course`).
-/

namespace SafeHeap

open CMachine Exec

/-- How far a session has come. -/
structure Course where
  table : Bool
  requests : ℕ
  deriving DecidableEq

/-- Where a call of `sh_malloc` takes it: what the call asks for is to be there, and a table. -/
def Course.allocate (answer : ℕ → Answer) (size : ℕ) (x : Course) : Option Course :=
  if x.table ∧ (demandUnder mediumRow 16 size).Met answer x.requests then
    some { x with requests := x.requests + (demandUnder mediumRow 16 size).calls }
  else
    none

/-- Where a call takes the course, if the call comes to an end. -/
def Operation.advance (answer : ℕ → Answer) : Operation → Course → Option Course
  | .initProtection true, _ => none
  | .initProtection false, x => some ⟨(answer x.requests).ok, x.requests + 1⟩
  | .initCheck, x => if x.table then none else some x
  | .malloc c, x => x.allocate answer c.size
  | .write _, x => some x
  | .generateKey .., x => some { x with requests := x.requests + 1 }
  | .reset _, _ | .read _, _ | .getKey .., _ | .encryptSegment .., _ => none

/-- The course of a session. -/
def course (answer : ℕ → Answer) (ops : List Operation) : Course → Option Course :=
  ops.foldlM fun x o => o.advance answer x

/-- What the call goes on with is `NULL`: the uninitialised variable of `sh_malloc`, or the key to be resized. -/
def Operation.FromNull : Operation → Prop
  | .malloc c => c.segmentsTable = 0
  | .generateKey _ key _ => key = 0
  | _ => True

/-- The state is where the course has come. -/
structure OnCourse (answer : ℕ → Answer) (s : State) (x : Course) : Prop extends Pristine s where
  answers : s.answer = answer
  requests : s.calls = x.requests
  table : x.table = true → Standing s []
  noTable : x.table = false → s.globals.shProtectedTable = 0

section Course

variable {answer : ℕ → Answer} {s s' : State} {x : Course}

lemma OnCourse.next (h : OnCourse answer s x) : s.next = answer x.requests := by
  rw [Machine.next, h.answers, h.requests]

lemma OnCourse.ne_null (h : OnCourse answer s x) (hx : x.table = true) : s.globals.shProtectedTable ≠ 0 := by
  obtain ⟨t, ht, -⟩ := h.table hx
  exact Heap.ne_null ht.table

lemma Standing.forget {as : List HandedOut} (h : Standing s as) : Standing s [] := by
  obtain ⟨t, ht, -⟩ := h
  exact ⟨t, ht, by simp⟩

lemma shInternalRealloc_null (s : State) (n : ℕ) : ∃ p s', shInternalRealloc 0 (.bytes n) s = (.ok p, s') ∧
    (∀ q b, s.heap.get q = some b → s'.heap.get q = some b) ∧
      s'.globals.shProtectedTable = s.globals.shProtectedTable ∧ s'.answer = s.answer ∧ s'.calls = s.calls + 1 := by
  by_cases hok : s.next.ok = true
  · refine ⟨_, _, shInternalRealloc_of_ok (Or.inl rfl) hok _, fun q b hq => ?_, rfl, rfl, rfl⟩
    have hq0 : q ≠ 0 := Heap.ne_null hq
    rw [Machine.heap_moved, Heap.get_put_ne _ (Machine.ne_movedAddr hq hq0), Heap.get_erase_ne hq0, hq]
  · rw [Bool.not_eq_true] at hok
    exact ⟨_, _, shInternalRealloc_of_refused (Or.inl rfl) hok _, fun q b hq => hq, rfl, rfl, rfl⟩

/-- Without a table, the entry that is made finds no place. -/
lemma shMalloc_of_noTable (h : s.globals.shProtectedTable = 0) (t : Ptr) (size : ℕ) (g : ShProtectionGrade) :
    ∃ f s', shMalloc t size g s = (.error f, s') := by
  have hgrow : ∀ s' : State, s'.globals.shProtectedTable = 0 → growEntries s' = (.error .nullDeref, s') := by
    intro s' h'
    unfold growEntries
    rw [globals_bind_apply, h']
    exact Exec.bind_of_error (Exec.bind_of_error load_null _) _
  rcases hsegments : shMallocSegments t size g s with ⟨f | r, s₁⟩
  · exact ⟨f, s₁, Exec.bind_of_error hsegments _⟩
  · have hkept : Keeps (NoNew Block.amount? Globals.shProtectedTable) (shMallocSegments t size g) :=
      keeps_shMallocSegments (fun _ _ => rfl) (fun _ => rfl) (fun _ => rfl) (fun _ => rfl) t size g
    rcases hentry : newEntry r.1 r.2 g s₁ with ⟨f | e, s₂⟩
    · exact ⟨f, s₂, (Exec.bind_of_ok hsegments _).trans (Exec.bind_of_error hentry _)⟩
    · have hkept' : Keeps (NoNew Block.amount? Globals.shProtectedTable) (newEntry r.1 r.2 g) :=
        keeps_newEntry (fun _ _ => rfl) (fun _ => rfl) r.1 r.2 g
      have htable : s₂.globals.shProtectedTable = 0 :=
        (hkept'.of_eq hentry).kept.trans ((hkept.of_eq hsegments).kept.trans h)
      refine ⟨.nullDeref, s₂, (Exec.bind_of_ok hsegments _).trans ?_⟩
      exact (Exec.bind_of_ok hentry _).trans (Exec.bind_of_error (hgrow s₂ htable) _)

/-! ### One call -/

lemma mirrors_shInitProtection (hfill : ∀ i, (answer i).fill 1 = 0) :
    Mirrors (OnCourse answer) (fun x => some ⟨(answer x.requests).ok, x.requests + 1⟩)
      (shInitProtection false) := by
  refine ⟨fun {s x x'} h hx => ?_, fun {s x} h hx => by cases hx⟩
  cases hx
  have hself : Sealed s s := ⟨h.toPristine, refl_of Logged s⟩
  have hpristine := (hself.leaves_shInitProtection false).1.toPristine
  have hcalls : s.calls + 1 = x.requests + 1 := congrArg (· + 1) h.requests
  by_cases hok : s.next.ok = true
  · rw [shInitProtection_false hok] at hpristine
    refine ends_of_eq (shInitProtection_false hok) ⟨hpristine, h.answers, hcalls, fun _ => ?_, fun hno => ?_⟩
    · refine ⟨_, ⟨get_started s, Or.inl ?_⟩, by simp⟩
      rw [h.next]
      exact hfill _
    · rw [h.next] at hok
      rw [hok] at hno
      cases hno
  · rw [Bool.not_eq_true] at hok
    rw [shInitProtection_refused hok] at hpristine
    refine ends_of_eq (shInitProtection_refused hok) ⟨hpristine, h.answers, hcalls, fun hyes => ?_, fun _ => rfl⟩
    rw [h.next] at hok
    rw [hok] at hyes
    cases hyes

lemma mirrors_shInitCheck :
    Mirrors (OnCourse answer) (fun x => if x.table then none else some x) (shInitCheck >>= use) := by
  have hcheck : ∀ s : State, shInitCheck s =
      (.ok (if s.globals.shProtectedTable = 0 then some false else none), s) := by
    intro s
    unfold shInitCheck
    rw [globals_bind_apply]
    split
    · rfl
    · rfl
  refine ⟨fun {s x x'} h hx => ?_, fun {s x} h hx => ?_⟩
  · split at hx
    · cases hx
    · next hno =>
      cases hx
      have hnull := h.noTable (by simpa using hno)
      refine ends_of_eq (a := false) ?_ h
      rw [Exec.bind_of_ok (hcheck s), if_pos hnull]
      rfl
  · split at hx
    · next hyes =>
      refine ⟨.noReturn, s, ?_⟩
      rw [Exec.bind_of_ok (hcheck s), if_neg (h.ne_null hyes)]
      rfl
    · cases hx

lemma mirrors_shMalloc (c : Call) (hnull : c.segmentsTable = 0) :
    Mirrors (OnCourse answer) (Course.allocate answer c.size) (shMalloc c.segmentsTable c.size c.protection) := by
  have houtcome : ∀ {s x}, OnCourse answer s x → x.table = true → _ := fun {s x} h hx =>
    shMalloc_outcome (fun _ => by decide) h.configured (h.table hx) c.size c.protection
  refine ⟨fun {s x x'} h hx => ?_, fun {s x} h hx => ?_⟩
  · unfold Course.allocate at hx
    split at hx
    · next hmet =>
      cases hx
      have hself : Sealed s s := ⟨h.toPristine, refl_of Logged s⟩
      have hpristine :=
        (hself.leaves (keeps_malloc c) (logs_shMalloc c.segmentsTable c.size c.protection)).1.toPristine
      obtain ⟨a, s', hrun, -, -, hstanding, hg, ha, hc⟩ :=
        (houtcome h hmet.1).1 (by rw [h.answers, h.requests]; exact hmet.2)
      rw [hnull, hrun] at hpristine
      rw [hnull]
      refine ends_of_eq hrun ⟨hpristine, ha.trans h.answers, ?_, fun _ => hstanding.forget, fun hno => ?_⟩
      · rw [hc, h.requests]
      · rw [hmet.1] at hno
        cases hno
    · cases hx
  · unfold Course.allocate at hx
    split at hx
    · cases hx
    · next hmet =>
      rcases htable : x.table with _ | _
      · exact shMalloc_of_noTable (h.noTable htable) _ _ _
      · obtain ⟨f, s', hrun, -⟩ := (houtcome h htable).2 fun hall =>
          hmet ⟨htable, by rwa [h.answers, h.requests] at hall⟩
        rw [hnull]
        exact ⟨f, s', hrun⟩

lemma mirrors_shGenerateKey (urandom : Option (List UInt8)) (g : ShProtectionGrade) :
    Mirrors (OnCourse answer) (fun x => some { x with requests := x.requests + 1 }) (shGenerateKey urandom 0 g) := by
  refine ⟨fun {s x x'} h hx => ?_, fun {s x} h hx => by cases hx⟩
  cases hx
  have hself : Sealed s s := ⟨h.toPristine, refl_of Logged s⟩
  have hpristine := (hself.leaves (keeps_resizedBytes 0 24) (logs_shInternalRealloc 0 _)).1.toPristine
  obtain ⟨p, s', hrun, hsame, htable, ha, hc⟩ := shInternalRealloc_null s 24
  rw [hrun] at hpristine
  refine ends_of_eq (h.shGenerateKey_of_resized hrun urandom g)
    ⟨hpristine, ha.trans h.answers, by rw [hc, h.requests], fun hyes => ?_, fun hno => ?_⟩
  · obtain ⟨t, ht, -⟩ := h.table hyes
    rw [← htable] at ht
    exact ⟨t, ht.mono hsame, by simp⟩
  · rw [htable]
    exact h.noTable hno

lemma mirrors_run (hfill : ∀ i, (answer i).fill 1 = 0) (shDecryptBuffer : Ptr → Ptr → Prog Unit) (cipher : Cipher)
    {o : Operation} (ho : o.FromNull) :
    Mirrors (OnCourse answer) (o.advance answer) (o.run shDecryptBuffer cipher) := by
  have hpure : ∀ {α : Type} {step : Course → Option Course} {y : Prog α}, Mirrors (OnCourse answer) step y →
      Mirrors (OnCourse answer) step (y >>= fun _ => pure ()) := by
    intro α step y hy
    have hend : ∀ _ : α, Mirrors (OnCourse answer) some (pure () : Prog Unit) := fun _ => mirrors_pure ()
    simpa only [Option.bind_eq_bind, Option.bind_fun_some] using hy.bind hend
  cases o with
  | initProtection b =>
    cases b with
    | true => exact mirrors_none fun s _ _ => ⟨.noReturn, s, rfl⟩
    | false => exact mirrors_shInitProtection hfill
  | initCheck => exact hpure mirrors_shInitCheck
  | malloc c => exact hpure (mirrors_shMalloc c ho)
  | write b => exact mirrors_pure ()
  | generateKey urandom key g =>
    obtain rfl : key = 0 := ho
    exact hpure (mirrors_shGenerateKey urandom g)
  | reset b =>
    refine mirrors_none fun s x h => ?_
    obtain ⟨f, -, hf⟩ := h.reset b
    exact ⟨f, s, hf⟩
  | read b =>
    refine mirrors_none fun s x h => ?_
    obtain ⟨f, -, hf⟩ := h.read shDecryptBuffer b
    exact ⟨f, s, Exec.bind_of_error hf _⟩
  | getKey entry key =>
    refine mirrors_none fun s x h => ?_
    obtain ⟨f, -, hf⟩ := h.not_getKey entry key
    exact ⟨f, s, hf⟩
  | encryptSegment iv keyFill outFill segment entry =>
    refine mirrors_none fun s x h => ?_
    obtain ⟨f, s', -, -, hrun⟩ := h.not_openCipher keyFill entry
    exact ⟨f, s', Exec.bind_of_error (hrun iv) _⟩

end Course

/-! ### Sessions -/

/-- A session mirrors its course. -/
lemma mirrors_session {answer : ℕ → Answer} (hfill : ∀ i, (answer i).fill 1 = 0)
    (shDecryptBuffer : Ptr → Ptr → Prog Unit) (cipher : Cipher) :
    ∀ {ops : List Operation}, (∀ o ∈ ops, o.FromNull) →
      Mirrors (OnCourse answer) (course answer ops) (session shDecryptBuffer cipher ops) := by
  intro ops
  induction ops with
  | nil => exact fun _ => mirrors_pure ()
  | cons o ops ih =>
    intro hops
    have hrest := ih fun o' ho => hops o' (List.mem_cons_of_mem _ ho)
    exact (mirrors_run hfill shDecryptBuffer cipher (hops o List.mem_cons_self)).bind fun _ => hrest

/-- **A session comes to its end exactly if its course does**: where the course is defined, the session ends with
as many requests made, and with a table if the course has one; and where it is not, the session stops. -/
theorem session_follows_course {answer : ℕ → Answer}
    (hzeros : ∀ i, (answer i).fill 0 % SIZE_RANGE = 0 ∧ (answer i).fill 1 = 0)
    (shDecryptBuffer : Ptr → Ptr → Prog Unit) (cipher : Cipher) {ops : List Operation}
    (hops : ∀ o ∈ ops, o.FromNull) :
    (∀ x, course answer ops ⟨false, 0⟩ = some x →
      Ends (session shDecryptBuffer cipher ops) (Machine.start answer Globals.initial) fun _ s' =>
        s'.calls = x.requests ∧ (s'.globals.shProtectedTable ≠ 0 ↔ x.table = true)) ∧
    (course answer ops ⟨false, 0⟩ = none → ∃ f s',
      session shDecryptBuffer cipher ops (Machine.start answer Globals.initial) = (.error f, s')) := by
  have hmirrors := mirrors_session (fun i => (hzeros i).2) shDecryptBuffer cipher hops
  have hstart : OnCourse answer (Machine.start answer Globals.initial) ⟨false, 0⟩ :=
    ⟨pristine_start fun i => (hzeros i).1, rfl, rfl, nofun, fun _ => rfl⟩
  refine ⟨fun x hx => ?_, fun hx => hmirrors.stops hstart hx⟩
  obtain ⟨u, s', hrun, h'⟩ := hmirrors.ends hstart hx
  refine ends_of_eq hrun ⟨h'.requests, fun hne => ?_, h'.ne_null⟩
  by_contra hno
  exact hne (h'.noTable (by simpa using hno))

/-- An allocation of 25 bytes and a key: without the first block they come to their end, without the first
descriptor they do not. -/
theorem session_follows_course_refusing :
    (Ends (session (fun _ _ => pure ()) flipping
        [.initProtection false, .malloc ⟨0, 25, .protectHigh⟩, .generateKey none 0 .protectLow])
          (Machine.start (refusing 3) Globals.initial) fun _ s' =>
            s'.calls = 14 ∧ (s'.globals.shProtectedTable ≠ 0 ↔ true = true)) ∧
      ∃ f s', session (fun _ _ => pure ()) flipping
        [.initProtection false, .malloc ⟨0, 25, .protectHigh⟩, .generateKey none 0 .protectLow]
          (Machine.start (refusing 2) Globals.initial) = (.error f, s') := by
  have hnull : ∀ o ∈ [Operation.initProtection false, .malloc ⟨0, 25, .protectHigh⟩,
      .generateKey none 0 .protectLow], o.FromNull := by simp [Operation.FromNull]
  exact ⟨(session_follows_course (fun _ => ⟨rfl, rfl⟩) _ flipping hnull).1 ⟨true, 14⟩ (by decide),
    (session_follows_course (fun _ => ⟨rfl, rfl⟩) _ flipping hnull).2 (by decide)⟩

end SafeHeap
