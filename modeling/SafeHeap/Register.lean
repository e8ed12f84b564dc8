import SafeHeap.Frame
import SafeHeap.Lookup

/-!
# Registering allocations

Every call of `sh_malloc` should leave its entry in the table in memory, behind those of the calls
before it (`RegistersAll`), and a call that runs out of memory should leave nothing behind
(`AllOrNothing`). But no call counts its entry (`keeps_amount`), and no call that comes to an end
answers `NULL` (`shMalloc_ne_null`): `registersAll_iff` leaves the runs without a call, of those the
ones whose fresh memory happens to be zero, and `not_allOrNothing` leaves no call at all.
-/

namespace SafeHeap

open CMachine

/-! ### The new entry -/

lemma newEntry_eq_ok {s s' : State} {segments e : Ptr} {amount : ℕ} {p : ShProtectionGrade}
    (h : newEntry segments amount p s = (.ok e, s')) :
    s'.heap.get e = some (.entry ⟨0, p, amount, segments⟩) := by
  obtain ⟨e', s₀, -, h⟩ := Exec.bind_eq_ok.1 h
  obtain ⟨u₁, s₁, h₁, h⟩ := Exec.bind_eq_ok.1 h
  obtain ⟨u₂, s₂, h₂, h⟩ := Exec.bind_eq_ok.1 h
  obtain ⟨u₃, s₃, h₃, h⟩ := Exec.bind_eq_ok.1 h
  obtain ⟨u₄, s₄, h₄, h⟩ := Exec.bind_eq_ok.1 h
  simp only [Exec.pure_apply, Prod.mk.injEq, Except.ok.injEq] at h
  obtain ⟨rfl, rfl⟩ := h
  -- each store meets the entry that the one before it has left
  obtain ⟨x₁, hx₁, rfl⟩ := Block.entries.modify_eq_ok.1 h₁
  have hne : e' ≠ 0 := Heap.ne_null hx₁
  obtain ⟨x₂, hx₂, rfl⟩ := Block.entries.modify_eq_ok.1 h₂
  rw [Machine.heap_stored, Heap.get_put_self _ hne] at hx₂
  cases hx₂
  obtain ⟨x₃, hx₃, rfl⟩ := Block.entries.modify_eq_ok.1 h₃
  rw [Machine.heap_stored, Heap.get_put_self _ hne] at hx₃
  cases hx₃
  obtain ⟨x₄, hx₄, rfl⟩ := Block.entries.modify_eq_ok.1 h₄
  rw [Machine.heap_stored, Heap.get_put_self _ hne] at hx₄
  cases hx₄
  rw [Machine.heap_stored, Heap.get_put_self _ hne]
  rfl

lemma shMalloc_eq_ok {s s' : State} {t b : Ptr} {size : ℕ} {p : ShProtectionGrade}
    (h : shMalloc t size p s = (.ok b, s')) : ∃ (e : Ptr) (r : Ptr × ℕ) (s₁ : State),
      b = addrOfSharedBuffer e ∧ s₁.heap.get e = some (.entry ⟨0, p, r.2, r.1⟩) ∧
        growEntries s₁ = (.ok (), s') := by
  obtain ⟨r, s₀, -, h⟩ := Exec.bind_eq_ok.1 h
  obtain ⟨e, s₁, he, h⟩ := Exec.bind_eq_ok.1 h
  obtain ⟨u, s₂, hgrow, h⟩ := Exec.bind_eq_ok.1 h
  simp only [Exec.pure_apply, Prod.mk.injEq, Except.ok.injEq] at h
  obtain ⟨rfl, rfl⟩ := h
  exact ⟨e, r, s₁, rfl, newEntry_eq_ok he, hgrow⟩

/-- **No call that comes to an end answers `NULL`.** -/
theorem shMalloc_ne_null {s s' : State} {t b : Ptr} {size : ℕ} {p : ShProtectionGrade}
    (h : shMalloc t size p s = (.ok b, s')) : b ≠ 0 := by
  obtain ⟨e, r, s₁, rfl, he, -⟩ := shMalloc_eq_ok h
  exact Heap.ne_null he

lemma amount_of_shMalloc {s s' : State} {t b : Ptr} {size : ℕ} {p : ShProtectionGrade}
    (h : shMalloc t size p s = (.ok b, s')) {a a' : ShProtectedMemoryTable}
    (ha : s.heap.get s.globals.shProtectedTable = some (.table a))
    (ha' : s'.heap.get s'.globals.shProtectedTable = some (.table a')) : a'.amount = a.amount := by
  have hk := (keeps_amount t size p).of_eq h
  have hseen := hk.seen s'.globals.shProtectedTable a'.amount (Machine.observe_of_get ha' _)
  rw [hk.kept, Machine.observe_of_get ha] at hseen
  exact (Option.some.inj hseen).symm

/-! ### Runs -/

/-- A call of `sh_malloc`: what its uninitialised variable happens to hold, and its arguments. -/
structure Call where
  segmentsTable : Ptr
  size : ℕ
  protection : ShProtectionGrade

/-- The call; what it passes to `sh_add_protection_entry` is kept. -/
def Call.make (c : Call) : Prog (Ptr × ℕ) := do
  let r ← shMallocSegments c.segmentsTable c.size c.protection
  let _ ← shAddProtectionEntry r.1 r.2 c.protection
  pure r

/-- One call after the other. -/
def makeCalls : List Call → Prog (List (Ptr × ℕ))
  | [] => pure []
  | c :: calls => do
    let r ← c.make
    let rs ← makeCalls calls
    pure (r :: rs)

/-- `sh_init_protection`, and then the calls. -/
def protectedRun (tpmEnabled : Bool) (calls : List Call) : Prog (List (Ptr × ℕ)) := do
  shInitProtection tpmEnabled
  makeCalls calls

lemma shMalloc_of_make {c : Call} {r : Ptr × ℕ} {s s' : State} (h : c.make s = (.ok r, s')) :
    ∃ b, shMalloc c.segmentsTable c.size c.protection s = (.ok b, s') := by
  obtain ⟨r', s₁, h₁, h⟩ := Exec.bind_eq_ok.1 h
  obtain ⟨b, s₂, h₂, h⟩ := Exec.bind_eq_ok.1 h
  simp only [Exec.pure_apply, Prod.mk.injEq, Except.ok.injEq] at h
  obtain ⟨rfl, rfl⟩ := h
  exact ⟨b, by unfold shMalloc; rw [Exec.bind_of_ok h₁, h₂]⟩

/-- The pointers that calls of the allocator have returned. -/
def returned (evs : List (Event Block)) : List Ptr :=
  evs.filterMap fun
    | .alloc p _ => some p
    | .resize _ q _ => some q
    | _ => none

/-- Whatever is resized is `NULL` or has been returned before. -/
def ResizesOwn (evs : List (Event Block)) : Prop :=
  ∀ before p q b after, evs = before ++ .resize p q b :: after → p = 0 ∨ p ∈ returned before

/-- After `calls`, which have passed on `passed`, the table has these slots and no others: one entry
for each call, in the order of the calls, with what that call has built. -/
structure Registered (s₀ s : State) (calls : List Call) (passed : List (Ptr × ℕ))
    (slots : List (Ptr × ShProtectedEntry)) : Prop where
  holds : TableHolds s (slots.map some)
  length : slots.length = calls.length
  distinct : (slots.map Prod.fst).Nodup
  content : slots.map (fun x => (x.2.protection, x.2.segmentsTable, x.2.segmentAmount)) =
    List.zipWith (fun (c : Call) r => (c.protection, r.1, r.2)) calls passed
  empty : calls = [] → s.heap.get s.globals.shProtectedTable = some (.table ⟨0, 0⟩)
  own : ∃ evs, s.trace = s₀.trace ++ evs ∧ ResizesOwn evs ∧
    ∀ x ∈ slots, x.2.segmentsTable = 0 ∨ x.2.segmentsTable ∈ returned evs

/-- **All calls are registered**, after every one of them, and no later call changes an earlier
entry. -/
def RegistersAll (s₀ : State) (tpmEnabled : Bool) (calls : List Call) : Prop :=
  ∃ slots : List (Ptr × ShProtectedEntry), slots.length = calls.length ∧ ∀ k ≤ calls.length,
    Exec.Ends (protectedRun tpmEnabled (calls.take k)) s₀ fun passed s =>
      Registered s₀ s (calls.take k) passed (slots.take k)

/-- After `sh_init_protection` without the TPM: a table as the fresh memory happens to be. -/
def started (s : State) : State :=
  { s.granted (Request.table.make none s.next.fill) with
    globals := { s.globals with tpmEnabled := false, shProtectedTable := s.newAddr } }

lemma shInitProtection_false {s : State} (h : s.next.ok = true) :
    shInitProtection false s = (.ok (), started s) := by
  have hok : ({ s with globals := { s.globals with tpmEnabled := false } } : State).next.ok = true := h
  unfold shInitProtection
  simp only [Bool.false_eq_true, if_false, Exec.pure_bind_apply, Bool.and_self]
  rw [setTpmEnabled, Exec.update_bind_apply, Exec.bind_of_ok (shInternalMalloc_of_ok hok _)]
  rfl

lemma shInitProtection_refused {s : State} (h : s.next.ok = false) : shInitProtection false s =
    (.ok (), { turnedDown s with
      globals := { (turnedDown s).globals with tpmEnabled := false, shProtectedTable := 0 } }) := by
  have hok : ({ s with globals := { s.globals with tpmEnabled := false } } : State).next.ok = false := h
  unfold shInitProtection
  simp only [Bool.false_eq_true, if_false, Exec.pure_bind_apply, Bool.and_self]
  rw [setTpmEnabled, Exec.update_bind_apply, Exec.bind_of_ok (shInternalMalloc_of_refused hok _)]
  rfl

lemma get_started (s : State) : (started s).heap.get (started s).globals.shProtectedTable =
    some (.table ⟨s.next.fill 0 % SIZE_RANGE, s.next.fill 1⟩) :=
  Heap.get_put_self _ s.newAddr_ne_null

lemma shInitProtection_true (s : State) : shInitProtection true s = (.error .noReturn, s) := rfl

lemma not_registersAll_cons (s₀ : State) (tpmEnabled : Bool) (c : Call) (calls : List Call) :
    ¬ RegistersAll s₀ tpmEnabled (c :: calls) := by
  rintro ⟨slots, hlen, h⟩
  obtain ⟨passed, s₁, hrun, hreg⟩ := h 0 (Nat.zero_le _)
  obtain ⟨u, s₁', hinit, hpure⟩ := Exec.bind_eq_ok.1 hrun
  obtain rfl : s₁' = s₁ := congrArg Prod.snd hpure
  obtain ⟨passed', s₂, hrun', hreg'⟩ := h 1 (by simp)
  obtain ⟨u', s', hinit', hcalls⟩ := Exec.bind_eq_ok.1 hrun'
  rw [hinit] at hinit'
  simp only [Prod.mk.injEq] at hinit'
  obtain ⟨-, rfl⟩ := hinit'
  obtain ⟨r, s'', hmake, hrest⟩ := Exec.bind_eq_ok.1 hcalls
  obtain rfl : s'' = s₂ := congrArg Prod.snd hrest
  obtain ⟨b, hmalloc⟩ := shMalloc_of_make hmake
  -- the table counts no entry before the call, and should count one behind it
  have htable := hreg.empty List.take_zero
  obtain ⟨entries, htable', -⟩ := hreg'.holds.table
  have hone : ((slots.take 1).map some).length = 1 := by
    simp only [List.length_map, List.length_take, hlen, List.length_cons]
    omega
  have hamount := amount_of_shMalloc hmalloc htable htable'
  rw [show (ShProtectedMemoryTable.mk ((slots.take 1).map some).length entries).amount = 1 from hone]
    at hamount
  exact absurd hamount one_ne_zero

/-- **The runs that register all their calls** make none, do without the TPM, and find their table
zeroed by chance. -/
theorem registersAll_iff {s₀ : State} (hgen : s₀.Generous) (tpmEnabled : Bool) (calls : List Call) :
    RegistersAll s₀ tpmEnabled calls ↔
      calls = [] ∧ tpmEnabled = false ∧ s₀.next.fill 0 % SIZE_RANGE = 0 ∧ s₀.next.fill 1 = 0 := by
  constructor
  · intro hall
    cases calls with
    | cons c calls => exact absurd hall (not_registersAll_cons s₀ tpmEnabled c calls)
    | nil =>
      obtain ⟨slots, -, h⟩ := hall
      obtain ⟨passed, s₁, hrun, hreg⟩ := h 0 (Nat.zero_le _)
      obtain ⟨u, s₁', hinit, hpure⟩ := Exec.bind_eq_ok.1 hrun
      obtain rfl : s₁' = s₁ := congrArg Prod.snd hpure
      have htable := hreg.empty List.take_zero
      cases tpmEnabled with
      | true =>
        rw [shInitProtection_true] at hinit
        simp at hinit
      | false =>
        rw [shInitProtection_false (hgen _)] at hinit
        simp only [Prod.mk.injEq, true_and] at hinit
        rw [← hinit, get_started] at htable
        simp only [Option.some.injEq, Block.table.injEq, ShProtectedMemoryTable.mk.injEq] at htable
        exact ⟨rfl, rfl, htable.1, htable.2⟩
  · rintro ⟨rfl, rfl, h0, h1⟩
    refine ⟨[], rfl, fun k hk => ?_⟩
    have hrun : protectedRun false [] s₀ = (.ok [], started s₀) :=
      Exec.bind_of_ok (shInitProtection_false (hgen _)) _
    have htable := get_started s₀
    rw [h0, h1] at htable
    rw [List.take_nil, List.take_nil]
    refine Exec.ends_of_eq hrun ⟨⟨⟨0, htable, by simp⟩, by simp⟩, rfl, by simp, rfl, fun _ => htable, ?_⟩
    refine ⟨[.alloc s₀.newAddr (Request.table.make none s₀.next.fill)], rfl, ?_, by simp⟩
    intro before p q b after he
    rcases before with _ | ⟨x, before⟩ <;> simp at he

theorem registersAll_nil : RegistersAll atStart false [] :=
  (registersAll_iff (fun _ => rfl) false []).2 ⟨rfl, rfl, by decide, by decide⟩

/-- One call, of grade `SH_PROTECT_MEDIUM`: its entry is not counted. -/
theorem not_registersAll_one : ¬ RegistersAll atStart false [⟨0, 5, .protectMedium⟩] := by
  rintro ⟨slots, hlen, h⟩
  obtain ⟨passed, s, hrun, hreg⟩ := h 1 (by decide)
  obtain ⟨entries, htable, -⟩ := hreg.holds.table
  have hs : (protectedRun false [⟨0, 5, .protectMedium⟩] atStart).2 = s := congrArg Prod.snd hrun
  have hcount : (protectedRun false [⟨0, 5, .protectMedium⟩] atStart).2.observe Block.amount?
      (protectedRun false [⟨0, 5, .protectMedium⟩] atStart).2.globals.shProtectedTable = some 0 := rfl
  rw [hs, Machine.observe_of_get htable] at hcount
  have hone : ((slots.take 1).map some).length = 0 := Option.some.inj hcount
  rw [List.length_map, hreg.length] at hone
  exact absurd hone (by decide)

/-! ### Calls that run out of memory -/

/-- The allocation returned as `b` is there, with all its descriptors and blocks, and its entry is in
the table behind those that were. -/
structure Complete (s s' : State) (p : ShProtectionGrade) (b : Ptr) : Prop where
  counted : ∃ t t' : ShProtectedMemoryTable,
    s.heap.get s.globals.shProtectedTable = some (.table t) ∧
      s'.heap.get s'.globals.shProtectedTable = some (.table t') ∧ t'.amount = t.amount + 1 ∧
        ∃ slots e, s'.heap.get t'.entries = some (.pointers slots) ∧ slots[t.amount]? = some e ∧
          b = addrOfSharedBuffer e
  built : ∀ e, b = addrOfSharedBuffer e → ∃ x l, s'.heap.get e = some (.entry x) ∧ x.protection = p ∧
    s'.heap.get x.segmentsTable = some (.pointers l) ∧ x.segmentAmount ≤ l.length ∧
      ∀ d ∈ l.take x.segmentAmount, ∃ y data, s'.heap.get d = some (.descriptor y) ∧
        s'.heap.get y.address = some (.bytes data)

/-- The table is what it was, and no block is left that was not live before. -/
structure Undone (s s' : State) : Prop where
  table : ∀ slots, TableHolds s slots → TableHolds s' slots
  blocks : ∀ q, s'.heap.Live q → s.heap.Live q

/-- **All or nothing**: the call leaves a complete allocation, or answers `NULL` and leaves nothing. -/
def AllOrNothing (s : State) (c : Call) : Prop :=
  Exec.Ends (shMalloc c.segmentsTable c.size c.protection) s fun b s' =>
    Complete s s' c.protection b ∨ (b = 0 ∧ Undone s s')

/-- **No call is all or nothing**, whatever the allocator answers: it does not answer `NULL`, and it
does not count its entry. -/
theorem not_allOrNothing (s : State) (c : Call) : ¬ AllOrNothing s c := by
  rintro ⟨b, s', hrun, hall | ⟨rfl, -⟩⟩
  · obtain ⟨t, t', ht, ht', hcount, -⟩ := hall.counted
    have hamount := amount_of_shMalloc hrun ht ht'
    omega
  · exact shMalloc_ne_null hrun rfl

/-- An allocator that has no memory for call number `n`, and for all others. -/
def refusing (n : ℕ) : ℕ → Answer := fun i => ⟨i ≠ n, 0, fun _ => 0⟩

/-- The first descriptor is refused: the call goes through the `NULL` it has stored. -/
theorem not_allOrNothing_refused : ¬ AllOrNothing
    (started (Machine.start (refusing 2) Globals.initial)) ⟨0, 5, .protectMedium⟩ := by
  have hstop : (shMalloc 0 5 .protectMedium (started (Machine.start (refusing 2) Globals.initial))).1 =
      .error .nullDeref := rfl
  rintro ⟨b, s', hrun, -⟩
  rw [hrun] at hstop
  cases hstop

end SafeHeap
