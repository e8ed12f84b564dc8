import SafeHeap.Frame
import SafeHeap.Lookup

/-!
# The entry of an allocation, with memory for it and without

`sh_add_protection_entry` needs the memory of the entry (`newEntry_of_ok`, `newEntry_of_refused`), but not
that of the longer array of entries: where the table is in memory, making room comes to an end in any case
(`growEntries_spec`), and moves nothing but that array.
-/

namespace SafeHeap

open CMachine

/-- A table at the address `p`, with an array that can be resized. -/
structure TableAt (s : State) (p : Ptr) (t : ShProtectedMemoryTable) : Prop where
  table : s.heap.get p = some (.table t)
  entries : t.entries = 0 ∨ ∃ l, s.heap.get t.entries = some (.pointers l)

lemma TableAt.mono {s s' : State} {p : Ptr} {t : ShProtectedMemoryTable} (h : TableAt s p t)
    (hs : ∀ q b, s.heap.get q = some b → s'.heap.get q = some b) : TableAt s' p t := by
  refine ⟨hs p _ h.table, h.entries.imp_right ?_⟩
  rintro ⟨l, hl⟩
  exact ⟨l, hs _ _ hl⟩

section Entry

variable {s : State} (segments : Ptr) (amount : ℕ) (g : ShProtectionGrade)

lemma newEntry_of_ok (h : s.next.ok = true) : ∃ s', newEntry segments amount g s = (.ok s.newAddr, s') ∧
    s'.heap.get s.newAddr = some (.entry ⟨0, g, amount, segments⟩) ∧
      (∀ q b, s.heap.get q = some b → s'.heap.get q = some b) ∧ s'.globals = s.globals ∧
        s'.answer = s.answer ∧ s'.calls = s.calls + 1 := by
  let e := s.newAddr
  let x : ShProtectedEntry := ⟨s.next.fill 0, .protectHigh, s.next.fill 2 % SIZE_RANGE, s.next.fill 3⟩
  let x₁ : ShProtectedEntry := { x with segmentAmount := amount }
  let x₂ : ShProtectedEntry := { x₁ with protection := g }
  let x₃ : ShProtectedEntry := { x₂ with segmentsTable := segments }
  let s₁ := s.granted (.entry x)
  let s₂ := s₁.stored e (.entry x₁)
  let s₃ := s₂.stored e (.entry x₂)
  let s₄ := s₃.stored e (.entry x₃)
  let s₅ := s₄.stored e (.entry ⟨0, g, amount, segments⟩)
  have he : e ≠ 0 := s.newAddr_ne_null
  have hget : ∀ (s' : State) b, (s'.stored e b).heap.get e = some b := fun s' b => Heap.get_put_self b he
  have hmalloc : shInternalMalloc .entry s = (.ok e, s₁) := shInternalMalloc_of_ok h _
  have h₁ : Block.entries.modify e (fun y => { y with segmentAmount := amount }) s₁ = (.ok (), s₂) :=
    Block.entries.modify_of_get (show s₁.heap.get e = some (.entry x) from Heap.get_put_self _ he) _
  have h₂ : Block.entries.modify e (fun y => { y with protection := g }) s₂ = (.ok (), s₃) :=
    Block.entries.modify_of_get (a := x₁) (hget s₁ _) _
  have h₃ : Block.entries.modify e (fun y => { y with segmentsTable := segments }) s₃ = (.ok (), s₄) :=
    Block.entries.modify_of_get (a := x₂) (hget s₂ _) _
  have h₄ : Block.entries.modify e (fun y => { y with sharedBuffer := 0 }) s₄ = (.ok (), s₅) :=
    Block.entries.modify_of_get (a := x₃) (hget s₃ _) _
  refine ⟨s₅, ?_, Heap.get_put_self _ he, fun q b hq => ?_, rfl, rfl, rfl⟩
  · unfold newEntry
    rw [Exec.bind_of_ok hmalloc, Exec.bind_of_ok h₁, Exec.bind_of_ok h₂, Exec.bind_of_ok h₃, Exec.bind_of_ok h₄]
    rfl
  · have hqe : q ≠ e := Heap.ne_fresh hq _
    rw [Machine.heap_stored, Heap.get_put_ne _ hqe, Machine.heap_stored, Heap.get_put_ne _ hqe,
      Machine.heap_stored, Heap.get_put_ne _ hqe, Machine.heap_stored, Heap.get_put_ne _ hqe,
      Machine.heap_granted, Heap.get_put_ne _ hqe, hq]

lemma newEntry_of_refused (h : s.next.ok = false) :
    newEntry segments amount g s = (.error .nullDeref, turnedDown s) := by
  unfold newEntry
  rw [Exec.bind_of_ok (shInternalMalloc_of_refused h _)]
  rfl

end Entry

/-- **Room is made in any case**: nothing but the table and its array changes, and the array stays where it
is or goes to where no block was. -/
lemma growEntries_spec {s : State} {t : ShProtectedMemoryTable} (h : TableAt s s.globals.shProtectedTable t) :
    ∃ entries s', growEntries s = (.ok (), s') ∧
      TableAt s' s.globals.shProtectedTable { t with entries := entries } ∧
        (∀ q b, s.heap.get q = some b → q ≠ s.globals.shProtectedTable → q ≠ t.entries →
          s'.heap.get q = some b ∧ q ≠ entries) ∧
            s'.globals = { s.globals with printed := s'.globals.printed } ∧ s'.answer = s.answer ∧
              s'.calls = s.calls + 1 := by
  let p := s.globals.shProtectedTable
  let r : Request := .pointers (toSize (sizeofEntry * toSize (t.amount + 1)))
  have hp0 : p ≠ 0 := Heap.ne_null h.table
  have hlive : t.entries = 0 ∨ s.heap.Live t.entries := by
    refine h.entries.imp_right ?_
    rintro ⟨l, hl⟩
    exact Heap.live_of_get hl
  have hpt : p ≠ t.entries := by
    rcases h.entries with h0 | ⟨l, hl⟩
    · rw [h0]
      exact hp0
    · exact Heap.ne_of_get h.table hl (by simp)
  have hrun : ∀ {entries s₁}, shInternalRealloc t.entries r s = (.ok entries, s₁) →
      s₁.heap.get p = some (.table t) → growEntries s =
        (.ok (), s₁.stored p (.table { t with entries := entries })) := by
    intro entries s₁ hrealloc hget
    unfold growEntries
    rw [globals_bind_apply, Exec.bind_of_ok (Block.tables.read_of_get h.table), Exec.bind_of_ok hrealloc]
    exact Block.tables.modify_of_get hget _
  by_cases hok : s.next.ok = true
  · -- the array is moved
    let l := resize (Block.slots? (s.heap.get t.entries))
      (toSize (sizeofEntry * toSize (t.amount + 1)) / sizeofPointer) s.next.fill
    let s₁ := s.moved t.entries (.pointers l)
    let e := s.movedAddr t.entries
    have he0 : e ≠ 0 := s.movedAddr_ne_null _
    have hkept : ∀ q b, s.heap.get q = some b → q ≠ t.entries → s₁.heap.get q = some b ∧ q ≠ e := by
      intro q b hq hqt
      have hqe : q ≠ e := Machine.ne_movedAddr hq hqt
      refine ⟨?_, hqe⟩
      rw [Machine.heap_moved, Heap.get_put_ne _ hqe, Heap.get_erase_ne hqt, hq]
    obtain ⟨hget, hpe⟩ := hkept p _ h.table hpt
    refine ⟨e, _, hrun (shInternalRealloc_of_ok hlive hok r) hget, ⟨Heap.get_put_self _ hp0, Or.inr ⟨l, ?_⟩⟩,
      fun q b hq hqp hqt => ?_, rfl, rfl, rfl⟩
    · rw [Machine.heap_stored, Heap.get_put_ne _ (Ne.symm hpe)]
      exact Heap.get_put_self _ he0
    · obtain ⟨hq₁, hqe⟩ := hkept q b hq hqt
      exact ⟨(Heap.get_put_ne _ hqp).trans hq₁, hqe⟩
  · -- the array stays as it is
    refine ⟨t.entries, _, hrun (shInternalRealloc_of_refused hlive (by simpa using hok) r) h.table,
      ⟨Heap.get_put_self _ hp0, h.entries.imp_right ?_⟩, fun q b hq hqp hqt => ?_, rfl, rfl, rfl⟩
    · rintro ⟨l, hl⟩
      exact ⟨l, (Heap.get_put_ne _ (Ne.symm hpt)).trans hl⟩
    · exact ⟨(Heap.get_put_ne _ hqp).trans hq, hqt⟩

/-! ### What can go wrong in them -/

lemma faultsOfMemory_newEntry (segments : Ptr) (amount : ℕ) (g : ShProtectionGrade) :
    FaultsOfMemory (newEntry segments amount g) := by
  refine (faultsOfMemory_shInternalMalloc _).bind fun e => (faultsOfMemory_modify Block.entries e _).bind fun _ => ?_
  refine (faultsOfMemory_modify Block.entries e _).bind fun _ => ?_
  refine (faultsOfMemory_modify Block.entries e _).bind fun _ => ?_
  exact (faultsOfMemory_modify Block.entries e _).bind fun _ => faultsOfMemory_pure e

lemma faultsOfMemory_growEntries : FaultsOfMemory growEntries := by
  have hgrow : ∀ p, FaultsOfMemory (Block.tables.read p >>= fun t =>
      shInternalRealloc t.entries (.pointers (toSize (sizeofEntry * toSize (t.amount + 1)))) >>= fun entries =>
        Block.tables.modify p fun t => { t with entries := entries }) := fun p => by
    refine (faultsOfMemory_read Block.tables p).bind fun t => ?_
    exact (faultsOfMemory_shInternalRealloc _ _).bind fun entries => faultsOfMemory_modify Block.tables p _
  exact fun s f s' hrun => hgrow s.globals.shProtectedTable s f s' hrun

end SafeHeap
