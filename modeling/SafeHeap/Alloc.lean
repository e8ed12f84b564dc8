import SafeHeap.Core

/-!
# The wrappers of the allocator (`sh_malloc.c`, `sh_error.c`), and access to arrays of pointers

`shInternalRealloc` answers a failed call with the old address: its caller cannot tell that the
block has kept its old size.
-/

namespace SafeHeap

open CMachine

/-- Print `errno`. -/
def shError : Prog Unit :=
  Exec.update fun s => { s with globals := { s.globals with printed := s.globals.printed ++ [s.errno] } }

def shInternalMalloc (r : Request) : Prog Ptr := do
  let tmp ← malloc (r.make none)
  if tmp = 0 then
    shError
  pure tmp

def shInternalRealloc (address : Ptr) (r : Request) : Prog Ptr := do
  let tmp ← realloc address r.make
  if tmp = 0 then
    shError
    pure address
  else
    pure tmp

/-- Read a slot of an array of pointers. -/
def readSlot (p : Ptr) (i : ℕ) : Prog Ptr := do
  let l ← Block.pointerArrays.read p
  match l[i]? with
  | some q => pure q
  | none => Exec.fault (.outOfBounds p)

/-- Write a slot of an array of pointers. -/
def writeSlot (p : Ptr) (i : ℕ) (q : Ptr) : Prog Unit := do
  let l ← Block.pointerArrays.read p
  if i < l.length then
    store p (.pointers (l.set i q))
  else
    Exec.fault (.outOfBounds p)

/-- After a call that is not granted, and its message. -/
def turnedDown (s : State) : State :=
  { s.refused with globals := { s.globals with printed := s.globals.printed ++ [ENOMEM] } }

section TurnedDown

variable (s : State)

@[simp] theorem heap_turnedDown : (turnedDown s).heap = s.heap := rfl
@[simp] theorem answer_turnedDown : (turnedDown s).answer = s.answer := rfl
@[simp] theorem calls_turnedDown : (turnedDown s).calls = s.calls + 1 := rfl
@[simp] theorem trace_turnedDown : (turnedDown s).trace = s.trace ++ [.refuse] := rfl
@[simp] theorem shProtectedTable_turnedDown :
    (turnedDown s).globals.shProtectedTable = s.globals.shProtectedTable := rfl
@[simp] theorem shProtectionPolicies_turnedDown :
    (turnedDown s).globals.shProtectionPolicies = s.globals.shProtectionPolicies := rfl

end TurnedDown

section Wrappers

variable {s : State} {p : Ptr}

theorem shInternalMalloc_of_ok (h : s.next.ok = true) (r : Request) :
    shInternalMalloc r s = (.ok s.newAddr, s.granted (r.make none s.next.fill)) := by
  unfold shInternalMalloc
  rw [Exec.bind_of_ok (malloc_of_ok h _), if_neg s.newAddr_ne_null]
  rfl

theorem shInternalMalloc_of_refused (h : s.next.ok = false) (r : Request) :
    shInternalMalloc r s = (.ok 0, turnedDown s) := by
  unfold shInternalMalloc
  rw [Exec.bind_of_ok (malloc_of_refused h _)]
  rfl

theorem shInternalRealloc_of_ok (hp : p = 0 ∨ s.heap.Live p) (h : s.next.ok = true) (r : Request) :
    shInternalRealloc p r s =
      (.ok (s.movedAddr p), s.moved p (r.make (s.heap.get p) s.next.fill)) := by
  unfold shInternalRealloc
  rw [Exec.bind_of_ok (realloc_of_ok hp h _), if_neg (s.movedAddr_ne_null p)]
  rfl

/-- **A failed resize looks like a success**: the caller gets its own address back. -/
theorem shInternalRealloc_of_refused (hp : p = 0 ∨ s.heap.Live p) (h : s.next.ok = false)
    (r : Request) : shInternalRealloc p r s = (.ok p, turnedDown s) := by
  unfold shInternalRealloc
  rw [Exec.bind_of_ok (realloc_of_refused hp h _)]
  rfl

theorem shInternalRealloc_of_dead (hp : p ≠ 0) (hl : ¬ s.heap.Live p) (r : Request) :
    shInternalRealloc p r s = (.error (.badRealloc p), s) := by
  unfold shInternalRealloc
  rw [Exec.bind_of_error (realloc_of_dead hp hl _)]

theorem readSlot_of_get {l : List Ptr} {i : ℕ} {q : Ptr} (h : s.heap.get p = some (.pointers l))
    (hi : l[i]? = some q) : readSlot p i s = (.ok q, s) := by
  unfold readSlot
  rw [Exec.bind_of_ok (Block.pointerArrays.read_of_get h)]
  simp only [hi]
  rfl

theorem writeSlot_of_get {l : List Ptr} {i : ℕ} (h : s.heap.get p = some (.pointers l))
    (hi : i < l.length) (q : Ptr) :
    writeSlot p i q s = (.ok (), s.stored p (.pointers (l.set i q))) := by
  unfold writeSlot
  rw [Exec.bind_of_ok (Block.pointerArrays.read_of_get h), if_pos hi, store_of_live (Heap.live_of_get h)]

/-- **A slot is read** exactly when there is one. -/
theorem readSlot_eq_ok {i : ℕ} {q : Ptr} {s' : State} : readSlot p i s = (.ok q, s') ↔
    ∃ l, s.heap.get p = some (.pointers l) ∧ l[i]? = some q ∧ s' = s := by
  constructor
  · intro h
    obtain ⟨l, s₁, hl, h₁⟩ := Exec.bind_eq_ok.1 h
    obtain ⟨hget, rfl⟩ := Block.pointerArrays.read_eq_ok.1 hl
    rcases hq : l[i]? with _ | q'
    · rw [hq] at h₁
      cases h₁
    · rw [hq] at h₁
      cases h₁
      exact ⟨l, hget, hq, rfl⟩
  · rintro ⟨l, hget, hq, rfl⟩
    exact readSlot_of_get hget hq

/-- **A slot is written** exactly when there is one. -/
theorem writeSlot_eq_ok {i : ℕ} {q : Ptr} {s' : State} : writeSlot p i q s = (.ok (), s') ↔
    ∃ l, s.heap.get p = some (.pointers l) ∧ i < l.length ∧ s' = s.stored p (.pointers (l.set i q)) := by
  constructor
  · intro h
    obtain ⟨l, s₁, hl, h₁⟩ := Exec.bind_eq_ok.1 h
    obtain ⟨hget, rfl⟩ := Block.pointerArrays.read_eq_ok.1 hl
    split at h₁
    · next hi =>
      rw [store_of_live (Heap.live_of_get hget)] at h₁
      cases h₁
      exact ⟨l, hget, hi, rfl⟩
    · cases h₁
  · rintro ⟨l, hget, hi, rfl⟩
    exact writeSlot_of_get hget hi q

end Wrappers

lemma keeps_readSlot {R : State → State → Prop} [Std.Refl R] [IsTrans State R] (p : Ptr) (i : ℕ) :
    Exec.Keeps R (readSlot p i) := by
  refine (Block.pointerArrays.keeps_read p).bind fun l => ?_
  split
  · exact Exec.keeps_pure _
  · exact Exec.keeps_fault _

/-! ### What can go wrong in them -/

lemma faultsOfMemory_shInternalMalloc (r : Request) : FaultsOfMemory (shInternalMalloc r) := by
  refine (faultsOfMemory_malloc _).bind fun tmp => ?_
  dsimp only
  split
  · exact (faultsOfMemory_update _).bind fun _ => faultsOfMemory_pure tmp
  · exact faultsOfMemory_pure tmp

lemma faultsOfMemory_shInternalRealloc (p : Ptr) (r : Request) : FaultsOfMemory (shInternalRealloc p r) := by
  refine (faultsOfMemory_realloc p _).bind fun tmp => ?_
  split
  · exact (faultsOfMemory_update _).bind fun _ => faultsOfMemory_pure p
  · exact faultsOfMemory_pure tmp

lemma faultsOfMemory_readSlot (p : Ptr) (i : ℕ) : FaultsOfMemory (readSlot p i) := by
  refine (faultsOfMemory_read Block.pointerArrays p).bind fun l => ?_
  rcases l[i]? with _ | q
  · exact faultsOfMemory_fault trivial
  · exact faultsOfMemory_pure q

lemma faultsOfMemory_writeSlot (p : Ptr) (i : ℕ) (q : Ptr) : FaultsOfMemory (writeSlot p i q) := by
  refine (faultsOfMemory_read Block.pointerArrays p).bind fun l => ?_
  split
  · exact faultsOfMemory_store p _
  · exact faultsOfMemory_fault trivial

end SafeHeap
