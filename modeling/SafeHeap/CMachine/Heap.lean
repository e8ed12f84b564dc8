import Mathlib.Data.Nat.Notation
import SafeHeap.CMachine.Exec

/-!
# A heap of blocks, and the allocator of C over it

* `Heap β` — finitely many live blocks at their base addresses; `NULL` is never one of them;
* `Machine β γ` — a heap, the allocator's answers to the calls still to come, a trace of the
  allocator calls made so far, `errno`, and the global variables `γ` of the program;
* `malloc`, `realloc`, `free`, `load`, `store` — with a fault where C leaves the behaviour undefined;
* `newLocal`, `endLocal` — the arrays among the local variables of a function.

The allocator is not fixed: each of its answers says whether the call is granted, at which address,
and what the fresh memory happens to hold. A freed address may be handed out again. A request for no
bytes at all is answered like any other, and a `realloc` that is not granted leaves the block alone.
-/

namespace CMachine

/-- An address; `0` is `NULL`. -/
abbrev Ptr := ℕ

/-- Why a computation stops: what it does next has no defined meaning. -/
inductive Fault where
  /-- `NULL` is dereferenced. -/
  | nullDeref
  /-- A block that is not live is read or written. -/
  | dangling (p : Ptr)
  /-- A block is used as something it does not hold. -/
  | mistyped (p : Ptr)
  /-- A block is read or written at or beyond its end. -/
  | outOfBounds (p : Ptr)
  /-- Two operands that must not overlap do. -/
  | overlap
  /-- A pointer that is neither `NULL` nor live is freed. -/
  | badFree (p : Ptr)
  /-- A pointer that is neither `NULL` nor live is resized. -/
  | badRealloc (p : Ptr)
  /-- A global array is read at or beyond its length. -/
  | overrun
  /-- The `NULL` row that a search of a global array found is dereferenced. -/
  | nullRow
  /-- The value of a function that ended without returning one is used. -/
  | noReturn
  /-- A signed counter passes its largest value. -/
  | intOverflow
  /-- A loop goes on for ever. -/
  | diverges
  deriving DecidableEq, Repr

/-- The fault is a use of memory that is not there. -/
def Fault.OfMemory : Fault → Prop
  | .nullDeref | .dangling _ | .mistyped _ | .outOfBounds _ | .overlap | .badFree _ | .badRealloc _ => True
  | .overrun | .nullRow | .noReturn | .intOverflow | .diverges => False

/-! ### The heap -/

/-- Blocks at their base addresses. -/
structure Heap (β : Type) where
  get : Ptr → Option β
  /-- No block is live at this address or beyond. -/
  top : ℕ
  get_of_top_le : ∀ p, top ≤ p → get p = none
  get_null : get 0 = none

namespace Heap

variable {β : Type}

/-- The block at `p` is live. -/
def Live (h : Heap β) (p : Ptr) : Prop := (h.get p).isSome

instance (h : Heap β) (p : Ptr) : Decidable (h.Live p) := by unfold Live; infer_instance

def empty : Heap β := ⟨fun _ => none, 0, fun _ _ => rfl, rfl⟩

/-- Put a block at an address other than `NULL`. -/
def put (h : Heap β) (p : Ptr) (b : β) : Heap β where
  get q := if q = p ∧ p ≠ 0 then some b else h.get q
  top := max h.top (p + 1)
  get_of_top_le q hq := by
    have hqp : q ≠ p := Nat.ne_of_gt (Nat.le_trans (Nat.le_max_right _ _) hq)
    simp only [hqp, false_and, if_false]
    exact h.get_of_top_le q (Nat.le_trans (Nat.le_max_left _ _) hq)
  get_null := by
    have h0 : ¬ (0 = p ∧ p ≠ 0) := fun hp => hp.2 hp.1.symm
    rw [if_neg h0, h.get_null]

/-- The block at an address is no longer live. -/
def erase (h : Heap β) (p : Ptr) : Heap β where
  get q := if q = p then none else h.get q
  top := h.top
  get_of_top_le q hq := by
    split
    · rfl
    · exact h.get_of_top_le q hq
  get_null := by
    split
    · rfl
    · exact h.get_null

/-- The address of the next block: the one proposed, where that is possible. -/
def fresh (h : Heap β) (hint : Ptr) : Ptr :=
  if hint ≠ 0 ∧ (h.get hint).isNone then hint else h.top + 1

@[simp] theorem get_empty (p : Ptr) : (empty : Heap β).get p = none := rfl

theorem get_put {h : Heap β} {p : Ptr} (b : β) (hp : p ≠ 0) (q : Ptr) :
    (h.put p b).get q = if q = p then some b else h.get q := by
  simp [put, hp]

@[simp] theorem get_put_self {h : Heap β} {p : Ptr} (b : β) (hp : p ≠ 0) : (h.put p b).get p = some b := by
  rw [get_put b hp, if_pos rfl]

@[simp] theorem get_put_ne {h : Heap β} {p q : Ptr} (b : β) (hq : q ≠ p) :
    (h.put p b).get q = h.get q := by
  simp [put, hq]

@[simp] theorem get_erase (h : Heap β) (p q : Ptr) :
    (h.erase p).get q = if q = p then none else h.get q := rfl

theorem get_erase_ne {h : Heap β} {p q : Ptr} (hq : q ≠ p) : (h.erase p).get q = h.get q := by
  rw [get_erase, if_neg hq]

theorem ne_null {h : Heap β} {p : Ptr} {b : β} (hp : h.get p = some b) : p ≠ 0 := by
  rintro rfl
  rw [h.get_null] at hp
  cases hp

theorem live_of_get {h : Heap β} {p : Ptr} {b : β} (hp : h.get p = some b) : h.Live p := by
  unfold Live; rw [hp]; rfl

theorem get_of_live {h : Heap β} {p : Ptr} (hp : h.Live p) : ∃ b, h.get p = some b :=
  Option.isSome_iff_exists.1 hp

theorem fresh_ne_null (h : Heap β) (hint : Ptr) : h.fresh hint ≠ 0 := by
  unfold fresh
  split
  · next hh => exact hh.1
  · exact Nat.succ_ne_zero _

/-- A fresh address is not that of a live block. -/
theorem get_fresh (h : Heap β) (hint : Ptr) : h.get (h.fresh hint) = none := by
  unfold fresh
  split
  · next hh => exact Option.isNone_iff_eq_none.1 hh.2
  · exact h.get_of_top_le _ (Nat.le_succ _)

theorem ne_fresh {h : Heap β} {p : Ptr} {b : β} (hp : h.get p = some b) (hint : Ptr) : p ≠ h.fresh hint := by
  intro he
  rw [he, get_fresh] at hp
  cases hp

/-- Two distinct blocks are at distinct addresses. -/
theorem ne_of_get {h : Heap β} {p q : Ptr} {b c : β} (hp : h.get p = some b) (hq : h.get q = some c)
    (hbc : b ≠ c) : p ≠ q := by
  rintro rfl
  rw [hp] at hq
  exact hbc (Option.some.inj hq)

end Heap

/-! ### The machine -/

/-- What the allocator does with one call. -/
structure Answer where
  /-- Whether it has the memory. -/
  ok : Bool
  /-- The address it proposes. -/
  addr : Ptr
  /-- What the fresh memory holds, unit by unit. -/
  fill : ℕ → ℕ

/-- An allocator with memory for every call, all of it filled with zeros. -/
def Answer.zeros : ℕ → Answer := fun _ => ⟨true, 0, fun _ => 0⟩

/-- A call of the allocator. -/
inductive Event (β : Type) where
  | alloc (p : Ptr) (b : β)
  | resize (old new : Ptr) (b : β)
  | release (p : Ptr)
  | refuse
  deriving DecidableEq

structure Machine (β γ : Type) where
  heap : Heap β
  /-- The allocator's answer to each call, by number. -/
  answer : ℕ → Answer
  /-- The number of calls answered. -/
  calls : ℕ
  trace : List (Event β)
  errno : ℕ
  globals : γ

/-- Out of memory, as `errno` reports it. -/
def ENOMEM : ℕ := 12
/-- Invalid argument. -/
def EINVAL : ℕ := 22

namespace Machine

variable {β γ : Type}

/-- The machine before the first call: an empty heap, an allocator and the globals. -/
def start (answer : ℕ → Answer) (g : γ) : Machine β γ := ⟨.empty, answer, 0, [], 0, g⟩

/-- The answer to the next call. -/
def next (m : Machine β γ) : Answer := m.answer m.calls

/-- Every call of the allocator succeeds. -/
def Generous (m : Machine β γ) : Prop := ∀ i, (m.answer i).ok = true

theorem Generous.of_answer_eq {m m' : Machine β γ} (h : m.Generous) (ha : m'.answer = m.answer) : m'.Generous := by
  intro i
  rw [ha]
  exact h i

/-- Where `malloc` puts the block it grants. -/
def newAddr (m : Machine β γ) : Ptr := m.heap.fresh m.next.addr
/-- Where `realloc` puts the block it resizes: the old block no longer counts. -/
def movedAddr (m : Machine β γ) (p : Ptr) : Ptr := (m.heap.erase p).fresh m.next.addr

/-- After a granted `malloc` of a block `b`. -/
def granted (m : Machine β γ) (b : β) : Machine β γ :=
  { m with heap := m.heap.put m.newAddr b, calls := m.calls + 1, trace := m.trace ++ [.alloc m.newAddr b] }

/-- After a granted `realloc` of the block at `p`, which becomes `b`. -/
def moved (m : Machine β γ) (p : Ptr) (b : β) : Machine β γ :=
  { m with heap := (m.heap.erase p).put (m.movedAddr p) b, calls := m.calls + 1,
           trace := m.trace ++ [.resize p (m.movedAddr p) b] }

/-- After a call that is not granted. -/
def refused (m : Machine β γ) : Machine β γ :=
  { m with calls := m.calls + 1, trace := m.trace ++ [.refuse], errno := ENOMEM }

/-- After `free(p)` of a live block. -/
def released (m : Machine β γ) (p : Ptr) : Machine β γ :=
  { m with heap := m.heap.erase p, trace := m.trace ++ [.release p] }

/-- After a store into a live block. -/
def stored (m : Machine β γ) (p : Ptr) (b : β) : Machine β γ := { m with heap := m.heap.put p b }

section Fields

variable (m : Machine β γ) (p : Ptr) (b : β)

@[simp] theorem heap_granted : (m.granted b).heap = m.heap.put m.newAddr b := rfl
@[simp] theorem answer_granted : (m.granted b).answer = m.answer := rfl
@[simp] theorem calls_granted : (m.granted b).calls = m.calls + 1 := rfl
@[simp] theorem trace_granted : (m.granted b).trace = m.trace ++ [.alloc m.newAddr b] := rfl
@[simp] theorem globals_granted : (m.granted b).globals = m.globals := rfl
@[simp] theorem heap_moved : (m.moved p b).heap = (m.heap.erase p).put (m.movedAddr p) b := rfl
@[simp] theorem answer_moved : (m.moved p b).answer = m.answer := rfl
@[simp] theorem calls_moved : (m.moved p b).calls = m.calls + 1 := rfl
@[simp] theorem trace_moved : (m.moved p b).trace = m.trace ++ [.resize p (m.movedAddr p) b] := rfl
@[simp] theorem globals_moved : (m.moved p b).globals = m.globals := rfl
@[simp] theorem heap_refused : m.refused.heap = m.heap := rfl
@[simp] theorem answer_refused : m.refused.answer = m.answer := rfl
@[simp] theorem calls_refused : m.refused.calls = m.calls + 1 := rfl
@[simp] theorem trace_refused : m.refused.trace = m.trace ++ [.refuse] := rfl
@[simp] theorem globals_refused : m.refused.globals = m.globals := rfl
@[simp] theorem heap_released : (m.released p).heap = m.heap.erase p := rfl
@[simp] theorem answer_released : (m.released p).answer = m.answer := rfl
@[simp] theorem calls_released : (m.released p).calls = m.calls := rfl
@[simp] theorem trace_released : (m.released p).trace = m.trace ++ [.release p] := rfl
@[simp] theorem errno_released : (m.released p).errno = m.errno := rfl
@[simp] theorem globals_released : (m.released p).globals = m.globals := rfl
@[simp] theorem heap_stored : (m.stored p b).heap = m.heap.put p b := rfl
@[simp] theorem answer_stored : (m.stored p b).answer = m.answer := rfl
@[simp] theorem calls_stored : (m.stored p b).calls = m.calls := rfl
@[simp] theorem trace_stored : (m.stored p b).trace = m.trace := rfl
@[simp] theorem globals_stored : (m.stored p b).globals = m.globals := rfl

end Fields

theorem newAddr_ne_null (m : Machine β γ) : m.newAddr ≠ 0 := m.heap.fresh_ne_null _
theorem get_newAddr (m : Machine β γ) : m.heap.get m.newAddr = none := m.heap.get_fresh _
theorem movedAddr_ne_null (m : Machine β γ) (p : Ptr) : m.movedAddr p ≠ 0 := Heap.fresh_ne_null _ _

/-- A resized block lands on no other live block. -/
theorem ne_movedAddr {m : Machine β γ} {p q : Ptr} {b : β} (hq : m.heap.get q = some b) (hqp : q ≠ p) :
    q ≠ m.movedAddr p :=
  Heap.ne_fresh (h := m.heap.erase p) (b := b) (by rw [Heap.get_erase_ne hqp, hq]) _

end Machine

/-! ### The allocator -/

section Allocator

variable {β γ : Type}

/-- `malloc`, for a block made of what the fresh memory holds. -/
def malloc (mk : (ℕ → ℕ) → β) : Exec (Machine β γ) Fault Ptr := fun m =>
  if m.next.ok then (.ok m.newAddr, m.granted (mk m.next.fill)) else (.ok 0, m.refused)

/-- `realloc`; `mk` makes the new block of the old one, where there is one, and of fresh memory. -/
def realloc (p : Ptr) (mk : Option β → (ℕ → ℕ) → β) : Exec (Machine β γ) Fault Ptr := fun m =>
  if p ≠ 0 ∧ ¬ m.heap.Live p then (.error (.badRealloc p), m)
  else if m.next.ok then (.ok (m.movedAddr p), m.moved p (mk (m.heap.get p) m.next.fill))
  else (.ok 0, m.refused)

/-- `free`. -/
def free (p : Ptr) : Exec (Machine β γ) Fault Unit := fun m =>
  if p = 0 then (.ok (), m)
  else if m.heap.Live p then (.ok (), m.released p)
  else (.error (.badFree p), m)

/-- Read the block at `p`. -/
def load (p : Ptr) : Exec (Machine β γ) Fault β := fun m =>
  if p = 0 then (.error .nullDeref, m)
  else match m.heap.get p with
    | some b => (.ok b, m)
    | none => (.error (.dangling p), m)

/-- Write the block at `p`. -/
def store (p : Ptr) (b : β) : Exec (Machine β γ) Fault Unit := fun m =>
  if p = 0 then (.error .nullDeref, m)
  else if m.heap.Live p then (.ok (), m.stored p b)
  else (.error (.dangling p), m)

/-- Where a local array is put. -/
def Machine.localAddr (m : Machine β γ) : Ptr := m.heap.fresh 0

/-- A local array comes into being; it is not the allocator that makes it. -/
def newLocal (b : β) : Exec (Machine β γ) Fault Ptr := fun m =>
  (.ok m.localAddr, { m with heap := m.heap.put m.localAddr b })

/-- And it goes, at the end of its function. -/
def endLocal (p : Ptr) : Exec (Machine β γ) Fault Unit :=
  Exec.update fun m => { m with heap := m.heap.erase p }

/-- The globals of the program. -/
def globals : Exec (Machine β γ) Fault γ := fun m => (.ok m.globals, m)

variable {m : Machine β γ} {p : Ptr} {b : β}

theorem malloc_of_ok (h : m.next.ok = true) (mk : (ℕ → ℕ) → β) :
    malloc mk m = (.ok m.newAddr, m.granted (mk m.next.fill)) := by
  simp [malloc, h]

theorem malloc_of_refused (h : m.next.ok = false) (mk : (ℕ → ℕ) → β) :
    malloc mk m = (.ok 0, m.refused) := by
  simp [malloc, h]

theorem realloc_of_ok (hp : p = 0 ∨ m.heap.Live p) (h : m.next.ok = true)
    (mk : Option β → (ℕ → ℕ) → β) :
    realloc p mk m = (.ok (m.movedAddr p), m.moved p (mk (m.heap.get p) m.next.fill)) := by
  have hn : ¬ (p ≠ 0 ∧ ¬ m.heap.Live p) := by tauto
  simp only [realloc, hn, if_false, h, if_true]

theorem realloc_of_refused (hp : p = 0 ∨ m.heap.Live p) (h : m.next.ok = false)
    (mk : Option β → (ℕ → ℕ) → β) : realloc p mk m = (.ok 0, m.refused) := by
  have hn : ¬ (p ≠ 0 ∧ ¬ m.heap.Live p) := by tauto
  simp only [realloc, hn, if_false, h, Bool.false_eq_true]

theorem realloc_of_dead (hp : p ≠ 0) (hl : ¬ m.heap.Live p) (mk : Option β → (ℕ → ℕ) → β) :
    realloc p mk m = (.error (.badRealloc p), m) := by
  simp only [realloc, hp, hl, ne_eq, not_false_eq_true, and_self, if_true]

@[simp] theorem free_null : free 0 m = (.ok (), m) := rfl

theorem free_of_live (hl : m.heap.Live p) : free p m = (.ok (), m.released p) := by
  obtain ⟨b, hb⟩ := Heap.get_of_live hl
  simp only [free, Heap.ne_null hb, hl, if_false, if_true]

theorem free_of_dead (hp : p ≠ 0) (hl : ¬ m.heap.Live p) : free p m = (.error (.badFree p), m) := by
  simp only [free, hp, hl, if_false]

theorem load_of_get (h : m.heap.get p = some b) : load p m = (.ok b, m) := by
  simp only [load, Heap.ne_null h, if_false, h]

theorem load_of_dead (hp : p ≠ 0) (hl : m.heap.get p = none) : load p m = (.error (.dangling p), m) := by
  simp only [load, hp, if_false, hl]

@[simp] theorem load_null : load (β := β) 0 m = (.error .nullDeref, m) := rfl

theorem load_eq_ok {m' : Machine β γ} : load p m = (.ok b, m') ↔ m.heap.get p = some b ∧ m' = m := by
  constructor
  · intro h
    unfold load at h
    split at h
    · simp at h
    · rcases hg : m.heap.get p with _ | c <;> rw [hg] at h
      · simp at h
      · simp only [Prod.mk.injEq, Except.ok.injEq] at h
        exact ⟨by rw [h.1], h.2.symm⟩
  · rintro ⟨h, rfl⟩
    exact load_of_get h

theorem store_of_live (hl : m.heap.Live p) (b : β) : store p b m = (.ok (), m.stored p b) := by
  obtain ⟨c, hc⟩ := Heap.get_of_live hl
  simp only [store, Heap.ne_null hc, hl, if_false, if_true]

@[simp] theorem globals_apply : (globals : Exec (Machine β γ) Fault γ) m = (.ok m.globals, m) := rfl
@[simp] theorem globals_bind_apply {α : Type} (f : γ → Exec (Machine β γ) Fault α) :
    (globals >>= f) m = f m.globals m := rfl

end Allocator

/-! ### Views -/

/-- A kind of block: the blocks that hold a value of type `α`. -/
structure View (β α : Type) where
  get : β → Option α
  put : α → β
  get_eq_some : ∀ b a, get b = some a ↔ b = put a

namespace View

variable {α β γ : Type} (v : View β α)

@[simp] theorem get_put (a : α) : v.get (v.put a) = some a := (v.get_eq_some _ _).2 rfl

/-- Read the block at `p` as what it should hold. -/
def read (p : Ptr) : Exec (Machine β γ) Fault α := do
  let b ← load p
  match v.get b with
  | some a => pure a
  | none => Exec.fault (.mistyped p)

/-- Change the block at `p`, which should hold an `α`. -/
def modify (p : Ptr) (f : α → α) : Exec (Machine β γ) Fault Unit := do
  let a ← v.read p
  store p (v.put (f a))

variable {m m' : Machine β γ} {p : Ptr} {a : α}

theorem read_of_get (h : m.heap.get p = some (v.put a)) : v.read p m = (.ok a, m) := by
  unfold read
  rw [Exec.bind_of_ok (load_of_get h)]
  simp only [get_put]
  rfl

/-- **A read succeeds** exactly when the block is of that kind. -/
theorem read_eq_ok : v.read p m = (.ok a, m') ↔ m.heap.get p = some (v.put a) ∧ m' = m := by
  constructor
  · intro h
    obtain ⟨b, m₁, hb, hm⟩ := Exec.bind_eq_ok.1 h
    obtain ⟨hg, rfl⟩ := load_eq_ok.1 hb
    rcases hv : v.get b with _ | c
    · rw [hv] at hm
      simp at hm
    · rw [hv] at hm
      simp only [Exec.pure_apply, Prod.mk.injEq, Except.ok.injEq] at hm
      obtain ⟨rfl, rfl⟩ := hm
      rw [(v.get_eq_some _ _).1 hv] at hg
      exact ⟨hg, rfl⟩
  · rintro ⟨h, rfl⟩
    exact v.read_of_get h

/-- A read leaves the machine alone, whatever it comes to. -/
theorem read_snd (p : Ptr) (m : Machine β γ) : (v.read p m).2 = m := by
  unfold read
  rw [Exec.bind_apply]
  unfold load
  split_ifs
  · rfl
  · rcases m.heap.get p with _ | b
    · rfl
    · rcases hv : v.get b with _ | a <;> simp [hv]

theorem keeps_read {R : Machine β γ → Machine β γ → Prop} [Std.Refl R] (p : Ptr) : Exec.Keeps R (v.read p) := by
  intro m
  rw [v.read_snd]
  exact refl_of R m

theorem modify_of_get (h : m.heap.get p = some (v.put a)) (f : α → α) :
    v.modify p f m = (.ok (), m.stored p (v.put (f a))) := by
  unfold modify
  rw [Exec.bind_of_ok (v.read_of_get h), store_of_live (Heap.live_of_get h)]

theorem modify_eq_ok {f : α → α} : v.modify p f m = (.ok (), m') ↔
    ∃ a, m.heap.get p = some (v.put a) ∧ m' = m.stored p (v.put (f a)) := by
  constructor
  · intro h
    obtain ⟨a, m₁, ha, hm⟩ := Exec.bind_eq_ok.1 h
    obtain ⟨hg, rfl⟩ := v.read_eq_ok.1 ha
    rw [store_of_live (Heap.live_of_get hg)] at hm
    simp only [Prod.mk.injEq, true_and] at hm
    exact ⟨a, hg, hm.symm⟩
  · rintro ⟨a, hg, rfl⟩
    exact v.modify_of_get hg f

/-- A change either is made, or has only read. -/
theorem modify_cases (p : Ptr) (f : α → α) (m : Machine β γ) :
    (∃ a, m.heap.get p = some (v.put a) ∧ v.modify p f m = (.ok (), m.stored p (v.put (f a)))) ∨
      ∃ e, v.modify p f m = (.error e, m) := by
  rcases hx : v.read p m with ⟨e | a, m₁⟩
  · obtain rfl : m₁ = m := by rw [← v.read_snd p m, hx]
    exact Or.inr ⟨e, Exec.bind_of_error hx _⟩
  · obtain ⟨hg, -⟩ := v.read_eq_ok.1 hx
    exact Or.inl ⟨a, hg, v.modify_of_get hg f⟩

theorem read_of_dead (hp : p ≠ 0) (hd : m.heap.get p = none) :
    v.read p m = (.error (.dangling p), m) := by
  unfold read
  rw [Exec.bind_of_error (load_of_dead hp hd)]

end View

/-! ### Faults -/

section Faults

variable {α β γ δ : Type}

/-- Whatever goes wrong is a use of memory that is not there. -/
def FaultsOfMemory (x : Exec (Machine β γ) Fault α) : Prop := ∀ m f m', x m = (.error f, m') → f.OfMemory

theorem FaultsOfMemory.bind {x : Exec (Machine β γ) Fault α} {k : α → Exec (Machine β γ) Fault δ}
    (hx : FaultsOfMemory x) (hk : ∀ a, FaultsOfMemory (k a)) : FaultsOfMemory (x >>= k) := by
  intro m f m' h
  rcases hxm : x m with ⟨e | a, m₁⟩
  · rw [Exec.bind_of_error hxm] at h
    cases h
    exact hx m f m' hxm
  · rw [Exec.bind_of_ok hxm] at h
    exact hk a m₁ f m' h

theorem faultsOfMemory_pure (a : α) : FaultsOfMemory (pure a : Exec (Machine β γ) Fault α) := by
  intro m f m' h
  cases h

theorem faultsOfMemory_fault {e : Fault} (he : e.OfMemory) :
    FaultsOfMemory (Exec.fault e : Exec (Machine β γ) Fault α) := by
  intro m f m' h
  cases h
  exact he

theorem faultsOfMemory_update (g : Machine β γ → Machine β γ) : FaultsOfMemory (Exec.update g) := by
  intro m f m' h
  cases h

theorem faultsOfMemory_malloc (mk : (ℕ → ℕ) → β) :
    FaultsOfMemory (malloc mk : Exec (Machine β γ) Fault Ptr) := by
  intro m f m' h
  unfold malloc at h
  split at h <;> cases h

theorem faultsOfMemory_realloc (p : Ptr) (mk : Option β → (ℕ → ℕ) → β) :
    FaultsOfMemory (realloc p mk : Exec (Machine β γ) Fault Ptr) := by
  intro m f m' h
  unfold realloc at h
  split at h
  · cases h
    trivial
  · split at h <;> cases h

theorem faultsOfMemory_store (p : Ptr) (b : β) :
    FaultsOfMemory (store p b : Exec (Machine β γ) Fault Unit) := by
  intro m f m' h
  unfold store at h
  split at h
  · cases h
    trivial
  · split at h
    · cases h
    · cases h
      trivial

theorem faultsOfMemory_load (p : Ptr) : FaultsOfMemory (load p : Exec (Machine β γ) Fault β) := by
  intro m f m' h
  unfold load at h
  split at h
  · cases h
    trivial
  · rcases hg : m.heap.get p with _ | b
    · rw [hg] at h
      cases h
      trivial
    · rw [hg] at h
      cases h

theorem faultsOfMemory_read (v : View β α) (p : Ptr) :
    FaultsOfMemory (v.read p : Exec (Machine β γ) Fault α) := by
  refine (faultsOfMemory_load p).bind fun b => ?_
  rcases v.get b with _ | a
  · exact faultsOfMemory_fault trivial
  · exact faultsOfMemory_pure a

theorem faultsOfMemory_modify (v : View β α) (p : Ptr) (f : α → α) :
    FaultsOfMemory (v.modify p f : Exec (Machine β γ) Fault Unit) :=
  (faultsOfMemory_read v p).bind fun _ => faultsOfMemory_store p _

end Faults

end CMachine
