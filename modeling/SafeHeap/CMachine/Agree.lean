import SafeHeap.CMachine.Scan

/-!
# Two runs that agree

`Agree R V x y`: from states that `R` relates, `x` and `y` both return, with values that `V` relates, or both
stop in the same fault, and `R` relates the states in which they end. The rules are those of the single
steps, and that of a sequence (`Agree.bind`).

Two machines are `Alike B` if block by block their heaps are related by `B`, and all else is the same: the
next addresses, the answers of the allocator and the calls made of it, the error, the globals. The allocator
cannot tell such machines apart.
-/

namespace CMachine

namespace Exec

variable {σ ε α α' β β' : Type}

/-- Both have returned, with related values, or stopped in the same fault. -/
inductive Matches (V : α → β → Prop) : Except ε α → Except ε β → Prop
  | ok {a : α} {b : β} (h : V a b) : Matches V (.ok a) (.ok b)
  | error (e : ε) : Matches V (.error e) (.error e)

/-- From related states, the two come to matching results in related states. -/
def Agree (R : σ → σ → Prop) (V : α → β → Prop) (x : Exec σ ε α) (y : Exec σ ε β) : Prop :=
  ∀ s₁ s₂, R s₁ s₂ → Matches V (x s₁).1 (y s₂).1 ∧ R (x s₁).2 (y s₂).2

section Agree

variable {R : σ → σ → Prop} {V : α → β → Prop} {W : α' → β' → Prop}

theorem agree_pure {a : α} {b : β} (h : V a b) : Agree R V (pure a : Exec σ ε α) (pure b) :=
  fun _ _ hs => ⟨.ok h, hs⟩

theorem agree_fault (e : ε) : Agree R V (fault e : Exec σ ε α) (fault e : Exec σ ε β) :=
  fun _ _ hs => ⟨.error e, hs⟩

theorem agree_update {f g : σ → σ} (h : ∀ s₁ s₂, R s₁ s₂ → R (f s₁) (g s₂)) :
    Agree R Eq (update f : Exec σ ε Unit) (update g) :=
  fun s₁ s₂ hs => ⟨.ok rfl, h s₁ s₂ hs⟩

theorem agree_ite {c : Prop} [Decidable c] {x x' : Exec σ ε α} {y y' : Exec σ ε β} (hx : c → Agree R V x y)
    (hy : ¬ c → Agree R V x' y') : Agree R V (if c then x else x') (if c then y else y') := by
  by_cases h : c
  · rw [if_pos h, if_pos h]
    exact hx h
  · rw [if_neg h, if_neg h]
    exact hy h

/-- **Sequences agree** if their first parts do, and their second parts after related values. -/
theorem Agree.bind {x : Exec σ ε α} {y : Exec σ ε β} {f : α → Exec σ ε α'} {g : β → Exec σ ε β'}
    (hx : Agree R V x y) (hf : ∀ a b, V a b → Agree R W (f a) (g b)) : Agree R W (x >>= f) (y >>= g) := by
  intro s₁ s₂ hs
  obtain ⟨hmatch, hend⟩ := hx s₁ s₂ hs
  rw [bind_apply, bind_apply]
  rcases hx₁ : x s₁ with ⟨e | a, t₁⟩ <;> rcases hy₂ : y s₂ with ⟨e' | b, t₂⟩ <;>
    rw [hx₁, hy₂] at hmatch hend
  · cases hmatch
    exact ⟨.error e, hend⟩
  · cases hmatch
  · cases hmatch
  · cases hmatch with
    | ok h => exact hf a b h t₁ t₂ hend

/-- A sequence after the same value on both sides. -/
theorem Agree.bind_eq {x y : Exec σ ε α} {f : α → Exec σ ε α'} {g : α → Exec σ ε β'} (hx : Agree R Eq x y)
    (hf : ∀ a, Agree R W (f a) (g a)) : Agree R W (x >>= f) (y >>= g) := by
  refine hx.bind fun a b h => ?_
  rw [← h]
  exact hf a

end Agree

end Exec

open Exec

variable {α β γ : Type}

/-- Two calls of the allocator that differ in what is in the blocks, if at all. -/
inductive Event.Alike (B : β → β → Prop) : Event β → Event β → Prop
  | alloc (p : Ptr) {b b' : β} (h : B b b') : Event.Alike B (.alloc p b) (.alloc p b')
  | resize (p q : Ptr) {b b' : β} (h : B b b') : Event.Alike B (.resize p q b) (.resize p q b')
  | release (p : Ptr) : Event.Alike B (.release p) (.release p)
  | refuse : Event.Alike B .refuse .refuse

/-- The machines differ in what is in the blocks, as `B` allows, if at all. -/
structure Alike (B : β → β → Prop) (m₁ m₂ : Machine β γ) : Prop where
  blocks : ∀ p, Option.Rel B (m₁.heap.get p) (m₂.heap.get p)
  top : m₁.heap.top = m₂.heap.top
  answer : m₁.answer = m₂.answer
  calls : m₁.calls = m₂.calls
  trace : List.Forall₂ (Event.Alike B) m₁.trace m₂.trace
  errno : m₁.errno = m₂.errno
  globals : m₁.globals = m₂.globals

section Heap

variable {B : β → β → Prop} {h₁ h₂ : Heap β}

theorem isNone_of_rel {o₁ o₂ : Option β} (h : Option.Rel B o₁ o₂) : o₁.isNone = o₂.isNone := by
  cases h <;> rfl

theorem isSome_of_rel {o₁ o₂ : Option β} (h : Option.Rel B o₁ o₂) : o₁.isSome = o₂.isSome := by
  cases h <;> rfl

theorem live_iff_of_rel {p : Ptr} (h : Option.Rel B (h₁.get p) (h₂.get p)) : h₁.Live p ↔ h₂.Live p := by
  unfold Heap.Live
  rw [isSome_of_rel h]

theorem fresh_of_rel (hb : ∀ p, Option.Rel B (h₁.get p) (h₂.get p)) (ht : h₁.top = h₂.top) (hint : Ptr) :
    h₁.fresh hint = h₂.fresh hint := by
  unfold Heap.fresh
  rw [isNone_of_rel (hb hint), ht]

theorem rel_put (hb : ∀ p, Option.Rel B (h₁.get p) (h₂.get p)) {p : Ptr} (hp : p ≠ 0) {b b' : β} (h : B b b')
    (q : Ptr) : Option.Rel B ((h₁.put p b).get q) ((h₂.put p b').get q) := by
  rw [Heap.get_put b hp, Heap.get_put b' hp]
  split
  · exact .some h
  · exact hb q

theorem rel_erase (hb : ∀ p, Option.Rel B (h₁.get p) (h₂.get p)) (p q : Ptr) :
    Option.Rel B ((h₁.erase p).get q) ((h₂.erase p).get q) := by
  rw [Heap.get_erase, Heap.get_erase]
  split
  · exact .none
  · exact hb q

end Heap

section Rules

variable {B : β → β → Prop} {m₁ m₂ : Machine β γ}

theorem Alike.next (h : Alike B m₁ m₂) : m₁.next = m₂.next := by
  rw [Machine.next, Machine.next, h.answer, h.calls]

theorem Alike.newAddr (h : Alike B m₁ m₂) : m₁.newAddr = m₂.newAddr := by
  rw [Machine.newAddr, Machine.newAddr, h.next, fresh_of_rel h.blocks h.top]

theorem Alike.movedAddr (h : Alike B m₁ m₂) (p : Ptr) : m₁.movedAddr p = m₂.movedAddr p := by
  rw [Machine.movedAddr, Machine.movedAddr, h.next, fresh_of_rel (rel_erase h.blocks p) h.top]

theorem Alike.refused (h : Alike B m₁ m₂) : Alike B m₁.refused m₂.refused := by
  refine ⟨h.blocks, h.top, h.answer, ?_, ?_, rfl, h.globals⟩
  · rw [Machine.calls_refused, Machine.calls_refused, h.calls]
  · exact List.rel_append h.trace (.cons .refuse .nil)

/-- The allocator answers both alike. -/
theorem agree_malloc {mk₁ mk₂ : (ℕ → ℕ) → β} (hmk : ∀ fill, B (mk₁ fill) (mk₂ fill)) :
    Agree (Alike B) Eq (malloc mk₁ : Exec (Machine β γ) Fault Ptr) (malloc mk₂) := by
  intro m₁ m₂ h
  by_cases hok : m₁.next.ok = true
  · rw [malloc_of_ok hok, malloc_of_ok (by rwa [← h.next])]
    refine ⟨.ok h.newAddr, ⟨fun q => ?_, ?_, h.answer, ?_, ?_, h.errno, h.globals⟩⟩
    · rw [Machine.heap_granted, Machine.heap_granted, ← h.newAddr, ← h.next]
      exact rel_put h.blocks m₁.newAddr_ne_null (hmk _) q
    · rw [Machine.heap_granted, Machine.heap_granted, ← h.newAddr]
      show max _ _ = max _ _
      rw [h.top]
    · rw [Machine.calls_granted, Machine.calls_granted, h.calls]
    · rw [Machine.trace_granted, Machine.trace_granted, ← h.newAddr, ← h.next]
      exact List.rel_append h.trace (.cons (.alloc _ (hmk _)) .nil)
  · rw [Bool.not_eq_true] at hok
    rw [malloc_of_refused hok, malloc_of_refused (by rwa [← h.next])]
    exact ⟨.ok rfl, h.refused⟩

theorem agree_realloc (p : Ptr) {mk₁ mk₂ : Option β → (ℕ → ℕ) → β}
    (hmk : ∀ o₁ o₂ fill, Option.Rel B o₁ o₂ → B (mk₁ o₁ fill) (mk₂ o₂ fill)) :
    Agree (Alike B) Eq (realloc p mk₁ : Exec (Machine β γ) Fault Ptr) (realloc p mk₂) := by
  intro m₁ m₂ h
  have hlive := live_iff_of_rel (h.blocks p)
  by_cases hp : p = 0 ∨ m₁.heap.Live p
  · have hp₂ : p = 0 ∨ m₂.heap.Live p := hp.imp_right hlive.1
    by_cases hok : m₁.next.ok = true
    · rw [realloc_of_ok hp hok, realloc_of_ok hp₂ (by rwa [← h.next])]
      have hb := hmk _ _ m₁.next.fill (h.blocks p)
      refine ⟨.ok (h.movedAddr p), ⟨fun q => ?_, ?_, h.answer, ?_, ?_, h.errno, h.globals⟩⟩
      · rw [Machine.heap_moved, Machine.heap_moved, ← h.movedAddr, ← h.next]
        exact rel_put (rel_erase h.blocks p) (m₁.movedAddr_ne_null p) hb q
      · rw [Machine.heap_moved, Machine.heap_moved, ← h.movedAddr]
        show max _ _ = max _ _
        exact congrArg (max · _) h.top
      · rw [Machine.calls_moved, Machine.calls_moved, h.calls]
      · rw [Machine.trace_moved, Machine.trace_moved, ← h.movedAddr, ← h.next]
        exact List.rel_append h.trace (.cons (.resize _ _ hb) .nil)
    · rw [Bool.not_eq_true] at hok
      rw [realloc_of_refused hp hok, realloc_of_refused hp₂ (by rwa [← h.next])]
      exact ⟨.ok rfl, h.refused⟩
  · rw [not_or] at hp
    rw [realloc_of_dead hp.1 hp.2, realloc_of_dead hp.1 fun hl => hp.2 (hlive.2 hl)]
    exact ⟨.error _, h⟩

theorem agree_free (p : Ptr) : Agree (Alike B) Eq (free p : Exec (Machine β γ) Fault Unit) (free p) := by
  intro m₁ m₂ h
  have hlive := live_iff_of_rel (h.blocks p)
  by_cases hp : p = 0
  · subst hp
    exact ⟨.ok rfl, h⟩
  · by_cases hl : m₁.heap.Live p
    · rw [free_of_live hl, free_of_live (hlive.1 hl)]
      refine ⟨.ok rfl, ⟨rel_erase h.blocks p, h.top, h.answer, h.calls, ?_, h.errno, h.globals⟩⟩
      exact List.rel_append h.trace (.cons (.release p) .nil)
    · rw [free_of_dead hp hl, free_of_dead hp fun hl₂ => hl (hlive.2 hl₂)]
      exact ⟨.error _, h⟩

theorem agree_load (p : Ptr) : Agree (Alike B) B (load p : Exec (Machine β γ) Fault β) (load p) := by
  intro m₁ m₂ h
  by_cases hp : p = 0
  · subst hp
    exact ⟨.error _, h⟩
  · have hblock := h.blocks p
    rcases h₁ : m₁.heap.get p with _ | b <;> rcases h₂ : m₂.heap.get p with _ | b' <;> rw [h₁, h₂] at hblock
    · rw [load_of_dead hp h₁, load_of_dead hp h₂]
      exact ⟨.error _, h⟩
    · cases hblock
    · cases hblock
    · cases hblock with
      | some hb =>
        rw [load_of_get h₁, load_of_get h₂]
        exact ⟨.ok hb, h⟩

theorem agree_store (p : Ptr) {b b' : β} (hb : B b b') :
    Agree (Alike B) Eq (store p b : Exec (Machine β γ) Fault Unit) (store p b') := by
  intro m₁ m₂ h
  have hlive := live_iff_of_rel (h.blocks p)
  by_cases hp : p = 0
  · subst hp
    exact ⟨.error _, h⟩
  · by_cases hl : m₁.heap.Live p
    · rw [store_of_live hl, store_of_live (hlive.1 hl)]
      refine ⟨.ok rfl, ⟨rel_put h.blocks hp hb, ?_, h.answer, h.calls, h.trace, h.errno, h.globals⟩⟩
      show max _ _ = max _ _
      rw [h.top]
    · have h₂ : ¬ m₂.heap.Live p := fun hl₂ => hl (hlive.2 hl₂)
      have hrun : ∀ {m : Machine β γ} {c : β}, ¬ m.heap.Live p → store p c m = (.error (.dangling p), m) := by
        intro m c hl
        simp only [store, hp, hl, if_false]
      rw [hrun hl, hrun h₂]
      exact ⟨.error _, h⟩

theorem agree_newLocal {b b' : β} (hb : B b b') :
    Agree (Alike B) Eq (newLocal b : Exec (Machine β γ) Fault Ptr) (newLocal b') := by
  intro m₁ m₂ h
  have haddr : m₁.localAddr = m₂.localAddr := fresh_of_rel h.blocks h.top 0
  refine ⟨.ok haddr, ⟨?_, ?_, h.answer, h.calls, h.trace, h.errno, h.globals⟩⟩
  · show ∀ q, Option.Rel B ((m₁.heap.put m₁.localAddr b).get q) ((m₂.heap.put m₂.localAddr b').get q)
    rw [← haddr]
    exact rel_put h.blocks (m₁.heap.fresh_ne_null 0) hb
  · show max _ _ = max _ _
    rw [h.top, haddr]

theorem agree_endLocal (p : Ptr) :
    Agree (Alike B) Eq (endLocal p : Exec (Machine β γ) Fault Unit) (endLocal p) :=
  agree_update fun _ _ h => ⟨rel_erase h.blocks p, h.top, h.answer, h.calls, h.trace, h.errno, h.globals⟩

theorem agree_globals : Agree (Alike B) Eq (globals : Exec (Machine β γ) Fault γ) globals :=
  fun _ _ h => ⟨.ok h.globals, h⟩

theorem agree_scan {ρ : Type} (rows : List ρ) (pick : ρ → Option α) (left x : ℕ) :
    Agree (Alike B) Eq (scan rows pick left x : Exec (Machine β γ) Fault (Option α)) (scan rows pick left x) := by
  obtain ⟨r, hrun, -⟩ := scan_pure (σ := Machine β γ) rows pick left x
  intro m₁ m₂ h
  rw [hrun, hrun]
  refine ⟨?_, h⟩
  cases r with
  | error e => exact .error e
  | ok a => exact .ok rfl

/-! ### Views -/

variable {v : View β α} {V : α → α → Prop}

theorem agree_read (hv : ∀ b b', B b b' → Option.Rel V (v.get b) (v.get b')) (p : Ptr) :
    Agree (Alike B) V (v.read p : Exec (Machine β γ) Fault α) (v.read p) := by
  refine (agree_load p).bind fun b b' hb => ?_
  have hget := hv b b' hb
  rcases h₁ : v.get b with _ | a <;> rcases h₂ : v.get b' with _ | a' <;> rw [h₁, h₂] at hget
  · exact agree_fault _
  · cases hget
  · cases hget
  · cases hget with
    | some h => exact agree_pure h

theorem agree_modify (hv : ∀ b b', B b b' → Option.Rel V (v.get b) (v.get b')) (p : Ptr) {f f' : α → α}
    (hf : ∀ a a', V a a' → B (v.put (f a)) (v.put (f' a'))) :
    Agree (Alike B) Eq (v.modify p f : Exec (Machine β γ) Fault Unit) (v.modify p f') :=
  (agree_read hv p).bind fun a a' h => agree_store p (hf a a' h)

end Rules

end CMachine
