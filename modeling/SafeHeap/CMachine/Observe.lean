import SafeHeap.CMachine.Heap

/-!
# What a computation can bring into the heap

`m.observe f p` is what `f` makes out in the block at `p`. `NoNew f g m m'`: whatever `f` makes out in
`m'` it made out in `m`, at the same address, and the part `g` of the globals is what it was. Blocks
may go, and addresses be used again; but a computation made of allocations and stores that `f` is blind
to brings nothing up that was not there before, and in particular changes nothing that it leaves.
`OnlyAt p m m'` is the frame of a computation that writes one block.
-/

namespace CMachine

variable {α β γ δ ω : Type}

/-- What `f` makes out in the block at `p`. -/
def Machine.observe (m : Machine β γ) (f : β → Option δ) (p : Ptr) : Option δ := (m.heap.get p).bind f

theorem Machine.observe_of_get {m : Machine β γ} {p : Ptr} {b : β} (h : m.heap.get p = some b)
    (f : β → Option δ) : m.observe f p = f b := by
  rw [observe, h]
  rfl

/-- Whatever is made out afterwards was made out before, and a part of the globals is the same. -/
structure NoNew (f : β → Option δ) (g : γ → ω) (m m' : Machine β γ) : Prop where
  seen : ∀ p a, m'.observe f p = some a → m.observe f p = some a
  kept : g m'.globals = g m.globals

namespace NoNew

variable {f : β → Option δ} {g : γ → ω}

instance : Std.Refl (NoNew f g) := ⟨fun _ => ⟨fun _ _ h => h, rfl⟩⟩

instance : IsTrans (Machine β γ) (NoNew f g) :=
  ⟨fun _ _ _ h₁ h₂ => ⟨fun p a h => h₁.seen p a (h₂.seen p a h), h₂.kept.trans h₁.kept⟩⟩

theorem of_heap_eq {m m' : Machine β γ} (h : m'.heap = m.heap) (hg : g m'.globals = g m.globals) :
    NoNew f g m m' := by
  refine ⟨fun p a hp => ?_, hg⟩
  rw [Machine.observe, h] at hp
  exact hp

theorem of_erase {m m' : Machine β γ} {q : Ptr} (h : m'.heap = m.heap.erase q)
    (hg : g m'.globals = g m.globals) : NoNew f g m m' := by
  refine ⟨fun p a hp => ?_, hg⟩
  rw [Machine.observe, h, Heap.get_erase] at hp
  by_cases hpq : p = q
  · rw [if_pos hpq] at hp
    cases hp
  · rw [if_neg hpq] at hp
    exact hp

/-- A block in which `f` makes out nothing but what it did before may be put anywhere. -/
theorem of_put {m m' : Machine β γ} {q : Ptr} {b : β} (hq : q ≠ 0) (h : m'.heap = m.heap.put q b)
    (hg : g m'.globals = g m.globals) (hf : ∀ a, f b = some a → m.observe f q = some a) :
    NoNew f g m m' := by
  refine ⟨fun p a hp => ?_, hg⟩
  rw [Machine.observe, h, Heap.get_put b hq] at hp
  by_cases hpq : p = q
  · rw [if_pos hpq] at hp
    rw [hpq]
    exact hf a hp
  · rw [if_neg hpq] at hp
    exact hp

/-! ### The primitive steps -/

open Exec

theorem keeps_malloc {mk : (ℕ → ℕ) → β} (hf : ∀ fill, f (mk fill) = none) :
    Keeps (NoNew f g) (malloc mk : Exec (Machine β γ) Fault Ptr) := by
  intro m
  by_cases h : m.next.ok = true
  · rw [malloc_of_ok h]
    refine of_put m.newAddr_ne_null (m.heap_granted _) rfl fun a ha => ?_
    rw [hf] at ha
    cases ha
  · rw [malloc_of_refused (by simpa using h)]
    exact of_heap_eq rfl rfl

theorem keeps_realloc {p : Ptr} {mk : Option β → (ℕ → ℕ) → β} (hf : ∀ old fill, f (mk old fill) = none) :
    Keeps (NoNew f g) (realloc p mk : Exec (Machine β γ) Fault Ptr) := by
  intro m
  by_cases hp : p = 0 ∨ m.heap.Live p
  · by_cases h : m.next.ok = true
    · rw [realloc_of_ok hp h]
      -- first the old block goes, then the new one comes
      have h₁ : NoNew f g m { m with heap := m.heap.erase p } := of_erase rfl rfl
      refine trans_of (NoNew f g) h₁ (of_put (m.movedAddr_ne_null p) (m.heap_moved p _) rfl fun a ha => ?_)
      rw [hf] at ha
      cases ha
    · rw [realloc_of_refused hp (by simpa using h)]
      exact of_heap_eq rfl rfl
  · rw [not_or] at hp
    rw [realloc_of_dead hp.1 hp.2]
    exact refl_of (NoNew f g) m

theorem keeps_store {p : Ptr} {b : β} (hf : f b = none) :
    Keeps (NoNew f g) (store p b : Exec (Machine β γ) Fault Unit) := by
  intro m
  by_cases hp : p = 0
  · have h : (store p b m).2 = m := by rw [hp]; rfl
    rw [h]
    exact refl_of (NoNew f g) m
  · by_cases hl : m.heap.Live p
    · rw [store_of_live hl]
      refine of_put hp (m.heap_stored p b) rfl fun a ha => ?_
      rw [hf] at ha
      cases ha
    · have h : (store p b m).2 = m := by simp only [store, hp, hl, if_false]
      rw [h]
      exact refl_of (NoNew f g) m

theorem keeps_free (p : Ptr) : Keeps (NoNew f g) (free p : Exec (Machine β γ) Fault Unit) := by
  intro m
  unfold free
  split_ifs
  · exact refl_of (NoNew f g) m
  · exact of_erase (m.heap_released p) rfl
  · exact refl_of (NoNew f g) m

theorem keeps_newLocal {b : β} (hf : f b = none) :
    Keeps (NoNew f g) (newLocal b : Exec (Machine β γ) Fault Ptr) := by
  intro m
  refine of_put (m.heap.fresh_ne_null 0) rfl rfl fun a ha => ?_
  rw [hf] at ha
  cases ha

theorem keeps_endLocal (p : Ptr) : Keeps (NoNew f g) (endLocal p : Exec (Machine β γ) Fault Unit) :=
  fun _ => of_erase rfl rfl

/-- A change that `f` does not see in the blocks of this kind. -/
theorem keeps_modify (v : View β α) (p : Ptr) {k : α → α}
    (hf : ∀ x a, f (v.put (k x)) = some a → f (v.put x) = some a) :
    Keeps (NoNew f g) (v.modify p k : Exec (Machine β γ) Fault Unit) := by
  intro m
  rcases hr : v.modify p k m with ⟨e | u, m'⟩
  · -- a change that fails has only read
    have hread := hr
    unfold View.modify at hread
    rcases hx : v.read p m with ⟨e' | x, m₁⟩
    · rw [bind_of_error hx] at hread
      obtain rfl : m₁ = m := by rw [← v.read_snd p m, hx]
      simp only [Prod.mk.injEq] at hread
      rw [← hread.2]
      exact refl_of (NoNew f g) m₁
    · obtain ⟨hg, -⟩ := v.read_eq_ok.1 hx
      rw [v.modify_of_get hg] at hr
      simp at hr
  · obtain ⟨x, hg, rfl⟩ := v.modify_eq_ok.1 hr
    refine of_put (Heap.ne_null hg) (m.heap_stored p _) rfl fun a ha => ?_
    rw [Machine.observe_of_get hg]
    exact hf x a ha

end NoNew

/-! ### Changing one block only -/

/-- Nothing but the block at `p` has changed, and the globals are the same. -/
structure OnlyAt (p : Ptr) (m m' : Machine β γ) : Prop where
  frame : ∀ q, q ≠ p → m'.heap.get q = m.heap.get q
  globals : m'.globals = m.globals

namespace OnlyAt

variable {p : Ptr}

instance : Std.Refl (OnlyAt p : Machine β γ → Machine β γ → Prop) := ⟨fun _ => ⟨fun _ _ => rfl, rfl⟩⟩

instance : IsTrans (Machine β γ) (OnlyAt p) :=
  ⟨fun _ _ _ h₁ h₂ => ⟨fun q hq => (h₂.frame q hq).trans (h₁.frame q hq), h₂.globals.trans h₁.globals⟩⟩

theorem keeps_store (b : β) : Exec.Keeps (OnlyAt p) (store p b : Exec (Machine β γ) Fault Unit) := by
  intro m
  unfold store
  split_ifs
  · exact refl_of (OnlyAt p) m
  · exact ⟨fun q hq => Heap.get_put_ne b hq, rfl⟩
  · exact refl_of (OnlyAt p) m

end OnlyAt

end CMachine
