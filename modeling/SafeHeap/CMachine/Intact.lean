import Mathlib.Data.Set.Defs
import SafeHeap.CMachine.Observe

/-!
# Blocks that are left intact

`Intact own m₀ m`: the blocks at the addresses `own` were live in `m₀`, and hold in `m` what they held
there; and no call of the allocator in between was about one of them. A step of the machine leaves the
blocks intact if it is not applied to one of them; what the allocator hands out never is.
-/

namespace CMachine

variable {α β γ : Type}

/-- The call of the allocator is not about one of the addresses. -/
def Event.Apart (own : Set Ptr) : Event β → Prop
  | .alloc p _ => p ∉ own
  | .resize p q _ => p ∉ own ∧ q ∉ own
  | .release p => p ∉ own
  | .refuse => True

/-- The blocks at `own` are as they were in `m₀`, and have not been the concern of the allocator. -/
structure Intact (own : Set Ptr) (m₀ m : Machine β γ) : Prop where
  blocks : ∀ p ∈ own, ∃ b, m₀.heap.get p = some b ∧ m.heap.get p = some b
  calls : ∃ evs, m.trace = m₀.trace ++ evs ∧ ∀ e ∈ evs, e.Apart own
  answer : m.answer = m₀.answer

namespace Intact

open Exec

variable {own : Set Ptr} {m₀ m m' : Machine β γ} {p : Ptr} {b : β}

theorem refl (h : ∀ p ∈ own, m.heap.Live p) : Intact own m m := by
  refine ⟨fun p hp => ?_, ⟨[], by simp, by simp⟩, rfl⟩
  obtain ⟨b, hb⟩ := Heap.get_of_live (h p hp)
  exact ⟨b, hb, hb⟩

theorem get_eq (h : Intact own m₀ m) (hp : p ∈ own) : m.heap.get p = m₀.heap.get p := by
  obtain ⟨b, hb₀, hb⟩ := h.blocks p hp
  rw [hb₀, hb]

theorem not_mem_of_get (h : Intact own m₀ m) (hp : m.heap.get p = none) : p ∉ own := by
  intro hmem
  obtain ⟨b, -, hb⟩ := h.blocks p hmem
  rw [hp] at hb
  cases hb

theorem null_not_mem (h : Intact own m₀ m) : 0 ∉ own := h.not_mem_of_get m.heap.get_null

/-- A step that leaves these blocks alone, with the calls it has made. -/
theorem step (h : Intact own m₀ m) (evs : List (Event β)) (hb : ∀ p ∈ own, m'.heap.get p = m.heap.get p)
    (ht : m'.trace = m.trace ++ evs) (he : ∀ e ∈ evs, e.Apart own) (ha : m'.answer = m.answer) :
    Intact own m₀ m' := by
  obtain ⟨before, htrace, hbefore⟩ := h.calls
  refine ⟨fun p hp => ?_, ⟨before ++ evs, by rw [ht, htrace, List.append_assoc], fun e hmem => ?_⟩,
    ha.trans h.answer⟩
  · rw [hb p hp]
    exact h.blocks p hp
  · rcases List.mem_append.1 hmem with hmem | hmem
    · exact hbefore e hmem
    · exact he e hmem

theorem step_quiet (h : Intact own m₀ m) (hb : ∀ p ∈ own, m'.heap.get p = m.heap.get p)
    (ht : m'.trace = m.trace) (ha : m'.answer = m.answer) : Intact own m₀ m' :=
  h.step [] hb (by rw [ht, List.append_nil]) (by simp) ha

/-! ### The primitive steps -/

/-- What `malloc` returns is none of the blocks. -/
theorem leaves_malloc (h : Intact own m₀ m) (mk : (ℕ → ℕ) → β) :
    Leaves (Intact own m₀) (malloc mk) m fun a _ => a ∉ own := by
  by_cases hok : m.next.ok = true
  · have hnew : m.newAddr ∉ own := h.not_mem_of_get m.get_newAddr
    refine leaves_of_ok (malloc_of_ok hok mk) (h.step _ (fun p hp => ?_) (m.trace_granted _) ?_ rfl) hnew
    · exact Heap.get_put_ne _ fun he => hnew (he ▸ hp)
    · simpa [Event.Apart] using hnew
  · refine leaves_of_ok (malloc_of_refused (by simpa using hok) mk) ?_ h.null_not_mem
    exact h.step _ (fun _ _ => rfl) m.trace_refused (by simp [Event.Apart]) rfl

/-- What `realloc` returns is none of the blocks, if it is not asked to resize one. -/
theorem leaves_realloc (h : Intact own m₀ m) (hp : p ∉ own) (mk : Option β → (ℕ → ℕ) → β) :
    Leaves (Intact own m₀) (realloc p mk) m fun a _ => a ∉ own := by
  by_cases hlive : p = 0 ∨ m.heap.Live p
  · by_cases hok : m.next.ok = true
    · have hne : ∀ q ∈ own, q ≠ p := fun q hq he => hp (he ▸ hq)
      have hmoved : m.movedAddr p ∉ own := fun hmem => by
        obtain ⟨b, -, hb⟩ := h.blocks _ hmem
        exact Machine.ne_movedAddr hb (hne _ hmem) rfl
      refine leaves_of_ok (realloc_of_ok hlive hok mk) (h.step _ (fun q hq => ?_) (m.trace_moved p _) ?_ rfl) hmoved
      · have hqm : q ≠ m.movedAddr p := fun he => hmoved (he ▸ hq)
        rw [Machine.heap_moved, Heap.get_put_ne _ hqm, Heap.get_erase_ne (hne q hq)]
      · simpa [Event.Apart] using And.intro hp hmoved
    · refine leaves_of_ok (realloc_of_refused hlive (by simpa using hok) mk) ?_ h.null_not_mem
      exact h.step _ (fun _ _ => rfl) m.trace_refused (by simp [Event.Apart]) rfl
  · rw [not_or] at hlive
    exact leaves_of_error (realloc_of_dead hlive.1 hlive.2 mk) h

theorem leaves_free (h : Intact own m₀ m) (hp : p ∉ own) : Leaves (Intact own m₀) (free p) m fun _ _ => True := by
  by_cases h0 : p = 0
  · subst h0
    exact leaves_of_ok free_null h trivial
  · by_cases hl : m.heap.Live p
    · refine leaves_of_ok (free_of_live hl) (h.step _ (fun q hq => ?_) (m.trace_released p) ?_ rfl) trivial
      · exact Heap.get_erase_ne fun he => hp (he ▸ hq)
      · simpa [Event.Apart] using hp
    · exact leaves_of_error (free_of_dead h0 hl) h

theorem leaves_store (h : Intact own m₀ m) (hp : p ∉ own) (b : β) :
    Leaves (Intact own m₀) (store p b) m fun _ _ => True := by
  by_cases h0 : p = 0
  · subst h0
    exact leaves_of_error rfl h
  · by_cases hl : m.heap.Live p
    · refine leaves_of_ok (store_of_live hl b) (h.step_quiet (fun q hq => ?_) rfl rfl) trivial
      exact Heap.get_put_ne _ fun he => hp (he ▸ hq)
    · refine leaves_of_error (e := .dangling p) ?_ h
      simp only [store, h0, hl, if_false]

theorem leaves_read (h : Intact own m₀ m) (v : View β α) (p : Ptr) :
    Leaves (Intact own m₀) (v.read p) m fun a m' => m' = m ∧ m.heap.get p = some (v.put a) := by
  refine ⟨by rwa [v.read_snd], fun a m' ha => ?_⟩
  obtain ⟨hget, rfl⟩ := v.read_eq_ok.1 ha
  exact ⟨rfl, hget⟩

theorem leaves_modify (h : Intact own m₀ m) (v : View β α) (hp : p ∉ own) (k : α → α) :
    Leaves (Intact own m₀) (v.modify p k) m fun _ _ => True :=
  (h.leaves_read v p).bind fun _ _ h' _ => h'.leaves_store hp _

theorem leaves_newLocal (h : Intact own m₀ m) (b : β) :
    Leaves (Intact own m₀) (newLocal b) m fun a _ => a ∉ own := by
  have hnew : m.localAddr ∉ own := h.not_mem_of_get (m.heap.get_fresh 0)
  refine leaves_of_ok rfl (h.step_quiet (fun q hq => ?_) rfl rfl) hnew
  exact Heap.get_put_ne _ fun he => hnew (he ▸ hq)

theorem leaves_endLocal (h : Intact own m₀ m) (hp : p ∉ own) :
    Leaves (Intact own m₀) (endLocal p) m fun _ _ => True := by
  refine leaves_of_ok rfl (h.step_quiet (fun q hq => ?_) rfl rfl) trivial
  exact Heap.get_erase_ne fun he => hp (he ▸ hq)

end Intact

end CMachine
