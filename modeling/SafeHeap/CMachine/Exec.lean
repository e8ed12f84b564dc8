import Mathlib.Data.Nat.Notation
import Mathlib.Order.Defs.Unbundled
import Mathlib.Tactic.Common

/-!
# Computations that may stop in a fault

`Exec σ ε α` is a computation over states `σ` that either returns a value or stops in a fault of
type `ε`; the state in which it stops is kept, so that one can still ask what a faulting run did.

* `Ends x s Q` — from `s`, the computation returns, with a value and a state as `Q` asks: the
  weakest precondition of total correctness;
* `Keeps R x` — whatever happens, the end state is related to the start state by `R`; for a
  preorder `R` it is enough to look at the primitive steps;
* `Leaves I x s Q` — from `s`, the invariant `I` holds in the end, whatever happens, and a value
  returned comes with a state as `Q` asks: a triple for the steps that keep `I` only where they are
  used as they should be;
* `Stops E x s` — from `s`, a fault in which `x` stops is one that `E` allows.
-/

namespace CMachine

/-- A computation over states `σ`: a value or a fault, and the state reached. -/
def Exec (σ ε α : Type) : Type := σ → Except ε α × σ

namespace Exec

variable {σ ε α β : Type}

/-- Go on with the result of `x`, unless `x` stopped. -/
def andThen (x : Exec σ ε α) (f : α → Exec σ ε β) : Exec σ ε β := fun s =>
  match x s with
  | (.ok a, s') => f a s'
  | (.error e, s') => (.error e, s')

instance : Monad (Exec σ ε) where
  pure a := fun s => (.ok a, s)
  bind := andThen

/-- Stop. -/
def fault (e : ε) : Exec σ ε α := fun s => (.error e, s)

/-- Read the state. -/
def state : Exec σ ε σ := fun s => (.ok s, s)

/-- Change the state. -/
def update (g : σ → σ) : Exec σ ε Unit := fun s => (.ok (), g s)

@[simp] theorem pure_apply (a : α) (s : σ) : (pure a : Exec σ ε α) s = (.ok a, s) := rfl
@[simp] theorem fault_apply (e : ε) (s : σ) : (fault e : Exec σ ε α) s = (.error e, s) := rfl
@[simp] theorem state_apply (s : σ) : (state : Exec σ ε σ) s = (.ok s, s) := rfl
@[simp] theorem update_apply (g : σ → σ) (s : σ) : (update g : Exec σ ε Unit) s = (.ok (), g s) := rfl

theorem bind_apply (x : Exec σ ε α) (f : α → Exec σ ε β) (s : σ) :
    (x >>= f) s = match x s with
      | (.ok a, s') => f a s'
      | (.error e, s') => (.error e, s') := rfl

@[simp] theorem pure_bind_apply (a : α) (f : α → Exec σ ε β) (s : σ) :
    (pure a >>= f : Exec σ ε β) s = f a s := rfl
@[simp] theorem fault_bind_apply (e : ε) (f : α → Exec σ ε β) (s : σ) :
    (fault e >>= f : Exec σ ε β) s = (.error e, s) := rfl
@[simp] theorem state_bind_apply (f : σ → Exec σ ε β) (s : σ) : (state >>= f) s = f s s := rfl
@[simp] theorem update_bind_apply (g : σ → σ) (f : Unit → Exec σ ε β) (s : σ) :
    (update g >>= f) s = f () (g s) := rfl

theorem bind_of_ok {x : Exec σ ε α} {s s' : σ} {a : α} (h : x s = (.ok a, s')) (f : α → Exec σ ε β) :
    (x >>= f) s = f a s' := by
  rw [bind_apply, h]

theorem bind_of_error {x : Exec σ ε α} {s s' : σ} {e : ε} (h : x s = (.error e, s'))
    (f : α → Exec σ ε β) : (x >>= f) s = (.error e, s') := by
  rw [bind_apply, h]

/-- **A sequence returns** exactly when both parts do. -/
theorem bind_eq_ok {x : Exec σ ε α} {f : α → Exec σ ε β} {s s' : σ} {b : β} :
    (x >>= f) s = (.ok b, s') ↔ ∃ a s₁, x s = (.ok a, s₁) ∧ f a s₁ = (.ok b, s') := by
  rw [bind_apply]
  rcases hx : x s with ⟨e | a, s₁⟩
  · simp
  · simp

theorem bind_assoc_apply {γ : Type} (x : Exec σ ε α) (f : α → Exec σ ε β) (g : β → Exec σ ε γ) (s : σ) :
    ((x >>= f) >>= g) s = (x >>= fun a => f a >>= g) s := by
  simp only [bind_apply]
  rcases x s with ⟨e | a, s₁⟩ <;> rfl

theorem bind_assoc {γ : Type} (x : Exec σ ε α) (f : α → Exec σ ε β) (g : β → Exec σ ε γ) :
    (x >>= f) >>= g = x >>= fun a => f a >>= g := funext (bind_assoc_apply x f g)

theorem pure_bind (a : α) (f : α → Exec σ ε β) : (pure a >>= f : Exec σ ε β) = f a := rfl

/-! ### Returning, with a result as asked -/

/-- From `s`, `x` returns a value and a state satisfying `Q`. -/
def Ends (x : Exec σ ε α) (s : σ) (Q : α → σ → Prop) : Prop := ∃ a s', x s = (.ok a, s') ∧ Q a s'

theorem ends_of_eq {x : Exec σ ε α} {s s' : σ} {a : α} {Q : α → σ → Prop} (h : x s = (.ok a, s'))
    (hQ : Q a s') : Ends x s Q := ⟨a, s', h, hQ⟩

/-- What is asked of a computation that is known to return. -/
theorem ends_iff_of_eq {x : Exec σ ε α} {s s' : σ} {a : α} {Q : α → σ → Prop}
    (h : x s = (.ok a, s')) : Ends x s Q ↔ Q a s' := by
  constructor
  · rintro ⟨b, t, hb, hQ⟩
    rw [h] at hb
    simp only [Prod.mk.injEq, Except.ok.injEq] at hb
    obtain ⟨rfl, rfl⟩ := hb
    exact hQ
  · exact ends_of_eq h

/-- A computation that stops does not end as asked. -/
theorem not_ends_of_error {x : Exec σ ε α} {s s' : σ} {e : ε} {Q : α → σ → Prop}
    (h : x s = (.error e, s')) : ¬ Ends x s Q := by
  rintro ⟨b, t, hb, -⟩
  rw [h] at hb
  simp at hb

/-! ### What every run keeps -/

/-- However `x` ends, its end state is related to its start state. -/
def Keeps (R : σ → σ → Prop) (x : Exec σ ε α) : Prop := ∀ s, R s (x s).2

section Keeps

variable {R : σ → σ → Prop}

theorem keeps_pure [Std.Refl R] (a : α) : Keeps R (pure a : Exec σ ε α) := fun s => refl_of R s
theorem keeps_fault [Std.Refl R] (e : ε) : Keeps R (fault e : Exec σ ε α) := fun s => refl_of R s

/-- **A sequence keeps what both of its parts keep.** -/
theorem Keeps.bind [IsTrans σ R] {x : Exec σ ε α} {f : α → Exec σ ε β} (hx : Keeps R x)
    (hf : ∀ a, Keeps R (f a)) : Keeps R (x >>= f) := by
  intro s
  have h := hx s
  rw [bind_apply]
  rcases hxs : x s with ⟨e | a, s₁⟩
  · rw [hxs] at h
    exact h
  · rw [hxs] at h
    exact trans_of R h (hf a s₁)

theorem Keeps.of_eq {x : Exec σ ε α} (h : Keeps R x) {s s' : σ} {r : Except ε α} (hx : x s = (r, s')) :
    R s s' := by
  have := h s
  rwa [hx] at this

/-- A computation that only reads keeps everything. -/
theorem Keeps.of_reads [Std.Refl R] {x : Exec σ ε α} (h : Keeps Eq x) : Keeps R x := by
  intro s
  rw [← h s]
  exact refl_of R s

end Keeps

/-! ### What is left on every way out -/

/-- From `s`, `x` ends in a state with `I`, and if it returns, then as `Q` asks. -/
def Leaves (I : σ → Prop) (x : Exec σ ε α) (s : σ) (Q : α → σ → Prop) : Prop :=
  I (x s).2 ∧ ∀ a s', x s = (.ok a, s') → Q a s'

section Leaves

variable {I : σ → Prop} {x : Exec σ ε α} {s s' : σ} {Q Q' : α → σ → Prop}

theorem leaves_of_ok {a : α} (h : x s = (.ok a, s')) (hI : I s') (hQ : Q a s') : Leaves I x s Q := by
  refine ⟨by rwa [h], fun b t hb => ?_⟩
  rw [h] at hb
  cases hb
  exact hQ

theorem leaves_of_error {e : ε} (h : x s = (.error e, s')) (hI : I s') : Leaves I x s Q := by
  refine ⟨by rwa [h], fun b t hb => ?_⟩
  rw [h] at hb
  cases hb

theorem leaves_pure {a : α} (hI : I s) (hQ : Q a s) : Leaves I (pure a : Exec σ ε α) s Q :=
  leaves_of_ok rfl hI hQ

theorem leaves_fault {e : ε} (hI : I s) : Leaves I (fault e : Exec σ ε α) s Q := leaves_of_error rfl hI

theorem Leaves.mono (h : Leaves I x s Q) (hQ : ∀ a s', I s' → Q a s' → Q' a s') : Leaves I x s Q' := by
  refine ⟨h.1, fun a s' ha => hQ a s' ?_ (h.2 a s' ha)⟩
  have hI := h.1
  rwa [ha] at hI

/-- **A sequence leaves what its second part leaves** wherever the first part has ended. -/
theorem Leaves.bind {f : α → Exec σ ε β} {R : β → σ → Prop} (hx : Leaves I x s Q)
    (hf : ∀ a s', I s' → Q a s' → Leaves I (f a) s' R) : Leaves I (x >>= f) s R := by
  rcases hxs : x s with ⟨e | a, s'⟩
  · refine leaves_of_error (bind_of_error hxs f) ?_
    have hI := hx.1
    rwa [hxs] at hI
  · have hI := hx.1
    rw [hxs] at hI
    have hrest := hf a s' hI (hx.2 a s' hxs)
    unfold Leaves at hrest ⊢
    rwa [bind_of_ok hxs]

/-- What every run keeps, a run that leaves `I` keeps as well. -/
theorem Leaves.and_keeps {R : σ → σ → Prop} (h : Leaves I x s Q) (hx : Keeps R x) :
    Leaves I x s fun a s' => Q a s' ∧ R s s' :=
  ⟨h.1, fun a s' ha => ⟨h.2 a s' ha, hx.of_eq ha⟩⟩

/-- A computation that only reads leaves anything that is there. -/
theorem leaves_of_reads (hx : Keeps Eq x) (hI : I s) : Leaves I x s fun _ s' => s' = s := by
  refine ⟨?_, fun a s' ha => (hx.of_eq ha).symm⟩
  rwa [← hx s]

end Leaves

/-! ### What a computation stops in -/

/-- From `s`, `x` stops in no other faults than those of `E`. -/
def Stops (E : ε → Prop) (x : Exec σ ε α) (s : σ) : Prop := ∀ e s', x s = (.error e, s') → E e

section Stops

variable {E : ε → Prop} {x : Exec σ ε α} {s s' : σ}

theorem stops_of_ok {a : α} (h : x s = (.ok a, s')) : Stops E x s := by
  intro e t he
  rw [h] at he
  cases he

theorem stops_of_error {e : ε} (h : x s = (.error e, s')) (he : E e) : Stops E x s := by
  intro e' t he'
  rw [h] at he'
  cases he'
  exact he

/-- **A sequence stops** in its first part, or in its second part wherever the first has ended. -/
theorem Stops.bind {f : α → Exec σ ε β} (hx : Stops E x s) (hf : ∀ a s', x s = (.ok a, s') → Stops E (f a) s') :
    Stops E (x >>= f) s := by
  rcases hxs : x s with ⟨e | a, s'⟩
  · exact stops_of_error (bind_of_error hxs f) (hx e s' hxs)
  · intro e t he
    rw [bind_of_ok hxs] at he
    exact hf a s' hxs e t he

end Stops

end Exec

end CMachine
