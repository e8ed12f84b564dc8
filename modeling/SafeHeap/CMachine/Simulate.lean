import SafeHeap.CMachine.Exec

/-!
# Simulation of abstract steps

A computation simulates an abstract step if, from related states, it returns, with a value and in a state
as some abstract step has them. Computations made one after the other then simulate abstract steps made one
after the other (`Simulates.inTurn`), so that what holds along abstract runs holds of the runs themselves.

A computation mirrors an abstract step that need not be defined if it returns exactly where the step is
(`Mirrors`).
-/

namespace CMachine

namespace Exec

variable {σ τ ε α β ι : Type}

/-- One computation after the other, with their values. -/
def inTurn (f : ι → Exec σ ε α) : List ι → Exec σ ε (List α)
  | [] => pure []
  | i :: is => do
    let a ← f i
    let as ← inTurn f is
    pure (a :: as)

/-- One abstract step after the other, with their values. -/
inductive Steps (step : ι → τ → α → τ → Prop) : List ι → τ → List α → τ → Prop
  | nil (t : τ) : Steps step [] t [] t
  | cons {i : ι} {is : List ι} {a : α} {as : List α} {t t₁ t₂ : τ} (h : step i t a t₁)
      (hs : Steps step is t₁ as t₂) : Steps step (i :: is) t (a :: as) t₂

/-- From related states, the computation returns as an abstract step does. -/
def Simulates (R : σ → τ → Prop) (step : τ → α → τ → Prop) (x : Exec σ ε α) : Prop :=
  ∀ s t, R s t → Ends x s fun a s' => ∃ t', step t a t' ∧ R s' t'

/-- **Simulations in turn** simulate the steps in turn. -/
theorem Simulates.inTurn {R : σ → τ → Prop} {step : ι → τ → α → τ → Prop} {f : ι → Exec σ ε α} :
    ∀ {is : List ι}, (∀ i ∈ is, Simulates R (step i) (f i)) → Simulates R (Steps step is) (inTurn f is) := by
  intro is
  induction is with
  | nil => exact fun _ s t h => ⟨[], s, rfl, t, .nil t, h⟩
  | cons i is ih =>
    intro hf s t h
    obtain ⟨a, s₁, hrun, t₁, hstep, h₁⟩ := hf i List.mem_cons_self s t h
    obtain ⟨as, s₂, hruns, t₂, hsteps, h₂⟩ := ih (fun j hj => hf j (List.mem_cons_of_mem _ hj)) s₁ t₁ h₁
    refine ⟨a :: as, s₂, ?_, t₂, .cons hstep hsteps, h₂⟩
    unfold Exec.inTurn
    rw [bind_of_ok hrun, bind_of_ok hruns]
    rfl

/-- What every abstract step keeps, a run of them keeps. -/
theorem Steps.keeps {step : ι → τ → α → τ → Prop} {R : τ → τ → Prop} [Std.Refl R] [IsTrans τ R]
    {is : List ι} {t t' : τ} {as : List α} (h : Steps step is t as t')
    (hstep : ∀ i ∈ is, ∀ t a t', step i t a t' → R t t') : R t t' := by
  induction h with
  | nil t => exact refl_of R t
  | cons h _ ih =>
    exact trans_of R (hstep _ List.mem_cons_self _ _ _ h) (ih fun i hi => hstep i (List.mem_cons_of_mem _ hi))

/-- From related states, the computation returns where the abstract step is defined, as it does, and stops where
it is not. -/
structure Mirrors (R : σ → τ → Prop) (step : τ → Option τ) (x : Exec σ ε α) : Prop where
  ends : ∀ {s t t'}, R s t → step t = some t' → Ends x s fun _ s' => R s' t'
  stops : ∀ {s t}, R s t → step t = none → ∃ e s', x s = (.error e, s')

section Mirrors

variable {R : σ → τ → Prop} {step step' : τ → Option τ} {x : Exec σ ε α}

theorem mirrors_pure (a : α) : Mirrors R some (pure a : Exec σ ε α) := by
  refine ⟨fun {s t t'} h ht => ?_, fun {s t} _ ht => by cases ht⟩
  cases ht
  exact ends_of_eq rfl h

theorem mirrors_none (h : ∀ s t, R s t → ∃ e s', x s = (.error e, s')) : Mirrors R (fun _ => none) x :=
  ⟨fun {s t t'} _ ht => by (cases ht), fun {s t} hR _ => h s t hR⟩

/-- **A sequence mirrors** the steps that its parts mirror, in turn. -/
theorem Mirrors.bind {f : α → Exec σ ε β} (hx : Mirrors R step x) (hf : ∀ a, Mirrors R step' (f a)) :
    Mirrors R (fun t => step t >>= step') (x >>= f) := by
  refine ⟨fun {s t t'} h ht => ?_, fun {s t} h ht => ?_⟩
  · obtain ⟨t₁, hstep, hstep'⟩ := Option.bind_eq_some_iff.1 ht
    obtain ⟨a, s₁, hrun, h₁⟩ := hx.ends h hstep
    obtain ⟨b, s₂, hrun', h₂⟩ := (hf a).ends h₁ hstep'
    exact ⟨b, s₂, (bind_of_ok hrun f).trans hrun', h₂⟩
  · rcases hstep : step t with _ | t₁
    · obtain ⟨e, s', hrun⟩ := hx.stops h hstep
      exact ⟨e, s', bind_of_error hrun f⟩
    · obtain ⟨a, s₁, hrun, h₁⟩ := hx.ends h hstep
      obtain ⟨e, s₂, hrun'⟩ := (hf a).stops h₁ (by simpa [hstep] using ht)
      exact ⟨e, s₂, (bind_of_ok hrun f).trans hrun'⟩

end Mirrors

end Exec

end CMachine
