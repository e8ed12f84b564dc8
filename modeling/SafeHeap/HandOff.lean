import SafeHeap.Register

/-!
# The pointers the user is handed

A state is reached by calls of `sh_malloc` and `sh_read` in any order (`Reaches`), the lookup of a
buffer being taken to find the entry of its allocation. The pointer that the user holds for an
allocation should be the one its entry records, and a read should leave the entries alone
(`HandOff`).

The pointer that `sh_malloc` hands out is the address of the entry, and the entry records `NULL`
(`Reaches.newest`); and when the user reads, `sh_reset` releases the entry before `sh_read` goes
through it (`shRead_stops`). So `handOff_iff` leaves the states in which nothing is allocated.
-/

namespace SafeHeap

open CMachine

/-- An allocation: its entry, and the pointer that the user has been handed last. -/
structure Allocation where
  entry : Ptr
  handed : Ptr
  deriving DecidableEq

variable (shDecryptBuffer : Ptr → Ptr → Prog Unit)

/-- The user reads an allocation. -/
def readOf (a : Allocation) : Prog Ptr := shReadWith (fun _ => pure (some a.entry)) shDecryptBuffer a.handed

/-- What calls of `sh_malloc` and `sh_read` can lead to from `s₀`, with the allocations made. -/
inductive Reaches (s₀ : State) : List Allocation → State → Prop
  | start : Reaches s₀ [] s₀
  | malloc {allocations : List Allocation} {s s' : State} {c : Call} {e : Ptr}
      (h : Reaches s₀ allocations s)
      (hrun : shMalloc c.segmentsTable c.size c.protection s = (.ok (addrOfSharedBuffer e), s')) :
      Reaches s₀ (allocations ++ [⟨e, addrOfSharedBuffer e⟩]) s'
  | read {before after : List Allocation} {a : Allocation} {s s' : State} {b : Ptr}
      (h : Reaches s₀ (before ++ a :: after) s) (hrun : readOf shDecryptBuffer a s = (.ok b, s')) :
      Reaches s₀ (before ++ ⟨a.entry, b⟩ :: after) s'

/-- **The hand-off**: every entry records the pointer handed out for it, and a read leaves all other
entries alone, and of its own entry all but the pointer. -/
structure HandOff (allocations : List Allocation) (s : State) : Prop where
  recorded : ∀ a ∈ allocations, ∃ x, s.heap.get a.entry = some (.entry x) ∧ x.sharedBuffer = a.handed
  others : ∀ a ∈ allocations, ∀ b s', readOf shDecryptBuffer a s = (.ok b, s') →
    ∀ o ∈ allocations, o.entry ≠ a.entry → s'.heap.get o.entry = s.heap.get o.entry
  own : ∀ a ∈ allocations, ∀ b s', readOf shDecryptBuffer a s = (.ok b, s') →
    ∀ x, s.heap.get a.entry = some (.entry x) →
      ∃ sharedBuffer, s'.heap.get a.entry = some (.entry { x with sharedBuffer := sharedBuffer })

variable {shDecryptBuffer}

/-- **A read with the pointer that `sh_malloc` has handed out stops**: the entry is gone. -/
theorem shRead_stops {s s' : State} {e b : Ptr} :
    readOf shDecryptBuffer ⟨e, addrOfSharedBuffer e⟩ s ≠ (.ok b, s') := by
  intro h
  obtain ⟨r, s₁, hcollect, -⟩ := Exec.bind_eq_ok.1 h
  obtain ⟨entry, s₂, hlookup, hcollect⟩ := Exec.bind_eq_ok.1 hcollect
  obtain ⟨u, s₃, hreset, hcollect⟩ := Exec.bind_eq_ok.1 hcollect
  obtain ⟨buffer, s₄, hloop, -⟩ := Exec.bind_eq_ok.1 hcollect
  obtain ⟨rfl, rfl⟩ : e = entry ∧ s = s₂ := by
    simpa [use, Exec.bind_apply] using hlookup
  -- `sh_reset` has read the entry, and then released it
  obtain ⟨x, hx⟩ : ∃ x, s.heap.get e = some (.entry x) := by
    obtain ⟨p, s₅, hp, hreset⟩ := Exec.bind_eq_ok.1 hreset
    obtain ⟨rfl, rfl⟩ : e = p ∧ s = s₅ := by simpa [use, Exec.bind_apply] using hp
    obtain ⟨x, s₆, hx, -⟩ := Exec.bind_eq_ok.1 hreset
    exact ⟨x, (Block.entries.read_eq_ok.1 hx).1⟩
  have hne : e ≠ 0 := Heap.ne_null hx
  rw [shResetWith_eq (e := x) rfl hx, free_of_live (by rw [heap_checked]; exact Heap.live_of_get hx)] at hreset
  simp only [Prod.mk.injEq, true_and] at hreset
  have hgone : s₃.heap.get e = none := by
    rw [← hreset]
    exact if_pos rfl
  -- the loop reads it again
  obtain ⟨y, s₇, hy, -⟩ := Exec.bind_eq_ok.1 hloop
  rw [Block.entries.read_of_dead hne hgone] at hy
  simp at hy

lemma Reaches.handed {s₀ s : State} {allocations : List Allocation}
    (h : Reaches shDecryptBuffer s₀ allocations s) : ∀ a ∈ allocations, a.handed = addrOfSharedBuffer a.entry := by
  induction h with
  | start => simp
  | malloc h hrun ih =>
    intro a ha
    rcases List.mem_append.1 ha with ha | ha
    · exact ih a ha
    · rw [List.mem_singleton.1 ha]
  | @read before after a s s' b h hrun ih =>
    have ha := ih a (by simp)
    obtain ⟨e, p⟩ := a
    obtain rfl : p = addrOfSharedBuffer e := ha
    exact absurd hrun shRead_stops

lemma Reaches.newest {s₀ s : State} {allocations : List Allocation}
    (h : Reaches shDecryptBuffer s₀ allocations s) (hne : allocations ≠ []) :
    ∃ a ∈ allocations, a.handed ≠ 0 ∧
      ∀ x, s.heap.get a.entry = some (.entry x) → x.sharedBuffer = 0 := by
  cases h with
  | start => exact absurd rfl hne
  | @malloc allocations s₁ s' c e h hrun =>
    refine ⟨⟨e, addrOfSharedBuffer e⟩, by simp, shMalloc_ne_null hrun, fun x hx => ?_⟩
    obtain ⟨e', r, s₂, he', hnew, hgrow⟩ := shMalloc_eq_ok hrun
    obtain rfl : e = e' := he'
    -- what is recorded after making room in the table was recorded before
    have hseen := (keeps_sharedBuffer.of_eq hgrow).seen e x.sharedBuffer (Machine.observe_of_get hx _)
    rw [Machine.observe_of_get hnew] at hseen
    exact (Option.some.inj hseen).symm
  | @read before after a s₁ s' b h hrun =>
    have ha := h.handed a (by simp)
    obtain ⟨e, p⟩ := a
    obtain rfl : p = addrOfSharedBuffer e := ha
    exact absurd hrun shRead_stops

/-- **The hand-off holds only while nothing is allocated.** -/
theorem handOff_iff {s₀ s : State} {allocations : List Allocation}
    (h : Reaches shDecryptBuffer s₀ allocations s) :
    HandOff shDecryptBuffer allocations s ↔ allocations = [] := by
  constructor
  · intro hh
    by_contra hne
    obtain ⟨a, ha, hhanded, hnull⟩ := h.newest hne
    obtain ⟨x, hx, hrec⟩ := hh.recorded a ha
    rw [hnull x hx] at hrec
    exact hhanded hrec.symm
  · rintro rfl
    exact ⟨by simp, by simp, by simp⟩

theorem handOff_start : HandOff (fun _ _ => pure ()) [] atStart := (handOff_iff .start).2 rfl

/-- One call after the initialisation: the entry at `11` records `NULL`, and the user holds `11`. -/
theorem not_handOff_one : ∃ s, Reaches (fun _ _ => pure ()) (started atStart) [⟨11, 11⟩] s ∧
    ¬ HandOff (fun _ _ => pure ()) [⟨11, 11⟩] s := by
  have hrun : shMalloc 0 5 .protectMedium (started atStart) =
      (.ok 11, (shMalloc 0 5 .protectMedium (started atStart)).2) := rfl
  refine ⟨_, Reaches.malloc (c := ⟨0, 5, .protectMedium⟩) .start hrun, fun h => ?_⟩
  obtain ⟨x, hx, hrec⟩ := h.recorded ⟨11, 11⟩ (by simp)
  have hentry : (shMalloc 0 5 .protectMedium (started atStart)).2.heap.get 11 =
      some (.entry ⟨0, .protectMedium, 1, 3⟩) := rfl
  rw [hentry] at hx
  cases hx
  exact absurd hrec (by decide)

end SafeHeap
