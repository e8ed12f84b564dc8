import Mathlib.Data.List.ReduceOption
import SafeHeap.Io

/-!
# Looking up the entry of a buffer, and giving a buffer back

`TableHolds s slots`: the table in memory has these slots, `none` for a `NULL` slot and `some (p, e)`
for an entry `e` at `p`.

The lookup should find the entry whose identifier is the buffer, or say that there is none
(`Separates`). It finds the first slot that is not `NULL` (`firstEntry`), whatever the buffer:
`separates_iff` says for which buffers that is the right one. `resetRight_iff` does the same for the
check of `sh_reset` in front of its `free`.
-/

namespace SafeHeap

open CMachine

/-! ### The table in memory -/

abbrev Slot := Option (Ptr × ShProtectedEntry)

def slotPtr : Slot → Ptr
  | none => 0
  | some x => x.1

/-- The table in memory has the slots given; behind them, its array may be longer. -/
structure TableHolds (s : State) (slots : List Slot) : Prop where
  table : ∃ entries, s.heap.get s.globals.shProtectedTable = some (.table ⟨slots.length, entries⟩) ∧
    (slots ≠ [] → ∃ rest, s.heap.get entries = some (.pointers (slots.map slotPtr ++ rest)))
  live : ∀ x, some x ∈ slots → s.heap.get x.1 = some (.entry x.2)

/-- What the user knows an entry by: the buffer recorded, or what the allocation returned. -/
def identifier (x : Ptr × ShProtectedEntry) : Ptr :=
  if x.2.sharedBuffer ≠ 0 then x.2.sharedBuffer else addrOfSharedBuffer x.1

/-- The first slot that is not `NULL`, if a counter of `left` values gets there. -/
def firstEntry : ℕ → List Slot → Except Fault Slot
  | 0, _ => .error .intOverflow
  | _ + 1, [] => .ok none
  | left + 1, none :: slots => firstEntry left slots
  | _ + 1, some x :: _ => .ok (some x)

lemma firstEntry_eq_some {x : Ptr × ShProtectedEntry} : ∀ {slots : List Slot} {left : ℕ},
    firstEntry left slots = .ok (some x) ↔
      ∃ n rest, slots = List.replicate n none ++ some x :: rest ∧ n < left := by
  intro slots
  induction slots with
  | nil =>
    intro left
    cases left <;> simp [firstEntry]
  | cons y slots ih =>
    intro left
    cases left with
    | zero => simp [firstEntry]
    | succ left =>
      cases y with
      | none =>
        rw [firstEntry, ih]
        constructor
        · rintro ⟨n, rest, rfl, hn⟩
          exact ⟨n + 1, rest, rfl, by omega⟩
        · rintro ⟨n, rest, he, hn⟩
          cases n with
          | zero => simp at he
          | succ n =>
            rw [List.replicate_succ, List.cons_append, List.cons.injEq] at he
            exact ⟨n, rest, he.2, by omega⟩
      | some y =>
        constructor
        · intro h
          simp only [firstEntry, Except.ok.injEq, Option.some.injEq] at h
          exact ⟨0, slots, by rw [h]; rfl, by omega⟩
        · rintro ⟨n, rest, he, hn⟩
          cases n with
          | zero =>
            simp only [List.replicate_zero, List.nil_append, List.cons.injEq, Option.some.injEq] at he
            rw [he.1]
            rfl
          | succ n => simp [List.replicate_succ] at he

lemma firstEntry_mem {left : ℕ} {slots : List Slot} {x : Ptr × ShProtectedEntry}
    (h : firstEntry left slots = .ok (some x)) : some x ∈ slots := by
  obtain ⟨n, rest, rfl, -⟩ := firstEntry_eq_some.1 h
  simp

lemma TableHolds.ne_null {s : State} {slots : List Slot} (h : TableHolds s slots) {x : Ptr × ShProtectedEntry}
    (hx : some x ∈ slots) : x.1 ≠ 0 := Heap.ne_null (h.live x hx)

/-! ### The lookup -/

/-- The loop from index `e` on, over the slots from there on. -/
lemma findEntry_eq {s : State} {slots : List Slot} (h : TableHolds s slots) :
    ∀ left e, e ≤ slots.length →
      findEntry left e s = ((firstEntry left (slots.drop e)).map (Option.map Prod.fst), s) := by
  obtain ⟨entries, htable, harray⟩ := h.table
  intro left
  induction left with
  | zero =>
    intro e _
    rfl
  | succ left ih =>
    intro e he
    unfold findEntry
    rw [globals_bind_apply, Exec.bind_of_ok (Block.tables.read_of_get htable)]
    rcases Nat.lt_or_ge e slots.length with hlt | hge
    · have hne : slots ≠ [] := fun h0 => by simp [h0] at hlt
      obtain ⟨rest, hrest⟩ := harray hne
      have hslot : (slots.map slotPtr ++ rest)[e]? = some (slotPtr slots[e]) := by
        rw [List.getElem?_append_left (by simpa using hlt), List.getElem?_map, List.getElem?_eq_getElem hlt]
        rfl
      rw [if_pos hlt, Exec.bind_of_ok (readSlot_of_get hrest hslot), List.drop_eq_getElem_cons hlt]
      rcases hx : slots[e] with _ | x
      · -- a slot that is `NULL` is passed over
        rw [if_neg (by simp [slotPtr]), ih (e + 1) hlt]
        rfl
      · have hx0 : x.1 ≠ 0 := h.ne_null (hx ▸ List.getElem_mem hlt)
        rw [if_pos (show slotPtr (some x) ≠ 0 from hx0)]
        rfl
    · obtain rfl : e = slots.length := by omega
      rw [if_neg (Nat.lt_irrefl _), List.drop_length]
      rfl

/-- **What the lookup comes to**, whatever the buffer: the first entry in the table. -/
theorem shGetProtectedEntry_eq {s : State} {slots : List Slot} (h : TableHolds s slots) (b : Ptr) :
    shGetProtectedEntry b s = ((firstEntry (INT_MAX + 1) slots).map (Option.map Prod.fst), s) :=
  findEntry_eq h _ 0 (Nat.zero_le _)

lemma keeps_findEntry : ∀ left e, Exec.Keeps Eq (findEntry left e) := by
  intro left
  induction left with
  | zero => exact fun e => Exec.keeps_fault _
  | succ left ih =>
    intro e
    refine keeps_globals.bind fun g => ?_
    refine (Block.tables.keeps_read _).bind fun t => ?_
    split
    · refine (keeps_readSlot _ _).bind fun entry => ?_
      split
      · exact Exec.keeps_pure _
      · exact ih (e + 1)
    · exact Exec.keeps_pure _

lemma shGetProtectedEntry_snd (b : Ptr) (s : State) : (shGetProtectedEntry b s).2 = s :=
  (keeps_findEntry _ _ s).symm

/-- The buffer is resolved to the entry whose identifier it is, or found to be none of them. -/
structure Separates (s : State) (slots : List Slot) (b : Ptr) : Prop where
  found : ∀ x, some x ∈ slots → identifier x = b → shGetProtectedEntry b s = (.ok (some x.1), s)
  notFound : (∀ x, some x ∈ slots → identifier x ≠ b) → shGetProtectedEntry b s = (.ok (some 0), s)

/-- **Only the buffer of the first entry is resolved rightly**, and only when the counter gets there. -/
theorem separates_iff {s : State} {slots : List Slot} (h : TableHolds s slots)
    (hd : (slots.reduceOption.map identifier).Nodup) (b : Ptr) :
    Separates s slots b ↔
      ∃ n x rest, slots = List.replicate n none ++ some x :: rest ∧ n ≤ INT_MAX ∧ identifier x = b := by
  have heq := shGetProtectedEntry_eq h b
  constructor
  · intro hs
    by_cases hb : ∃ x, some x ∈ slots ∧ identifier x = b
    · obtain ⟨x, hx, rfl⟩ := hb
      have hr := hs.found x hx rfl
      rw [heq] at hr
      rcases hf : firstEntry (INT_MAX + 1) slots with e | _ | y <;> rw [hf] at hr <;>
        simp only [Except.map, Option.map, Prod.mk.injEq, reduceCtorEq, Except.ok.injEq,
          Option.some.injEq, and_true] at hr
      -- the entry found is at the address of the entry wanted, and so it is that entry
      obtain rfl : y = x := by
        have h1 := h.live x hx
        have h2 := h.live y (firstEntry_mem hf)
        rw [hr, h1] at h2
        simp only [Option.some.injEq, Block.entry.injEq] at h2
        exact Prod.ext hr h2.symm
      obtain ⟨n, rest, he, hn⟩ := firstEntry_eq_some.1 hf
      exact ⟨n, y, rest, he, by omega, rfl⟩
    · -- no entry has the identifier: the lookup would have to say so
      exfalso
      have hr := hs.notFound fun x hx he => hb ⟨x, hx, he⟩
      rw [heq] at hr
      rcases hf : firstEntry (INT_MAX + 1) slots with e | _ | y <;> rw [hf] at hr <;>
        simp only [Except.map, Option.map, Prod.mk.injEq, reduceCtorEq, Except.ok.injEq,
          Option.some.injEq, and_true] at hr
      exact h.ne_null (firstEntry_mem hf) hr
  · rintro ⟨n, x, rest, he, hn, rfl⟩
    have hmem : some x ∈ slots := by simp [he]
    have hf : firstEntry (INT_MAX + 1) slots = .ok (some x) :=
      firstEntry_eq_some.2 ⟨n, rest, he, by omega⟩
    refine ⟨fun y hy hxy => ?_, fun hno => absurd rfl (hno x hmem)⟩
    obtain rfl : y = x := by
      refine List.inj_on_of_nodup_map hd ?_ ?_ hxy
      · exact List.reduceOption_mem_iff.2 hy
      · exact List.reduceOption_mem_iff.2 hmem
    rw [heq, hf]
    rfl

/-- A table of two entries, at `2` and `3`, whose buffers have not been read yet. -/
def twoEntries : State :=
  let h : Heap Block := Heap.empty
  { (Machine.start Answer.zeros { Globals.initial with shProtectedTable := 1 } : State) with
    heap := (((h.put 1 (.table ⟨2, 4⟩)).put 4 (.pointers [2, 3])).put 2
      (.entry ⟨0, .protectHigh, 0, 0⟩)).put 3 (.entry ⟨0, .protectLow, 0, 0⟩) }

lemma tableHolds_twoEntries : TableHolds twoEntries
    [some (2, ⟨0, .protectHigh, 0, 0⟩), some (3, ⟨0, .protectLow, 0, 0⟩)] := by
  refine ⟨⟨4, rfl, fun _ => ⟨[], rfl⟩⟩, fun x hx => ?_⟩
  rcases List.mem_cons.1 hx with he | hx
  · cases he
    rfl
  · cases List.mem_singleton.1 hx
    rfl

theorem separates_first : Separates twoEntries
    [some (2, ⟨0, .protectHigh, 0, 0⟩), some (3, ⟨0, .protectLow, 0, 0⟩)] 2 :=
  (separates_iff tableHolds_twoEntries (by decide) 2).2 ⟨0, _, _, rfl, by decide, rfl⟩

/-- The buffer of the second allocation is resolved to the first. -/
theorem not_separates_second : ¬ Separates twoEntries
    [some (2, ⟨0, .protectHigh, 0, 0⟩), some (3, ⟨0, .protectLow, 0, 0⟩)] 3 := by
  intro h
  have hr := congrArg Prod.fst (h.found (3, ⟨0, .protectLow, 0, 0⟩) (by simp) rfl)
  have hfirst : (shGetProtectedEntry 3 twoEntries).1 = .ok (some 2) := rfl
  rw [hfirst] at hr
  exact absurd (Except.ok.inj hr) (by decide)

/-! ### Giving a buffer back -/

/-- The entry that the lookup yields for a buffer. -/
def Yields (s : State) (b : Ptr) (e : ShProtectedEntry) : Prop :=
  ∃ p, shGetProtectedEntry b s = (.ok (some p), s) ∧ s.heap.get p = some (.entry e)

/-- A buffer that its entry records is released, and nothing else; any other is refused, and nothing
changes. -/
structure ResetRight (s : State) (b : Ptr) : Prop where
  released : ∀ e, Yields s b e → e.sharedBuffer = b → ∃ s', shReset b s = (.ok (), s') ∧
    s'.globals = s.globals ∧ ∀ p, s'.heap.get p = if p = b then none else s.heap.get p
  refused : (¬ ∃ e, Yields s b e ∧ e.sharedBuffer = b) → ∃ s', shReset b s = (.ok (), s') ∧
    s'.errno = EINVAL ∧ s'.globals = s.globals ∧ ∀ p, s'.heap.get p = s.heap.get p

/-- `s`, with the mismatch reported if the entry `e` does not record the buffer `b`. -/
def checked (s : State) (e : ShProtectedEntry) (b : Ptr) : State :=
  if e.sharedBuffer ≠ b then { s with errno := EINVAL } else s

@[simp] lemma heap_checked (s : State) (e : ShProtectedEntry) (b : Ptr) : (checked s e b).heap = s.heap := by
  unfold checked
  split <;> rfl

@[simp] lemma globals_checked (s : State) (e : ShProtectedEntry) (b : Ptr) :
    (checked s e b).globals = s.globals := by
  unfold checked
  split <;> rfl

/-- **What `sh_reset` comes to** where the lookup yields an entry: whether or not the buffer is the one
recorded there, it is freed. -/
lemma shResetWith_eq {lookup : Ptr → Prog (Option Ptr)} {s : State} {b p : Ptr} {e : ShProtectedEntry}
    (hp : lookup b s = (.ok (some p), s)) (he : s.heap.get p = some (.entry e)) :
    shResetWith lookup b s = free b (checked s e b) := by
  have hr : Block.entries.read p s = (.ok e, s) := Block.entries.read_of_get he
  unfold shResetWith checked
  rw [Exec.bind_of_ok (use_of_ok hp), Exec.bind_of_ok hr]
  by_cases hm : e.sharedBuffer ≠ b
  · rw [if_pos hm, if_pos hm]
    rfl
  · rw [if_neg hm, if_neg hm]

lemma shReset_eq {s : State} {b : Ptr} {e : ShProtectedEntry} (h : Yields s b e) :
    shReset b s = free b (checked s e b) := by
  obtain ⟨p, hp, he⟩ := h
  exact shResetWith_eq hp he

lemma Yields.unique {s : State} {b : Ptr} {e e' : ShProtectedEntry} (h : Yields s b e) (h' : Yields s b e') :
    e' = e := by
  obtain ⟨p, hp, he⟩ := h
  obtain ⟨q, hq, he'⟩ := h'
  rw [hp] at hq
  simp only [Prod.mk.injEq, Except.ok.injEq, Option.some.injEq, and_true] at hq
  rw [← hq, he] at he'
  simp only [Option.some.injEq, Block.entry.injEq] at he'
  exact he'.symm

lemma shReset_of_not_yields {s : State} {b : Ptr} (h : ¬ ∃ e, Yields s b e) (s' : State) :
    shReset b s ≠ (.ok (), s') := by
  intro hr
  obtain ⟨p, s₁, hp, hr⟩ := Exec.bind_eq_ok.1 hr
  obtain ⟨e, s₂, he, -⟩ := Exec.bind_eq_ok.1 hr
  obtain ⟨o, s₃, ho, hu⟩ := Exec.bind_eq_ok.1 hp
  obtain rfl : s₃ = s := by rw [← shGetProtectedEntry_snd b s, ho]
  rcases o with _ | q
  · simp [use] at hu
  · simp only [use, Exec.pure_apply, Prod.mk.injEq, Except.ok.injEq] at hu
    obtain ⟨rfl, rfl⟩ := hu
    exact h ⟨e, q, ho, (Block.entries.read_eq_ok.1 he).1⟩

/-- **When the check of `sh_reset` does its duty**: the lookup yields an entry, and the buffer is
either the one recorded there and live, or `NULL`. -/
theorem resetRight_iff (s : State) (b : Ptr) :
    ResetRight s b ↔ ∃ e, Yields s b e ∧ (b = 0 ∨ (e.sharedBuffer = b ∧ s.heap.Live b)) := by
  constructor
  · intro h
    by_cases hy : ∃ e, Yields s b e
    · obtain ⟨e, he⟩ := hy
      have hreset := shReset_eq he
      refine ⟨e, he, ?_⟩
      by_cases hb : b = 0
      · exact Or.inl hb
      right
      -- in both cases the buffer has to be live, since it is freed
      have hlive : ∀ s', shReset b s = (.ok (), s') → s.heap.Live b := by
        intro s' hs'
        by_contra hl
        rw [hreset, free_of_dead hb (by rwa [heap_checked])] at hs'
        simp at hs'
      by_cases hm : e.sharedBuffer = b
      · obtain ⟨s', hs', -⟩ := h.released e he hm
        exact ⟨hm, hlive s' hs'⟩
      · -- a foreign buffer is freed, too
        exfalso
        have hno : ¬ ∃ e', Yields s b e' ∧ e'.sharedBuffer = b := fun ⟨e', he', hm'⟩ =>
          hm (he.unique he' ▸ hm')
        obtain ⟨s', hs', -, -, hheap⟩ := h.refused hno
        obtain ⟨c, hc⟩ := Heap.get_of_live (hlive s' hs')
        rw [hreset, free_of_live (by rw [heap_checked]; exact Heap.live_of_get hc)] at hs'
        simp only [Prod.mk.injEq, true_and] at hs'
        have hg := hheap b
        rw [← hs', Machine.heap_released, Heap.get_erase, if_pos rfl, hc] at hg
        cases hg
    · exfalso
      obtain ⟨s', hs', -⟩ := h.refused fun ⟨e, he, _⟩ => hy ⟨e, he⟩
      exact shReset_of_not_yields hy s' hs'
  · rintro ⟨e, he, hb⟩
    have hreset := shReset_eq he
    constructor
    · intro e' he' hm'
      obtain rfl := he.unique he'
      have hs : checked s e' b = s := if_neg (not_not.2 hm')
      rw [hs] at hreset
      rcases hb with rfl | ⟨-, hl⟩
      · refine ⟨s, by rw [hreset, free_null], rfl, fun p => ?_⟩
        split
        · next h0 => rw [h0, s.heap.get_null]
        · rfl
      · exact ⟨s.released b, by rw [hreset, free_of_live hl], rfl, fun p => rfl⟩
    · intro hno
      have hm : e.sharedBuffer ≠ b := fun hm => hno ⟨e, he, hm⟩
      have hs : checked s e b = { s with errno := EINVAL } := if_pos hm
      rcases hb with rfl | ⟨hm', -⟩
      · rw [hs, free_null] at hreset
        exact ⟨_, hreset, rfl, rfl, fun p => rfl⟩
      · exact absurd hm' hm

/-- A live buffer that belongs to the second entry is released although the entry found, the first
one, does not record it. -/
theorem not_resetRight_second : ¬ ResetRight twoEntries 3 := by
  intro h
  have hy : ¬ ∃ e, Yields twoEntries 3 e ∧ e.sharedBuffer = 3 := by
    rintro ⟨e, ⟨p, hp, he⟩, hm⟩
    have hfirst : shGetProtectedEntry 3 twoEntries = (.ok (some 2), twoEntries) := rfl
    rw [hfirst] at hp
    simp only [Prod.mk.injEq, Except.ok.injEq, Option.some.injEq, and_true] at hp
    have h2 : twoEntries.heap.get 2 = some (.entry ⟨0, .protectHigh, 0, 0⟩) := rfl
    rw [← hp, h2] at he
    cases he
    exact absurd hm (by decide)
  obtain ⟨s', hs', -, -, hheap⟩ := h.refused hy
  have hgone : (shReset 3 twoEntries).2.heap.get 3 = none := rfl
  rw [hs'] at hgone
  have hkept := hheap 3
  rw [hgone] at hkept
  exact absurd hkept (by decide)

end SafeHeap
