import SafeHeap.CMachine.Heap
import SafeHeap.CMachine.Int

/-!
# Searching a global array

The loop `for(int x = 0; x < bound; x++) { … rows[x] … return …; }` over an array of
`rows.length` rows. `bound` is whatever the program says; where it is larger than the number of
rows, the search runs into the rows that are not there (`scan_eq`). Whatever the bound, it finds the
first row that is accepted or none (`scan_of_first`, `exists_first_of_scan`), and `scanVisits` are the
indices that it reads: the search ends with what it makes of the last of them (`scan_stops`).
-/

namespace CMachine

variable {σ ρ α : Type}

/-- The search from row `x` on, with `left` rows to go: the value of the first row that `pick`
accepts, or none when the loop is over. -/
def scan (rows : List ρ) (pick : ρ → Option α) : ℕ → ℕ → Exec σ Fault (Option α)
  | 0, _ => pure none
  | left + 1, x =>
    match rows[x]? with
    | none => Exec.fault .overrun
    | some r =>
      match pick r with
      | some a => pure (some a)
      | none => if x = INT_MAX then Exec.fault .intOverflow else scan rows pick left (x + 1)

/-- The indices that the search reads, one after the other. -/
def scanVisits (rows : List ρ) (pick : ρ → Option α) : ℕ → ℕ → List ℕ
  | 0, _ => []
  | left + 1, x => x ::
    match rows[x]? with
    | none => []
    | some r =>
      match pick r with
      | some _ => []
      | none => if x = INT_MAX then [] else scanVisits rows pick left (x + 1)

section Steps

variable {rows : List ρ} {pick : ρ → Option α} {left x : ℕ} {r : ρ} {a : α}

theorem scan_of_accepted (hget : rows[x]? = some r) (hp : pick r = some a) (s : σ) :
    scan rows pick (left + 1) x s = (.ok (some a), s) := by
  simp only [scan, hget, hp]
  rfl

theorem scan_of_passed (hget : rows[x]? = some r) (hp : pick r = none) (s : σ) :
    scan rows pick (left + 1) x s =
      if x = INT_MAX then (.error .intOverflow, s) else scan rows pick left (x + 1) s := by
  simp only [scan, hget, hp]
  split <;> rfl

theorem scan_of_end (hget : rows[x]? = none) (s : σ) :
    scan rows pick (left + 1) x s = (.error .overrun, s) := by
  simp only [scan, hget]
  rfl

end Steps

/-! ### Where a search stops -/

/-- What the search makes of row `x`: its end, or none when it goes on to the next row. -/
def scanAt (rows : List ρ) (pick : ρ → Option α) (x : ℕ) : Option (Except Fault (Option α)) :=
  match rows[x]? with
  | none => some (.error .overrun)
  | some r =>
    match pick r with
    | some a => some (.ok (some a))
    | none => if x = INT_MAX then some (.error .intOverflow) else none

/-- The search from row `x` on stops after `n` rows, with the result given: the loop is over, or the
last of the rows ends it. -/
inductive ScanStops (rows : List ρ) (pick : ρ → Option α) (left x : ℕ) : ℕ → Except Fault (Option α) → Prop
  | finished (hpass : ∀ y ∈ List.range' x left, scanAt rows pick y = none) :
      ScanStops rows pick left x left (.ok none)
  | ended {n : ℕ} {r : Except Fault (Option α)} (hn : n < left)
      (hpass : ∀ y ∈ List.range' x n, scanAt rows pick y = none) (hend : scanAt rows pick (x + n) = some r) :
      ScanStops rows pick left x (n + 1) r

section Stops

variable {rows : List ρ} {pick : ρ → Option α} {left x n : ℕ} {r : Except Fault (Option α)}

lemma scan_of_ended (h : scanAt rows pick x = some r) (s : σ) : scan rows pick (left + 1) x s = (r, s) := by
  unfold scanAt at h
  rcases hget : rows[x]? with _ | row
  · simp only [hget, Option.some.injEq] at h
    rw [scan_of_end hget, h]
  rcases hp : pick row with _ | a <;> simp only [hget, hp] at h
  · split at h
    · next hx =>
      rw [scan_of_passed hget hp, if_pos hx, ← Option.some.inj h]
    · cases h
  · rw [scan_of_accepted hget hp, ← Option.some.inj h]

lemma scanVisits_of_ended (h : scanAt rows pick x = some r) : scanVisits rows pick (left + 1) x = [x] := by
  unfold scanAt at h
  unfold scanVisits
  split
  · rfl
  · next row hget =>
    simp only [hget] at h
    split
    · rfl
    · next hp =>
      simp only [hp] at h
      split
      · rfl
      · next hx => simp [hx] at h

lemma scanAt_eq_none : scanAt rows pick x = none ↔ ∃ row, rows[x]? = some row ∧ pick row = none ∧ x ≠ INT_MAX := by
  unfold scanAt
  rcases rows[x]? with _ | row
  · simp
  rcases hp : pick row with _ | a <;> simp [hp]

lemma scan_of_goesOn (h : scanAt rows pick x = none) (s : σ) :
    scan rows pick (left + 1) x s = scan rows pick left (x + 1) s := by
  obtain ⟨row, hget, hp, hx⟩ := scanAt_eq_none.1 h
  rw [scan_of_passed hget hp, if_neg hx]

lemma scanVisits_of_goesOn (h : scanAt rows pick x = none) :
    scanVisits rows pick (left + 1) x = x :: scanVisits rows pick left (x + 1) := by
  obtain ⟨row, hget, hp, hx⟩ := scanAt_eq_none.1 h
  simp only [scanVisits, hget, hp, if_neg hx]

lemma ScanStops.cons (hx : scanAt rows pick x = none) (h : ScanStops rows pick left (x + 1) n r) :
    ScanStops rows pick (left + 1) x (n + 1) r := by
  have hpass : ∀ {m : ℕ}, (∀ y ∈ List.range' (x + 1) m, scanAt rows pick y = none) →
      ∀ y ∈ List.range' x (m + 1), scanAt rows pick y = none := by
    intro m hm y hy
    rw [List.range'_succ, List.mem_cons] at hy
    rcases hy with rfl | hy
    · exact hx
    · exact hm y hy
  cases h with
  | finished h => exact .finished (hpass h)
  | ended hn h hend =>
    rw [Nat.add_right_comm, Nat.add_assoc] at hend
    exact .ended (Nat.succ_lt_succ hn) (hpass h) hend

end Stops

/-- **The visits are those of the search**: it stops behind the last index of them, in any state, and
leaves the state alone. -/
theorem scan_stops (rows : List ρ) (pick : ρ → Option α) : ∀ left x, ∃ n r, ScanStops rows pick left x n r ∧
    scanVisits rows pick left x = List.range' x n ∧ ∀ s : σ, scan rows pick left x s = (r, s) := by
  intro left
  induction left with
  | zero => exact fun x => ⟨0, .ok none, .finished nofun, rfl, fun s => rfl⟩
  | succ left ih =>
    intro x
    rcases hx : scanAt rows pick x with _ | r
    · obtain ⟨n, r, hstops, hvisits, hrun⟩ := ih (x + 1)
      refine ⟨n + 1, r, hstops.cons hx, ?_, fun s => ?_⟩
      · rw [scanVisits_of_goesOn hx, hvisits, List.range'_succ]
      · rw [scan_of_goesOn hx, hrun]
    · exact ⟨1, r, .ended (Nat.succ_pos left) nofun hx, scanVisits_of_ended hx, scan_of_ended hx⟩

theorem scan_stops_zero (rows : List ρ) (pick : ρ → Option α) (bound : ℕ) : ∃ n r, ScanStops rows pick bound 0 n r ∧
    scanVisits rows pick bound 0 = List.range n ∧ ∀ s : σ, scan rows pick bound 0 s = (r, s) := by
  obtain ⟨n, r, hstops, hvisits, hrun⟩ := scan_stops (σ := σ) rows pick bound 0
  refine ⟨n, r, hstops, ?_, hrun⟩
  rw [hvisits, List.range_eq_range']

theorem scan_pure (rows : List ρ) (pick : ρ → Option α) (left x : ℕ) : ∃ r : Except Fault (Option α),
    (∀ s : σ, scan rows pick left x s = (r, s)) ∧ ∀ f, r = .error f → f = .overrun ∨ f = .intOverflow := by
  obtain ⟨n, r, hstops, -, hrun⟩ := scan_stops (σ := σ) rows pick left x
  refine ⟨r, hrun, ?_⟩
  rintro f rfl
  cases hstops with
  | ended _ _ hend =>
    unfold scanAt at hend
    split at hend
    · exact Or.inl (by cases hend; rfl)
    · split at hend
      · cases hend
      · split at hend <;> cases hend
        exact Or.inr rfl

theorem scan_from (rows : List ρ) (pick : ρ → Option α) (hint : rows.length ≤ INT_MAX) (s : σ) :
    ∀ left x, rows.length ≤ x + left → x ≤ rows.length →
      scan rows pick left x s = match (rows.drop x).findSome? pick with
        | some a => (.ok (some a), s)
        | none => if x + left = rows.length then (.ok none, s) else (.error .overrun, s) := by
  intro left
  induction left with
  | zero =>
    intro x hb hx
    obtain rfl : x = rows.length := by omega
    simp [scan]
  | succ left ih =>
    intro x hb hx
    rcases Nat.lt_or_ge x rows.length with hlt | hge
    · -- a row that is there
      have hget : rows[x]? = some rows[x] := List.getElem?_eq_getElem hlt
      have hdrop : rows.drop x = rows[x] :: rows.drop (x + 1) := List.drop_eq_getElem_cons hlt
      have hx' : x ≠ INT_MAX := by omega
      rw [hdrop, List.findSome?_cons]
      rcases hp : pick rows[x] with _ | a
      · rw [scan_of_passed hget hp, if_neg hx', ih (x + 1) (by omega) hlt, Nat.add_right_comm, Nat.add_assoc]
      · exact scan_of_accepted hget hp s
    · -- the first row that is not
      obtain rfl : x = rows.length := by omega
      have hget : rows[rows.length]? = none := List.getElem?_eq_none le_rfl
      have hne : rows.length + (left + 1) ≠ rows.length := by omega
      rw [scan_of_end hget, List.drop_length, List.findSome?_nil, if_neg hne]

/-- **A search over a bound that is not less than the number of rows** finds the first row it is to
find; when there is none, it reads beyond the array, unless the bound is the number of rows. -/
theorem scan_eq {rows : List ρ} (pick : ρ → Option α) {bound : ℕ} (hb : rows.length ≤ bound)
    (hint : rows.length ≤ INT_MAX) (s : σ) :
    scan rows pick bound 0 s = match rows.findSome? pick with
      | some a => (.ok (some a), s)
      | none => if bound = rows.length then (.ok none, s) else (.error .overrun, s) := by
  rw [scan_from rows pick hint s bound 0 (by omega) (Nat.zero_le _), List.drop_zero, Nat.zero_add]

/-- **A search finds** the first row that is accepted, where the bound and the counter get there. -/
theorem scan_of_first {rows : List ρ} {pick : ρ → Option α} {a : α} {r : ρ} {after : List ρ}
    (hr : pick r = some a) (s : σ) : ∀ {before : List ρ} {left x : ℕ}, rows.drop x = before ++ r :: after →
      (∀ q ∈ before, pick q = none) → before.length < left → x + before.length ≤ INT_MAX →
        scan rows pick left x s = (.ok (some a), s) := by
  intro before
  induction before with
  | nil =>
    intro left x he _ hleft _
    obtain ⟨left, rfl⟩ : ∃ l, left = l + 1 := ⟨left - 1, by simp at hleft; omega⟩
    have hget : rows[x]? = some r := by
      rw [← List.head?_drop, he]
      rfl
    exact scan_of_accepted hget hr s
  | cons q before ih =>
    intro left x he hnone hleft hmax
    rw [List.length_cons] at hleft hmax
    obtain ⟨left, rfl⟩ : ∃ l, left = l + 1 := ⟨left - 1, by omega⟩
    have hget : rows[x]? = some q := by
      rw [← List.head?_drop, he]
      rfl
    have hdrop : rows.drop (x + 1) = before ++ r :: after := by
      rw [← List.tail_drop, he]
      rfl
    rw [scan_of_passed hget (hnone q List.mem_cons_self), if_neg (by omega)]
    exact ih hdrop (fun y hy => hnone y (List.mem_cons_of_mem _ hy)) (by omega) (by omega)

/-- **And nothing else.** -/
theorem exists_first_of_scan {rows : List ρ} {pick : ρ → Option α} {a : α} {s s' : σ} : ∀ {left x : ℕ},
    x ≤ INT_MAX → scan rows pick left x s = (.ok (some a), s') → ∃ before r after,
      rows.drop x = before ++ r :: after ∧ (∀ q ∈ before, pick q = none) ∧ pick r = some a ∧
        x + before.length ≤ INT_MAX := by
  intro left
  induction left with
  | zero =>
    intro x _ h
    cases h
  | succ left ih =>
    intro x hx h
    rcases hget : rows[x]? with _ | r
    · rw [scan_of_end hget] at h
      cases h
    have hdrop : rows.drop x = r :: rows.drop (x + 1) := by
      obtain ⟨hlt, rfl⟩ := List.getElem?_eq_some_iff.1 hget
      exact List.drop_eq_getElem_cons hlt
    rcases hp : pick r with _ | b
    · rw [scan_of_passed hget hp] at h
      by_cases hmax : x = INT_MAX
      · rw [if_pos hmax] at h
        cases h
      · rw [if_neg hmax] at h
        obtain ⟨before, q, after, he, hnone, hq, hlen⟩ := ih (by omega) h
        refine ⟨r :: before, q, after, by rw [hdrop, he, List.cons_append], fun y hy => ?_, hq, ?_⟩
        · rcases List.mem_cons.1 hy with rfl | hy
          · exact hp
          · exact hnone y hy
        · rw [List.length_cons]
          omega
    · rw [scan_of_accepted hget hp] at h
      cases h
      exact ⟨[], r, rows.drop (x + 1), hdrop, by simp, hp, by simpa using hx⟩

end CMachine
