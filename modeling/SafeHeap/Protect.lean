import SafeHeap.CMachine.Scan
import SafeHeap.Alloc

/-!
# The protected memory table (`sh_protect.c`)

A function that can end without returning a value has an optional result: `none` is the closing
brace, and `use` is where the caller goes on with the value.
-/

namespace SafeHeap

open CMachine

/-- Use the value of a function that may have ended without one. -/
def use {α : Type} : Option α → Prog α
  | some a => pure a
  | none => Exec.fault .noReturn

/-- Go through the pointer to a row of a global array. -/
def deref {α : Type} : Option α → Prog α
  | some a => pure a
  | none => Exec.fault .nullRow

lemma use_of_ok {α : Type} {x : Prog (Option α)} {a : α} {s s' : State} (h : x s = (.ok (some a), s')) :
    (x >>= use) s = (.ok a, s') := by
  rw [Exec.bind_of_ok h]
  rfl

lemma deref_of_ok {α : Type} {x : Prog (Option α)} {a : α} {s s' : State} (h : x s = (.ok (some a), s')) :
    (x >>= deref) s = (.ok a, s') := by
  rw [Exec.bind_of_ok h]
  rfl

/-- The body is empty. -/
def shTpmAvailable : Prog (Option Bool) := pure none

def setTpmEnabled (enabled : Bool) : Prog Unit :=
  Exec.update fun s => { s with globals := { s.globals with tpmEnabled := enabled } }

def setShProtectedTable (t : Ptr) : Prog Unit :=
  Exec.update fun s => { s with globals := { s.globals with shProtectedTable := t } }

def shInitProtection (tpmEnabled : Bool) : Prog Unit := do
  let available ← if tpmEnabled then shTpmAvailable >>= use else pure false
  setTpmEnabled (tpmEnabled && available)
  let t ← shInternalMalloc .table
  setShProtectedTable t

/-- Behind the test there is no `return`. -/
def shInitCheck : Prog (Option Bool) := do
  let g ← globals
  if g.shProtectedTable = 0 then pure (some false) else pure none

/-- The test of the search looks at the grade of the row alone. -/
def pickPolicy (row : ShProtectionPolicy) : Option ShProtectionPolicy :=
  if row.protectionGrade.toNat ≠ 0 then some row else none

/-- The row in force for a grade; `none` is `NULL`. The bound of the loop is a number of bytes. -/
def shGetProtectionPolicy (_protection : ShProtectionGrade) : Prog (Option ShProtectionPolicy) := do
  let g ← globals
  scan g.shProtectionPolicies pickPolicy (sizeofPolicy * g.shProtectionPolicies.length) 0

/-- `&entry->shared_buffer`: the first member of an entry is at the address of the entry. -/
def addrOfSharedBuffer (entry : Ptr) : Ptr := entry

/-- The entry of an allocation. -/
def newEntry (segments : Ptr) (amount : ℕ) (protection : ShProtectionGrade) : Prog Ptr := do
  let entry ← shInternalMalloc .entry
  Block.entries.modify entry fun e => { e with segmentAmount := amount }
  Block.entries.modify entry fun e => { e with protection := protection }
  Block.entries.modify entry fun e => { e with segmentsTable := segments }
  Block.entries.modify entry fun e => { e with sharedBuffer := 0 }
  pure entry

/-- Room for one more entry in the table. -/
def growEntries : Prog Unit := do
  let g ← globals
  let t ← Block.tables.read g.shProtectedTable
  let entries ← shInternalRealloc t.entries (.pointers (toSize (sizeofEntry * toSize (t.amount + 1))))
  Block.tables.modify g.shProtectedTable fun t => { t with entries := entries }

def shAddProtectionEntry (segments : Ptr) (amount : ℕ) (protection : ShProtectionGrade) : Prog Ptr := do
  let entry ← newEntry segments amount protection
  growEntries
  pure (addrOfSharedBuffer entry)

/-- The loop of `shGetProtectedEntry` from index `e` on; its counter is an `int`, so that there are
no more than `left` rounds before it overflows. -/
def findEntry : ℕ → ℕ → Prog (Option Ptr)
  | 0, _ => Exec.fault .intOverflow
  | left + 1, e => do
    let g ← globals
    let t ← Block.tables.read g.shProtectedTable
    if e < t.amount then
      let entry ← readSlot t.entries e
      if entry ≠ 0 then pure (some entry) else findEntry left (e + 1)
    else
      pure none

/-- There is no `return` behind the loop. -/
def shGetProtectedEntry (_buffer : Ptr) : Prog (Option Ptr) := findEntry (INT_MAX + 1) 0

/-! ### What only reads -/

section Keeps

variable {R : State → State → Prop} [Std.Refl R]

lemma keeps_globals : Exec.Keeps R (globals : Prog Globals) := fun s => refl_of R s

lemma keeps_use {α : Type} (o : Option α) : Exec.Keeps R (use o) := by
  cases o with
  | none => exact Exec.keeps_fault _
  | some a => exact Exec.keeps_pure a

lemma keeps_deref {α : Type} (o : Option α) : Exec.Keeps R (deref o) := by
  cases o with
  | none => exact Exec.keeps_fault _
  | some a => exact Exec.keeps_pure a

lemma keeps_scan {ρ α : Type} (rows : List ρ) (pick : ρ → Option α) (left x : ℕ) :
    Exec.Keeps R (scan rows pick left x : Prog (Option α)) := by
  obtain ⟨r, hrun, -⟩ := scan_pure (σ := State) rows pick left x
  intro s
  rw [hrun]
  exact refl_of R s

lemma keeps_shGetProtectionPolicy [IsTrans State R] (p : ShProtectionGrade) :
    Exec.Keeps R (shGetProtectionPolicy p) :=
  keeps_globals.bind fun _ => keeps_scan _ _ _ _

end Keeps

/-- The lookup of the policy depends on the table alone, and its faults are not of memory. -/
lemma shGetProtectionPolicy_pure (g : ShProtectionGrade) (rows : List ShProtectionPolicy) :
    ∃ r : Except Fault (Option ShProtectionPolicy),
      (∀ s : State, s.globals.shProtectionPolicies = rows → shGetProtectionPolicy g s = (r, s)) ∧
        ∀ f, r = .error f → ¬ f.OfMemory := by
  obtain ⟨r, hrun, hfault⟩ := scan_pure (σ := State) rows pickPolicy (sizeofPolicy * rows.length) 0
  refine ⟨r, fun s hs => ?_, fun f hf => ?_⟩
  · unfold shGetProtectionPolicy
    rw [globals_bind_apply, hs, hrun]
  · rcases hfault f hf with rfl | rfl
    · exact id
    · exact id

/-- The lookup of the policy comes to the same wherever the table of the policies is the same. -/
lemma shGetProtectionPolicy_congr {s s' : State}
    (h : s'.globals.shProtectionPolicies = s.globals.shProtectionPolicies)
    {g : ShProtectionGrade} {r : Except Fault (Option ShProtectionPolicy)}
    (hr : shGetProtectionPolicy g s = (r, s)) : shGetProtectionPolicy g s' = (r, s') := by
  obtain ⟨r', hpolicy, -⟩ := shGetProtectionPolicy_pure g s.globals.shProtectionPolicies
  rw [hpolicy s rfl] at hr
  cases hr
  exact hpolicy s' h

end SafeHeap
