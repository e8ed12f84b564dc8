import SafeHeap.CMachine.Observe
import SafeHeap.Malloc

/-!
# What `sh_malloc` leaves alone

Whatever `f` makes out in the blocks that `sh_malloc` does not build (the table in memory but for its
array, the entries there already), and any part `g` of the globals but the errors printed, is after a
call as it was before, however the allocator answers and wherever the call stops (`keeps_shMalloc`).
In particular `sh_malloc` never changes the number of entries that the table counts (`keeps_amount`).
-/

namespace SafeHeap

open CMachine Exec

section Frame

variable {δ ω : Type} {f : Block → Option δ} {g : Globals → ω}

variable (hg : ∀ x l, g { x with printed := l } = g x)
include hg

lemma keeps_shError : Keeps (NoNew f g) shError := fun _ => NoNew.of_heap_eq rfl (hg _ _)

lemma keeps_shInternalMalloc {r : Request} (hf : ∀ fill, f (r.make none fill) = none) :
    Keeps (NoNew f g) (shInternalMalloc r) := by
  refine (NoNew.keeps_malloc hf).bind fun tmp => ?_
  have hthen : ∀ _ : Unit, Keeps (NoNew f g) (pure tmp : Prog Ptr) := fun _ => keeps_pure tmp
  split
  · exact (keeps_shError hg).bind hthen
  · exact keeps_pure tmp

lemma keeps_shInternalRealloc {p : Ptr} {r : Request} (hf : ∀ old fill, f (r.make old fill) = none) :
    Keeps (NoNew f g) (shInternalRealloc p r) := by
  refine (NoNew.keeps_realloc hf).bind fun tmp => ?_
  split
  · exact (keeps_shError hg).bind fun _ => keeps_pure p
  · exact keeps_pure tmp

variable (hp : ∀ l, f (.pointers l) = none)
include hp

omit hg in
lemma keeps_writeSlot (p : Ptr) (i : ℕ) (q : Ptr) : Keeps (NoNew f g) (writeSlot p i q) := by
  refine (Block.pointerArrays.keeps_read p).bind fun l => ?_
  split
  · exact NoNew.keeps_store (hp _)
  · exact keeps_fault _

variable (hd : ∀ d, f (.descriptor d) = none) (hb : ∀ l, f (.bytes l) = none)
include hd hb

omit hp in
lemma keeps_placeBlock (t : Ptr) (i size : ℕ) : Keeps (NoNew f g) (placeBlock t i size) := by
  have hmodify : ∀ (d : Ptr) (k : ShSegmentDescriptor → ShSegmentDescriptor),
      Keeps (NoNew f g) (Block.descriptors.modify d k) := fun d k => by
    refine NoNew.keeps_modify Block.descriptors d fun x a h => ?_
    rw [show f (Block.descriptors.put (k x)) = none from hd _] at h
    cases h
  refine (keeps_shInternalMalloc hg fun _ => hb _).bind fun a => ?_
  refine (keeps_readSlot t i).bind fun d => (hmodify d _).bind fun _ => ?_
  exact (keeps_readSlot t i).bind fun d => hmodify d _

omit hb in
lemma keeps_newDescriptor (t : Ptr) (i : ℕ) : Keeps (NoNew f g) (newDescriptor t i) := by
  refine (keeps_shInternalRealloc hg fun _ _ => hp _).bind fun t => ?_
  refine (keeps_shInternalMalloc hg fun _ => hd _).bind fun d => ?_
  exact (keeps_writeSlot hp t i d).bind fun _ => keeps_pure t

lemma keeps_segmentStep (policy : ShProtectionPolicy) (c : ℕ) (r : ℤ) (t : Ptr) (i : ℕ) :
    Keeps (NoNew f g) (segmentStep policy c r t i) := by
  have hplace := keeps_placeBlock hg hd hb
  refine (keeps_newDescriptor hg hp hd t i).bind fun t => ?_
  split
  · exact (hplace t i _).bind fun _ => (hplace t i _).bind fun _ => keeps_pure t
  · exact (keeps_pure ()).bind fun _ => (hplace t i _).bind fun _ => keeps_pure t

lemma keeps_segmentLoop (policy : ShProtectionPolicy) (c : ℕ) :
    ∀ fuel r t i, Keeps (NoNew f g) (segmentLoop policy c fuel r t i) := by
  intro fuel
  induction fuel with
  | zero => exact fun r t i => keeps_fault _
  | succ fuel ih =>
    intro r t i
    unfold segmentLoop
    split
    · exact (keeps_segmentStep hg hp hd hb policy c r t i).bind fun t => ih _ t _
    · exact keeps_pure _

lemma keeps_singleBlock (c size : ℕ) : Keeps (NoNew f g) (singleBlock c size) := by
  refine (keeps_shInternalMalloc hg fun _ => hp _).bind fun t => ?_
  refine (keeps_shInternalMalloc hg fun _ => hd _).bind fun d => ?_
  refine (keeps_writeSlot hp t 0 d).bind fun _ => ?_
  exact (keeps_placeBlock hg hd hb t 0 _).bind fun _ => keeps_pure _

/-- **Building a segments table** brings up nothing but pointers, descriptors and bytes. -/
theorem keeps_shMallocSegments (t : Ptr) (size : ℕ) (p : ShProtectionGrade) :
    Keeps (NoNew f g) (shMallocSegments t size p) := by
  refine ((keeps_shGetProtectionPolicy p).bind fun o => keeps_deref o).bind fun policy => ?_
  refine ((keeps_shGetCipherOutsizeDiff _ _).bind fun o => keeps_use o).bind fun c => ?_
  split
  · exact keeps_segmentLoop hg hp hd hb policy c _ _ t 0
  · exact keeps_singleBlock hg hp hd hb c size

omit hd hb in
/-- Making room in the table changes its array alone. -/
lemma keeps_growEntries (ht : ∀ x e a, f (.table { x with entries := e }) = some a → f (.table x) = some a) :
    Keeps (NoNew f g) growEntries := by
  refine keeps_globals.bind fun x => ?_
  refine (Block.tables.keeps_read _).bind fun t => ?_
  refine (keeps_shInternalRealloc hg fun _ _ => hp _).bind fun entries => ?_
  exact NoNew.keeps_modify Block.tables _ fun x a h => ht x entries a h

omit hp hd hb in
lemma keeps_newEntry (he : ∀ e, f (.entry e) = none) (segments : Ptr) (amount : ℕ) (p : ShProtectionGrade) :
    Keeps (NoNew f g) (newEntry segments amount p) := by
  have hmodify : ∀ (d : Ptr) (k : ShProtectedEntry → ShProtectedEntry),
      Keeps (NoNew f g) (Block.entries.modify d k) := fun d k => by
    refine NoNew.keeps_modify Block.entries d fun x a h => ?_
    rw [show f (Block.entries.put (k x)) = none from he _] at h
    cases h
  refine (keeps_shInternalMalloc hg fun _ => he _).bind fun e => (hmodify e _).bind fun _ => ?_
  refine (hmodify e _).bind fun _ => (hmodify e _).bind fun _ => (hmodify e _).bind fun _ => ?_
  exact keeps_pure e

/-- **A call of `sh_malloc`** brings up nothing but pointers, descriptors, bytes and an entry. -/
theorem keeps_shMalloc (he : ∀ e, f (.entry e) = none)
    (ht : ∀ x e a, f (.table { x with entries := e }) = some a → f (.table x) = some a)
    (t : Ptr) (size : ℕ) (p : ShProtectionGrade) : Keeps (NoNew f g) (shMalloc t size p) := by
  refine (keeps_shMallocSegments hg hp hd hb t size p).bind fun r => ?_
  refine (keeps_newEntry hg he r.1 r.2 p).bind fun e => ?_
  exact (keeps_growEntries hg hp ht).bind fun _ => keeps_pure _

end Frame

/-- The number of entries a table in memory counts. -/
def Block.amount? : Block → Option ℕ
  | .table t => some t.amount
  | _ => none

/-- The buffer an entry records. -/
def Block.sharedBuffer? : Block → Option Ptr
  | .entry e => some e.sharedBuffer
  | _ => none

/-- **No call of `sh_malloc` counts an entry**: where the table in memory has a number of entries
afterwards, it had that number before. -/
theorem keeps_amount (t : Ptr) (size : ℕ) (p : ShProtectionGrade) :
    Keeps (NoNew Block.amount? Globals.shProtectedTable) (shMalloc t size p) :=
  keeps_shMalloc (f := Block.amount?) (fun _ _ => rfl) (fun _ => rfl) (fun _ => rfl) (fun _ => rfl) (fun _ => rfl)
    (fun _ _ _ h => h) t size p

/-- The buffers that entries record stay when room is made in the table. -/
theorem keeps_sharedBuffer : Keeps (NoNew Block.sharedBuffer? Globals.shProtectedTable) growEntries :=
  keeps_growEntries (f := Block.sharedBuffer?) (fun _ _ => rfl) (fun _ => rfl) fun _ _ _ h => h

end SafeHeap
