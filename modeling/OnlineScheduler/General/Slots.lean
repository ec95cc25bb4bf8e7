import Mathlib.Data.Fintype.Basic
import Mathlib.Data.Finset.Card
import Mathlib.Data.Multiset.AddSub
import Mathlib.Data.Multiset.Filter
import Mathlib.Logic.Function.Basic

/-! Arrays of slots as bags. A slot holds an entry or is free; the bag forgets
which slot holds what. Storing in a free slot adds an entry to the bag, and
clearing the first slot that holds an entry removes it. -/

namespace Slots

variable {ι α : Type*} [DecidableEq ι]

private theorem filterMap_update (slots : ι → Option α) {i : ι} (content : Option α) {rest : Multiset ι}
    (apart : i ∉ rest) :
    Multiset.filterMap (Function.update slots i content) rest = Multiset.filterMap slots rest := by
  induction rest using Quotient.inductionOn with
  | h order =>
    simp only [Multiset.quot_mk_to_coe, Multiset.filterMap_coe]
    congr 1
    apply List.filterMap_congr
    intro other member
    exact Function.update_of_ne (fun same => apart (by simpa [← same] using member)) _ _

section
variable [DecidableEq α]

def removeFirst (order : List ι) (slots : ι → Option α) (entry : α) : ι → Option α :=
  match order.find? (fun i => slots i = some entry) with
  | some i => Function.update slots i none
  | none => slots

variable {order : List ι} {slots : ι → Option α} {entry : α} {i : ι}

private theorem removeFirst_found (found : order.find? (fun i => slots i = some entry) = some i) :
    slots i = some entry ∧ removeFirst order slots entry = Function.update slots i none := by
  refine ⟨?_, by simp only [removeFirst, found]⟩
  have held := List.find?_some found
  simpa using held

private theorem removeFirst_missing (missing : order.find? (fun i => slots i = some entry) = none) :
    removeFirst order slots entry = slots := by
  simp only [removeFirst, missing]

theorem removeFirst_in_use (used : removeFirst order slots entry i ≠ none) : slots i ≠ none := by
  cases found : order.find? (fun i => slots i = some entry) with
  | some cleared =>
    rw [(removeFirst_found found).2] at used
    by_cases same : i = cleared
    · subst cleared; simp at used
    · rwa [Function.update_of_ne same] at used
  | none => rwa [removeFirst_missing found] at used

theorem removeFirst_other {other : α} (different : entry ≠ other) (i : ι) :
    removeFirst order slots other i = some entry ↔ slots i = some entry := by
  cases found : order.find? (fun i => slots i = some other) with
  | some cleared =>
    obtain ⟨held, same⟩ := removeFirst_found found
    rw [same]
    by_cases same : i = cleared
    · subst cleared; simp [held, Ne.symm different]
    · rw [Function.update_of_ne same]
  | none => rw [removeFirst_missing found]

private theorem removeFirst_self (held : slots i = some entry) :
    removeFirst order slots entry i =
      if order.find? (fun j => slots j = some entry) = some i then none else some entry := by
  cases found : order.find? (fun i => slots i = some entry) with
  | some cleared =>
    rw [(removeFirst_found found).2]
    by_cases same : i = cleared
    · subst cleared; simp
    · simp [Function.update_of_ne same, held, Ne.symm same]
  | none => simp [removeFirst_missing found, held]

private theorem removeAll_free (entries : List α) (free : slots i = none) :
    entries.foldl (removeFirst order) slots i = none := by
  induction entries generalizing slots with
  | nil => exact free
  | cons entry rest ih =>
    apply ih
    by_contra used
    exact removeFirst_in_use used free

private theorem removeAll_absent {entries : List α} (absent : entry ∉ entries) (held : slots i = some entry) :
    entries.foldl (removeFirst order) slots i = some entry := by
  induction entries generalizing slots with
  | nil => exact held
  | cons other rest ih =>
    have different : entry ≠ other := fun same => absent (by simp [same])
    exact ih (fun member => absent (List.mem_cons_of_mem _ member))
      ((removeFirst_other different i).mpr held)

/-- Which slots a removal of distinct entries clears: a slot in use goes exactly
when its entry is removed and no earlier slot of the scan holds the same. -/
theorem removeAll_clears {order : List ι} {entries : List α} (distinct : entries.Nodup)
    {slots : ι → Option α} {i : ι} {entry : α} (held : slots i = some entry) :
    entries.foldl (removeFirst order) slots i = none ↔
      entry ∈ entries ∧ order.find? (fun j => slots j = some entry) = some i := by
  induction entries generalizing slots with
  | nil => simp [held]
  | cons other rest ih =>
    obtain ⟨fresh, distinct⟩ := List.nodup_cons.mp distinct
    rw [List.foldl_cons]
    by_cases same : entry = other
    · subst other
      have met : removeFirst order slots entry i = _ := removeFirst_self held
      by_cases first : order.find? (fun j => slots j = some entry) = some i
      · rw [if_pos first] at met
        simp [removeAll_free rest met, first]
      · rw [if_neg first] at met
        simp [removeAll_absent fresh met, first]
    · rw [ih distinct ((removeFirst_other same i).mpr held)]
      simp only [removeFirst_other same, List.mem_cons, same, false_or]

end

variable [Fintype ι]

def bag (slots : ι → Option α) : Multiset α := Finset.univ.val.filterMap slots

omit [DecidableEq ι] in
theorem mem_bag {slots : ι → Option α} {entry : α} : entry ∈ bag slots ↔ ∃ i, slots i = some entry := by
  simp [bag, Multiset.mem_filterMap]

private theorem bag_split (slots : ι → Option α) (i : ι) :
    bag slots = Multiset.filterMap slots (i ::ₘ (Finset.univ.erase i).val) := by
  rw [bag, Finset.erase_val, Multiset.cons_erase (Finset.mem_univ_val i)]

private theorem rest_update (slots : ι → Option α) (i : ι) (content : Option α) :
    Multiset.filterMap (Function.update slots i content) (Finset.univ.erase i).val =
      Multiset.filterMap slots (Finset.univ.erase i).val :=
  filterMap_update slots content (fun member => Finset.notMem_erase i _ (Finset.mem_val.mp member))

theorem bag_store (slots : ι → Option α) (i : ι) (entry : α) (free : slots i = none) :
    bag (Function.update slots i (some entry)) = entry ::ₘ bag slots := by
  rw [bag_split _ i, bag_split slots i,
    Multiset.filterMap_cons_some _ _ _ (Function.update_self i (some entry) slots),
    Multiset.filterMap_cons_none _ _ free, rest_update]

theorem bag_take {slots : ι → Option α} {i : ι} {entry : α} (held : slots i = some entry) :
    bag slots = entry ::ₘ bag (Function.update slots i none) := by
  have stored := bag_store (Function.update slots i none) i entry (Function.update_self ..)
  rwa [Function.update_idem, ← held, Function.update_eq_self] at stored

/-- Moving an entry into a slot that is not looked at. -/
theorem bag_move (slots : ι → Option α) {i j : ι} (apart : j ≠ i) (used : slots j ≠ none) :
    bag (Function.update (Function.update slots i (slots j)) j none) = bag (Function.update slots i none) := by
  obtain ⟨entry, held⟩ := Option.ne_none_iff_exists'.mp used
  have still : Function.update slots i none j = some entry := (Function.update_of_ne apart ..).trans held
  have emptied : Function.update (Function.update slots i none) j none i = none :=
    (Function.update_of_ne apart.symm ..).trans (Function.update_self ..)
  have moved : Function.update (Function.update (Function.update slots i none) j none) i (some entry) =
      Function.update (Function.update slots i (some entry)) j none := by
    rw [← Function.update_comm apart, Function.update_idem, Function.update_comm apart]
  rw [bag_take still, ← bag_store _ i entry emptied, moved, held]

/-- Two slots do not hold the same entry, when no entry is twice in the bag. -/
theorem bag_injective {κ : Type*} {key : α → κ} {slots : ι → Option α} (distinct : ((bag slots).map key).Nodup)
    {i j : ι} {first second : α} (here : slots i = some first) (there : slots j = some second)
    (same : key first = key second) : i = j := by
  by_contra apart
  have still : Function.update slots i none j = some second := (Function.update_of_ne (Ne.symm apart) ..).trans there
  rw [bag_take here, bag_take still, Multiset.map_cons, Multiset.map_cons, same] at distinct
  exact (Multiset.nodup_cons.mp distinct).1 (Multiset.mem_cons_self ..)

omit [DecidableEq ι] [Fintype ι] in
private theorem card_filterMap {slots : ι → Option α} {chosen : Multiset ι} (used : ∀ i ∈ chosen, slots i ≠ none) :
    (chosen.filterMap slots).card = chosen.card := by
  induction chosen using Multiset.induction with
  | empty => rfl
  | cons i rest ih =>
    obtain ⟨entry, held⟩ := Option.ne_none_iff_exists'.mp (used i (Multiset.mem_cons_self i rest))
    rw [Multiset.filterMap_cons_some _ _ _ held, Multiset.card_cons, Multiset.card_cons,
      ih fun j member => used j (Multiset.mem_cons_of_mem member)]

omit [DecidableEq ι] in
/-- Slots in use hold an entry each. -/
theorem card_le_bag {slots : ι → Option α} {chosen : Finset ι} (used : ∀ i ∈ chosen, slots i ≠ none) :
    chosen.card ≤ (bag slots).card := by
  rw [Finset.card_def, ← card_filterMap used]
  exact Multiset.card_le_card (Multiset.filterMap_le_filterMap _ (Finset.val_le_iff.mpr (Finset.subset_univ chosen)))

variable [DecidableEq α]

theorem bag_clear (slots : ι → Option α) (i : ι) (entry : α) (held : slots i = some entry) :
    bag (Function.update slots i none) = (bag slots).erase entry := by
  rw [bag_split _ i, bag_split slots i,
    Multiset.filterMap_cons_none _ _ (Function.update_self i none slots),
    Multiset.filterMap_cons_some _ _ _ held, Multiset.erase_cons_head, rest_update]

/-- When the scan reaches every slot in use, removal is removal from the bag:
one occurrence goes, and only if there is one. -/
theorem bag_removeFirst {order : List ι} {slots : ι → Option α}
    (covered : ∀ i, slots i ≠ none → i ∈ order) (entry : α) :
    bag (removeFirst order slots entry) = (bag slots).erase entry := by
  cases found : order.find? (fun i => slots i = some entry) with
  | some i =>
    obtain ⟨held, cleared⟩ := removeFirst_found found
    rw [cleared, bag_clear slots i entry held]
  | none =>
    rw [removeFirst_missing found, Multiset.erase_of_notMem]
    intro present
    obtain ⟨i, held⟩ := mem_bag.mp present
    have absent := List.find?_eq_none.mp found i (covered i (by simp [held]))
    simp [held] at absent

theorem bag_removeAll {order : List ι} (entries : List α) {slots : ι → Option α}
    (covered : ∀ i, slots i ≠ none → i ∈ order) :
    bag (entries.foldl (removeFirst order) slots) = bag slots - ↑entries := by
  induction entries generalizing slots with
  | nil => simp
  | cons entry rest ih =>
    rw [List.foldl_cons, ih (fun i used => covered i (removeFirst_in_use used)),
      bag_removeFirst covered, ← Multiset.cons_coe, Multiset.sub_cons]

end Slots
