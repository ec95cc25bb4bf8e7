import Mathlib.Data.Multiset.UnionInter
import Mathlib.Logic.Function.Basic

/-! Items that are found by their keys. -/

namespace Dictionary

variable {α κ : Type*} {key : α → κ} {items : Multiset α} {dictionary : κ → Option α} {x old : α}

/-- The dictionary has the items, and no two of them under one key. -/
structure Represents (key : α → κ) (items : Multiset α) (dictionary : κ → Option α) : Prop where
  distinct : (items.map key).Nodup
  held : ∀ k x, dictionary k = some x ↔ x ∈ items ∧ key x = k

theorem Represents.empty : Represents key 0 fun _ => none :=
  ⟨by simp, by simp⟩

theorem Represents.found (represents : Represents key items dictionary) (member : x ∈ items) :
    dictionary (key x) = some x :=
  (represents.held (key x) x).mpr ⟨member, rfl⟩

theorem Represents.missing (represents : Represents key items dictionary) {k : κ} :
    dictionary k = none ↔ k ∉ items.map key := by
  rw [Option.eq_none_iff_forall_ne_some, Multiset.mem_map, not_exists]
  exact forall_congr' fun x => not_congr (represents.held k x)

variable [DecidableEq κ]

theorem Represents.insert (represents : Represents key items dictionary) (absent : key x ∉ items.map key) :
    Represents key (x ::ₘ items) (Function.update dictionary (key x) (some x)) := by
  constructor
  case distinct =>
    rw [Multiset.map_cons]
    exact Multiset.nodup_cons.mpr ⟨absent, represents.distinct⟩
  case held =>
    intro k y
    rw [Multiset.mem_cons]
    by_cases here : k = key x
    · subst here
      rw [Function.update_self, Option.some_inj]
      constructor
      · rintro rfl
        exact ⟨Or.inl rfl, rfl⟩
      · rintro ⟨rfl | member, same⟩
        · rfl
        · exact absurd (same ▸ Multiset.mem_map_of_mem key member) absent
    · rw [Function.update_of_ne here, represents.held]
      refine and_congr_left fun same => (or_iff_right ?_).symm
      rintro rfl
      exact here same.symm

theorem Represents.remove (represents : Represents key (old ::ₘ items) dictionary) :
    Represents key items (Function.update dictionary (key old) none) := by
  have distinct := represents.distinct
  rw [Multiset.map_cons, Multiset.nodup_cons] at distinct
  refine ⟨distinct.2, ?_⟩
  intro k y
  by_cases here : k = key old
  · subst here
    rw [Function.update_self]
    refine iff_of_false (by simp) ?_
    rintro ⟨member, same⟩
    exact distinct.1 (same ▸ Multiset.mem_map_of_mem key member)
  · rw [Function.update_of_ne here, represents.held, Multiset.mem_cons]
    refine and_congr_left fun same => or_iff_right ?_
    rintro rfl
    exact here same.symm

theorem Represents.replace (represents : Represents key (old ::ₘ items) dictionary) (same : key old = key x) :
    Represents key (x ::ₘ items) (Function.update dictionary (key x) (some x)) := by
  have distinct := represents.distinct
  rw [Multiset.map_cons, Multiset.nodup_cons, same] at distinct
  have replaced := represents.remove.insert distinct.1
  rwa [same, Function.update_idem] at replaced

/-- Storing an item: it is new, or takes the place of one with its key. -/
inductive Stored (key : α → κ) (x : α) (before : Multiset α) : Multiset α → Option α → Prop where
  | added (absent : key x ∉ before.map key) : Stored key x before (x ::ₘ before) none
  | replaced {old : α} {rest : Multiset α} (same : key old = key x) (there : before = old ::ₘ rest) :
    Stored key x before (x ::ₘ rest) (some old)

inductive Taken (key : α → κ) (k : κ) (before : Multiset α) : Multiset α → Option α → Prop where
  | missing (absent : k ∉ before.map key) : Taken key k before before none
  | found {old : α} {rest : Multiset α} (same : key old = k) (there : before = old ::ₘ rest) :
    Taken key k before rest (some old)

variable {before after : Multiset α} {answer : Option α}

theorem Represents.stored (represents : Represents key before dictionary) (stored : Stored key x before after answer) :
    Represents key after (Function.update dictionary (key x) (some x)) ∧ answer = dictionary (key x) := by
  cases stored with
  | added absent => exact ⟨represents.insert absent, (represents.missing.mpr absent).symm⟩
  | replaced same there =>
    subst there
    refine ⟨represents.replace same, ?_⟩
    rw [← same]
    exact (represents.found (Multiset.mem_cons_self ..)).symm

theorem Represents.taken {k : κ} (represents : Represents key before dictionary) (taken : Taken key k before after answer) :
    Represents key after (Function.update dictionary k none) ∧ answer = dictionary k := by
  cases taken with
  | missing absent =>
    have none := represents.missing.mpr absent
    refine ⟨?_, none.symm⟩
    rwa [← none, Function.update_eq_self]
  | found same there =>
    subst there same
    exact ⟨represents.remove, (represents.found (Multiset.mem_cons_self ..)).symm⟩

end Dictionary
