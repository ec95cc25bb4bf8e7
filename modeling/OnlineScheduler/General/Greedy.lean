import Mathlib.Algebra.Order.BigOperators.Group.List
import Mathlib.Algebra.Order.Group.Basic
import Mathlib.Tactic.Linarith

/-! Taking items in order within a budget. The item that overruns the budget is
still taken, and the last one. -/

namespace Greedy

variable {α K : Type*} [AddCommGroup K] [LinearOrder K]

def total (cost : α → K) (items : List α) : K := (items.map cost).sum

def plan (cost : α → K) : K → List α → List α
  | _, [] => []
  | budget, item :: rest =>
    if budget - cost item < 0 then [item] else item :: plan cost (budget - cost item) rest

/-- The same with `spend` for what an item leaves of a budget. -/
def planBy (spend : K → α → K) : K → List α → List α
  | _, [] => []
  | budget, item :: rest =>
    if spend budget item < 0 then [item] else item :: planBy spend (spend budget item) rest

theorem planBy_sub (cost : α → K) (budget : K) (items : List α) :
    planBy (fun budget item => budget - cost item) budget items = plan cost budget items := by
  induction items generalizing budget with
  | nil => rfl
  | cons item rest ih => rw [planBy, plan, ih]

/-- The budget is not negative after any of the items. -/
def Lasts (spend : K → α → K) (budget : K) (items : List α) : Prop :=
  ∀ part, part <+: items → part ≠ [] → 0 ≤ part.foldl spend budget

theorem lasts_nil (spend : K → α → K) (budget : K) : Lasts spend budget [] :=
  fun _ inside taken => absurd (List.prefix_nil.mp inside) taken

theorem lasts_cons {spend : K → α → K} {budget : K} {item : α} {rest : List α} :
    Lasts spend budget (item :: rest) ↔ 0 ≤ spend budget item ∧ Lasts spend (spend budget item) rest := by
  constructor
  · intro lasts
    refine ⟨lasts [item] (List.cons_prefix_cons.mpr ⟨rfl, List.nil_prefix⟩) (List.cons_ne_nil _ _), ?_⟩
    intro part inside _
    exact lasts (item :: part) (List.cons_prefix_cons.mpr ⟨rfl, inside⟩) (List.cons_ne_nil _ _)
  · rintro ⟨here, later⟩ part inside taken
    cases part with
    | nil => exact absurd rfl taken
    | cons head part =>
      obtain ⟨rfl, before⟩ := List.cons_prefix_cons.mp inside
      cases part with
      | nil => exact here
      | cons next part => exact later (next :: part) before (List.cons_ne_nil _ _)

omit [LinearOrder K] in
@[simp] theorem total_nil (cost : α → K) : total cost [] = 0 := List.sum_nil

omit [LinearOrder K] in
@[simp] theorem total_cons (cost : α → K) (item : α) (rest : List α) :
    total cost (item :: rest) = cost item + total cost rest := List.sum_cons

variable {cost : α → K}

variable [IsOrderedAddMonoid K]

/-- A plan exceeds its budget by its last item at most. -/
theorem plan_total_le {most : K} (proper : 0 ≤ most) {items : List α} (each : ∀ item ∈ items, cost item ≤ most)
    {budget : K} (nonneg : 0 ≤ budget) : total cost (plan cost budget items) ≤ budget + most := by
  induction items generalizing budget with
  | nil => exact add_nonneg nonneg proper
  | cons item rest ih =>
    have first : cost item ≤ most := each item List.mem_cons_self
    rw [plan]
    split
    next =>
      rw [total_cons, total_nil, add_zero]
      exact first.trans (le_add_of_nonneg_left nonneg)
    next within =>
      have remaining := ih (fun later member => each later (List.mem_cons_of_mem _ member)) (not_lt.mp within)
      rw [total_cons]
      calc cost item + total cost (plan cost (budget - cost item) rest)
          ≤ cost item + (budget - cost item + most) := by gcongr
        _ = budget + most := by rw [← add_assoc, add_sub_cancel]

omit [LinearOrder K] [IsOrderedAddMonoid K] in
private theorem reached_cons {head : α} {rest : List α} {holds : List α → α → Prop} :
    (∀ first item, first ++ [item] <+: head :: rest → holds first item) ↔
      holds [] head ∧ ∀ first item, first ++ [item] <+: rest → holds (head :: first) item := by
  constructor
  · intro each
    exact ⟨each [] head (List.cons_prefix_cons.mpr ⟨rfl, List.nil_prefix⟩),
      fun first item before => each (head :: first) item (List.cons_prefix_cons.mpr ⟨rfl, before⟩)⟩
  · rintro ⟨here, later⟩ first item before
    cases first with
    | nil =>
      obtain ⟨rfl, _⟩ := List.cons_prefix_cons.mp before
      exact here
    | cons other first =>
      obtain ⟨rfl, inside⟩ := List.cons_prefix_cons.mp before
      exact later first item inside

/-- A plan stays within a limit exactly when every item that the budget lets it
reach does. -/
theorem planBy_total_limit (spend : K → α → K) {items : List α} (positive : ∀ item ∈ items, 0 ≤ cost item) (budget : K)
    (limit : K) : total cost (planBy spend budget items) ≤ limit ↔
      0 ≤ limit ∧ ∀ first item, first ++ [item] <+: items → Lasts spend budget first →
        total cost first + cost item ≤ limit := by
  induction items generalizing budget limit with
  | nil => simp [planBy]
  | cons head rest ih =>
    have here : 0 ≤ cost head := positive head List.mem_cons_self
    have later := fun item member => positive item (List.mem_cons_of_mem head member)
    simp only [reached_cons, total_nil, total_cons, lasts_nil, lasts_cons, true_implies, zero_add]
    rw [planBy]
    split
    next exceeds =>
      rw [total_cons, total_nil, add_zero]
      constructor
      · intro within
        refine ⟨here.trans within, within, fun first item before reached => ?_⟩
        exact absurd reached.1 (not_le.mpr exceeds)
      · exact fun within => within.2.1
    next within =>
      rw [total_cons, ← le_sub_iff_add_le', ih later, sub_nonneg]
      have lasting := not_lt.mp within
      have shifted (first : List α) (item : α) : total cost first + cost item ≤ limit - cost head ↔
          cost head + total cost first + cost item ≤ limit := by
        rw [le_sub_iff_add_le', add_assoc]
      simp only [shifted, lasting, true_and]
      constructor
      · exact fun ⟨first, rest⟩ => ⟨here.trans first, first, rest⟩
      · exact fun ⟨_, first, rest⟩ => ⟨first, rest⟩

/-- The items up to and including the first at which their total exceeds the
budget, or all of them. -/
structure UpTo (cost : α → K) (budget : K) (items taken : List α) : Prop where
  leading : taken <+: items
  within : ∀ first item, first ++ [item] <+: taken → total cost first ≤ budget
  enough : taken = items ∨ budget < total cost taken

theorem plan_upTo (cost : α → K) {budget : K} (nonneg : 0 ≤ budget) (items : List α) :
    UpTo cost budget items (plan cost budget items) := by
  induction items generalizing budget with
  | nil => exact ⟨List.prefix_refl _, fun first item before => absurd (List.prefix_nil.mp before) (by simp), .inl rfl⟩
  | cons head rest ih =>
    rw [plan]
    split
    next exceeds =>
      refine ⟨List.cons_prefix_cons.mpr ⟨rfl, List.nil_prefix⟩, ?_, .inr ?_⟩
      · rw [reached_cons]
        exact ⟨nonneg, fun first item before => absurd (List.prefix_nil.mp before) (by simp)⟩
      · rw [total_cons, total_nil, add_zero]
        exact sub_neg.mp exceeds
    next within =>
      have later := ih (not_lt.mp within)
      refine ⟨List.cons_prefix_cons.mpr ⟨rfl, later.leading⟩, ?_, ?_⟩
      · rw [reached_cons]
        refine ⟨nonneg, fun first item before => ?_⟩
        rw [total_cons]
        exact le_sub_iff_add_le'.mp (later.within first item before)
      · refine later.enough.imp (congrArg (head :: ·)) fun exceeds => ?_
        rw [total_cons]
        exact sub_lt_iff_lt_add'.mp exceeds

section
variable [DecidableEq α]

theorem eraseDups_nodup (items : List α) : items.eraseDups.Nodup := by
  induction size : items.length using Nat.strong_induction_on generalizing items with
  | _ size ih =>
    cases items with
    | nil => exact List.nodup_nil
    | cons head rest =>
      rw [List.eraseDups_cons, List.nodup_cons]
      refine ⟨fun member => ?_, ih _ ?_ _ rfl⟩
      · simp at member
      · rw [← size, List.length_cons]
        exact Nat.lt_succ_of_le (List.length_filter_le ..)

theorem eraseDups_distinct {items : List α} (distinct : items.Nodup) : items.eraseDups = items := by
  induction items with
  | nil => rfl
  | cons head rest ih =>
    obtain ⟨new, distinct⟩ := List.nodup_cons.mp distinct
    have kept : rest.filter (fun other => !other == head) = rest := by
      refine List.filter_eq_self.mpr fun other member => ?_
      simpa using fun same : other = head => new (same ▸ member)
    rw [List.eraseDups_cons, kept, ih distinct]

end
end Greedy
