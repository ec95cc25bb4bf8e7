import OnlineScheduler.General.Slots
import Mathlib.Data.ZMod.Basic

/-! Robin Hood tables. Cells lie on a ring, and each item travels from its home
until it finds a free cell or one whose item has travelled less. The distance of
an item counts from one at its home, and zero marks a free cell. -/

namespace RobinHood

structure Cell (α : Type*) where
  dib : ℕ
  item : α

variable {n : ℕ} {α : Type*} {home : α → ZMod n} {cells : ZMod n → Cell α} {i j : ZMod n} {d : ℕ} {x : α}

def Cell.content (cell : Cell α) : Option α := if cell.dib = 0 then none else some cell.item

theorem Cell.content_some {cell : Cell α} (used : cell.dib ≠ 0) : cell.content = some cell.item := if_neg used

theorem Cell.content_none {cell : Cell α} : cell.content = none ↔ cell.dib = 0 := by
  unfold content
  split <;> simp [*]

/-- An item is next to one that has travelled as far or one step less, or is at
home. So there is no gap between an item and its home. -/
structure Sound (home : α → ZMod n) (cells : ZMod n → Cell α) : Prop where
  ordered : ∀ j, (cells (j + 1)).dib ≤ (cells j).dib + 1
  located : ∀ j, (cells j).dib ≠ 0 → home (cells j).item + (cells j).dib = j + 1

theorem Sound.empty (free : ∀ j, (cells j).dib = 0) : Sound home cells := by
  constructor
  case ordered =>
    intro j
    rw [free]
    exact Nat.zero_le _
  case located => exact fun j used => absurd (free j) used

theorem Sound.further (sound : Sound home cells) (j : ZMod n) (s : ℕ) :
    (cells (j + s)).dib ≤ (cells j).dib + s := by
  induction s with
  | zero => simp
  | succ s ih =>
    have next := sound.ordered (j + s)
    rw [Nat.cast_succ, ← add_assoc]
    omega

/-- The way of an item from its home is taken by items that are no nearer to
their homes. -/
theorem Sound.path (sound : Sound home cells) {s : ℕ} (inside : s < (cells j).dib) :
    s < (cells (home (cells j).item + s)).dib := by
  have located := sound.located j (by omega)
  have split : home (cells j).item + s + ((cells j).dib - 1 - s : ℕ) = j := by
    rw [add_assoc, ← Nat.cast_add, ← add_left_inj (1 : ZMod n), add_assoc, ← Nat.cast_succ, ← located]
    congr 2
    omega
  have reached := sound.further (home (cells j).item + s) ((cells j).dib - 1 - s)
  rw [split] at reached
  omega

/-- A search that comes upon a nearer item, or a free cell, has passed the item
it looks for. -/
theorem Sound.passed (sound : Sound home cells) {s : ℕ}
    (nearer : (cells (home (cells j).item + s)).dib ≤ s) : (cells j).dib ≤ s := by
  by_contra beyond
  exact absurd (sound.path (not_le.mp beyond)) (not_lt.mpr nearer)

/-- What a search has not met before it passes, is not there. -/
theorem Sound.absent (sound : Sound home cells) {h : ZMod n} {s : ℕ} (nearer : (cells (h + s)).dib ≤ s)
    {P : α → Prop} (unmet : ∀ t < s, ¬ P (cells (h + t)).item) {j : ZMod n} (used : (cells j).dib ≠ 0)
    (from_home : home (cells j).item = h) : ¬ P (cells j).item := by
  subst from_home
  have before := sound.passed nearer
  have located := sound.located j used
  have reached : home (cells j).item + ((cells j).dib - 1 : ℕ) = j := by
    rw [Nat.cast_sub (by omega), Nat.cast_one, ← add_sub_assoc, located, add_sub_cancel_right]
  have missed := unmet ((cells j).dib - 1) (by omega)
  rwa [reached] at missed

/-- An item `x` at distance `d` may be put into the cell, as far as the cell
before it is concerned. -/
structure Ready (home : α → ZMod n) (cells : ZMod n → Cell α) (i : ZMod n) (d : ℕ) (x : α) : Prop where
  located : home x + d = i + 1
  travels : d ≠ 0
  before : d ≤ (cells (i - 1)).dib + 1

theorem Ready.start (home : α → ZMod n) (cells : ZMod n → Cell α) (x : α) : Ready home cells (home x) 1 x :=
  ⟨by rw [Nat.cast_one], one_ne_zero, Nat.le_add_left ..⟩

theorem Ready.skip (ready : Ready home cells i d x) (further : d ≤ (cells i).dib) :
    Ready home cells (i + 1) (d + 1) x := by
  refine ⟨?_, Nat.succ_ne_zero d, ?_⟩
  · rw [Nat.cast_succ, ← add_assoc, ready.located]
  · rw [add_sub_cancel_right]
    exact Nat.succ_le_succ further

/-- The item that makes room travels on. -/
theorem Sound.swap (sound : Sound home cells) (used : (cells i).dib ≠ 0) (nearer : (cells i).dib ≤ d) (x : α) :
    Ready home (Function.update cells i ⟨d, x⟩) (i + 1) ((cells i).dib + 1) (cells i).item := by
  refine ⟨?_, Nat.succ_ne_zero _, ?_⟩
  · rw [Nat.cast_succ, ← add_assoc, sound.located i used]
  · rw [add_sub_cancel_right, Function.update_self]
    exact Nat.succ_le_succ nearer

theorem Sound.replace (sound : Sound home cells) (alike : home x = home (cells i).item) :
    Sound home (Function.update cells i ⟨(cells i).dib, x⟩) := by
  have dib : ∀ j, (Function.update cells i ⟨(cells i).dib, x⟩ j).dib = (cells j).dib := by
    intro j
    by_cases here : j = i
    · subst here
      rw [Function.update_self]
    · rw [Function.update_of_ne here]
  constructor
  case ordered =>
    intro j
    rw [dib, dib]
    exact sound.ordered j
  case located =>
    intro j used
    rw [dib] at used ⊢
    by_cases here : j = i
    · subst here
      rw [Function.update_self, alike]
      exact sound.located j used
    · rw [Function.update_of_ne here]
      exact sound.located j used

section
variable [Nontrivial (ZMod n)]

theorem Ready.put (ready : Ready home cells i d x) (sound : Sound home cells) (nearer : (cells i).dib ≤ d) :
    Sound home (Function.update cells i ⟨d, x⟩) := by
  constructor
  case ordered =>
    intro j
    by_cases here : j = i
    · subst here
      rw [Function.update_of_ne (by simp), Function.update_self]
      exact (sound.ordered j).trans (Nat.succ_le_succ nearer)
    · rw [Function.update_of_ne here]
      by_cases next : j + 1 = i
      · rw [next, Function.update_self]
        have before := ready.before
        rwa [← next, add_sub_cancel_right] at before
      · rw [Function.update_of_ne next]
        exact sound.ordered j
  case located =>
    intro j
    by_cases here : j = i
    · subst here
      rw [Function.update_self]
      exact fun _ => ready.located
    · rw [Function.update_of_ne here]
      exact sound.located j

/-- A table with a hole, whatever its cell holds. -/
structure Holed (home : α → ZMod n) (cells : ZMod n → Cell α) (i : ZMod n) : Prop where
  ordered : ∀ j, j ≠ i → j + 1 ≠ i → (cells (j + 1)).dib ≤ (cells j).dib + 1
  bridged : (cells (i + 1)).dib ≤ (cells (i - 1)).dib + 2
  located : ∀ j, j ≠ i → (cells j).dib ≠ 0 → home (cells j).item + (cells j).dib = j + 1

theorem Sound.hole (sound : Sound home cells) (i : ZMod n) (cell : Cell α) :
    Holed home (Function.update cells i cell) i := by
  constructor
  case ordered =>
    intro j other next
    rw [Function.update_of_ne next, Function.update_of_ne other]
    exact sound.ordered j
  case bridged =>
    have before := sound.ordered (i - 1)
    have after := sound.ordered i
    rw [sub_add_cancel] at before
    rw [Function.update_of_ne (by simp), Function.update_of_ne (by simp)]
    omega
  case located =>
    intro j other
    rw [Function.update_of_ne other]
    exact sound.located j

/-- The next item steps back into the hole. -/
theorem Holed.move (holed : Holed home cells i) (away : 1 < (cells (i + 1)).dib) :
    Holed home (Function.update cells i ⟨(cells (i + 1)).dib - 1, (cells (i + 1)).item⟩) (i + 1) := by
  have apart : i + 1 ≠ i := by simp
  constructor
  case ordered =>
    intro j other next
    have here : j ≠ i := fun same => next (by rw [same])
    rw [Function.update_of_ne here]
    by_cases before : j + 1 = i
    · have bridged := holed.bridged
      rw [before, Function.update_self]
      rw [← before, add_sub_cancel_right, before] at bridged
      exact Nat.sub_le_of_le_add bridged
    · rw [Function.update_of_ne before]
      exact holed.ordered j here before
  case bridged =>
    rw [add_sub_cancel_right, Function.update_self]
    by_cases around : i + 1 + 1 = i
    · rw [around, Function.update_self]
      exact Nat.le_add_right ..
    · have next := holed.ordered (i + 1) apart around
      rw [Function.update_of_ne around]
      change _ ≤ (cells (i + 1)).dib - 1 + 2
      omega
  case located =>
    intro j other
    by_cases here : j = i
    · subst here
      rw [Function.update_self]
      intro _
      have located := holed.located (j + 1) apart (by omega)
      change home (cells (j + 1)).item + ((cells (j + 1)).dib - 1 : ℕ) = j + 1
      rw [Nat.cast_sub (by omega), Nat.cast_one, ← add_sub_assoc, located, add_sub_cancel_right]
    · rw [Function.update_of_ne here]
      exact holed.located j here

end

theorem Holed.close (holed : Holed home cells i) (near : (cells (i + 1)).dib ≤ 1) (x : α) :
    Sound home (Function.update cells i ⟨0, x⟩) := by
  constructor
  case ordered =>
    intro j
    by_cases next : j + 1 = i
    · rw [next, Function.update_self]
      exact Nat.zero_le _
    · rw [Function.update_of_ne next]
      by_cases here : j = i
      · subst here
        rw [Function.update_self]
        exact near
      · rw [Function.update_of_ne here]
        exact holed.ordered j here next
  case located =>
    intro j
    by_cases here : j = i
    · subst here
      rw [Function.update_self]
      exact fun used => absurd rfl used
    · rw [Function.update_of_ne here]
      exact holed.located j here

section
variable [NeZero n]

/-- The items in the table. -/
def contents (cells : ZMod n → Cell α) : Multiset α := Slots.bag fun j => (cells j).content

theorem mem_contents : x ∈ contents cells ↔ ∃ j, (cells j).dib ≠ 0 ∧ (cells j).item = x := by
  unfold contents
  rw [Slots.mem_bag]
  refine exists_congr fun j => ?_
  unfold Cell.content
  split <;> simp [*]

theorem contents_empty (free : ∀ j, (cells j).dib = 0) : contents cells = 0 := by
  apply Multiset.eq_zero_of_forall_notMem
  intro x member
  obtain ⟨j, used, -⟩ := mem_contents.mp member
  exact used (free j)

theorem contents_range (bucket : ℕ → Cell α) :
    contents (fun j : ZMod n => bucket j.val) = ↑((List.range n).filterMap fun i => (bucket i).content) := by
  have positions : (Finset.univ : Finset (ZMod n)).val.map ZMod.val = Multiset.range n := by
    apply Multiset.Nodup.ext (Finset.univ.nodup.map (ZMod.val_injective n)) (Multiset.nodup_range n) |>.mpr
    intro i
    rw [Multiset.mem_map, Multiset.mem_range]
    constructor
    · rintro ⟨j, -, rfl⟩
      exact j.val_lt
    · intro inside
      exact ⟨i, Finset.mem_univ_val _, ZMod.val_natCast_of_lt inside⟩
  rw [← Multiset.filterMap_coe, Multiset.coe_range, ← positions, Multiset.filterMap_map]
  rfl

/-- No two items have one key. -/
def Distinct {κ : Type*} (key : α → κ) (cells : ZMod n → Cell α) : Prop := ((contents cells).map key).Nodup

theorem Distinct.only {κ : Type*} {key : α → κ} (distinct : Distinct key cells) (here : (cells i).dib ≠ 0)
    (there : (cells j).dib ≠ 0) (same : key (cells i).item = key (cells j).item) : i = j :=
  Slots.bag_injective distinct (Cell.content_some here) (Cell.content_some there) same

omit [NeZero n] in
theorem steps_injective {s t : ℕ} (first : s < n) (second : t < n) (same : i + (s : ZMod n) = i + t) : s = t := by
  have equal := add_left_cancel same
  rwa [ZMod.natCast_eq_natCast_iff', Nat.mod_eq_of_lt first, Nat.mod_eq_of_lt second] at equal

/-- Any search in a table that is not full meets a free cell after passing no
more items than there are. -/
theorem free_near (room : (contents cells).card < n) (i : ZMod n) :
    ∃ s ≤ (contents cells).card, (cells (i + s)).dib = 0 := by
  by_contra none
  push Not at none
  let passed : Finset (ZMod n) := (Finset.range ((contents cells).card + 1)).image fun s : ℕ => i + (s : ZMod n)
  have distinct : passed.card = (contents cells).card + 1 := by
    rw [Finset.card_image_of_injOn, Finset.card_range]
    intro first here second there same
    have below {s : ℕ} (member : s ∈ Finset.range ((contents cells).card + 1)) : s < n :=
      (Nat.lt_succ_iff.mp (Finset.mem_range.mp member)).trans_lt room
    exact steps_injective (below (Finset.mem_coe.mp here)) (below (Finset.mem_coe.mp there)) same
  have used : passed.card ≤ (contents cells).card := by
    apply Slots.card_le_bag
    intro j member
    obtain ⟨s, inside, rfl⟩ := Finset.mem_image.mp member
    rw [Ne, Cell.content_none]
    exact none s (Nat.lt_succ_iff.mp (Finset.mem_range.mp inside))
  omega

theorem Sound.dib_le (sound : Sound home cells) (room : (contents cells).card < n) (j : ZMod n) :
    (cells j).dib ≤ (contents cells).card := by
  obtain ⟨s, few, free⟩ := free_near room (home (cells j).item)
  have passed : (cells j).dib ≤ s := sound.passed (by rw [free]; exact Nat.zero_le s)
  exact passed.trans few

theorem Ready.travels_le (ready : Ready home cells i d x) (sound : Sound home cells)
    (room : (contents cells).card < n) : d ≤ (contents cells).card + 1 :=
  ready.before.trans (Nat.succ_le_succ (sound.dib_le room (i - 1)))

omit [NeZero n] in
theorem content_update (cells : ZMod n → Cell α) (i : ZMod n) (cell : Cell α) :
    (fun j => (Function.update cells i cell j).content) =
      Function.update (fun j => (cells j).content) i cell.content := by
  funext j
  by_cases here : j = i
  · subst here
    simp
  · simp [here]

private theorem contents_update (travels : d ≠ 0) (x : α) :
    contents (Function.update cells i ⟨d, x⟩) = Slots.bag (Function.update (fun j => (cells j).content) i (some x)) := by
  have held : Cell.content ⟨d, x⟩ = some x := Cell.content_some travels
  rw [contents, content_update, held]

theorem contents_put (free : (cells i).dib = 0) (travels : d ≠ 0) (x : α) :
    contents (Function.update cells i ⟨d, x⟩) = x ::ₘ contents cells := by
  rw [contents_update travels]
  exact Slots.bag_store _ i x (Cell.content_none.mpr free)

/-- Replacing an item gives the old one for the new one. -/
theorem contents_swap (used : (cells i).dib ≠ 0) (travels : d ≠ 0) (x : α) :
    (cells i).item ::ₘ contents (Function.update cells i ⟨d, x⟩) = x ::ₘ contents cells := by
  have taken : contents cells = _ := Slots.bag_take (Cell.content_some used : (fun j => (cells j).content) i = _)
  have stored := Slots.bag_store (Function.update (fun j => (cells j).content) i none) i x (Function.update_self ..)
  rw [Function.update_idem] at stored
  rw [contents_update travels, stored, taken, Multiset.cons_swap]

/-- The items outside a hole. -/
def remaining (cells : ZMod n → Cell α) (i : ZMod n) : Multiset α :=
  Slots.bag (Function.update (fun j => (cells j).content) i none)

theorem contents_hole (used : (cells i).dib ≠ 0) (cell : Cell α) :
    contents cells = (cells i).item ::ₘ remaining (Function.update cells i cell) i := by
  have held : (fun j => (cells j).content) i = some (cells i).item := Cell.content_some used
  rw [remaining, content_update, Function.update_idem]
  exact Slots.bag_take held

theorem remaining_move [Nontrivial (ZMod n)] (used : (cells (i + 1)).dib ≠ 0) (away : d ≠ 0) :
    remaining (Function.update cells i ⟨d, (cells (i + 1)).item⟩) (i + 1) = remaining cells i := by
  have held : (cells (i + 1)).content = some (cells (i + 1)).item := Cell.content_some used
  have moved := Slots.bag_move (fun j => (cells j).content) (by simp : i + 1 ≠ i) (by simp [held])
  have same : Cell.content ⟨d, (cells (i + 1)).item⟩ = (cells (i + 1)).content :=
    (Cell.content_some away).trans held.symm
  rw [remaining, content_update, same]
  exact moved

theorem contents_close (x : α) : contents (Function.update cells i ⟨0, x⟩) = remaining cells i := by
  rw [contents, content_update]
  rfl

end
end RobinHood
