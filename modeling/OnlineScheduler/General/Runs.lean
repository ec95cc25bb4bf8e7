import Mathlib.Algebra.GroupWithZero.Nat
import Mathlib.Data.List.Induction
import Mathlib.Order.Basic

/-! Runs of a step function that may fail. A run is the monadic fold of the
step over a list of actions; the rules below lift facts about one step to it. -/

namespace Runs

universe u
variable {ε : Type u} {σ α : Type}

theorem bind_ok {β : Type} {first : Except ε α} {next : α → Except ε β} {result : β} :
    first >>= next = .ok result ↔ ∃ value, first = .ok value ∧ next value = .ok result := by
  cases first with
  | error fault =>
    constructor
    · intro impossible; cases impossible
    · rintro ⟨value, impossible, _⟩; cases impossible
  | ok value =>
    constructor
    · exact fun executed => ⟨value, rfl, executed⟩
    · rintro ⟨other, same, executed⟩
      cases same
      exact executed

/-- Whether a computation ends well, with a result that passes a test. -/
def ends (test : σ → Bool) : Except ε σ → Bool
  | .ok result => test result
  | .error _ => false

theorem ends_ok {test : σ → Bool} {computed : Except ε σ} (passed : ends test computed = true) :
    ∃ result, computed = .ok result ∧ test result = true := by
  cases computed with
  | error fault => cases passed
  | ok result => exact ⟨result, rfl, passed⟩

/-- How a computation fails, if it does. -/
def failure : Except ε σ → Option ε
  | .ok _ => none
  | .error fault => some fault

theorem failure_none {computed : Except ε σ} : failure computed = none ↔ ∃ result, computed = .ok result := by
  cases computed with
  | error fault => exact ⟨nofun, nofun⟩
  | ok result => exact ⟨fun _ => ⟨result, rfl⟩, fun _ => rfl⟩

theorem failure_some {computed : Except ε σ} {fault : ε} : failure computed = some fault ↔ computed = .error fault := by
  cases computed with
  | error other => exact ⟨fun same => congrArg _ (Option.some.inj same), fun same => congrArg _ (Except.error.inj same)⟩
  | ok result => exact ⟨nofun, nofun⟩

theorem failure_map {β : Type} (computed : Except ε σ) (f : σ → β) :
    failure (computed >>= fun result => pure (f result)) = failure computed := by
  cases computed with
  | error fault => rfl
  | ok result => rfl

variable {step : σ → α → Except ε σ}

/-- A run fails at the first of its actions that does. -/
theorem error_split {actions : List α} {before : σ} {fault : ε} :
    actions.foldlM step before = .error fault ↔ ∃ first action rest middle,
      actions = first ++ action :: rest ∧ first.foldlM step before = .ok middle ∧ step middle action = .error fault := by
  induction actions generalizing before with
  | nil =>
    constructor
    · exact nofun
    · rintro ⟨first, action, rest, middle, split, _⟩
      exact absurd split (by simp)
  | cons action rest ih =>
    rw [List.foldlM_cons]
    constructor
    · intro failed
      cases stepped : step before action with
      | error other =>
        rw [stepped] at failed
        cases failed
        exact ⟨[], action, rest, before, rfl, rfl, stepped⟩
      | ok middle =>
        rw [stepped] at failed
        obtain ⟨first, later, last, reached, rfl, ran, stopped⟩ := ih.mp failed
        refine ⟨action :: first, later, last, reached, rfl, ?_, stopped⟩
        rw [List.foldlM_cons, stepped]
        exact ran
    · rintro ⟨first, later, last, reached, split, ran, stopped⟩
      cases first with
      | nil =>
        cases split
        cases ran
        rw [stopped]
        rfl
      | cons _ first =>
        cases split
        rw [List.foldlM_cons] at ran
        obtain ⟨middle, stepped, remaining⟩ := bind_ok.mp ran
        rw [stepped]
        exact ih.mpr ⟨first, later, last, reached, rfl, remaining, stopped⟩

theorem cons_ok {action : α} {rest : List α} {before after : σ} :
    (action :: rest).foldlM step before = .ok after ↔
      ∃ middle, step before action = .ok middle ∧ rest.foldlM step middle = .ok after := by
  rw [List.foldlM_cons, bind_ok]

theorem append_ok {first rest : List α} {before after : σ} :
    (first ++ rest).foldlM step before = .ok after ↔
      ∃ middle, first.foldlM step before = .ok middle ∧ rest.foldlM step middle = .ok after := by
  rw [List.foldlM_append, bind_ok]

theorem snoc_ok {first : List α} {action : α} {before after : σ} :
    (first ++ [action]).foldlM step before = .ok after ↔
      ∃ middle, first.foldlM step before = .ok middle ∧ step middle action = .ok after := by
  simp only [append_ok, List.foldlM_cons, List.foldlM_nil, bind_pure]

theorem snoc_split {β : Type*} {items first rest : List β} {last item : β} :
    items ++ [last] = first ++ item :: rest ↔
      rest = [] ∧ first = items ∧ item = last ∨ ∃ earlier, rest = earlier ++ [last] ∧ items = first ++ item :: earlier := by
  constructor
  · intro split
    cases rest using List.reverseRecOn with
    | nil =>
      obtain ⟨rfl, same⟩ := List.append_inj' split rfl
      cases same
      exact Or.inl ⟨rfl, rfl, rfl⟩
    | append_singleton earlier _ =>
      rw [← List.cons_append, ← List.append_assoc] at split
      obtain ⟨same, final⟩ := List.append_inj' split rfl
      cases final
      exact Or.inr ⟨earlier, rfl, same⟩
  · rintro (⟨rfl, rfl, rfl⟩ | ⟨earlier, rfl, rfl⟩)
    · rfl
    · rw [List.append_assoc, List.cons_append]

/-- A relation that every step respects holds between the ends of a run, when
it can be composed. -/
theorem related (relation : σ → σ → Prop) (refl : ∀ s, relation s s)
    (trans : ∀ {a b c}, relation a b → relation b c → relation a c) {actions : List α}
    (steps : ∀ action ∈ actions, ∀ before after, step before action = .ok after → relation before after)
    {before after : σ} (executed : actions.foldlM step before = .ok after) : relation before after := by
  induction actions generalizing before with
  | nil => cases executed; exact refl _
  | cons action rest ih =>
    obtain ⟨middle, first, remaining⟩ := cons_ok.mp executed
    exact trans (steps action List.mem_cons_self _ _ first)
      (ih (fun later member => steps later (List.mem_cons_of_mem _ member)) remaining)

/-- An assertion that holds at the start and is kept by every step holds at the
end of the run. -/
theorem invariant (holds : σ → Prop) {actions : List α}
    (steps : ∀ action ∈ actions, ∀ before after, step before action = .ok after → holds before → holds after)
    {before after : σ} (executed : actions.foldlM step before = .ok after) (start : holds before) :
    holds after :=
  related (fun before after => holds before → holds after) (fun _ => id)
    (fun first last held => last (first held)) steps executed start

/-- A run that ends well took each of its steps well, from where the assertion
held. -/
theorem visited (holds : σ → Prop) {actions : List α}
    (steps : ∀ action before after, step before action = .ok after → holds before → holds after)
    {before after : σ} (executed : actions.foldlM step before = .ok after) (start : holds before) {action : α}
    (member : action ∈ actions) : ∃ s s', holds s ∧ step s action = .ok s' := by
  induction actions generalizing before with
  | nil => cases member
  | cons head rest ih =>
    obtain ⟨middle, first, remaining⟩ := cons_ok.mp executed
    rcases List.mem_cons.mp member with rfl | later
    · exact ⟨before, middle, start, first⟩
    · exact ih remaining (steps _ _ _ first start) later

theorem counted (holds : σ → Prop) (size : σ → Nat) (cost : α → Nat)
    (steps : ∀ action before after, step before action = .ok after → holds before →
      holds after ∧ size after = size before + cost action)
    {actions : List α} {before after : σ} (executed : actions.foldlM step before = .ok after)
    (start : holds before) : holds after ∧ size after = size before + (actions.map cost).sum := by
  induction actions generalizing before with
  | nil => cases executed; exact ⟨start, rfl⟩
  | cons action rest ih =>
    obtain ⟨middle, first, remaining⟩ := cons_ok.mp executed
    obtain ⟨kept, added⟩ := steps action _ _ first start
    obtain ⟨last, total⟩ := ih remaining kept
    refine ⟨last, ?_⟩
    rw [total, added, List.map_cons, List.sum_cons, Nat.add_assoc]

/-- A pass that at each item rewrites only what belongs to the item changes
every item it meets, once, and no other. -/
theorem pass {ι β : Type} [DecidableEq ι] (read : σ → ι → β) (change : ι → β → β) (visit : σ → ι → σ)
    (here : ∀ s i, read (visit s i) i = change i (read s i))
    (elsewhere : ∀ s i j, j ≠ i → read (visit s i) j = read s j)
    {items : List ι} (distinct : items.Nodup) (s : σ) (i : ι) :
    read (items.foldl visit s) i = if i ∈ items then change i (read s i) else read s i := by
  induction items generalizing s with
  | nil => simp
  | cons item rest ih =>
    obtain ⟨apart, distinct⟩ := List.nodup_cons.mp distinct
    rw [List.foldl_cons, ih distinct]
    by_cases same : i = item
    · subst same
      simp [apart, here]
    · simp only [elsewhere s item i same, List.mem_cons, same, false_or]

theorem pass_read {ι β : Type} (read : σ → β) (visit : σ → ι → σ) (kept : ∀ s i, read (visit s i) = read s)
    (items : List ι) (s : σ) : read (items.foldl visit s) = read s := by
  induction items generalizing s with
  | nil => rfl
  | cons item rest ih => exact (ih (visit s item)).trans (kept s item)

/-- A pass whose visits write to a log, when what they write is known from the
start, writes it item by item. -/
theorem pass_log {ι β : Type} {log : σ → List β} {entry : σ → ι → β} {visit : σ → ι → σ}
    (writes : ∀ s i, log (visit s i) = log s ++ [entry s i]) (kept : ∀ s i, entry (visit s i) = entry s)
    (items : List ι) (s : σ) : log (items.foldl visit s) = log s ++ items.map (entry s) := by
  induction items generalizing s with
  | nil => exact (List.append_nil _).symm
  | cons item rest ih =>
    rw [List.foldl_cons, ih, writes, kept, List.append_assoc, List.map_cons, List.singleton_append]

end Runs
