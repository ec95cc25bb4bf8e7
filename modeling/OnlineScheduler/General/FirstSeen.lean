import Mathlib.Data.List.Dedup
import Mathlib.Data.List.Perm.Subperm

/-! Sequences of keys with owners, from which only the first event of each key
is counted. An owner's count misses the keys that another owner had before. -/

namespace FirstSeen

variable {κ ι : Type} {events : List (κ × ι)}

section
variable [DecidableEq ι]

def keys (owner : ι) (events : List (κ × ι)) : List κ := (events.filter (fun event => event.2 = owner)).map Prod.fst

theorem mem_keys {owner : ι} {key : κ} : key ∈ keys owner events ↔ (key, owner) ∈ events := by
  simp only [keys, List.mem_map, List.mem_filter, decide_eq_true_eq]
  constructor
  · rintro ⟨⟨_, _⟩, ⟨member, rfl⟩, rfl⟩
    exact member
  · exact fun member => ⟨(key, owner), ⟨member, rfl⟩, rfl⟩

theorem keys_append (owner : ι) (first last : List (κ × ι)) :
    keys owner (first ++ last) = keys owner first ++ keys owner last := by
  rw [keys, List.filter_append, List.map_append, ← keys, ← keys]

theorem keys_absent {owner : ι} (absent : ∀ event ∈ events, event.2 ≠ owner) : keys owner events = [] := by
  rw [keys, List.map_eq_nil_iff, List.filter_eq_nil_iff]
  intro event member
  simpa using absent event member

end

variable [DecidableEq κ]

/-- The events whose key was not seen before. -/
def fresh (seen : List κ) : List (κ × ι) → List (κ × ι)
  | [] => []
  | event :: rest => if event.1 ∈ seen then fresh seen rest else event :: fresh (event.1 :: seen) rest

variable {seen : List κ} {event : κ × ι}

theorem fresh_seen (here : event.1 ∈ seen) (rest : List (κ × ι)) : fresh seen (event :: rest) = fresh seen rest :=
  if_pos here

theorem fresh_new (new : event.1 ∉ seen) (rest : List (κ × ι)) :
    fresh seen (event :: rest) = event :: fresh (event.1 :: seen) rest := if_neg new

theorem fresh_congr {seen seen' : List κ} (same : ∀ key, key ∈ seen ↔ key ∈ seen') (events : List (κ × ι)) :
    fresh seen events = fresh seen' events := by
  induction events generalizing seen seen' with
  | nil => rfl
  | cons event rest ih =>
    by_cases here : event.1 ∈ seen
    · rw [fresh_seen here, fresh_seen ((same _).mp here), ih same]
    · rw [fresh_new here, fresh_new (mt (same _).mpr here)]
      congr 1
      refine ih fun key => ?_
      rw [List.mem_cons, List.mem_cons, same]

theorem fresh_append (seen : List κ) (first last : List (κ × ι)) :
    fresh seen (first ++ last) = fresh seen first ++ fresh (first.map Prod.fst ++ seen) last := by
  induction first generalizing seen with
  | nil => rfl
  | cons event rest ih =>
    rw [List.cons_append, List.map_cons]
    by_cases here : event.1 ∈ seen
    · rw [fresh_seen here, fresh_seen here, ih]
      congr 1
      refine fresh_congr (fun key => ?_) last
      simp only [List.mem_append, List.cons_append, List.mem_cons]
      grind
    · rw [fresh_new here, fresh_new here, ih, List.cons_append]
      congr 2
      refine fresh_congr (fun key => ?_) last
      simp only [List.mem_append, List.cons_append, List.mem_cons]
      grind

theorem mem_fresh : event ∈ fresh seen events ↔
    event.1 ∉ seen ∧ events.find? (fun other => other.1 = event.1) = some event := by
  induction events generalizing seen with
  | nil => simp [fresh]
  | cons first rest ih =>
    by_cases here : first.1 ∈ seen
    · rw [fresh_seen here, ih, List.find?_cons]
      by_cases same : first.1 = event.1
      · simp [same ▸ here]
      · simp [same]
    · rw [fresh_new here, List.mem_cons, ih, List.find?_cons]
      by_cases same : first.1 = event.1
      · simp only [same, decide_true, Option.some.injEq, List.mem_cons]
        constructor
        · rintro (rfl | ⟨old, _⟩)
          · exact ⟨here, rfl⟩
          · exact absurd (Or.inl trivial) old
        · rintro ⟨_, rfl⟩
          exact Or.inl rfl
      · have apart : event ≠ first := fun equal => same (equal ▸ rfl)
        simp [same, apart, Ne.symm same]

theorem fresh_nodup (seen : List κ) (events : List (κ × ι)) : ((fresh seen events).map Prod.fst).Nodup := by
  induction events generalizing seen with
  | nil => exact List.nodup_nil
  | cons event rest ih =>
    by_cases here : event.1 ∈ seen
    · rw [fresh_seen here]
      exact ih seen
    · rw [fresh_new here, List.map_cons, List.nodup_cons]
      refine ⟨fun member => ?_, ih _⟩
      obtain ⟨other, found, same⟩ := List.mem_map.mp member
      exact (mem_fresh.mp found).1 (same ▸ List.mem_cons_self)

variable [DecidableEq ι]

def counted (owner : ι) (events : List (κ × ι)) : List κ := keys owner (fresh [] events)

theorem mem_counted {owner : ι} {key : κ} :
    key ∈ counted owner events ↔ events.find? (fun other => other.1 = key) = some (key, owner) := by
  rw [counted, mem_keys, mem_fresh]
  simp

/-- An owner's count is the number of its distinct keys exactly when each of
them came up first with this owner. -/
theorem counted_iff (owner : ι) (events : List (κ × ι)) :
    (counted owner events).length = (keys owner events).dedup.length ↔
      ∀ key, (key, owner) ∈ events → events.find? (fun other => other.1 = key) = some (key, owner) := by
  have distinct : (counted owner events).Nodup :=
    (fresh_nodup [] events).sublist (List.filter_sublist.map Prod.fst)
  have inside : counted owner events ⊆ (keys owner events).dedup := by
    intro key member
    rw [List.mem_dedup, mem_keys]
    exact List.mem_of_find?_eq_some (mem_counted.mp member)
  constructor
  · intro same key member
    have perm := (distinct.subperm inside).perm_of_length_le (Nat.le_of_eq same.symm)
    exact mem_counted.mp (perm.symm.subset (List.mem_dedup.mpr (mem_keys.mpr member)))
  · intro first
    have covers : (keys owner events).dedup ⊆ counted owner events := by
      intro key member
      exact mem_counted.mpr (first key (mem_keys.mp (List.mem_dedup.mp member)))
    exact Nat.le_antisymm (distinct.subperm inside).length_le ((List.nodup_dedup _).subperm covers).length_le

/-- When every key has one owner, an owner's new keys are its distinct keys that
were not seen before. -/
theorem fresh_owned {seen : List κ} {events : List (κ × ι)}
    (owned : ∀ first ∈ events, ∀ second ∈ events, first.1 = second.1 → first.2 = second.2) (owner : ι) :
    (keys owner (fresh seen events)).Perm ((keys owner events).dedup.filter (fun key => key ∉ seen)) := by
  have distinct : (keys owner (fresh seen events)).Nodup :=
    (fresh_nodup seen events).sublist (List.filter_sublist.map Prod.fst)
  refine (List.perm_ext_iff_of_nodup distinct ((List.nodup_dedup _).filter _)).mpr fun key => ?_
  rw [mem_keys, mem_fresh, List.mem_filter, List.mem_dedup, mem_keys, decide_eq_true_eq, and_comm]
  refine and_congr_left fun _ => ⟨List.mem_of_find?_eq_some, fun member => ?_⟩
  obtain ⟨first, found⟩ : ∃ first, events.find? (fun other => other.1 = key) = some first := by
    rw [← Option.isSome_iff_exists, List.find?_isSome]
    exact ⟨(key, owner), member, decide_eq_true rfl⟩
  have same : first.1 = key := by simpa using List.find?_some found
  have holder : first.2 = owner := owned first (List.mem_of_find?_eq_some found) (key, owner) member same
  rw [found, ← same, ← holder]

end FirstSeen
