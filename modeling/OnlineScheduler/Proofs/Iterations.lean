import OnlineScheduler.Proofs.HashTable
import Mathlib.Data.List.TakeWhile

/-! Scans and iterations: both go through the buckets in order. -/

namespace OnlineScheduler.HashMap
open RobinHood

variable {α : Type} {functions : Functions α} {same : Setoid α} {map : Hashmap α} {k : ℕ}

private theorem scanFrom_visits (iter : α → Bool) {order : List ℕ} (inside : ∀ i ∈ order, i < map.allocated) :
    hashmapScan.scanFrom iter map order =
      some ((map.listed order).takeWhile iter ++ ((map.listed order).dropWhile iter).take 1,
        (map.listed order).all iter) := by
  induction order with
  | nil => rfl
  | cons i rest ih =>
    have found : map.bucketAt i = some (map.buckets i) := if_pos (inside i List.mem_cons_self)
    have later := ih fun j member => inside j (List.mem_cons_of_mem i member)
    rw [hashmapScan.scanFrom, found]
    simp only [Option.bind_eq_bind, Option.bind_some]
    by_cases free : (map.buckets i).dib = 0
    · rw [if_pos free, later, listed_free free]
    · rw [if_neg free, listed_used free]
      by_cases go_on : iter (map.buckets i).item = true
      · simp [go_on, later]
      · simp [go_on]

/-- A scan goes on to the first item that `iter` stops at. -/
theorem Valid.scan (valid : Valid functions same k map) (iter : α → Bool) :
    let stored := map.listed (List.range (size k))
    hashmapScan iter map = some (stored.takeWhile iter ++ (stored.dropWhile iter).take 1, stored.all iter) := by
  rw [hashmapScan, valid.nbuckets]
  apply scanFrom_visits
  intro i member
  exact (List.mem_range.mp member).trans_le valid.allocated

theorem Valid.scan_all (valid : Valid functions same k map) :
    hashmapScan (fun _ => true) map = some (map.listed (List.range (size k)), true) := by
  rw [valid.scan fun _ => true, List.takeWhile_eq_self_iff.mpr (by simp), List.dropWhile_eq_nil_iff.mpr (by simp)]
  simp

/-- What an iteration has not come to. -/
private def ahead (map : Hashmap α) (i : ℕ) : List α := map.listed (List.range' i (map.nbuckets - i))

private theorem ahead_cons {i : ℕ} (inside : i < map.nbuckets) :
    ahead map i = map.listed (i :: List.range' (i + 1) (map.nbuckets - (i + 1))) := by
  rw [ahead, show map.nbuckets - i = map.nbuckets - (i + 1) + 1 by omega, List.range'_succ]

private theorem iterFrom_next (enough : map.nbuckets ≤ map.allocated) {i : ℕ} (inside : i ≤ map.nbuckets) (rounds : ℕ)
    (few : map.nbuckets < i + rounds) :
    ∃ next ≤ map.nbuckets, iterFrom map rounds i = some (next, (ahead map i).head?) ∧
      ahead map next = (ahead map i).tail := by
  induction rounds generalizing i with
  | zero => omega
  | succ rounds ih =>
    rw [iterFrom]
    split
    next done =>
      have none : ahead map i = [] := by
        rw [ahead, Nat.sub_eq_zero_of_le done]
        rfl
      exact ⟨i, inside, by rw [none, List.head?_nil], by rw [none, List.tail_nil]⟩
    next more =>
      have here : i < map.nbuckets := not_le.mp more
      have found : map.bucketAt i = some (map.buckets i) := if_pos (here.trans_le enough)
      rw [found]
      simp only [Option.bind_eq_bind, Option.bind_some]
      split
      next free =>
        have same : ahead map i = ahead map (i + 1) := by rw [ahead_cons here, listed_free free, ahead]
        rw [same]
        exact ih here (by omega)
      next used =>
        have first : ahead map i = (map.buckets i).item :: ahead map (i + 1) := by
          rw [ahead_cons here, listed_used used, ahead]
        exact ⟨i + 1, here, by rw [first]; rfl, by rw [first, List.tail_cons]⟩

private theorem iterLoop_visits (enough : map.nbuckets ≤ map.allocated) {i rounds : ℕ} (inside : i ≤ map.nbuckets)
    (few : (ahead map i).length < rounds) : iterLoop map rounds i = some (ahead map i) := by
  induction rounds generalizing i with
  | zero => omega
  | succ rounds ih =>
    obtain ⟨next, within, called, rest⟩ := iterFrom_next enough inside (map.nbuckets + 1) (by omega)
    rw [iterLoop, hashmapIter, called]
    cases shape : ahead map i with
    | nil => rfl
    | cons item others =>
      rw [shape, List.tail_cons] at rest
      rw [shape, List.length_cons] at few
      simp only [Option.bind_eq_bind, Option.bind_some, List.head?_cons]
      rw [ih within (by rw [rest]; omega), rest]
      rfl

/-- An iteration yields what a scan visits, in the same order. -/
theorem Valid.iterate (valid : Valid functions same k map) {rounds : ℕ}
    (few : (map.listed (List.range (size k))).length < rounds) :
    iterLoop map rounds 0 = some (map.listed (List.range (size k))) := by
  have all : ahead map 0 = map.listed (List.range (size k)) := by
    rw [ahead, valid.nbuckets, Nat.sub_zero, List.range_eq_range']
  rw [← all] at few ⊢
  exact iterLoop_visits (valid.nbuckets ▸ valid.allocated) (Nat.zero_le _) few

end OnlineScheduler.HashMap
