import OnlineScheduler.Proofs.Accounting

/-! Which stores the hash map knows. `address_compare` tells any two places
apart, so the addresses of one truncated hash pass for one address. -/

namespace OnlineScheduler.Monitor

variable {p : Platform} {addressHash : BitVec 64 → BitVec 64} {key : BitVec 64} {map : Hashmap}
  {earlier : List (BitVec 64)} {t : Table} {window : Window} {sample : Reading} {i : Fin maxObjects}

/-- The map holds the truncated hashes of the addresses stored to so far. -/
def Represents (addressHash : BitVec 64 → BitVec 64) (map : Hashmap) (earlier : List (BitVec 64)) : Prop :=
  ∀ hash, hash ∈ map.map (getHash addressHash) ↔ hash ∈ earlier.map (getHash addressHash)

theorem Represents.get (represents : Represents addressHash map earlier) :
    hashmapGet addressHash key map = none ↔ ∀ addr ∈ earlier, getHash addressHash addr ≠ getHash addressHash key := by
  rw [hashmapGet_none, represents, List.mem_map, not_exists]
  exact forall_congr' fun addr => not_and

theorem Represents.store (represents : Represents addressHash window.hashmap earlier) :
    Represents addressHash (countStore addressHash sample i window).hashmap (earlier ++ [sample.sampleAddr]) := by
  intro hash
  rw [List.map_append, List.mem_append, List.map_singleton, List.mem_singleton, ← represents, countStore]
  split
  next missing =>
    rw [hashmapSet_new missing, List.map_append, List.mem_append, List.map_singleton, List.mem_singleton]
  next found =>
    have known : getHash addressHash sample.sampleAddr ∈ window.hashmap.map (getHash addressHash) := by
      by_contra absent
      exact absurd (hashmapGet_none.mpr absent) (by simp [found])
    exact ⟨Or.inl, fun either => either.elim id fun same => same ▸ known⟩

theorem countSample_represents (represents : Represents addressHash window.hashmap earlier) :
    Represents addressHash (countSample addressHash t window sample).hashmap
      (earlier ++ (attributedStores t [sample]).map Prod.fst) := by
  rcases countSample_cases addressHash t window sample with
    ⟨j, level, load, counted⟩ | ⟨j, store, counted⟩ | ⟨_, other, counted⟩
  · rw [counted, attributedStores_other load.not_store, List.map_nil, List.append_nil]
    exact represents
  · rw [counted, attributedStores_store store]
    exact represents.store
  · rw [counted, attributedStores_other other, List.map_nil, List.append_nil]
    exact represents

theorem countSamples_represents (t : Table) (samples : List Reading)
    (represents : Represents addressHash window.hashmap earlier) :
    Represents addressHash (samples.foldl (countSample addressHash t) window).hashmap
      (earlier ++ (attributedStores t samples).map Prod.fst) := by
  induction samples generalizing window earlier with
  | nil =>
    have none : attributedStores t [] = [] := rfl
    rw [none, List.map_nil, List.append_nil]
    exact represents
  | cons sample rest ih =>
    rw [attributedStores_cons, List.map_append, ← List.append_assoc, List.foldl_cons]
    exact ih (countSample_represents represents)

theorem countStore_counted : ((countStore addressHash sample i window).copy i).storesCount =
    (window.copy i).storesCount + 1 ↔ hashmapGet addressHash sample.sampleAddr window.hashmap = none := by
  unfold countStore
  split
  next missing => simp [missing]
  next found => simp [found]

theorem countSample_store (store : StoreOf t i sample) :
    countSample addressHash t window sample = countStore addressHash sample i window := by
  rcases countSample_cases addressHash t window sample with
    ⟨j, level, load, _⟩ | ⟨j, other, counted⟩ | ⟨_, other, _⟩
  · exact absurd store (load.not_store i)
  · rw [counted, Option.some.inj (other.1.symm.trans store.1)]
  · exact absurd store (other i)

namespace Sampler

variable {s s' : Sampler} {action : SamplerAction} {actions : List SamplerAction}

theorem step_represents (ok : s.step p addressHash action = .ok s')
    (represents : Represents addressHash s.window.hashmap (s.stores.map Prod.fst)) :
    Represents addressHash s'.window.hashmap (s'.stores.map Prod.fst) := by
  cases action with
  | insertObject pid startAddr size =>
    obtain ⟨table, _, done⟩ := Runs.bind_ok.mp ok
    cases done
    exact represents
  | deallocateObject pid startAddr size =>
    cases ok
    exact represents
  | window samples =>
    cases ok
    rw [stores_window, List.map_append]
    apply countSamples_represents s.table samples
    exact represents

theorem run_represents (ok : start.run p addressHash actions = .ok s) :
    Represents addressHash s.window.hashmap (s.stores.map Prod.fst) :=
  Runs.invariant (fun s => Represents addressHash s.window.hashmap (s.stores.map Prod.fst))
    (fun _ _ _ _ stepped => step_represents stepped) ok fun _ => Iff.rfl

/-- A store finds its address in the map exactly when it was stored to before,
unless a different address with the same truncated hash was. -/
theorem stores_deduplicated (executed : start.run p addressHash actions = .ok s) (first : List Reading)
    (store : StoreOf s.table i sample) :
    let window := first.foldl (countSample addressHash s.table) s.window.clearMetrics
    let earlier := (s.stores ++ attributedStores s.table first).map Prod.fst
    ((hashmapGet addressHash sample.sampleAddr window.hashmap ≠ none ↔ sample.sampleAddr ∈ earlier) ∧
      (((countSample addressHash s.table window sample).copy i).storesCount = (window.copy i).storesCount + 1 ↔
        sample.sampleAddr ∉ earlier)) ↔
      sample.sampleAddr ∈ earlier ∨
        ∀ addr ∈ earlier, getHash addressHash addr ≠ getHash addressHash sample.sampleAddr := by
  intro window earlier
  have represents : Represents addressHash window.hashmap earlier := by
    change Represents addressHash window.hashmap ((s.stores ++ attributedStores s.table first).map Prod.fst)
    rw [List.map_append]
    apply countSamples_represents s.table first
    exact run_represents executed
  rw [countSample_store store, countStore_counted, Ne, represents.get]
  by_cases old : sample.sampleAddr ∈ earlier
  · have known : ¬ ∀ addr ∈ earlier, getHash addressHash addr ≠ getHash addressHash sample.sampleAddr :=
      fun apart => apart _ old rfl
    simp [old, known]
  · simp [old]

/-- Every address of the run hashes to the same word. -/
def constantHash (_ : BitVec 64) : BitVec 64 := 0

def nextStore : Reading := { pageStore with sampleAddr := 5008 }

theorem stores_deduplicated_page : ∃ s, start.run machine id [.insertObject 7 4096 4096] = .ok s ∧
    let window := [pageStore].foldl (countSample id s.table) s.window.clearMetrics
    let earlier := (s.stores ++ attributedStores s.table [pageStore]).map Prod.fst
    (hashmapGet id nextStore.sampleAddr window.hashmap ≠ none ↔ nextStore.sampleAddr ∈ earlier) ∧
      (((countSample id s.table window nextStore).copy 0).storesCount = (window.copy 0).storesCount + 1 ↔
        nextStore.sampleAddr ∉ earlier) := by
  have passed : Runs.ends (fun s => StoreOf s.table 0 nextStore ∧ StoreOf s.table 0 pageStore ∧ s.stores = [])
      (start.run machine id [.insertObject 7 4096 4096]) = true := by decide +kernel
  obtain ⟨s, executed, ended⟩ := Runs.ends_ok passed
  obtain ⟨store, first, none⟩ := of_decide_eq_true ended
  refine ⟨s, executed, (stores_deduplicated executed [pageStore] store).mpr (Or.inr ?_)⟩
  rw [none, attributedStores_store first]
  simp [getHash, pageStore, nextStore]

theorem stores_deduplicated_collision :
    ∃ s, start.run machine constantHash [.insertObject 7 4096 4096] = .ok s ∧
    StoreOf s.table 0 nextStore ∧
    hashmapGet constantHash nextStore.sampleAddr
      ([pageStore].foldl (countSample constantHash s.table) s.window.clearMetrics).hashmap = some 5000 ∧
    nextStore.sampleAddr ∉ (s.stores ++ attributedStores s.table [pageStore]).map Prod.fst := by
  have passed : Runs.ends (fun s => StoreOf s.table 0 nextStore ∧
      hashmapGet constantHash nextStore.sampleAddr
        ([pageStore].foldl (countSample constantHash s.table) s.window.clearMetrics).hashmap = some 5000 ∧
      nextStore.sampleAddr ∉ (s.stores ++ attributedStores s.table [pageStore]).map Prod.fst)
      (start.run machine constantHash [.insertObject 7 4096 4096]) = true := by decide +kernel
  obtain ⟨s, executed, ended⟩ := Runs.ends_ok passed
  exact ⟨s, executed, of_decide_eq_true ended⟩

end Sampler
end OnlineScheduler.Monitor
