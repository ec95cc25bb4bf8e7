import OnlineScheduler.HashedSampling
import OnlineScheduler.Proofs.Dictionaries
import OnlineScheduler.Proofs.Hashes
import OnlineScheduler.Proofs.StoreCounts

/-! The list of addresses that the counts are proved for stands for the buckets:
both give the same counts in every run. -/

namespace OnlineScheduler.Monitor
open HashMap (Valid items)

variable {p : Platform} {addressHash : BitVec 64 → BitVec 64 → BitVec 64 → BitVec 64}

/-- Two addresses never lie in one place, so they compare as one. -/
theorem address_compares (addressHash : BitVec 64 → BitVec 64 → BitVec 64 → BitVec 64) :
    HashMap.Compares (addressFunctions addressHash) trueSetoid := by
  intro a x b y apart
  refine iff_of_true (if_neg ?_) trivial
  intro same
  cases a <;> cases b <;> simp_all [pointer]

private theorem truncated_eq (x y : BitVec 64) :
    (x <<< 16 >>> 16).setWidth 48 = (y <<< 16 >>> 16).setWidth 48 ↔ x <<< 16 >>> 16 = y <<< 16 >>> 16 := by
  bv_omega

/-- The hash of `g_hashmap`, whose seeds are 0. -/
abbrev seeded (addressHash : BitVec 64 → BitVec 64 → BitVec 64 → BitVec 64) (addr : BitVec 64) : BitVec 64 :=
  addressHash addr 0 0

/-- The buckets hold the addresses of the list. -/
structure Holds (addressHash : BitVec 64 → BitVec 64 → BitVec 64 → BitVec 64) (k : ℕ)
    (map : HashMap.Hashmap (BitVec 64)) (list : Hashmap) : Prop where
  valid : Valid (addressFunctions addressHash) trueSetoid k map
  items : items k map = ↑list
  identity : map.identity (addressFunctions addressHash) trueSetoid = fun addr =>
    ((getHash (seeded addressHash) addr).setWidth 48, Quotient.mk trueSetoid addr)

variable {k : ℕ} {map : HashMap.Hashmap (BitVec 64)} {list : Hashmap} {key : BitVec 64}

private theorem Holds.identity_eq (holds : Holds addressHash k map list) {x y : BitVec 64} :
    map.identity (addressFunctions addressHash) trueSetoid x = map.identity (addressFunctions addressHash) trueSetoid y ↔
      getHash (seeded addressHash) x = getHash (seeded addressHash) y := by
  rw [holds.identity, Prod.mk.injEq, and_iff_left (Quotient.sound trivial)]
  exact truncated_eq _ _

private theorem Holds.present (holds : Holds addressHash k map list) :
    map.identity (addressFunctions addressHash) trueSetoid key ∈
        (HashMap.items k map).map (map.identity (addressFunctions addressHash) trueSetoid) ↔
      hashmapGet (seeded addressHash) key list ≠ none := by
  rw [Ne, hashmapGet_none, not_not, holds.items, Multiset.mem_map, List.mem_map]
  exact exists_congr fun item => and_congr Iff.rfl holds.identity_eq

private theorem Holds.get (holds : Holds addressHash k map list) (key : BitVec 64) :
    ∃ found, HashMap.hashmapGet (addressFunctions addressHash) key map = some found ∧
      (found = none ↔ hashmapGet (seeded addressHash) key list = none) := by
  obtain ⟨found, rest, got, taken⟩ := holds.valid.get (address_compares addressHash) key
  refine ⟨found, got, ?_⟩
  cases taken with
  | missing absent => exact iff_of_true rfl (not_not.mp (holds.present.not.mp absent))
  | found same there =>
    refine iff_of_false (by simp) ?_
    rw [← Ne, ← holds.present, ← same, there]
    exact Multiset.mem_map_of_mem _ (Multiset.mem_cons_self ..)

private theorem Holds.set (holds : Holds addressHash k map list) (few : list.length + 1 < 2 ^ 16)
    (missing : hashmapGet (seeded addressHash) key list = none) :
    ∃ j final old, HashMap.hashmapSet (addressFunctions addressHash) key true map = some (final, old) ∧
      Holds addressHash j final (list ++ [key]) := by
  have count : map.count = list.length := by
    rw [holds.valid.count, ← Multiset.card_map Prod.snd]
    exact congrArg Multiset.card holds.items
  obtain ⟨impossible, -, -⟩ | ⟨j, final, old, done, kept, -, identity, -, stored⟩ :=
    holds.valid.set (address_compares addressHash) (by omega) key true
  · cases impossible
  · refine ⟨j, final, old, done, kept, ?_, identity.trans holds.identity⟩
    generalize HashMap.items j final = after at stored ⊢
    cases stored with
    | added absent => rw [holds.items, ← Multiset.coe_add, add_comm, Multiset.coe_singleton, Multiset.singleton_add]
    | replaced same there =>
      have absent := holds.present.not.mpr (not_not.mpr missing)
      rw [← same, there] at absent
      exact absurd (Multiset.mem_map_of_mem _ (Multiset.mem_cons_self ..)) absent

/-- The two windows agree. -/
structure Agrees (addressHash : BitVec 64 → BitVec 64 → BitVec 64 → BitVec 64) (hashed : HashedWindow) (window : Window) :
    Prop where
  copy : hashed.copy = window.copy
  holds : ∃ k, Holds addressHash k hashed.hashmap window.hashmap

variable {hashed : HashedWindow} {window : Window} {t : Table}

private theorem Agrees.countStore (agrees : Agrees addressHash hashed window) (sample : Reading) (i : Fin maxObjects)
    (few : (countStore (seeded addressHash) sample i window).hashmap.length < 2 ^ 16) :
    ∃ next, HashedSampler.countStore addressHash sample true i hashed = some next ∧
      Agrees addressHash next (countStore (seeded addressHash) sample i window) := by
  obtain ⟨k, holds⟩ := agrees.holds
  obtain ⟨found, got, missing⟩ := holds.get sample.sampleAddr
  cases listed : hashmapGet (seeded addressHash) sample.sampleAddr window.hashmap with
  | none =>
    obtain rfl := missing.mpr listed
    simp only [Monitor.countStore, listed, hashmapSet_new listed] at few ⊢
    rw [List.length_append, List.length_singleton] at few
    obtain ⟨j, final, old, done, holds⟩ := holds.set few listed
    refine ⟨⟨Function.update hashed.copy i { hashed.copy i with storesCount := (hashed.copy i).storesCount + 1 }, final⟩,
      ?_, ?_, j, holds⟩
    · simp only [HashedSampler.countStore, got, done, Option.bind_eq_bind, Option.bind_some]
      rfl
    · rw [agrees.copy]
  | some old =>
    cases found with
    | none => exact absurd (missing.mp rfl) (by simp [listed])
    | some item =>
      simp only [Monitor.countStore, listed]
      refine ⟨hashed, ?_, agrees⟩
      simp only [HashedSampler.countStore, got, Option.bind_eq_bind, Option.bind_some]
      rfl

private theorem countSample_grows (hash : BitVec 64 → BitVec 64) (t : Table) (window : Window) (sample : Reading) :
    window.hashmap.length ≤ (countSample hash t window sample).hashmap.length := by
  unfold Monitor.countSample
  cases getVectorIndex sample.sampleAddr t with
  | none => exact le_rfl
  | some i =>
    by_cases load : sample.opcode = 1
    · simp only [load]
      cases memLevel sample.dataSrc <;> exact le_rfl
    · simp only [if_neg load]
      split
      next =>
        cases listed : hashmapGet hash sample.sampleAddr window.hashmap with
        | none => simp [Monitor.countStore, listed, hashmapSet_new listed]
        | some old => simp [Monitor.countStore, listed]
      next => exact le_rfl

private theorem Agrees.countSample (agrees : Agrees addressHash hashed window) (sample : Reading)
    (few : (countSample (seeded addressHash) t window sample).hashmap.length < 2 ^ 16) :
    ∃ next, HashedSampler.countSample addressHash t hashed (sample, true) = some next ∧
      Agrees addressHash next (countSample (seeded addressHash) t window sample) := by
  unfold Monitor.countSample HashedSampler.countSample at *
  dsimp only
  generalize getVectorIndex sample.sampleAddr t = attributed at few ⊢
  cases attributed with
  | none => exact ⟨hashed, rfl, agrees⟩
  | some i =>
    dsimp only at few ⊢
    by_cases load : sample.opcode = 1
    · rw [if_pos load, if_pos load]
      cases memLevel sample.dataSrc with
      | none => exact ⟨hashed, rfl, agrees⟩
      | some level =>
        refine ⟨⟨Function.update hashed.copy i (countLoad sample level (hashed.copy i)), hashed.hashmap⟩, rfl, ?_,
          agrees.holds⟩
        rw [agrees.copy]
    · rw [if_neg load] at few
      rw [if_neg load, if_neg load]
      by_cases store : sample.opcode = 2
      · rw [if_pos store] at few
        rw [if_pos store, if_pos store]
        exact agrees.countStore sample i few
      · rw [if_neg store, if_neg store]
        exact ⟨hashed, rfl, agrees⟩

private theorem countSamples_grow (hash : BitVec 64 → BitVec 64) (t : Table) (samples : List Reading)
    (window : Window) : window.hashmap.length ≤ (samples.foldl (countSample hash t) window).hashmap.length := by
  induction samples generalizing window with
  | nil => exact le_rfl
  | cons sample rest ih =>
    rw [List.foldl_cons]
    exact (countSample_grows hash t window sample).trans (ih (countSample hash t window sample))

private theorem Agrees.countSamples (agrees : Agrees addressHash hashed window) (samples : List (Reading × Bool))
    (memory : ∀ sample ∈ samples, sample.2 = true)
    (few : ((samples.map Prod.fst).foldl (Monitor.countSample (seeded addressHash) t) window).hashmap.length < 2 ^ 16) :
    ∃ next, samples.foldlM (HashedSampler.countSample addressHash t) hashed = some next ∧
      Agrees addressHash next ((samples.map Prod.fst).foldl (Monitor.countSample (seeded addressHash) t) window) := by
  induction samples generalizing hashed window with
  | nil => exact ⟨hashed, rfl, agrees⟩
  | cons sample rest ih =>
    obtain ⟨sample, enough⟩ := sample
    obtain rfl : enough = true := memory _ List.mem_cons_self
    rw [List.map_cons, List.foldl_cons] at few ⊢
    obtain ⟨next, counted, agrees⟩ := agrees.countSample sample ((countSamples_grow _ t _ _).trans_lt few)
    obtain ⟨final, more, agrees⟩ := ih agrees (fun other member => memory other (List.mem_cons_of_mem _ member)) few
    refine ⟨final, ?_, agrees⟩
    rw [List.foldlM_cons, counted]
    exact more

/-- The action of the sampler whose map is a list. -/
def HashedAction.listed : HashedAction → SamplerAction
  | .insertObject pid startAddr size => .insertObject pid startAddr size
  | .deallocateObject pid startAddr size => .deallocateObject pid startAddr size
  | .window samples => .window (samples.map Prod.fst)

/-- The samples for which memory lacked. -/
def HashedAction.lacking : HashedAction → List (Reading × Bool)
  | .window samples => samples.filter fun sample => !sample.2
  | _ => []

private theorem step_agrees {s s' : Sampler} {action : HashedAction}
    (ok : s.step p (seeded addressHash) action.listed = .ok s') (memory : action.lacking = [])
    (agrees : Agrees addressHash hashed s.window) (few : s'.window.hashmap.length < 2 ^ 16) :
    ∃ next, HashedSampler.step addressHash p ⟨s.table, hashed⟩ action = some ⟨s'.table, next⟩ ∧
      Agrees addressHash next s'.window := by
  cases action with
  | insertObject pid startAddr size =>
    obtain ⟨table, inserted, done⟩ := Runs.bind_ok.mp ok
    cases done
    refine ⟨hashed, ?_, agrees⟩
    rw [HashedSampler.step, inserted]
    rfl
  | deallocateObject pid startAddr size =>
    cases ok
    exact ⟨hashed, rfl, agrees⟩
  | window samples =>
    cases ok
    have cleared : Agrees addressHash { hashed with copy := fun _ => .zero } s.window.clearMetrics := ⟨rfl, agrees.holds⟩
    have supplied : ∀ sample ∈ samples, sample.2 = true := by simpa using List.filter_eq_nil_iff.mp memory
    obtain ⟨next, counted, agrees⟩ := cleared.countSamples (t := s.table) samples supplied few
    refine ⟨next, ?_, agrees⟩
    rw [HashedSampler.step, counted, ← agrees.copy]
    rfl

private theorem step_grows {s s' : Sampler} {action : SamplerAction} {hash : BitVec 64 → BitVec 64}
    (ok : s.step p hash action = .ok s') : s.window.hashmap.length ≤ s'.window.hashmap.length := by
  cases action with
  | insertObject pid startAddr size =>
    obtain ⟨table, -, done⟩ := Runs.bind_ok.mp ok
    cases done
    exact le_rfl
  | deallocateObject pid startAddr size =>
    cases ok
    exact le_rfl
  | window samples =>
    cases ok
    exact countSamples_grow hash s.table samples s.window.clearMetrics

private theorem run_grows {s s' : Sampler} {actions : List SamplerAction} {hash : BitVec 64 → BitVec 64}
    (ok : s.run p hash actions = .ok s') : s.window.hashmap.length ≤ s'.window.hashmap.length :=
  Runs.related (fun s s' : Sampler => s.window.hashmap.length ≤ s'.window.hashmap.length) (fun _ => le_rfl) le_trans
    (fun _ _ _ _ stepped => step_grows stepped) ok

private theorem run_agrees {s s' : Sampler} {actions : List HashedAction}
    (ok : s.run p (seeded addressHash) (actions.map HashedAction.listed) = .ok s')
    (memory : ∀ action ∈ actions, action.lacking = []) (agrees : Agrees addressHash hashed s.window)
    (few : s'.window.hashmap.length < 2 ^ 16) :
    ∃ next, HashedSampler.run addressHash p ⟨s.table, hashed⟩ actions = some ⟨s'.table, next⟩ ∧
      Agrees addressHash next s'.window := by
  induction actions generalizing s hashed with
  | nil => cases ok; exact ⟨hashed, rfl, agrees⟩
  | cons action rest ih =>
    obtain ⟨between, first, more⟩ := Runs.bind_ok.mp ok
    obtain ⟨next, stepped, agrees⟩ := step_agrees first (memory action List.mem_cons_self) agrees
      ((run_grows more).trans_lt few)
    obtain ⟨final, ran, agrees⟩ := ih more (fun other member => memory other (List.mem_cons_of_mem _ member)) agrees
    refine ⟨final, ?_, agrees⟩
    rw [HashedSampler.run, List.foldlM_cons, stepped]
    exact ran

private theorem started_refined {s : Sampler} {actions : List HashedAction}
    (ok : Sampler.start.run p (seeded addressHash) (actions.map HashedAction.listed) = .ok s)
    (memory : ∀ action ∈ actions, action.lacking = []) (few : s.window.hashmap.length < 2 ^ 16) :
    ∃ first final stored, HashedSampler.start = some first ∧ first.run addressHash p actions = some final ∧
      final.table = s.table ∧ final.window.copy = s.window.copy ∧
      HashMap.hashmapScan (fun _ => true) final.window.hashmap = some (stored, true) ∧
      stored.Perm s.window.hashmap := by
  have made : HashMap.hashmapNew 0 0 0 true = some (some (HashMap.Hashmap.mk false 16 0 0 16 0 15 12 1 16
    fun _ => (HashMap.emptyBucket : HashMap.Bucket (BitVec 64)))) := rfl
  obtain ⟨k, valid, none, -, -⟩ := Valid.new (addressFunctions addressHash) trueSetoid made
  have empty : Agrees addressHash ⟨fun _ => .zero, _⟩ Sampler.start.window := ⟨rfl, k, valid, none, rfl⟩
  obtain ⟨next, ran, copy, j, holds⟩ := run_agrees ok memory empty few
  refine ⟨_, _, _, ?_, ran, rfl, copy, holds.valid.scan_all, ?_⟩
  · rw [HashedSampler.start, made]
    rfl
  · have listed := holds.items
    rwa [HashMap.items_listed, Multiset.coe_eq_coe] at listed

/-- The monitor counts with the buckets what it counts with the list, as long as
memory does not lack and the distances fit their 16 bits. -/
theorem counts_refined {s : Sampler} (actions : List HashedAction)
    (ok : Sampler.start.run p (seeded addressHash) (actions.map HashedAction.listed) = .ok s)
    (memory : ∀ action ∈ actions, action.lacking = []) (few : s.window.hashmap.length < 2 ^ 16) :
    ∃ first final stored, HashedSampler.start = some first ∧ first.run addressHash p actions = some final ∧
      final.table = s.table ∧ final.window.copy = s.window.copy ∧
      HashMap.hashmapScan (fun _ => true) final.window.hashmap = some (stored, true) ∧
      stored.Perm s.window.hashmap := started_refined ok memory few

theorem counts_refined_page : ∃ s first final stored,
    Sampler.start.run machine (seeded fun addr _ _ => addr)
      [.insertObject 7 4096 4096, .window [Sampler.pageStore, Sampler.pageStore]] = .ok s ∧
    HashedSampler.start = some first ∧
    first.run (fun addr _ _ => addr) machine
      [.insertObject 7 4096 4096, .window [(Sampler.pageStore, true), (Sampler.pageStore, true)]] = some final ∧
    final.table = s.table ∧ final.window.copy = s.window.copy ∧
    HashMap.hashmapScan (fun _ => true) final.window.hashmap = some (stored, true) ∧ stored.Perm s.window.hashmap := by
  have passed : Runs.ends (fun s => s.window.hashmap.length < 2 ^ 16)
      (Sampler.start.run machine (seeded fun addr _ _ => addr)
        [.insertObject 7 4096 4096, .window [Sampler.pageStore, Sampler.pageStore]]) = true := by decide +kernel
  obtain ⟨s, executed, ended⟩ := Runs.ends_ok passed
  exact ⟨s, counts_refined [.insertObject 7 4096 4096, .window [(Sampler.pageStore, true), (Sampler.pageStore, true)]]
    executed (by simp [HashedAction.lacking]) (of_decide_eq_true ended) |>.imp fun first rest => rest.imp fun final rest =>
      rest.imp fun stored facts => ⟨executed, facts⟩⟩

/-- With the hash that `thread_monitor` passes to the map. -/
theorem sip_counts_refined {s : Sampler} {hash : BitVec 64 → BitVec 64 → BitVec 64 → BitVec 64}
    (hashed : ∀ item seed0 seed1, Monitor.addressHash item seed0 seed1 = some (hash item seed0 seed1))
    (actions : List HashedAction)
    (ok : Sampler.start.run p (seeded addressSip) (actions.map HashedAction.listed) = .ok s)
    (memory : ∀ action ∈ actions, action.lacking = []) (few : s.window.hashmap.length < 2 ^ 16) :
    ∃ first final, HashedSampler.start = some first ∧ first.run hash p actions = some final ∧
      final.table = s.table ∧ final.window.copy = s.window.copy := by
  have same : hash = addressSip := by
    funext item seed0 seed1
    exact Option.some.inj ((hashed item seed0 seed1).symm.trans (addressHash_sip item seed0 seed1))
  obtain ⟨first, final, _, made, ran, table, copy, _⟩ := started_refined ok memory few
  exact ⟨first, final, made, same ▸ ran, table, copy⟩

end OnlineScheduler.Monitor
