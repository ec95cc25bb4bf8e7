import OnlineScheduler.Sampling
import OnlineScheduler.Proofs.Averages
import OnlineScheduler.General.FirstSeen
import Mathlib.Data.Set.Function

/-! The published count of stores. The hash map remembers the stored addresses
of the whole run, so an address that an earlier object had is not counted for
the object that has it now. -/

namespace OnlineScheduler.Monitor

open FirstSeen

variable {p : Platform} {addressHash : BitVec 64 → BitVec 64} {key : BitVec 64} {map : Hashmap}

theorem addressCompare_bucket {pointer : Pointer} (outside : ∀ position, pointer ≠ .bucket position) (position : Nat) :
    addressCompare pointer (.bucket position) = 0 := if_neg (outside position)

/-- Two different places never compare as one, so the hash alone decides. -/
theorem probe_none {pointer : Pointer} (outside : ∀ position, pointer ≠ .bucket position) :
    probe addressHash pointer key map = none ↔ getHash addressHash key ∉ map.map (getHash addressHash) := by
  simp only [probe, List.find?_eq_none, List.mem_range, addressCompare_bucket outside, List.mem_map]
  constructor
  · rintro missing ⟨item, member, same⟩
    obtain ⟨position, inside, rfl⟩ := List.getElem_of_mem member
    exact missing position inside (by simp [inside, same])
  · intro missing position inside found
    refine missing ⟨map[position], List.getElem_mem inside, ?_⟩
    simpa [inside] using found

theorem hashmapGet_none : hashmapGet addressHash key map = none ↔
    getHash addressHash key ∉ map.map (getHash addressHash) := by
  have probed : probe addressHash .sampleAddr key map = none ↔ getHash addressHash key ∉ map.map (getHash addressHash) :=
    probe_none (by simp)
  rw [← probed, hashmapGet]
  constructor
  · intro missing
    rw [Option.eq_none_iff_forall_ne_some]
    intro position found
    have inside : position < map.length := by
      have member := List.mem_of_find?_eq_some found
      simpa using member
    rw [found, Option.bind_some, List.getElem?_eq_getElem inside] at missing
    cases missing
  · intro missing
    rw [missing]
    rfl

theorem hashmapSet_new (missing : hashmapGet addressHash key map = none) :
    hashmapSet addressHash key map = map ++ [key] := by
  have absent : probe addressHash .entry key map = none := (probe_none (by simp)).mpr (hashmapGet_none.mp missing)
  rw [hashmapSet, absent]

theorem hashmapGet_iff {addrs : List (BitVec 64)} (distinct : Set.InjOn (getHash addressHash) {addr | addr ∈ addrs})
    (known : ∀ item ∈ map, item ∈ addrs) (sampled : key ∈ addrs) :
    hashmapGet addressHash key map = none ↔ key ∉ map := by
  rw [hashmapGet_none]
  refine not_congr ⟨fun found => ?_, List.mem_map_of_mem⟩
  obtain ⟨item, member, same⟩ := List.mem_map.mp found
  exact distinct (known item member) sampled same ▸ member

def LoadAt (t : Table) (i : Fin maxObjects) (level : Fin memLevels) (sample : Reading) : Prop :=
  getVectorIndex sample.sampleAddr t = some i ∧ sample.opcode = 1 ∧
    memLevel sample.dataSrc = some level

instance (t : Table) (i : Fin maxObjects) (level : Fin memLevels) : DecidablePred (LoadAt t i level) :=
  fun _ => inferInstanceAs (Decidable (_ ∧ _ ∧ _))

def StoreOf (t : Table) (i : Fin maxObjects) (sample : Reading) : Prop :=
  getVectorIndex sample.sampleAddr t = some i ∧ sample.opcode = 2

instance (t : Table) (i : Fin maxObjects) : DecidablePred (StoreOf t i) :=
  fun _ => inferInstanceAs (Decidable (_ ∧ _))

variable {t : Table} {i : Fin maxObjects}

theorem LoadAt.not_store {sample : Reading} {level : Fin memLevels} (load : LoadAt t i level sample)
    (j : Fin maxObjects) : ¬ StoreOf t j sample := by
  intro store
  have impossible : (1 : Int) = 2 := load.2.1.symm.trans store.2
  cases impossible

/-- What a sample does: it is counted as a load of one slot at one level, or as
a store of one slot, or not at all. -/
theorem countSample_cases (addressHash : BitVec 64 → BitVec 64) (t : Table) (window : Window) (sample : Reading) :
    (∃ j level, LoadAt t j level sample ∧ countSample addressHash t window sample =
      { window with copy := Function.update window.copy j (countLoad sample level (window.copy j)) }) ∨
    (∃ j, StoreOf t j sample ∧ countSample addressHash t window sample = countStore addressHash sample j window) ∨
    (∀ j level, ¬ LoadAt t j level sample) ∧ (∀ j, ¬ StoreOf t j sample) ∧
      countSample addressHash t window sample = window := by
  unfold countSample
  cases owner : getVectorIndex sample.sampleAddr t with
  | none =>
    have unowned (j : Fin maxObjects) : getVectorIndex sample.sampleAddr t ≠ some j := by simp [owner]
    exact .inr (.inr ⟨fun j level load => unowned j load.1, fun j store => unowned j store.1, rfl⟩)
  | some j =>
    simp only
    split
    next loaded =>
      have other : ∀ j, ¬ StoreOf t j sample := fun j store => absurd (loaded.symm.trans store.2) (by decide)
      cases served : memLevel sample.dataSrc with
      | some level => exact .inl ⟨j, level, ⟨owner, loaded, served⟩, rfl⟩
      | none =>
        have unserved (level : Fin memLevels) : memLevel sample.dataSrc ≠ some level := by simp [served]
        exact .inr (.inr ⟨fun j level load => unserved level load.2.2, other, rfl⟩)
    next idle =>
      split
      next stored => exact .inr (.inl ⟨j, ⟨owner, stored⟩, rfl⟩)
      next other => exact .inr (.inr ⟨fun j level load => idle load.2.1, fun j store => other store.2, rfl⟩)

theorem mem_attributedSamples {samples : List Reading} {event : Reading × Fin maxObjects} :
    event ∈ attributedSamples t samples ↔ event.1 ∈ samples ∧ getVectorIndex event.1.sampleAddr t = some event.2 := by
  rw [attributedSamples, List.mem_filterMap]
  constructor
  · rintro ⟨sample, present, found⟩
    obtain ⟨i, owner, rfl⟩ := Option.map_eq_some_iff.mp found
    exact ⟨present, owner⟩
  · intro ⟨present, owner⟩
    exact ⟨event.1, present, Option.map_eq_some_iff.mpr ⟨event.2, owner, rfl⟩⟩

theorem mem_storesBy {opcode : Reading → Int} {events : List (Reading × Fin maxObjects)}
    {store : BitVec 64 × Fin maxObjects} : store ∈ storesBy opcode events ↔
      ∃ event ∈ events, opcode event.1 = 2 ∧ (event.1.sampleAddr, event.2) = store := by
  rw [storesBy, List.mem_filterMap]
  refine exists_congr fun event => and_congr_right fun _ => ?_
  split
  next stored => rw [Option.some.injEq, and_iff_right stored]
  next other => exact iff_of_false (by simp) fun both => other both.1

theorem storesBy_append (opcode : Reading → Int) (first last : List (Reading × Fin maxObjects)) :
    storesBy opcode (first ++ last) = storesBy opcode first ++ storesBy opcode last := List.filterMap_append

/-- Samples taken for the same operations are the same stores. -/
theorem storesBy_congr {opcode opcode' : Reading → Int} {events : List (Reading × Fin maxObjects)}
    (same : ∀ event ∈ events, opcode event.1 = opcode' event.1) : storesBy opcode events = storesBy opcode' events := by
  apply List.filterMap_congr
  intro event member
  rw [same event member]

def MemorySample.reading (unset : Int) (sample : MemorySample) : Reading := { sample with unset }

/-- The reading in which a sample without an operation bit is neither a load nor
a store. -/
abbrev MemorySample.plain (sample : MemorySample) : Reading := sample.reading 0

theorem opcode_operated {sample : Reading} (operated : sample.dataSrc.memOp ≠ 0) :
    sample.opcode = sample.plain.opcode := by
  have set : ∀ memOp : BitVec 5, memOp ≠ 0 → Has memOp perfMemOpNa ∨ Has memOp perfMemOpLoad ∨
      Has memOp perfMemOpStore ∨ Has memOp perfMemOpPfetch ∨ Has memOp perfMemOpExec := by decide
  have some := set _ operated
  unfold Reading.opcode getDataSrcOpcode MemorySample.plain MemorySample.reading
  grind

theorem opcode_unset {sample : Reading} (unset : sample.dataSrc.memOp = 0) : sample.opcode = sample.unset := by
  unfold Reading.opcode getDataSrcOpcode
  simp [Has, unset]

theorem attributedStores_store {sample : Reading} (store : StoreOf t i sample) :
    attributedStores t [sample] = [(sample.sampleAddr, i)] := by
  have owned : attributedSamples t [sample] = [(sample, i)] := by
    rw [attributedSamples, List.filterMap_cons, store.1]
    rfl
  rw [attributedStores, owned, storesBy, List.filterMap_cons, if_pos store.2]
  rfl

theorem attributedStores_other {sample : Reading} (other : ∀ j, ¬ StoreOf t j sample) :
    attributedStores t [sample] = [] := by
  rw [List.eq_nil_iff_forall_not_mem]
  intro store member
  obtain ⟨event, owned, stored, _⟩ := mem_storesBy.mp member
  obtain ⟨present, owner⟩ := mem_attributedSamples.mp owned
  rw [List.mem_singleton.mp present] at owner stored
  exact other event.2 ⟨owner, stored⟩

structure Counts (window window' : Window) (events : List (BitVec 64 × Fin maxObjects)) : Prop where
  hashmap : ∀ key, key ∈ window'.hashmap ↔ key ∈ events.map Prod.fst ∨ key ∈ window.hashmap
  storesCount : ∀ i, (window'.copy i).storesCount =
    (window.copy i).storesCount + (keys i (fresh window.hashmap events)).length

theorem Counts.trans {window middle window' : Window} {first last : List (BitVec 64 × Fin maxObjects)}
    (before : Counts window middle first) (after : Counts middle window' last) :
    Counts window window' (first ++ last) where
  hashmap key := by
    rw [after.hashmap, before.hashmap, List.map_append, List.mem_append]
    tauto
  storesCount i := by
    have same : fresh middle.hashmap last = fresh (first.map Prod.fst ++ window.hashmap) last :=
      fresh_congr (fun key => by rw [before.hashmap, List.mem_append]) last
    rw [after.storesCount, before.storesCount, fresh_append, keys_append, List.length_append, same, Nat.cast_add,
      add_assoc]

theorem Counts.same {window window' : Window} (hashmap : window'.hashmap = window.hashmap)
    (storesCount : ∀ i, (window'.copy i).storesCount = (window.copy i).storesCount) : Counts window window' [] where
  hashmap key := by simp [hashmap]
  storesCount i := by simp [storesCount, fresh, keys]

theorem countLoad_storesCount (sample : Reading) (level : Fin memLevels) (metrics : Metrics) :
    (countLoad sample level metrics).storesCount = metrics.storesCount := by
  rw [countLoad]
  split
  next => rfl
  next => split <;> rfl

theorem countStore_counts {addrs : List (BitVec 64)} (distinct : Set.InjOn (getHash addressHash) {addr | addr ∈ addrs})
    {window : Window} {sample : Reading} {i : Fin maxObjects} (known : ∀ item ∈ window.hashmap, item ∈ addrs)
    (sampled : sample.sampleAddr ∈ addrs) :
    Counts window (countStore addressHash sample i window) [(sample.sampleAddr, i)] := by
  by_cases seen : sample.sampleAddr ∈ window.hashmap
  · have found : hashmapGet addressHash sample.sampleAddr window.hashmap ≠ none :=
      fun missing => (hashmapGet_iff distinct known sampled).mp missing seen
    obtain ⟨item, got⟩ := Option.ne_none_iff_exists'.mp found
    rw [countStore, got]
    constructor
    case hashmap =>
      intro key
      simp only [List.map_singleton, List.mem_singleton]
      exact ⟨Or.inr, fun either => either.elim (fun same => same ▸ seen) id⟩
    case storesCount =>
      intro j
      rw [fresh_seen seen]
      simp [fresh, keys]
  · have missing := (hashmapGet_iff distinct known sampled).mpr seen
    rw [countStore, missing]
    constructor
    case hashmap =>
      intro key
      simp [hashmapSet_new missing, or_comm]
    case storesCount =>
      intro j
      rw [fresh_new seen]
      by_cases here : i = j
      · subst here
        simp [fresh, keys]
      · simp [fresh, keys, here, Function.update_of_ne (Ne.symm here)]

theorem countSample_counts {addrs : List (BitVec 64)} (distinct : Set.InjOn (getHash addressHash) {addr | addr ∈ addrs})
    {window : Window} {sample : Reading} (known : ∀ item ∈ window.hashmap, item ∈ addrs)
    (sampled : sample.sampleAddr ∈ addrs) :
    Counts window (countSample addressHash t window sample) (attributedStores t [sample]) := by
  rcases countSample_cases addressHash t window sample with
    ⟨j, level, load, counted⟩ | ⟨j, store, counted⟩ | ⟨_, other, counted⟩
  · rw [counted, attributedStores_other load.not_store]
    refine .same rfl fun i => ?_
    by_cases here : i = j
    · subst here
      simp [countLoad_storesCount]
    · simp [here]
  · rw [counted, attributedStores_store store]
    exact countStore_counts distinct known sampled
  · rw [counted, attributedStores_other other]
    exact .same rfl fun _ => rfl

theorem attributedStores_cons (t : Table) (sample : Reading) (rest : List Reading) :
    attributedStores t (sample :: rest) = attributedStores t [sample] ++ attributedStores t rest := by
  have parts : attributedSamples t (sample :: rest) = attributedSamples t [sample] ++ attributedSamples t rest := by
    rw [attributedSamples, ← List.singleton_append, List.filterMap_append]
    rfl
  rw [attributedStores, parts, storesBy_append]
  rfl

theorem attributedStores_addr {t : Table} {samples : List Reading} {event : BitVec 64 × Fin maxObjects}
    (member : event ∈ attributedStores t samples) :
    event.1 ∈ samples.map (·.sampleAddr) ∧ getVectorIndex event.1 t = some event.2 := by
  obtain ⟨sample, owned, _, rfl⟩ := mem_storesBy.mp member
  obtain ⟨present, owner⟩ := mem_attributedSamples.mp owned
  exact ⟨List.mem_map_of_mem present, owner⟩

theorem countSamples_counts {addrs : List (BitVec 64)} (distinct : Set.InjOn (getHash addressHash) {addr | addr ∈ addrs})
    {t : Table} {window : Window} {samples : List Reading} (known : ∀ item ∈ window.hashmap, item ∈ addrs)
    (sampled : ∀ sample ∈ samples, sample.sampleAddr ∈ addrs) :
    Counts window (samples.foldl (countSample addressHash t) window) (attributedStores t samples) := by
  induction samples generalizing window with
  | nil => exact .same rfl fun _ => rfl
  | cons sample rest ih =>
    have first := countSample_counts distinct known (sampled sample List.mem_cons_self) (t := t)
    rw [attributedStores_cons, List.foldl_cons]
    refine first.trans (ih ?_ fun later member => sampled later (List.mem_cons_of_mem _ member))
    intro item member
    rcases (first.hashmap item).mp member with stored | before
    · obtain ⟨event, present, rfl⟩ := List.mem_map.mp stored
      have here := (attributedStores_addr present).1
      rw [List.map_singleton, List.mem_singleton] at here
      rw [here]
      exact sampled sample List.mem_cons_self
    · exact known item before

theorem getVectorIndex_live {addr : BitVec 64} {t : Table} {i : Fin maxObjects}
    (found : getVectorIndex addr t = some i) : t.objAlloc i = 1 := by
  have answers := List.find?_some found
  simp only [decide_eq_true_eq] at answers
  exact answers.2.2

def SamplerAction.sampled : SamplerAction → List (BitVec 64)
  | .window samples => samples.map (·.sampleAddr)
  | _ => []

def sampled (actions : List SamplerAction) : List (BitVec 64) := actions.flatMap SamplerAction.sampled

/-- The samples carry no two addresses with one truncated hash. -/
def Distinct (addressHash : BitVec 64 → BitVec 64) (actions : List SamplerAction) : Prop :=
  Set.InjOn (getHash addressHash) {addr | addr ∈ sampled actions}

namespace Sampler

/-- The samples that their bits say are stores. -/
def storeSamples (s : Sampler) : List (BitVec 64 × Fin maxObjects) :=
  storesBy (fun sample => sample.plain.opcode) s.attributed

variable {s s' : Sampler} {action : SamplerAction} {actions : List SamplerAction} {addrs : List (BitVec 64)}

/-- Every live object has the stores counted whose addresses came up first with
it, over the whole run. -/
structure Tracks (addrs : List (BitVec 64)) (s : Sampler) : Prop where
  valid : s.table.Valid
  hashmap : ∀ key, key ∈ s.window.hashmap ↔ key ∈ s.stores.map Prod.fst
  known : ∀ item ∈ s.window.hashmap, item ∈ addrs
  used : ∀ event ∈ s.stores, event.2.val < s.table.totalObj
  storesCount : ∀ i, s.table.objAlloc i = 1 →
    (s.table.objVector i).metrics.storesCount = (counted i s.stores).length

theorem start_tracks (addrs : List (BitVec 64)) : start.Tracks addrs where
  valid := start_valid
  hashmap _ := Iff.rfl
  known _ member := absurd member List.not_mem_nil
  used _ member := absurd member List.not_mem_nil
  storesCount _ live := absurd live zero_ne_one

theorem Tracks.unused (tracks : s.Tracks addrs) {i : Fin maxObjects} (above : s.table.totalObj ≤ i.val) :
    ∀ event ∈ s.stores, event.2 ≠ i := by
  intro event member same
  have below := tracks.used event member
  rw [same] at below
  omega

theorem Tracks.insert (tracks : s.Tracks addrs) {pid : BitVec 32} {startAddr size : BitVec 64} {table : Table}
    (inserted : Recorder.insertObject p pid startAddr size s.table = .ok table) : Tracks addrs { s with table } := by
  have pieces := Recorder.insertObject_inserted tracks.valid inserted
  refine ⟨pieces.valid, tracks.hashmap, tracks.known, fun event member => ?_, fun i live => ?_⟩
  · exact (tracks.used event member).trans_le pieces.later.total
  · by_cases before : s.table.objAlloc i = 1
    · change (table.objVector i).metrics.storesCount = _
      rw [(pieces.old i (tracks.valid.live_below before)).1]
      exact tracks.storesCount i before
    · obtain ⟨k, piece, position, _, holds⟩ := pieces.fresh before live
      have none : counted i s.stores = [] := by
        have events := tracks.unused (i := i) (by omega)
        refine keys_absent fun event member => events event ?_
        exact List.mem_of_find?_eq_some (mem_fresh.mp member).2
      change (table.objVector i).metrics.storesCount = (counted i s.stores).length
      rw [holds.metrics, none]
      rfl

theorem Tracks.deallocate (tracks : s.Tracks addrs) (pid : BitVec 32) (startAddr size : BitVec 64) :
    Tracks addrs { s with table := Recorder.deallocateObject pid startAddr size s.table } := by
  have freed := Recorder.deallocateObject_frees pid startAddr size s.table
  obtain ⟨objects, total⟩ := freed.frame
  refine ⟨(freed.later tracks.valid).valid, tracks.hashmap, tracks.known, fun event member => ?_, fun i live => ?_⟩
  · rw [total]
    exact tracks.used event member
  · rw [objects]
    exact tracks.storesCount i (freed.live live)

theorem stores_window (t : Table) (window : Window) (samples : List Reading) :
    stores ⟨t, window, s.attributed ++ attributedSamples s.table samples⟩ = s.stores ++ attributedStores s.table samples :=
  storesBy_append Reading.opcode s.attributed _

theorem Tracks.window (tracks : s.Tracks addrs) (distinct : Set.InjOn (getHash addressHash) {addr | addr ∈ addrs})
    {samples : List Reading} (sampled : ∀ sample ∈ samples, sample.sampleAddr ∈ addrs)
    (ok : s.step p addressHash (.window samples) = .ok s') : s'.Tracks addrs := by
  cases ok
  have counts : Counts s.window.clearMetrics (samples.foldl (countSample addressHash s.table) s.window.clearMetrics)
      (attributedStores s.table samples) := countSamples_counts distinct tracks.known sampled
  generalize samples.foldl (countSample addressHash s.table) s.window.clearMetrics = window at counts
  have same : s.table.Same (updateMetrics window.copy s.table) := Measures.same (updateMetrics_measures window.copy s.table)
  refine ⟨same.valid tracks.valid, fun key => ?_, fun item member => ?_, fun event member => ?_, fun i live => ?_⟩
  · rw [counts.hashmap, stores_window, List.map_append, List.mem_append, or_comm]
    exact or_congr (tracks.hashmap key) Iff.rfl
  · rcases (counts.hashmap item).mp member with stored | before
    · obtain ⟨event, present, rfl⟩ := List.mem_map.mp stored
      obtain ⟨sample, here, same⟩ := List.mem_map.mp (attributedStores_addr present).1
      rw [← same]
      exact sampled sample here
    · exact tracks.known item before
  · rw [same.total]
    rw [stores_window] at member
    rcases List.mem_append.mp member with before | new
    · exact tracks.used event before
    · exact tracks.valid.live_below (getVectorIndex_live (attributedStores_addr new).2)
  · rw [same.alloc] at live
    have events : fresh s.window.clearMetrics.hashmap (attributedStores s.table samples) =
        fresh (s.stores.map Prod.fst ++ []) (attributedStores s.table samples) :=
      fresh_congr (fun key => by rw [List.append_nil]; exact tracks.hashmap key) _
    rw [updateMetrics_object, if_pos ⟨tracks.valid.live_below live, live⟩, updateObject_storesCount,
      tracks.storesCount i live, counts.storesCount, events, stores_window, counted, counted, fresh_append,
      keys_append, List.length_append, Nat.cast_add]
    exact congrArg _ (zero_add _)

theorem step_tracks (distinct : Set.InjOn (getHash addressHash) {addr | addr ∈ addrs})
    (sampled : ∀ addr ∈ action.sampled, addr ∈ addrs) (ok : s.step p addressHash action = .ok s')
    (tracks : s.Tracks addrs) : s'.Tracks addrs := by
  cases action with
  | insertObject pid startAddr size =>
    obtain ⟨table, inserted, done⟩ := Runs.bind_ok.mp ok
    cases done
    exact tracks.insert inserted
  | deallocateObject pid startAddr size =>
    cases ok
    exact tracks.deallocate pid startAddr size
  | window samples =>
    exact tracks.window distinct (fun sample member => sampled _ (List.mem_map_of_mem member)) ok

theorem run_tracks (distinct : Distinct addressHash actions) (ok : start.run p addressHash actions = .ok s) :
    s.Tracks (sampled actions) := by
  refine Runs.invariant (Tracks (sampled actions)) (fun action member _ _ => ?_) ok (start_tracks _)
  exact step_tracks distinct fun addr here => List.mem_flatMap.mpr ⟨action, member, here⟩

theorem run_attributed (ok : s.run p addressHash actions = .ok s') : s.attributed <+: s'.attributed := by
  refine Runs.related (fun before after => before.attributed <+: after.attributed) (fun _ => List.prefix_refl _)
    List.IsPrefix.trans (fun action _ before after stepped => ?_) ok
  cases action with
  | insertObject =>
    obtain ⟨table, _, done⟩ := Runs.bind_ok.mp stepped
    cases done
    exact List.prefix_refl _
  | deallocateObject => cases stepped; exact List.prefix_refl _
  | window => cases stepped; exact List.prefix_append _ _

/-- Where every attributed sample has an operation bit, the code takes for
stores what the bits say. -/
theorem stores_operated (operated : ∀ event ∈ s.attributed, event.1.dataSrc.memOp ≠ 0) : s.stores = s.storeSamples := by
  apply storesBy_congr
  intro event member
  exact opcode_operated (operated event member)

/-- The count of a live object is the number of addresses stored to in its
lifetime exactly when none of them was stored to in another object before. -/
theorem stores_per_lifetime {before later : List SamplerAction} {s inserted after : Sampler} {pid : BitVec 32}
    {startAddr size : BitVec 64} {i : Fin maxObjects}
    (distinct : Distinct addressHash (before ++ .insertObject pid startAddr size :: later))
    (executed : start.run p addressHash before = .ok s)
    (stored : s.step p addressHash (.insertObject pid startAddr size) = .ok inserted)
    (free : s.table.objAlloc i ≠ 1) (filled : inserted.table.objAlloc i = 1)
    (continued : inserted.run p addressHash later = .ok after) (live : after.table.objAlloc i = 1)
    (operated : ∀ event ∈ after.attributed, event.1.dataSrc.memOp ≠ 0) :
    (after.table.objVector i).metrics.storesCount =
        (keys i (after.storeSamples.drop s.storeSamples.length)).dedup.length ↔
      ∀ addr, (addr, i) ∈ after.storeSamples.drop s.storeSamples.length →
        after.storeSamples.find? (fun event => event.1 = addr) = some (addr, i) := by
  have whole : start.run p addressHash (before ++ .insertObject pid startAddr size :: later) = .ok after :=
    Runs.append_ok.mpr ⟨s, executed, Runs.cons_ok.mpr ⟨inserted, stored, continued⟩⟩
  have earlier : Distinct addressHash before := by
    refine distinct.mono fun addr member => ?_
    change addr ∈ sampled _
    rw [sampled, List.flatMap_append]
    exact List.mem_append_left _ member
  have tracks := run_tracks earlier executed
  obtain ⟨table, executed', done⟩ := Runs.bind_ok.mp stored
  cases done
  obtain ⟨k, _, position, _⟩ := (Recorder.insertObject_inserted tracks.valid executed').fresh free filled
  have absent := tracks.unused (i := i) (by omega)
  obtain ⟨more, longer⟩ := run_attributed continued
  change s.attributed ++ more = after.attributed at longer
  have started : ∀ event ∈ s.attributed, event.1.dataSrc.memOp ≠ 0 := by
    intro event member
    apply operated
    rw [← longer]
    exact List.mem_append_left _ member
  obtain ⟨new, grown⟩ : ∃ new, s.stores ++ new = after.stores := by
    refine ⟨storesBy Reading.opcode more, ?_⟩
    rw [stores, stores, ← longer, storesBy_append]
  rw [← stores_operated operated, ← stores_operated started]
  have owned : keys i after.stores = keys i new := by
    rw [← grown, keys_append, keys_absent absent, List.nil_append]
  have counts := (run_tracks distinct whole).storesCount i live
  rw [counts, ← grown, List.drop_left, grown, ← owned, Nat.cast_inj, counted_iff]
  refine forall_congr' fun addr => imp_congr_left ?_
  rw [← mem_keys, ← mem_keys, owned]

def pageStore : Reading := ⟨⟨5000, 7, ⟨perfMemOpStore, 0, 0, 0⟩⟩, 0⟩

theorem stores_per_lifetime_page : ∃ after,
    start.run machine id [.insertObject 7 4096 4096, .window [pageStore, pageStore]] = .ok after ∧
    (after.table.objVector 0).metrics.storesCount = (keys 0 after.storeSamples).dedup.length := by
  have distinct : Distinct id ([] ++ .insertObject 7 4096 4096 :: [.window [pageStore, pageStore]]) := by
    intro first here second there _
    simp [sampled, SamplerAction.sampled] at here there
    rw [here, there]
  have executed : start.run machine id [] = .ok start := rfl
  obtain ⟨inserted, stored, filled⟩ : ∃ inserted,
      start.step machine id (.insertObject 7 4096 4096) = .ok inserted ∧ inserted.table.objAlloc 0 = 1 :=
    ⟨_, rfl, rfl⟩
  obtain ⟨after, continued, live⟩ : ∃ after,
      inserted.run machine id [.window [pageStore, pageStore]] = .ok after ∧ after.table.objAlloc 0 = 1 :=
    ⟨_, rfl, filled⟩
  have whole : start.run machine id [.insertObject 7 4096 4096, .window [pageStore, pageStore]] = .ok after :=
    Runs.cons_ok.mpr ⟨inserted, stored, continued⟩
  have owned : after.attributed = [(pageStore, 0), (pageStore, 0)] := by
    have passed : Runs.ends (fun after => after.attributed = [(pageStore, 0), (pageStore, 0)])
        (start.run machine id [.insertObject 7 4096 4096, .window [pageStore, pageStore]]) = true := by decide +kernel
    rw [whole] at passed
    exact of_decide_eq_true passed
  have stores : after.storeSamples = [(5000, 0), (5000, 0)] := by
    rw [storeSamples, owned]
    rfl
  have operated : ∀ event ∈ after.attributed, event.1.dataSrc.memOp ≠ 0 := by
    rw [owned]
    decide
  refine ⟨after, whole, ?_⟩
  refine (stores_per_lifetime distinct executed stored (by decide) filled continued live operated).mpr ?_
  intro addr member
  change (addr, 0) ∈ after.storeSamples at member
  rw [stores] at member ⊢
  simp at member
  rw [member]
  rfl

/-- The page is unmapped and mapped again, and stored to at the same address. -/
def reusedPage : List SamplerAction :=
  [.insertObject 7 4096 4096, .window [pageStore], .deallocateObject 7 4096 4096, .insertObject 7 4096 4096,
    .window [pageStore]]

theorem stores_per_lifetime_reused : ∃ after, start.run machine id reusedPage = .ok after ∧
    Distinct id reusedPage ∧ after.table.objAlloc 1 = 1 ∧ after.storeSamples = [(5000, 0), (5000, 1)] ∧
    (after.table.objVector 1).metrics.storesCount = 0 ∧ (keys 1 after.storeSamples).dedup.length = 1 := by
  have passed : Runs.ends (fun after => after.table.objAlloc 1 = 1 ∧ after.storeSamples = [(5000, 0), (5000, 1)] ∧
      (after.table.objVector 1).metrics.storesCount = 0) (start.run machine id reusedPage) = true := by decide +kernel
  obtain ⟨after, executed, ended⟩ := Runs.ends_ok passed
  obtain ⟨live, stores, count⟩ := of_decide_eq_true ended
  refine ⟨after, executed, ?_, live, stores, count, by rw [stores]; decide⟩
  intro first here second there _
  simp [sampled, SamplerAction.sampled, reusedPage] at here there
  rw [here, there]

end Sampler
end OnlineScheduler.Monitor
