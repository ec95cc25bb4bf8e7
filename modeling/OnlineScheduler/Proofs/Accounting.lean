import OnlineScheduler.Proofs.StoreCounts
import OnlineScheduler.General.Tally

/-! What a window counts. Each counter of a slot is a sum over the samples that
the slot owns, each with the operation that the code takes it for. -/

namespace OnlineScheduler.Monitor

open FirstSeen

def TlbHit (sample : Reading) : Prop := Has sample.dataSrc.memDtlb perfMemTlbHit

instance : DecidablePred TlbHit := fun _ => inferInstanceAs (Decidable (Has _ _))

def TlbMiss (sample : Reading) : Prop := Has sample.dataSrc.memDtlb perfMemTlbMiss ∧ ¬ TlbHit sample

instance : DecidablePred TlbMiss := fun _ => inferInstanceAs (Decidable (_ ∧ _))

variable {addressHash : BitVec 64 → BitVec 64} {t : Table} {window : Window} {i : Fin maxObjects}

section
variable {sample : Reading} {level l : Fin memLevels} {metrics : Metrics}

theorem getDataSrcDtlb_hit : getDataSrcDtlb sample.dataSrc = 1 ↔ TlbHit sample := by
  unfold getDataSrcDtlb TlbHit
  split
  next hit => exact iff_of_true rfl hit
  next none => split <;> exact iff_of_false (by decide) none

theorem getDataSrcDtlb_miss : getDataSrcDtlb sample.dataSrc = 2 ↔ TlbMiss sample := by
  unfold getDataSrcDtlb TlbMiss TlbHit
  split
  next hit => exact iff_of_false (by decide) fun missed => missed.2 hit
  next none =>
    split
    next missed => exact iff_of_true rfl ⟨missed, none⟩
    next other => exact iff_of_false (by decide) fun missed => other missed.1

/-- What a load adds to a counter that only some loads raise. -/
private theorem counter_raised {counter : Fin memLevels → ℚ} {amount : ℚ} :
    Function.update counter level (counter level + amount) l = counter l + if level = l then amount else 0 := by
  by_cases same : level = l
  · subst same
    simp
  · simp [same, Function.update_of_ne (Ne.symm same)]

theorem countLoad_loadsCount :
    (countLoad sample level metrics).loadsCount l = metrics.loadsCount l + if level = l then 1 else 0 := by
  unfold countLoad
  split
  next => exact counter_raised
  next => split <;> exact counter_raised

theorem countLoad_tlbHit : (countLoad sample level metrics).tlbHit l =
    metrics.tlbHit l + if level = l ∧ TlbHit sample then 1 else 0 := by
  unfold countLoad
  simp only [getDataSrcDtlb_hit, getDataSrcDtlb_miss]
  split
  next hit => simpa only [hit, and_true] using counter_raised
  next none => split <;> simp [none]

theorem countLoad_tlbMiss : (countLoad sample level metrics).tlbMiss l =
    metrics.tlbMiss l + if level = l ∧ TlbMiss sample then 1 else 0 := by
  unfold countLoad
  simp only [getDataSrcDtlb_hit, getDataSrcDtlb_miss]
  split
  next hit =>
    have other : ¬ TlbMiss sample := fun missed => missed.2 hit
    simp [other]
  next =>
    split
    next missed => simpa only [missed, and_true] using counter_raised
    next none => simp [none]

theorem countLoad_sumLatencyCost : (countLoad sample level metrics).sumLatencyCost l =
    metrics.sumLatencyCost l + if level = l ∧ (TlbHit sample ∨ TlbMiss sample) then (sample.weight.toNat : ℚ) else 0 := by
  unfold countLoad
  simp only [getDataSrcDtlb_hit, getDataSrcDtlb_miss]
  split
  next hit => simpa only [hit, true_or, and_true] using counter_raised
  next none =>
    split
    next missed => simpa only [missed, or_true, and_true] using counter_raised
    next other => simp [none, other]

end

theorem countStore_metrics (addressHash : BitVec 64 → BitVec 64) (sample : Reading) (j : Fin maxObjects)
    (window : Window) (i : Fin maxObjects) :
    ∃ storesCount, (countStore addressHash sample j window).copy i = { window.copy i with storesCount } := by
  unfold countStore
  split
  next =>
    by_cases here : i = j
    · subst here
      exact ⟨(window.copy i).storesCount + 1, Function.update_self _ _ _⟩
    · exact ⟨(window.copy i).storesCount, Function.update_of_ne here _ _⟩
  next => exact ⟨(window.copy i).storesCount, rfl⟩

theorem LoadAt.unique {sample : Reading} {j : Fin maxObjects} {level l : Fin memLevels}
    (first : LoadAt t j level sample) (second : LoadAt t i l sample) : j = i ∧ level = l :=
  ⟨Option.some.inj (first.1.symm.trans second.1), Option.some.inj (first.2.2.symm.trans second.2.2)⟩

/-- A counter that the loads of a level raise, and no store. -/
private theorem countSample_adds {read : Metrics → ℚ} {chosen : Reading → Prop} [DecidablePred chosen]
    {amount : Reading → ℚ} {l : Fin memLevels}
    (store : ∀ metrics storesCount, read { metrics with storesCount } = read metrics)
    (load : ∀ sample level metrics, read (countLoad sample level metrics) =
      read metrics + if level = l ∧ chosen sample then amount sample else 0)
    (window : Window) (sample : Reading) : read ((countSample addressHash t window sample).copy i) =
      read (window.copy i) + if chosen sample ∧ LoadAt t i l sample then amount sample else 0 := by
  rcases countSample_cases addressHash t window sample with
    ⟨j, level, loaded, counted⟩ | ⟨j, stored, counted⟩ | ⟨unloaded, _, counted⟩
  · rw [counted]
    by_cases here : j = i
    · subst here
      have same : level = l ↔ LoadAt t j l sample := ⟨fun same => same ▸ loaded, fun other => (loaded.unique other).2⟩
      simp only [Function.update_self, load, same, and_comm]
    · have apart : ¬ LoadAt t i l sample := fun other => here (loaded.unique other).1
      simp [apart, Function.update_of_ne (Ne.symm here)]
  · obtain ⟨storesCount, same⟩ := countStore_metrics addressHash sample j window i
    have apart : ¬ LoadAt t i l sample := fun other => absurd (stored.2.symm.trans other.2.1) (by decide)
    rw [counted, same, store, if_neg (fun both => apart both.2), add_zero]
  · rw [counted, if_neg (fun both => unloaded i l both.2), add_zero]

/-- The loads of a slot at a level, and the addresses that it was stored to at. -/
def loads (t : Table) (samples : List Reading) (i : Fin maxObjects) (level : Fin memLevels) :
    List Reading :=
  samples.filter (LoadAt t i level)

def storeAddrs (t : Table) (samples : List Reading) (i : Fin maxObjects) : List (BitVec 64) :=
  ((samples.filter (StoreOf t i)).map (·.sampleAddr)).dedup

private theorem countSamples_adds (read : Metrics → ℚ) (chosen : Reading → Prop) [DecidablePred chosen]
    (amount : Reading → ℚ) {level : Fin memLevels}
    (store : ∀ metrics storesCount, read { metrics with storesCount } = read metrics)
    (load : ∀ sample l metrics, read (countLoad sample l metrics) =
      read metrics + if l = level ∧ chosen sample then amount sample else 0)
    (window : Window) (samples : List Reading) :
    read ((samples.foldl (countSample addressHash t) window).copy i) =
      read (window.copy i) + (((loads t samples i level).filter chosen).map amount).sum := by
  rw [loads, List.filter_filter]
  simp only [← Bool.decide_and]
  exact Tally.selected (fun window => read (window.copy i)) (countSample_adds store load) window samples

/-- The counters of a slot after a window that began with the addresses `seen`
in the hash map. -/
structure Accounted (t : Table) (seen : Hashmap) (samples : List Reading) (i : Fin maxObjects)
    (metrics : Metrics) : Prop where
  loadsCount : ∀ level, metrics.loadsCount level = (loads t samples i level).length
  tlbHit : ∀ level, metrics.tlbHit level = ((loads t samples i level).filter TlbHit).length
  tlbMiss : ∀ level, metrics.tlbMiss level = ((loads t samples i level).filter TlbMiss).length
  tlb : ∀ level, metrics.tlbHit level + metrics.tlbMiss level ≤ metrics.loadsCount level
  sumLatencyCost : ∀ level, metrics.sumLatencyCost level =
    (((loads t samples i level).filter (fun sample => TlbHit sample ∨ TlbMiss sample)).map
      (fun sample => (sample.weight.toNat : ℚ))).sum
  storesCount : metrics.storesCount = ((storeAddrs t samples i).filter (fun addr => addr ∉ seen)).length

private theorem keys_attributedStores (samples : List Reading) :
    keys i (attributedStores t samples) = (samples.filter (StoreOf t i)).map (·.sampleAddr) := by
  induction samples with
  | nil => rfl
  | cons sample rest ih =>
    rw [attributedStores_cons, keys_append, ih, List.filter_cons]
    by_cases stored : ∃ j, StoreOf t j sample
    · obtain ⟨j, store⟩ := stored
      rw [attributedStores_store store]
      by_cases here : j = i
      · subst here
        simp [keys, store]
      · have apart : ¬ StoreOf t i sample := fun other => here (Option.some.inj (store.1.symm.trans other.1))
        simp [keys, here, apart]
    · have other := not_exists.mp stored
      simp [attributedStores_other other, keys, other i]

private theorem countSamples_storesCount {addrs : List (BitVec 64)}
    (distinct : Set.InjOn (getHash addressHash) {addr | addr ∈ addrs}) {samples : List Reading}
    (known : ∀ item ∈ window.hashmap, item ∈ addrs) (sampled : ∀ sample ∈ samples, sample.sampleAddr ∈ addrs) :
    ((samples.foldl (countSample addressHash t) window).copy i).storesCount =
      (window.copy i).storesCount + ((storeAddrs t samples i).filter (fun addr => addr ∉ window.hashmap)).length := by
  have owned : ∀ first ∈ attributedStores t samples, ∀ second ∈ attributedStores t samples,
      first.1 = second.1 → first.2 = second.2 := by
    intro first here second there same
    have owner := (attributedStores_addr here).2
    rw [same, (attributedStores_addr there).2] at owner
    exact (Option.some.inj owner).symm
  rw [(countSamples_counts distinct known sampled).storesCount, (fresh_owned owned i).length_eq, keys_attributedStores,
    storeAddrs]

private theorem classified (samples : List Reading) :
    (samples.filter TlbHit).length + (samples.filter TlbMiss).length ≤ samples.length := by
  induction samples with
  | nil => exact Nat.le_refl 0
  | cons sample rest ih =>
    have other : TlbHit sample → ¬ TlbMiss sample := fun hit missed => missed.2 hit
    simp only [List.filter_cons, List.length_cons, decide_eq_true_eq]
    split
    next hit =>
      rw [if_neg (other hit), List.length_cons]
      omega
    next =>
      split
      · rw [List.length_cons]
        omega
      · omega

theorem countSamples_loadsCount (window : Window) (samples : List Reading) (level : Fin memLevels) :
    ((samples.foldl (countSample addressHash t) window).copy i).loadsCount level =
      (window.copy i).loadsCount level + (loads t samples i level).length := by
  have load (sample : Reading) (l : Fin memLevels) (metrics : Metrics) :
      (countLoad sample l metrics).loadsCount level = metrics.loadsCount level + if l = level ∧ True then 1 else 0 := by
    simpa using countLoad_loadsCount
  refine (countSamples_adds (fun metrics => metrics.loadsCount level) (fun _ => True) (fun _ => 1) (fun _ _ => rfl)
    load window samples).trans ?_
  simp

theorem countSamples_tlbHit (window : Window) (samples : List Reading) (level : Fin memLevels) :
    ((samples.foldl (countSample addressHash t) window).copy i).tlbHit level =
      (window.copy i).tlbHit level + ((loads t samples i level).filter TlbHit).length := by
  refine (countSamples_adds (fun metrics => metrics.tlbHit level) TlbHit (fun _ => 1) (fun _ _ => rfl)
    (fun _ _ _ => countLoad_tlbHit) window samples).trans ?_
  simp

theorem countSamples_tlbMiss (window : Window) (samples : List Reading) (level : Fin memLevels) :
    ((samples.foldl (countSample addressHash t) window).copy i).tlbMiss level =
      (window.copy i).tlbMiss level + ((loads t samples i level).filter TlbMiss).length := by
  refine (countSamples_adds (fun metrics => metrics.tlbMiss level) TlbMiss (fun _ => 1) (fun _ _ => rfl)
    (fun _ _ _ => countLoad_tlbMiss) window samples).trans ?_
  simp

theorem countSamples_sumLatencyCost (window : Window) (samples : List Reading) (level : Fin memLevels) :
    ((samples.foldl (countSample addressHash t) window).copy i).sumLatencyCost level =
      (window.copy i).sumLatencyCost level +
        (((loads t samples i level).filter (fun sample => TlbHit sample ∨ TlbMiss sample)).map
          (fun sample => (sample.weight.toNat : ℚ))).sum :=
  countSamples_adds (fun metrics => metrics.sumLatencyCost level) (fun sample => TlbHit sample ∨ TlbMiss sample)
    (fun sample => (sample.weight.toNat : ℚ)) (fun _ _ => rfl) (fun _ _ _ => countLoad_sumLatencyCost) window samples

theorem window_accounted {samples : List Reading}
    (distinct : Set.InjOn (getHash addressHash) {addr | addr ∈ window.hashmap ++ samples.map (·.sampleAddr)})
    (i : Fin maxObjects) : Accounted t window.hashmap samples i
      ((samples.foldl (countSample addressHash t) window.clearMetrics).copy i) where
  loadsCount level := (countSamples_loadsCount _ samples level).trans (zero_add _)
  tlbHit level := (countSamples_tlbHit _ samples level).trans (zero_add _)
  tlbMiss level := (countSamples_tlbMiss _ samples level).trans (zero_add _)
  tlb level := by
    rw [countSamples_tlbHit, countSamples_tlbMiss, countSamples_loadsCount]
    change 0 + _ + (0 + _) ≤ 0 + _
    rw [zero_add, zero_add, zero_add, ← Nat.cast_add]
    exact Nat.cast_le.mpr (classified _)
  sumLatencyCost level := (countSamples_sumLatencyCost _ samples level).trans (zero_add _)
  storesCount := by
    refine (countSamples_storesCount distinct (fun item member => ?_) fun sample member => ?_).trans (zero_add _)
    · exact List.mem_append_left _ member
    · exact List.mem_append_right _ (List.mem_map_of_mem member)

namespace Accounted

variable {seen : Hashmap} {samples samples' : List Reading} {metrics metrics' : Metrics}

theorem perm (accounted : Accounted t seen samples i metrics) (perm : samples.Perm samples') :
    Accounted t seen samples' i metrics := by
  have loaded (level : Fin memLevels) : (loads t samples i level).Perm (loads t samples' i level) := perm.filter _
  have stored : (storeAddrs t samples i).Perm (storeAddrs t samples' i) := ((perm.filter _).map _).dedup
  refine ⟨fun level => ?_, fun level => ?_, fun level => ?_, accounted.tlb, fun level => ?_, ?_⟩
  · rw [accounted.loadsCount, (loaded level).length_eq]
  · rw [accounted.tlbHit, ((loaded level).filter _).length_eq]
  · rw [accounted.tlbMiss, ((loaded level).filter _).length_eq]
  · rw [accounted.sumLatencyCost, (((loaded level).filter _).map _).sum_eq]
  · rw [accounted.storesCount, (stored.filter _).length_eq]

theorem unique (first : Accounted t seen samples i metrics) (second : Accounted t seen samples i metrics') :
    metrics = metrics' := by
  cases metrics
  cases metrics'
  rw [Metrics.mk.injEq]
  refine ⟨funext fun level => ?_, funext fun level => ?_, ?_, funext fun level => ?_, funext fun level => ?_⟩
  · exact (first.sumLatencyCost level).trans (second.sumLatencyCost level).symm
  · exact (first.loadsCount level).trans (second.loadsCount level).symm
  · exact first.storesCount.trans second.storesCount.symm
  · exact (first.tlbHit level).trans (second.tlbHit level).symm
  · exact (first.tlbMiss level).trans (second.tlbMiss level).symm

end Accounted

end OnlineScheduler.Monitor
