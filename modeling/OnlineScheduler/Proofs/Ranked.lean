import OnlineScheduler.Proofs.Averages
import OnlineScheduler.Proofs.Listing

/-! Which objects the policies see. The list is sorted together with what is
left behind its fresh part. Values are never negative and the entries behind
the object count are worth nothing, so only objects without any traffic on the
last level can be displaced. -/

namespace OnlineScheduler

open Actuator

variable {p : Platform} {t t' : Table}

structure Metrics.Nonneg (metrics : Metrics) : Prop where
  levels : ∀ (metric : Metric) j, 0 ≤ metric.of metrics j
  stores : 0 ≤ metrics.storesCount

/-- The monitor's windows count: each counter starts at zero and is only ever
increased. -/
def Action.Counts : Action → Prop
  | .updateMetrics copy => ∀ i, (copy i).Nonneg
  | _ => True

/-- No traffic on the last level: the object's value is zero. -/
def Table.Cold (t : Table) (i : Fin maxObjects) : Prop :=
  (t.objVector i).metrics.loadsCount 4 = 0 ∧ (t.objVector i).metrics.tlbMiss 4 = 0 ∧
    (t.objVector i).metrics.storesCount = 0

structure KeyValue.Clean (entry : KeyValue) : Prop where
  nonneg : 0 ≤ entry.value
  zero : entry.value = 0 → entry.llcm = 0 ∧ entry.stores = 0 ∧ entry.tlbm = 0

/-- What holds of the list and the metrics between operations. -/
structure State.Clean (s : State) : Prop where
  valid : s.table.Valid
  metrics : ∀ i, (s.table.objVector i).metrics.Nonneg
  scaled : s.globals.listing.Scaled
  entries : ∀ entry ∈ s.globals.keyValueList.entries, entry.Clean
  behind : ∀ entry ∈ s.globals.keyValueList.entries.drop s.table.totalObj, entry.value = 0

theorem Metrics.Nonneg.zero : Metrics.zero.Nonneg := by
  refine ⟨?_, le_rfl⟩
  intro metric j
  cases metric <;> exact le_rfl

theorem Monitor.updateObject_nonneg {copy metrics : Metrics} (counts : copy.Nonneg) (nonneg : metrics.Nonneg) :
    (updateObject copy metrics).Nonneg := by
  refine ⟨?_, ?_⟩
  · intro metric j
    rw [updateObject_level, MovingAverage.blend]
    have weight : 0 ≤ 1 - alpha := by linarith [alpha_le]
    exact add_nonneg (mul_nonneg (counts.levels metric j) weight)
      (mul_nonneg (nonneg.levels .sumLatencyCost j) (le_of_lt alpha_pos))
  · rw [updateObject_storesCount]
    exact add_nonneg nonneg.stores counts.stores

namespace Actuator

variable {entry : KeyValue}

private theorem share_zero {metric peak : ℚ} (proper : peak ≥ 1) : metric / peak = 0 ↔ metric = 0 := by
  have positive : peak ≠ 0 := by linarith
  exact div_eq_zero_iff.trans (or_iff_left positive)

private theorem share_nonneg {metric peak : ℚ} (nonneg : 0 ≤ metric) (proper : peak ≥ 1) : 0 ≤ metric / peak :=
  div_nonneg nonneg (by linarith)

theorem Lists.value_cases (lists : Lists t entry) (nonneg : (t.objVector entry.key).metrics.Nonneg) :
    0 ≤ entry.value ∧ (entry.value = 0 ↔ t.Cold entry.key) := by
  obtain ⟨maxLlcm, llcm, maxTlbm, tlbm, maxStores, stores, value⟩ := lists.value
  rw [lists.llcm, lists.tlbm, lists.stores] at value
  have first : 0 ≤ (t.objVector entry.key).metrics.loadsCount 4 / maxLlcm :=
    share_nonneg (nonneg.levels .loadsCount 4) llcm
  have second : 0 ≤ (t.objVector entry.key).metrics.tlbMiss 4 / maxTlbm :=
    share_nonneg (nonneg.levels .tlbMiss 4) tlbm
  have third := share_nonneg nonneg.stores stores
  refine ⟨by rw [value]; exact add_nonneg (add_nonneg first second) third, ?_⟩
  rw [value, add_eq_zero_iff_of_nonneg (add_nonneg first second) third, add_eq_zero_iff_of_nonneg first second,
    share_zero llcm, share_zero tlbm, share_zero stores, and_assoc]
  rfl

theorem Lists.clean (lists : Lists t entry) (nonneg : (t.objVector entry.key).metrics.Nonneg) : entry.Clean := by
  obtain ⟨atLeast, zero⟩ := lists.value_cases nonneg
  refine ⟨atLeast, fun worthless => ?_⟩
  obtain ⟨llcm, tlbm, stores⟩ := zero.mp worthless
  exact ⟨lists.llcm.trans llcm, lists.stores.trans stores, lists.tlbm.trans tlbm⟩

theorem buildList_cases {s : State} (clean : s.Clean) {objIndex : Int} {built : Listing}
    (listed : buildList s.table objIndex s.globals.listing = .ok built) :
    (Tests s.table objIndex ∧ ∃ written, Built s.table (scan s.table.totalObj) s.globals.listing built written) ∨
      ¬ Tests s.table objIndex ∧ built = s.globals.listing := by
  by_cases tests : Tests s.table objIndex
  · rw [buildList_tested tests] at listed
    cases listed
    refine Or.inl ⟨tests, listObjects_built clean.scaled rfl ?_⟩
    rw [scan_length clean.valid.bounded]
    exact clean.valid.bounded
  · rw [buildList_untested (buildList_readable listed) tests] at listed
    cases listed
    exact Or.inr ⟨tests, rfl⟩

theorem Built.length {s : State} {built : Listing} {written : List KeyValue}
    (writes : Built s.table (scan s.table.totalObj) s.globals.listing built written) (clean : s.Clean) :
    written.length = s.table.totalObj := by
  rw [← List.length_map (f := KeyValue.key), writes.keys, scan_length clean.valid.bounded]

theorem buildList_clean {s : State} (clean : s.Clean) {objIndex : Int} {built : Listing}
    (listed : buildList s.table objIndex s.globals.listing = .ok built) :
    built.Scaled ∧ (∀ entry ∈ built.list.entries, entry.Clean) ∧
      ∀ entry ∈ built.list.entries.drop s.table.totalObj, entry.value = 0 := by
  rcases buildList_cases clean listed with ⟨_, written, writes⟩ | ⟨_, rfl⟩
  · refine ⟨writes.scaled, ?_, ?_⟩
    · intro entry member
      rw [writes.entries] at member
      rcases List.mem_append.mp member with new | old
      · exact (writes.lists entry new).clean (clean.metrics entry.key)
      · exact clean.entries entry (List.mem_of_mem_drop old)
    · rw [writes.entries, ← writes.length clean, List.drop_left, writes.length clean,
        scan_length clean.valid.bounded]
      exact clean.behind
  · exact ⟨clean.scaled, clean.entries, clean.behind⟩

end Actuator

theorem Stores.metrics (stored : Stores p t t') (i : Fin maxObjects) :
    (t'.objVector i).metrics = (t.objVector i).metrics :=
  unchanged (fun t => (t.objVector i).metrics) (fun last => (last.carries i).1) stored

theorem start_clean (statusMemoryPages : Nat → ℚ) : (State.start statusMemoryPages).Clean := by
  have static : ∀ entry ∈ (State.start statusMemoryPages).globals.keyValueList.entries, entry = ⟨0, 0, 0, 0, 0⟩ :=
    fun entry member => List.eq_of_mem_replicate member
  refine ⟨start_valid, fun _ => .zero, ⟨le_rfl, le_rfl, le_rfl⟩, ?_, ?_⟩
  · intro entry member
    rw [static entry member]
    exact ⟨le_rfl, fun _ => ⟨rfl, rfl, rfl⟩⟩
  · intro entry member
    rw [static entry (List.mem_of_mem_drop member)]

/-- Only `sort_objects` touches the list and the maxima, and it leaves the table
alone. -/
theorem State.step_listing {s s' : State} {action : Action} (executed : s.step p action = .ok s') :
    s'.globals.listing = s.globals.listing ∨ ∃ objIndex q built,
      buildList s.table objIndex s.globals.listing = .ok built ∧ s'.table = s.table ∧
      s'.globals.listing = { built with list := built.list.qsort q, count := 0 } := by
  cases action with
  | insertObject => obtain ⟨_, _, done⟩ := Runs.bind_ok.mp executed; cases done; exact Or.inl rfl
  | deallocateObject => cases executed; exact Or.inl rfl
  | updateMetrics => cases executed; exact Or.inl rfl
  | sortObjects objIndex q =>
    obtain ⟨sorted, ok, done⟩ := Runs.bind_ok.mp executed
    obtain ⟨built, listed, same⟩ := sortObjects_ok ok
    cases done
    exact Or.inr ⟨objIndex, q, built, listed, rfl, same⟩
  | readAllocationStatus => obtain ⟨⟨_, _⟩, _, done⟩ := Runs.bind_ok.mp executed; cases done; exact Or.inl rfl
  | policyPromotion => cases executed; exact Or.inl rfl
  | policyDemotion => cases executed; exact Or.inl rfl
  | checkMigrationError => obtain ⟨_, _, done⟩ := Runs.bind_ok.mp executed; cases done; exact Or.inl rfl

theorem State.step_nonneg {s s' : State} {action : Action} (executed : s.step p action = .ok s')
    (counts : action.Counts) (nonneg : ∀ i, (s.table.objVector i).metrics.Nonneg) (i : Fin maxObjects) :
    (s'.table.objVector i).metrics.Nonneg := by
  have effect := step_effect executed
  cases action with
  | insertObject =>
    rw [Stores.metrics effect]
    exact nonneg i
  | deallocateObject =>
    rw [(Frees.frame effect).1]
    exact nonneg i
  | updateMetrics copy =>
    cases executed
    rw [Monitor.updateMetrics_object]
    split
    next => exact Monitor.updateObject_nonneg (counts i) (nonneg i)
    next => exact nonneg i
  | _ =>
    rw [Touches.metrics effect]
    exact nonneg i

theorem State.step_clean {s s' : State} {action : Action} (executed : s.step p action = .ok s')
    (counts : action.Counts) (clean : s.Clean) : s'.Clean := by
  obtain ⟨valid, total⟩ := step_valid executed clean.valid
  have metrics := step_nonneg executed counts clean.metrics
  rcases step_listing executed with same | ⟨objIndex, q, built, listed, table, sorted⟩
  · have list : s'.globals.keyValueList = s.globals.keyValueList := congrArg Listing.list same
    refine ⟨valid, metrics, by rw [same]; exact clean.scaled, by rw [list]; exact clean.entries, ?_⟩
    intro entry member
    rw [list, total, ← List.drop_drop] at member
    exact clean.behind entry (List.mem_of_mem_drop member)
  · obtain ⟨scaled, entries, behind⟩ := buildList_clean clean listed
    have list : s'.globals.keyValueList.entries = q.sort built.list.entries :=
      congrArg (fun listing => listing.list.entries) sorted
    have isSorted := q.sorted built.list.entries
    refine ⟨valid, metrics, ?_, ?_, ?_⟩
    · rw [sorted]
      exact ⟨scaled.llcm, scaled.tlbm, scaled.stores⟩
    · intro entry member
      rw [list] at member
      exact entries entry (isSorted.perm.subset member)
    · rw [list, table]
      exact isSorted.tail (fun entry member => (entries entry member).nonneg) behind

theorem State.run_clean {statusMemoryPages : Nat → ℚ} {actions : List Action} {s : State}
    (executed : (start statusMemoryPages).run p actions = .ok s) (counts : ∀ action ∈ actions, action.Counts) :
    s.Clean :=
  Runs.invariant State.Clean (fun action member _ _ stepped clean => step_clean stepped (counts action member) clean)
    executed (start_clean statusMemoryPages)

theorem counts_of_windows {actions : List Action} (silent : windows 0 actions = []) :
    ∀ action ∈ actions, action.Counts := by
  intro action member
  have none := List.filterMap_eq_nil_iff.mp silent action member
  cases action with
  | updateMetrics copy => cases none
  | _ => trivial

/-- What every list the call may return owes the policies: the objects in use,
all of them and nothing else. -/
def RanksLive (p : Platform) (objIndex : Int) (s : State) : Prop :=
  ∀ q : Qsort, ∃ sorted, sortObjects p objIndex q s.table s.globals = .ok sorted ∧
    (∀ i : Fin maxObjects, i.val < s.table.totalObj → s.table.objAlloc i = 1 → i ∈ sorted.ranked.map KeyValue.key) ∧
    ∀ i ∈ sorted.ranked.map KeyValue.key, s.table.objAlloc i = 1

/-- What every list the call may return owes its own writes. -/
def RanksWritten (p : Platform) (objIndex : Int) (s : State) : Prop :=
  ∀ q : Qsort, ∃ built sorted, buildList s.table objIndex s.globals.listing = .ok built ∧
    sortObjects p objIndex q s.table s.globals = .ok sorted ∧ sorted.activeObj = built.count ∧
    sorted.ranked.Perm built.written ∧
    sorted.ranked.Pairwise (fun first second => second.value ≤ first.value) ∧
    (sorted.ranked.map KeyValue.key).Nodup

/-- Whatever is left behind the object count belongs to a cold object: nothing
is left there when the table is full, and nothing can be displaced when every
object has traffic. -/
def Undisturbed (s : State) : Prop :=
  ∀ z : Fin maxObjects, z.val < s.table.totalObj → s.table.Cold z →
    ∀ entry ∈ s.globals.keyValueList.entries.drop s.table.totalObj, entry.key = z

namespace State.Clean

variable {s : State} {objIndex : Int} {built : Listing} {written : List KeyValue}

theorem settled_iff (clean : s.Clean) (writes : Built s.table (scan s.table.totalObj) s.globals.listing built written) :
    Ranking.Settled KeyValue.value written (s.globals.keyValueList.entries.drop s.table.totalObj) ↔ Undisturbed s := by
  constructor
  · intro settled z below cold old left
    have listed : z ∈ written.map KeyValue.key := by
      rw [writes.keys]
      exact mem_scan.mpr below
    obtain ⟨new, member, rfl⟩ := List.mem_map.mp listed
    have worthless := ((writes.lists new member).value_cases (clean.metrics new.key)).2.mpr cold
    rcases settled new member old left with lower | same
    · rw [clean.behind old left, worthless] at lower
      exact absurd lower (lt_irrefl 0)
    · rw [same]
  · intro undisturbed new member old left
    obtain ⟨nonneg, zero⟩ := (writes.lists new member).value_cases (clean.metrics new.key)
    have least := clean.behind old left
    rcases lt_or_eq_of_le nonneg with above | worthless
    · exact Or.inl (by rwa [least])
    · right
      have listed : new.key ∈ scan s.table.totalObj := by
        rw [← writes.keys]
        exact List.mem_map_of_mem member
      have key := undisturbed new.key (mem_scan.mp listed) (zero.mp worthless.symm) old left
      obtain ⟨oldLlcm, oldStores, oldTlbm⟩ :=
        (clean.entries old (List.mem_of_mem_drop left)).zero least
      obtain ⟨newLlcm, newStores, newTlbm⟩ :=
        ((writes.lists new member).clean (clean.metrics new.key)).zero worthless.symm
      cases old
      cases new
      simp_all

theorem ranked_front (clean : s.Clean) (writes : Built s.table (scan s.table.totalObj) s.globals.listing built written)
    (q : Qsort) : built.written = written ∧
      built.list.entries = written ++ s.globals.keyValueList.entries.drop s.table.totalObj ∧
      (q.sort built.list.entries).take built.count = (q.sort built.list.entries).take written.length := by
  have whole := writes.entries
  have count : built.count = written.length := by rw [writes.count, ← writes.keys, List.length_map]
  rw [scan_length clean.valid.bounded] at whole
  refine ⟨?_, whole, by rw [count]⟩
  rw [Listing.written, count, whole, List.take_left]

theorem ranked_any (clean : s.Clean) (listed : buildList s.table objIndex s.globals.listing = .ok built)
    (writes : Built s.table (scan s.table.totalObj) s.globals.listing built written) {order : List KeyValue}
    (isSorted : Ranking.Sorted KeyValue.value
      (written ++ s.globals.keyValueList.entries.drop s.table.totalObj) order) :
    ∃ q : Qsort, ∀ sorted, sortObjects p objIndex q s.table s.globals = .ok sorted →
      sorted.ranked = order.take written.length := by
  obtain ⟨q, same⟩ := exists_qsort isSorted
  refine ⟨q, fun sorted ok => ?_⟩
  obtain ⟨_, whole, front⟩ := clean.ranked_front writes q
  obtain ⟨other, ok', _, ranked⟩ := sortObjects_defined (p := p) q listed
  cases ok.symm.trans ok'
  rw [ranked, front, whole, same]

theorem ranksWritten_iff (clean : s.Clean) :
    RanksWritten p objIndex s ↔
      Readable s.table objIndex ∧ (Tests s.table objIndex → Undisturbed s) := by
  constructor
  · intro ranks
    obtain ⟨built, _, listed, _⟩ := ranks .plain
    refine ⟨buildList_readable listed, fun tests => ?_⟩
    rcases buildList_cases clean listed with ⟨_, written, writes⟩ | ⟨untested, _⟩
    · rw [← clean.settled_iff writes, ← Ranking.prefix_iff]
      intro order isSorted
      obtain ⟨q, ranked⟩ := clean.ranked_any (p := p) listed writes isSorted
      obtain ⟨other, sorted, listed', ok, _, perm, _⟩ := ranks q
      cases listed.symm.trans listed'
      rwa [ranked sorted ok, (clean.ranked_front writes q).1] at perm
    · exact absurd tests untested
  · rintro ⟨readable, undisturbed⟩ q
    obtain ⟨built, listed⟩ := buildList_defined readable s.globals.listing
    obtain ⟨sorted, ok, active, ranked⟩ := sortObjects_defined (p := p) q listed
    have isSorted := q.sorted built.list.entries
    have front : sorted.ranked.Perm built.written ∧ (built.written.map KeyValue.key).Nodup := by
      rcases buildList_cases clean listed with ⟨tests, written, writes⟩ | ⟨_, rfl⟩
      · obtain ⟨written', whole, front⟩ := clean.ranked_front writes q
        rw [whole] at isSorted
        rw [ranked, front, whole, written', writes.keys]
        exact ⟨Ranking.settled_prefix ((clean.settled_iff writes).mpr (undisturbed tests)) isSorted, scan_nodup _⟩
      · rw [ranked]
        exact ⟨.refl _, List.nodup_nil⟩
    refine ⟨built, sorted, listed, ok, active, front.1, ?_, ?_⟩
    · rw [ranked]
      exact isSorted.ordered.sublist (List.take_sublist _ _)
    · exact (front.1.map KeyValue.key).nodup_iff.mpr front.2

theorem outranks (clean : s.Clean) (writes : Built s.table (scan s.table.totalObj) s.globals.listing built written) :
    ∀ new ∈ written, ∀ old ∈ s.globals.keyValueList.entries.drop s.table.totalObj, old.value ≤ new.value := by
  intro new member old left
  rw [clean.behind old left]
  exact ((writes.lists new member).value_cases (clean.metrics new.key)).1

private theorem live_of_ranks (clean : s.Clean) (ranks : RanksLive p objIndex s)
    (listed : buildList s.table objIndex s.globals.listing = .ok built)
    (writes : Built s.table (scan s.table.totalObj) s.globals.listing built written) {i : Fin maxObjects}
    (below : i.val < s.table.totalObj) : s.table.objAlloc i = 1 := by
  obtain ⟨order, isSorted, front⟩ := Ranking.exists_prefix (List.Perm.refl _) (clean.outranks writes)
  obtain ⟨q, ranked⟩ := clean.ranked_any (p := p) listed writes isSorted
  obtain ⟨sorted, ok, _, sound⟩ := ranks q
  apply sound
  rw [ranked sorted ok]
  apply (front.map KeyValue.key).symm.subset
  rw [writes.keys]
  exact mem_scan.mpr below

private theorem undisturbed_of_ranks (clean : s.Clean) (ranks : RanksLive p objIndex s)
    (listed : buildList s.table objIndex s.globals.listing = .ok built)
    (writes : Built s.table (scan s.table.totalObj) s.globals.listing built written) : Undisturbed s := by
  intro z below cold old left
  have visited : z ∈ written.map KeyValue.key := by
    rw [writes.keys]
    exact mem_scan.mpr below
  obtain ⟨new, member, rfl⟩ := List.mem_map.mp visited
  have worthless := ((writes.lists new member).value_cases (clean.metrics new.key)).2.mpr cold
  have tied : old.value = new.value := (clean.behind old left).trans worthless.symm
  -- A sort that puts the old entry in the object's place must still rank the object.
  obtain ⟨order, isSorted, front⟩ := Ranking.exists_displaced (clean.outranks writes) member left tied
  obtain ⟨q, ranked⟩ := clean.ranked_any (p := p) listed writes isSorted
  obtain ⟨sorted, ok, complete, _⟩ := ranks q
  have present := complete new.key below (clean.live_of_ranks ranks listed writes below)
  rw [ranked sorted ok] at present
  have distinct : ((new :: written.erase new).map KeyValue.key).Nodup := by
    rw [← ((List.perm_cons_erase member).map KeyValue.key).nodup_iff, writes.keys]
    exact scan_nodup _
  rcases List.mem_cons.mp ((front.map KeyValue.key).subset present) with same | again
  · exact same.symm
  · exact absurd again (List.nodup_cons.mp distinct).1

theorem ranksLive_iff (clean : s.Clean) :
    RanksLive p objIndex s ↔
      Readable s.table objIndex ∧
        ((Tests s.table objIndex ∧ (∀ i : Fin maxObjects, i.val < s.table.totalObj → s.table.objAlloc i = 1) ∧
            Undisturbed s) ∨
          ¬ Tests s.table objIndex ∧ ∀ i : Fin maxObjects, i.val < s.table.totalObj → s.table.objAlloc i ≠ 1) := by
  constructor
  · intro ranks
    obtain ⟨sorted, ok, complete, _⟩ := ranks .plain
    obtain ⟨built, listed, _⟩ := sortObjects_ok ok
    refine ⟨buildList_readable listed, ?_⟩
    rcases buildList_cases clean listed with ⟨tests, written, writes⟩ | ⟨untested, rfl⟩
    · exact Or.inl ⟨tests, fun _ => clean.live_of_ranks ranks listed writes, clean.undisturbed_of_ranks ranks listed writes⟩
    · right
      refine ⟨untested, fun i below live => ?_⟩
      obtain ⟨other, ok', _, ranked⟩ := sortObjects_defined (p := p) .plain listed
      cases ok.symm.trans ok'
      have member := complete i below live
      rw [ranked] at member
      exact absurd member List.not_mem_nil
  · rintro ⟨readable, cases⟩ q
    have undisturbed : Tests s.table objIndex → Undisturbed s := by
      intro tests
      rcases cases with ⟨_, _, undisturbed⟩ | ⟨untested, _⟩
      · exact undisturbed
      · exact absurd tests untested
    obtain ⟨built, sorted, listed, ok, _, perm, _⟩ := (clean.ranksWritten_iff (p := p)).mpr ⟨readable, undisturbed⟩ q
    refine ⟨sorted, ok, ?_⟩
    rcases cases with ⟨tests, live, _⟩ | ⟨untested, dead⟩
    · rcases buildList_cases clean listed with ⟨_, written, writes⟩ | ⟨untested, _⟩
      · have keys := perm.map KeyValue.key
        rw [(clean.ranked_front writes q).1, writes.keys] at keys
        exact ⟨fun i below _ => keys.symm.subset (mem_scan.mpr below),
          fun i member => live i (mem_scan.mp (keys.subset member))⟩
      · exact absurd tests untested
    · rcases buildList_cases clean listed with ⟨tests, _⟩ | ⟨_, rfl⟩
      · exact absurd tests untested
      · have empty : sorted.ranked = [] := List.Perm.eq_nil perm
        rw [empty]
        exact ⟨fun i below live => absurd live (dead i below), fun i member => absurd member List.not_mem_nil⟩

end State.Clean

/-- The list is the set of live objects exactly when the one slot the filter
reads is in range and stands for all of them: live with every object live and
none displaced, or freed with every object freed. -/
theorem ranked_live {statusMemoryPages : Nat → ℚ} {actions : List Action} {s : State}
    (executed : (State.start statusMemoryPages).run p actions = .ok s) (counts : ∀ action ∈ actions, action.Counts)
    (objIndex : Int) :
    RanksLive p objIndex s ↔
      Readable s.table objIndex ∧
        ((Tests s.table objIndex ∧ (∀ i : Fin maxObjects, i.val < s.table.totalObj → s.table.objAlloc i = 1) ∧
            Undisturbed s) ∨
          ¬ Tests s.table objIndex ∧ ∀ i : Fin maxObjects, i.val < s.table.totalObj → s.table.objAlloc i ≠ 1) :=
  (State.run_clean executed counts).ranksLive_iff

/-- Two pages with three and two stores in the window. -/
def storedPages : List Action :=
  [.insertObject 7 4096 4096, .insertObject 7 8192 4096,
    .updateMetrics fun i => { Metrics.zero with storesCount := if i = 0 then 3 else 2 }]

theorem storedPages_counts : ∀ action ∈ storedPages, action.Counts := by
  intro action member
  rcases List.mem_cons.mp member with rfl | member
  · trivial
  rcases List.mem_cons.mp member with rfl | member
  · trivial
  rw [List.mem_singleton.mp member]
  intro i
  refine ⟨?_, ?_⟩
  · intro metric j
    cases metric <;> exact le_rfl
  · show (0 : ℚ) ≤ if i = 0 then 3 else 2
    split <;> norm_num

private theorem pages_cases {i : Fin maxObjects} (below : i.val < 2) : i = 0 ∨ i = 1 := by
  rcases Nat.lt_or_ge i.val 1 with first | second
  · exact Or.inl (Fin.ext (Nat.lt_one_iff.mp first))
  · exact Or.inr (Fin.ext (by show i.val = 1; omega))

/-- Neither page is cold, so nothing left in the list can displace one. -/
private theorem storedPages_undisturbed : ∃ s, (State.start fun _ => 0).run machine storedPages = .ok s ∧
    s.table.totalObj = 2 ∧ s.table.objAlloc 0 = 1 ∧ s.table.objAlloc 1 = 1 ∧
    (s.table.objVector 0).metrics.storesCount = 3 ∧ (s.table.objVector 1).metrics.storesCount = 2 ∧ Undisturbed s := by
  have passed : Runs.ends (fun s : State => s.table.totalObj = 2 ∧ s.table.objAlloc 0 = 1 ∧ s.table.objAlloc 1 = 1 ∧
      (s.table.objVector 0).metrics.storesCount = 3 ∧ (s.table.objVector 1).metrics.storesCount = 2)
      ((State.start fun _ => 0).run machine storedPages) = true := by decide +kernel
  obtain ⟨s, executed, reached⟩ := Runs.ends_ok passed
  obtain ⟨total, first, second, hot, warm⟩ := of_decide_eq_true reached
  refine ⟨s, executed, total, first, second, hot, warm, ?_⟩
  intro z below cold
  rw [total] at below
  have silent := cold.2.2
  rcases pages_cases below with rfl | rfl
  · rw [hot] at silent
    exact absurd silent (by norm_num)
  · rw [warm] at silent
    exact absurd silent (by norm_num)

theorem ranked_live_page : ∃ s,
    (State.start fun _ => 0).run machine storedPages = .ok s ∧
    (s.table.objVector 0).metrics.storesCount = 3 ∧ (s.table.objVector 1).metrics.storesCount = 2 ∧
    RanksLive machine 0 s := by
  obtain ⟨s, executed, total, first, second, hot, warm, undisturbed⟩ := storedPages_undisturbed
  refine ⟨s, executed, hot, warm, (ranked_live executed storedPages_counts 0).mpr
    ⟨Or.inr (by decide), Or.inl ⟨⟨0, rfl, first⟩, ?_, undisturbed⟩⟩⟩
  intro i below
  rw [total] at below
  rcases pages_cases below with rfl | rfl
  · exact first
  · exact second

/-- One object freed and one in use: no slot that the filter could read stands
for both. -/
theorem ranked_live_mixed : ∃ s,
    (State.start fun _ => 0).run machine
      [.insertObject 7 4096 4096, .insertObject 7 8192 4096, .deallocateObject 7 4096 4096] = .ok s ∧
    s.table.objAlloc 0 = 0 ∧ s.table.objAlloc 1 = 1 ∧ ∀ objIndex, ¬ RanksLive machine objIndex s := by
  obtain ⟨s, executed, total, dead, live⟩ : ∃ s,
      (State.start fun _ => 0).run machine
        [.insertObject 7 4096 4096, .insertObject 7 8192 4096, .deallocateObject 7 4096 4096] = .ok s ∧
      s.table.totalObj = 2 ∧ s.table.objAlloc 0 = 0 ∧ s.table.objAlloc 1 = 1 := ⟨_, rfl, rfl, rfl, rfl⟩
  have counts : ∀ action ∈ [Action.insertObject 7 4096 4096, .insertObject 7 8192 4096, .deallocateObject 7 4096 4096],
      action.Counts := counts_of_windows rfl
  refine ⟨s, executed, dead, live, ?_⟩
  intro objIndex ranks
  rcases ((State.run_clean executed counts).ranksLive_iff.mp ranks).2 with ⟨_, every, _⟩ | ⟨_, none⟩
  · have impossible := every 0 (by rw [total]; decide)
    rw [dead] at impossible
    cases impossible
  · exact none 1 (by rw [total]; decide) live

/-- The ranked prefix is what the call wrote exactly when the filter lets
nothing through or nothing left behind can take an object's place. -/
theorem ranked_written {statusMemoryPages : Nat → ℚ} {actions : List Action} {s : State}
    (executed : (State.start statusMemoryPages).run p actions = .ok s) (counts : ∀ action ∈ actions, action.Counts)
    (objIndex : Int) :
    RanksWritten p objIndex s ↔ Readable s.table objIndex ∧ (Tests s.table objIndex → Undisturbed s) :=
  (State.run_clean executed counts).ranksWritten_iff

theorem ranked_written_page : ∃ s,
    (State.start fun _ => 0).run machine storedPages = .ok s ∧
    (s.table.objVector 0).metrics.storesCount = 3 ∧ (s.table.objVector 1).metrics.storesCount = 2 ∧
    RanksWritten machine 0 s := by
  obtain ⟨s, executed, _, _, _, hot, warm, undisturbed⟩ := storedPages_undisturbed
  exact ⟨s, executed, hot, warm,
    (ranked_written executed storedPages_counts 0).mpr ⟨Or.inr (by decide), fun _ => undisturbed⟩⟩

/-- Two objects without traffic: an entry never written ties with the second
and may be ranked instead. -/
theorem ranked_written_cold : ∃ s,
    (State.start fun _ => 0).run machine [.insertObject 7 4096 4096, .insertObject 7 8192 4096] = .ok s ∧
    s.table.objAlloc 0 = 1 ∧ s.table.objAlloc 1 = 1 ∧ ¬ RanksWritten machine 0 s := by
  obtain ⟨s, executed, total, first, second, cold, list⟩ : ∃ s,
      (State.start fun _ => 0).run machine [.insertObject 7 4096 4096, .insertObject 7 8192 4096] = .ok s ∧
      s.table.totalObj = 2 ∧ s.table.objAlloc 0 = 1 ∧ s.table.objAlloc 1 = 1 ∧ s.table.Cold 1 ∧
      s.globals.keyValueList = .static := ⟨_, rfl, rfl, rfl, rfl, ⟨rfl, rfl, rfl⟩, rfl⟩
  have counts : ∀ action ∈ [Action.insertObject 7 4096 4096, .insertObject 7 8192 4096], action.Counts :=
    counts_of_windows rfl
  refine ⟨s, executed, first, second, ?_⟩
  intro ranks
  have undisturbed := ((State.run_clean executed counts).ranksWritten_iff.mp ranks).2 ⟨0, rfl, first⟩
  have left : ⟨0, 0, 0, 0, 0⟩ ∈ s.globals.keyValueList.entries.drop s.table.totalObj := by
    rw [list, total, KeyValueList.static, List.drop_replicate]
    exact List.mem_replicate.mpr ⟨by decide, rfl⟩
  have impossible := undisturbed 1 (by rw [total]; decide) cold _ left
  cases impossible

end OnlineScheduler
