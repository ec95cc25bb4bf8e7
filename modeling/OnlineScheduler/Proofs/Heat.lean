import OnlineScheduler.Proofs.Ranked
import OnlineScheduler.General.Peaks

/-! Whether the ranking follows heat. The maxima that scale the metrics move
while the list is built, so an object is measured against what the loop has
visited up to it. -/

namespace OnlineScheduler.Actuator

variable {t : Table} {start built : Listing}

inductive Gauge where
  | llcm
  | tlbm
  | stores
deriving DecidableEq

def Gauge.read (t : Table) (i : Fin maxObjects) : Gauge → ℚ
  | llcm => (t.objVector i).metrics.loadsCount 4
  | tlbm => (t.objVector i).metrics.tlbMiss 4
  | stores => (t.objVector i).metrics.storesCount

def Gauge.total (share : Gauge → ℚ) : ℚ := share llcm + share tlbm + share stores

def Listing.currMax (listing : Listing) : Gauge → ℚ
  | .llcm => listing.currMaxLlcm
  | .tlbm => listing.currMaxTlbm
  | .stores => listing.currMaxStores

/-- The largest of the maximum on entry and the metric over the slots up to
and including this one. -/
def Gauge.peak (t : Table) (start : Listing) (gauge : Gauge) (i : Fin maxObjects) : ℚ :=
  Peaks.peak (fun j => gauge.read t j) (start.currMax gauge) (scan (i.val + 1))

def entryFor (t : Table) (start : Listing) (i : Fin maxObjects) : KeyValue where
  key := i
  value := Gauge.total (fun gauge => gauge.read t i / gauge.peak t start i)
  llcm := Gauge.llcm.read t i
  stores := Gauge.stores.read t i
  tlbm := Gauge.tlbm.read t i

theorem Listing.Scaled.currMax (scaled : start.Scaled) (gauge : Gauge) : 1 ≤ start.currMax gauge := by
  cases gauge with
  | llcm => exact scaled.llcm
  | tlbm => exact scaled.tlbm
  | stores => exact scaled.stores

theorem Gauge.one_le_peak (scaled : start.Scaled) (gauge : Gauge) (i : Fin maxObjects) : 1 ≤ gauge.peak t start i :=
  (scaled.currMax gauge).trans (Peaks.start_le_peak _ _ _)

theorem Gauge.peak_le_peak (gauge : Gauge) {i j : Fin maxObjects} (before : i ≤ j) :
    gauge.peak t start i ≤ gauge.peak t start j :=
  Peaks.peak_le_peak (scan_first (Nat.succ_le_succ before))

private theorem raised (metric peak : ℚ) : (if metric > peak then metric else peak) = max peak metric := by
  rcases lt_or_ge peak metric with above | below
  · rw [if_pos above, max_eq_right above.le]
  · rw [if_neg (not_lt.mpr below), max_eq_left below]

theorem listObject_currMax (i : Fin maxObjects) (listing : Listing) (gauge : Gauge) :
    (listObject t i listing).currMax gauge = max (listing.currMax gauge) (gauge.read t i) := by
  cases gauge <;> exact raised _ _

theorem listObject_value (i : Fin maxObjects) (listing : Listing) : (listObject t i listing).list.entries =
    listing.list.entries.set listing.count
      ⟨i, Gauge.total (fun gauge => gauge.read t i / (listObject t i listing).currMax gauge), Gauge.llcm.read t i,
        Gauge.stores.read t i, Gauge.tlbm.read t i⟩ := rfl

theorem listScan_written (fresh : start.count = 0) {bound : Nat} (inside : bound ≤ maxObjects) :
    let listed := (scan bound).foldl (fun listing i => listObject t i listing) start
    listed.count = bound ∧ listed.written = (scan bound).map (entryFor t start) ∧
      ∀ gauge, listed.currMax gauge = Peaks.peak (fun j => gauge.read t j) (start.currMax gauge) (scan bound) := by
  induction bound with
  | zero => exact ⟨fresh, by rw [Listing.written]; exact congrArg (start.list.entries.take ·) fresh, fun _ => rfl⟩
  | succ bound ih =>
    obtain ⟨count, written, peaks⟩ := ih (Nat.le_of_succ_le inside)
    let i : Fin maxObjects := ⟨bound, inside⟩
    have visited : scan (bound + 1) = scan bound ++ [i] := scan_succ i
    rw [visited, List.foldl_append, List.foldl_cons, List.foldl_nil, List.map_append, List.map_singleton]
    generalize (scan bound).foldl (fun listing i => listObject t i listing) start = listed at count written peaks
    have moved (gauge : Gauge) : (listObject t i listed).currMax gauge = gauge.peak t start i := by
      rw [listObject_currMax, peaks, Gauge.peak, visited, Peaks.peak_snoc]
    refine ⟨congrArg (· + 1) count, ?_, ?_⟩
    · have room : listed.count < listed.list.entries.length := by
        rw [count, listed.list.full]
        exact inside
      change (listObject t i listed).list.entries.take (listed.count + 1) = _
      rw [← written, Listing.written, listObject_value, List.take_add_one, List.take_set_of_le (Nat.le_refl _),
        List.getElem?_set_self room]
      simp only [moved]
      rfl
    · intro gauge
      rw [moved, Gauge.peak, visited]

theorem buildList_lists (fresh : start.count = 0) {objIndex : Int} (tests : Tests t objIndex) :
    ∃ built, buildList t objIndex start = .ok built ∧ built.written = (scan t.totalObj).map (entryFor t start) := by
  refine ⟨_, buildList_tested tests start, ?_⟩
  rw [scan_min]
  exact (listScan_written fresh (Nat.min_le_right _ _)).2.1

/-- A call lists every slot below the object count, or none. -/
theorem buildList_written (fresh : start.count = 0) {objIndex : Int} (listed : buildList t objIndex start = .ok built) :
    built.written = (scan t.totalObj).map (entryFor t start) ∧
        (∀ gauge, built.currMax gauge = Peaks.peak (fun i => gauge.read t i) (start.currMax gauge) (scan t.totalObj)) ∨
      built.written = [] ∧ built = start := by
  by_cases tests : Tests t objIndex
  · rw [buildList_tested tests] at listed
    cases listed
    rw [scan_min]
    exact Or.inl (listScan_written fresh (Nat.min_le_right _ _)).2
  · rw [buildList_untested (buildList_readable listed) tests] at listed
    cases listed
    exact Or.inr ⟨by rw [Listing.written, fresh, List.take_zero], rfl⟩

theorem buildList_entry (fresh : start.count = 0) {objIndex : Int} (listed : buildList t objIndex start = .ok built)
    {entry : KeyValue} (member : entry ∈ built.written) : entry = entryFor t start entry.key := by
  rcases buildList_written fresh listed with ⟨written, _⟩ | ⟨none, _⟩
  · rw [written] at member
    obtain ⟨i, _, rfl⟩ := List.mem_map.mp member
    rfl
  · rw [none] at member
    cases member

theorem buildList_member (fresh : start.count = 0) {objIndex : Int} (listed : buildList t objIndex start = .ok built)
    {entry : KeyValue} (member : entry ∈ built.written) : Tests t objIndex ∧ entry.key ∈ scan t.totalObj := by
  by_cases tests : Tests t objIndex
  · obtain ⟨_, lists, written⟩ := buildList_lists fresh tests
    rw [listed] at lists
    cases lists
    rw [written] at member
    obtain ⟨i, visited, rfl⟩ := List.mem_map.mp member
    exact ⟨tests, visited⟩
  · rw [buildList_untested (buildList_readable listed) tests] at listed
    cases listed
    rw [Listing.written, fresh, List.take_zero] at member
    cases member

/-- Nothing visited between the two has more of a metric of the first than the
second has, the maximum on entry and everything visited up to the first. -/
def Steady (t : Table) (start : Listing) (a b : Fin maxObjects) : Prop :=
  ∀ gauge : Gauge, 0 < gauge.read t a → ∀ j, a < j → j < b →
    gauge.read t j ≤ gauge.read t b ∨ gauge.read t j ≤ start.currMax gauge ∨ ∃ i ≤ a, gauge.read t j ≤ gauge.read t i

def NoHotter (t : Table) (a b : Fin maxObjects) : Prop := ∀ gauge : Gauge, gauge.read t a ≤ gauge.read t b

theorem Gauge.le_peak {gauge : Gauge} {i : Fin maxObjects} {low : ℚ} :
    low ≤ gauge.peak t start i ↔ low ≤ start.currMax gauge ∨ ∃ j ≤ i, low ≤ gauge.read t j := by
  rw [Gauge.peak, Peaks.le_peak]
  simp only [mem_scan, Nat.lt_succ_iff, Fin.le_def]

/-- The maximum at the later visit is that of the earlier one or what the later
object has exactly when nothing visited in between has more. -/
theorem Gauge.peak_max (gauge : Gauge) {a b : Fin maxObjects} (later : a < b) :
    gauge.peak t start b = max (gauge.peak t start a) (gauge.read t b) ↔ ∀ j, a < j → j < b →
      gauge.read t j ≤ gauge.read t b ∨ gauge.read t j ≤ start.currMax gauge ∨
        ∃ i ≤ a, gauge.read t j ≤ gauge.read t i := by
  have above : max (gauge.peak t start a) (gauge.read t b) ≤ gauge.peak t start b :=
    max_le (gauge.peak_le_peak later.le) (Gauge.le_peak.mpr (.inr ⟨b, le_rfl, le_rfl⟩))
  have bounded (j : Fin maxObjects) : gauge.read t j ≤ max (gauge.peak t start a) (gauge.read t b) ↔
      gauge.read t j ≤ gauge.read t b ∨ gauge.read t j ≤ start.currMax gauge ∨
        ∃ i ≤ a, gauge.read t j ≤ gauge.read t i := by
    rw [le_max_iff, Gauge.le_peak, or_comm]
  simp only [← bounded]
  constructor
  · intro same j _ before
    rw [← same]
    exact Gauge.le_peak.mpr (.inr ⟨j, before.le, le_rfl⟩)
  · intro between
    refine le_antisymm (Peaks.peak_le.mpr ⟨?_, fun j visited => ?_⟩) above
    · exact (Peaks.start_le_peak _ _ _).trans (le_max_left _ _)
    · have upTo : j ≤ b := Nat.lt_succ_iff.mp (mem_scan.mp visited)
      obtain early | late := le_or_gt j a
      · exact (Gauge.le_peak.mpr (.inr ⟨j, early, le_rfl⟩)).trans (le_max_left _ _)
      · obtain before | rfl := upTo.lt_or_eq
        · exact between j late before
        · exact le_max_right _ _

theorem Gauge.total_le {first last : Gauge → ℚ} (each : ∀ gauge, first gauge ≤ last gauge) : total first ≤ total last :=
  add_le_add (add_le_add (each llcm) (each tlbm)) (each stores)

theorem entryFor_value_earlier (scaled : start.Scaled) {a b : Fin maxObjects} (colder : NoHotter t a b)
    (nonneg : ∀ gauge : Gauge, 0 ≤ gauge.read t b) (earlier : b ≤ a) :
    (entryFor t start a).value ≤ (entryFor t start b).value :=
  Gauge.total_le fun gauge => Peaks.share_le_share (colder gauge) (nonneg gauge)
    (zero_lt_one.trans_le (gauge.one_le_peak scaled b)) (gauge.peak_le_peak earlier)

theorem entryFor_value_equal (scaled : start.Scaled) {a b : Fin maxObjects} (colder : NoHotter t a b)
    (hotter : NoHotter t b a) (nonneg : ∀ gauge : Gauge, 0 ≤ gauge.read t b) (later : a ≤ b) :
    (entryFor t start a).value ≤ (entryFor t start b).value ↔
      ∀ gauge : Gauge, 0 < gauge.read t b → gauge.peak t start a = gauge.peak t start b := by
  have equal (gauge : Gauge) : gauge.read t a = gauge.read t b := le_antisymm (colder gauge) (hotter gauge)
  have shares (gauge : Gauge) := Peaks.share_anti (nonneg gauge)
    (zero_lt_one.trans_le (gauge.one_le_peak (t := t) scaled a)) (gauge.peak_le_peak later)
  constructor
  · intro ordered gauge
    apply (shares gauge).2.mp
    simp only [entryFor, Gauge.total, equal] at ordered
    cases gauge <;> linarith [(shares .llcm).1, (shares .tlbm).1, (shares .stores).1]
  · intro same
    simp only [entryFor, equal]
    exact Gauge.total_le fun gauge => (shares gauge).2.mpr (same gauge)

theorem entryFor_value_steady (scaled : start.Scaled) {a b : Fin maxObjects} (colder : NoHotter t a b)
    (nonneg : ∀ gauge : Gauge, 0 ≤ gauge.read t a) (steady : Steady t start a b) :
    (entryFor t start a).value ≤ (entryFor t start b).value := by
  have hot (gauge : Gauge) : 0 ≤ gauge.read t b := (nonneg gauge).trans (colder gauge)
  obtain earlier | later := le_or_gt b a
  · exact entryFor_value_earlier scaled colder hot earlier
  · refine Gauge.total_le fun gauge => ?_
    have positive : 0 < gauge.peak t start a := zero_lt_one.trans_le (gauge.one_le_peak scaled a)
    obtain zero | warm := (nonneg gauge).eq_or_lt
    · rw [← zero, zero_div]
      exact div_nonneg (hot gauge) (zero_le_one.trans (gauge.one_le_peak scaled b))
    · rw [(gauge.peak_max later).mpr (steady gauge warm)]
      exact Peaks.share_le_max (colder gauge) (Gauge.le_peak.mpr (.inr ⟨a, le_rfl, le_rfl⟩)) positive

theorem steady_equal (scaled : start.Scaled) {a b : Fin maxObjects} (colder : NoHotter t a b) (hotter : NoHotter t b a)
    (nonneg : ∀ gauge : Gauge, 0 ≤ gauge.read t a)
    (ordered : (entryFor t start a).value ≤ (entryFor t start b).value) : Steady t start a b := by
  have hot (gauge : Gauge) : 0 ≤ gauge.read t b := (nonneg gauge).trans (colder gauge)
  intro gauge warm j after before
  have later := after.trans before
  have still := (entryFor_value_equal scaled colder hotter hot later.le).mp ordered gauge (warm.trans_le (colder gauge))
  have below : gauge.read t b ≤ gauge.peak t start a := Gauge.le_peak.mpr (.inr ⟨a, le_rfl, hotter gauge⟩)
  refine (gauge.peak_max later).mp ?_ j after before
  rw [max_eq_left below, still]

/-- The table in which an object has other metrics. -/
def heated (t : Table) (b : Fin maxObjects) (metrics : Metrics) : Table :=
  { t with objVector := Function.update t.objVector b { t.objVector b with metrics } }

theorem heated_other {b i : Fin maxObjects} (other : i ≠ b) (metrics : Metrics) (gauge : Gauge) :
    gauge.read (heated t b metrics) i = gauge.read t i := by
  have same : (heated t b metrics).objVector i = t.objVector i := Function.update_of_ne other _ _
  cases gauge <;> simp only [Gauge.read, same]

theorem heated_same (a b : Fin maxObjects) (gauge : Gauge) :
    gauge.read (heated t b (t.objVector a).metrics) b = gauge.read t a := by
  have same : (heated t b (t.objVector a).metrics).objVector b = { t.objVector b with metrics := (t.objVector a).metrics } :=
    Function.update_self _ _ _
  cases gauge <;> simp only [Gauge.read, same]

/-- What is steady for two objects as hot stays so for a hotter second one. -/
theorem Steady.heated {a b : Fin maxObjects} {metrics : Metrics}
    (steady : Steady (heated t b (t.objVector a).metrics) start a b)
    (hotter : ∀ gauge : Gauge, gauge.read t a ≤ gauge.read (Actuator.heated t b metrics) b) :
    Steady (Actuator.heated t b metrics) start a b := by
  intro gauge warm j after before
  have first : a ≠ b := (after.trans before).ne
  rw [heated_other first] at warm
  have bound := steady gauge (by rwa [heated_other first]) j after before
  rw [heated_other before.ne, heated_same] at bound
  rw [heated_other before.ne]
  refine bound.imp (fun below => below.trans (hotter gauge)) (Or.imp_right ?_)
  rintro ⟨i, early, below⟩
  refine ⟨i, early, ?_⟩
  rw [heated_other ((early.trans_lt after).trans before).ne] at below ⊢
  exact below

/-- Whatever b has beyond what a has, a call that lists both ranks it no lower. -/
def RanksHotter (t : Table) (start : Listing) (objIndex : Int) (a b : Fin maxObjects) : Prop :=
  ∀ metrics built, NoHotter (heated t b metrics) a b → buildList (heated t b metrics) objIndex start = .ok built →
    ∀ first ∈ built.written, ∀ second ∈ built.written, first.key = a → second.key = b → first.value ≤ second.value

theorem ranksHotter_steady (fresh : start.count = 0) (scaled : start.Scaled) {objIndex : Int}
    (tests : Tests t objIndex) {a b : Fin maxObjects} (first : a ∈ scan t.totalObj) (second : b ∈ scan t.totalObj)
    (nonneg : ∀ gauge : Gauge, 0 ≤ gauge.read t a) :
    RanksHotter t start objIndex a b ↔ Steady (heated t b (t.objVector a).metrics) start a b := by
  by_cases same : a = b
  · subst same
    refine iff_of_true ?_ fun _ _ _ after before => absurd (after.trans before) (lt_irrefl _)
    intro metrics built _ listed x member y other here there
    rw [buildList_entry fresh listed member, buildList_entry fresh listed other, here, there]
  · constructor
    · intro ranks
      have heat (gauge : Gauge) : gauge.read (heated t b (t.objVector a).metrics) a =
          gauge.read (heated t b (t.objVector a).metrics) b := by
        rw [heated_other same, heated_same]
      have still : Tests (heated t b (t.objVector a).metrics) objIndex := tests
      obtain ⟨built, listed, written⟩ := buildList_lists fresh still
      have member (i : Fin maxObjects) (visited : i ∈ scan t.totalObj) :
          entryFor (heated t b (t.objVector a).metrics) start i ∈ built.written := by
        rw [written]
        exact List.mem_map_of_mem visited
      refine steady_equal scaled (fun gauge => (heat gauge).le) (fun gauge => (heat gauge).ge) (fun gauge => ?_) ?_
      · rw [heated_other same]
        exact nonneg gauge
      · exact ranks _ built (fun gauge => (heat gauge).le) listed _ (member a first) _ (member b second) rfl rfl
    · intro steady metrics built colder listed x member y other here there
      rw [buildList_entry fresh listed member, buildList_entry fresh listed other, here, there]
      refine entryFor_value_steady scaled colder (fun gauge => ?_) (steady.heated fun gauge => ?_)
      · rw [heated_other same]
        exact nonneg gauge
      · rw [← heated_other same metrics gauge]
        exact colder gauge

/-- Of two objects listed by one call, the one no hotter has the value no
higher where nothing visited in between raised a maximum past both, and between
objects as hot only there. -/
theorem ranking_monotone {globals : Globals} (scaled : globals.listing.Scaled) {objIndex : Int}
    (listed : buildList t objIndex globals.listing = .ok built) {a b : KeyValue} (first : a ∈ built.written)
    (second : b ∈ built.written) (nonneg : ∀ gauge : Gauge, 0 ≤ gauge.read t a.key) :
    (NoHotter t a.key b.key → Steady t globals.listing a.key b.key → a.value ≤ b.value) ∧
    (NoHotter t a.key b.key → NoHotter t b.key a.key →
      (a.value ≤ b.value ↔ Steady t globals.listing a.key b.key)) ∧
    (RanksHotter t globals.listing objIndex a.key b.key ↔
      Steady (heated t b.key (t.objVector a.key).metrics) globals.listing a.key b.key) := by
  have valueA := congrArg KeyValue.value (buildList_entry rfl listed first)
  have valueB := congrArg KeyValue.value (buildList_entry rfl listed second)
  obtain ⟨tests, visitedA⟩ := buildList_member rfl listed first
  obtain ⟨_, visitedB⟩ := buildList_member rfl listed second
  rw [valueA, valueB]
  refine ⟨fun colder steady => entryFor_value_steady scaled colder nonneg steady, fun colder hotter => ?_,
    ranksHotter_steady rfl scaled tests visitedA visitedB nonneg⟩
  exact ⟨steady_equal scaled colder hotter nonneg, entryFor_value_steady scaled colder nonneg⟩

def warming : List Action :=
  [.insertObject 7 4096 4096, .insertObject 7 8192 4096, .insertObject 7 12288 4096,
    .updateMetrics fun i => { Metrics.zero with storesCount := if i = 1 then 100 else 2 }]

private theorem warming_listed : ∃ s built, (State.start fun _ => 0).run machine warming = .ok s ∧
    s.globals.listing.Scaled ∧ buildList s.table 0 s.globals.listing = .ok built ∧
    (∀ i : Fin maxObjects, i.val < 3 → entryFor s.table s.globals.listing i ∈ built.written) ∧
    (∀ gauge : Gauge, 0 ≤ gauge.read s.table 2) ∧ NoHotter s.table 0 2 ∧ NoHotter s.table 2 0 ∧
    (entryFor s.table s.globals.listing 2).value < (entryFor s.table s.globals.listing 0).value := by
  refine ⟨_, _, rfl, ⟨le_rfl, le_rfl, le_rfl⟩, buildList_tested ⟨0, rfl, rfl⟩ _, ?_, ?_, ?_, ?_, by decide +kernel⟩
  · intro i below
    rw [(listScan_written rfl (by decide)).2.1]
    exact List.mem_map_of_mem (mem_scan.mpr below)
  · intro gauge
    cases gauge <;> decide +kernel
  · intro gauge
    cases gauge <;> decide +kernel
  · intro gauge
    cases gauge <;> decide +kernel

/-- The first and the third page are equally hot, but the third is measured
against the second. -/
theorem ranking_monotone_reversed : ∃ s built, (State.start fun _ => 0).run machine warming = .ok s ∧
    buildList s.table 0 s.globals.listing = .ok built ∧
    ∃ a ∈ built.written, ∃ b ∈ built.written, NoHotter s.table a.key b.key ∧ b.value < a.value := by
  obtain ⟨s, built, executed, _, listed, member, _, colder, _, reversed⟩ := warming_listed
  exact ⟨s, built, executed, listed, _, member 0 (by decide), _, member 2 (by decide), colder, reversed⟩

theorem ranking_monotone_earlier : ∃ s built, (State.start fun _ => 0).run machine warming = .ok s ∧
    buildList s.table 0 s.globals.listing = .ok built ∧
    ∃ a ∈ built.written, ∃ b ∈ built.written, a.key = 2 ∧ b.key = 0 ∧ a.value ≤ b.value ∧
      RanksHotter s.table s.globals.listing 0 a.key b.key := by
  obtain ⟨s, built, executed, scaled, listed, member, warm, _, colder, _⟩ := warming_listed
  obtain ⟨steadily, _, always⟩ := ranking_monotone scaled listed (member 2 (by decide)) (member 0 (by decide)) warm
  have earlier {t : Table} {start : Listing} : Steady t start 2 0 :=
    fun _ _ _ after before => absurd (after.trans before) (by decide)
  exact ⟨s, built, executed, listed, _, member 2 (by decide), _, member 0 (by decide), rfl, rfl,
    steadily colder earlier, always.mpr earlier⟩

end OnlineScheduler.Actuator
