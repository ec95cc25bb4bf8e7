import OnlineScheduler.Proofs.TableInvariant
import OnlineScheduler.General.MovingAverage

/-! What `update_metrics` publishes over the windows of an object's life. Each
metric is blended with the history of `sum_latency_cost` instead of its own, so
it is a moving average only where the two histories have one average. -/

namespace OnlineScheduler

open Monitor

variable {p : Platform} {t t' : Table}

inductive Metric where
  | sumLatencyCost
  | loadsCount
  | tlbHit
  | tlbMiss
deriving DecidableEq

def Metric.of : Metric → Metrics → Fin memLevels → ℚ
  | .sumLatencyCost => Metrics.sumLatencyCost
  | .loadsCount => Metrics.loadsCount
  | .tlbHit => Metrics.tlbHit
  | .tlbMiss => Metrics.tlbMiss

namespace Monitor

theorem alpha_pos : 0 < alpha := by norm_num [alpha]

theorem alpha_le : alpha ≤ 1 := by norm_num [alpha]

theorem updateLevel_storesCount (copy metrics : Metrics) (levels : List (Fin memLevels)) :
    (levels.foldl (updateLevel copy) metrics).storesCount = metrics.storesCount :=
  Runs.pass_read Metrics.storesCount (updateLevel copy) (fun _ _ => rfl) levels metrics

theorem updateObject_storesCount (copy metrics : Metrics) :
    (updateObject copy metrics).storesCount = metrics.storesCount + copy.storesCount := by
  rw [← updateLevel_storesCount copy metrics (List.finRange memLevels)]
  rfl

private theorem updateLevel_here (copy metrics : Metrics) (metric : Metric) (j : Fin memLevels) :
    metric.of (updateLevel copy metrics j) j =
      MovingAverage.blend alpha (metrics.sumLatencyCost j) (metric.of copy j) := by
  cases metric <;> simp [updateLevel, Metric.of, MovingAverage.blend]

private theorem updateLevel_elsewhere (copy metrics : Metrics) (metric : Metric) {i j : Fin memLevels}
    (apart : j ≠ i) : metric.of (updateLevel copy metrics i) j = metric.of metrics j := by
  cases metric <;> simp [updateLevel, Metric.of, apart]

/-- Whatever the metric, the old value is that of `sum_latency_cost`. -/
theorem updateObject_level (copy metrics : Metrics) (metric : Metric) (j : Fin memLevels) :
    metric.of (updateObject copy metrics) j =
      MovingAverage.blend alpha (metrics.sumLatencyCost j) (metric.of copy j) := by
  have levels := Runs.pass (fun (metrics : Metrics) j => (metrics.sumLatencyCost j, metric.of metrics j))
    (fun j old => (MovingAverage.blend alpha old.1 (copy.sumLatencyCost j),
      MovingAverage.blend alpha old.1 (metric.of copy j)))
    (updateLevel copy)
    (fun metrics j => Prod.ext (updateLevel_here copy metrics .sumLatencyCost j)
      (updateLevel_here copy metrics metric j))
    (fun metrics i j apart => Prod.ext (updateLevel_elsewhere copy metrics .sumLatencyCost apart)
      (updateLevel_elsewhere copy metrics metric apart))
    (List.nodup_finRange memLevels) metrics j
  rw [if_pos (List.mem_finRange j)] at levels
  have level := congrArg Prod.snd levels
  cases metric <;> exact level

def publish (metrics : Metrics) (windows : List Metrics) : Metrics :=
  windows.foldl (fun metrics copy => updateObject copy metrics) metrics

theorem publish_snoc (metrics : Metrics) (windows : List Metrics) (copy : Metrics) :
    publish metrics (windows ++ [copy]) = updateObject copy (publish metrics windows) := by
  simp only [publish, List.foldl_append, List.foldl_cons, List.foldl_nil]

theorem publish_storesCount (windows : List Metrics) :
    (publish .zero windows).storesCount = (windows.map Metrics.storesCount).sum := by
  induction windows using List.reverseRecOn with
  | nil => rfl
  | append_singleton windows copy ih =>
    rw [publish_snoc, updateObject_storesCount, ih, List.map_append, List.sum_append, List.map_singleton,
      List.sum_singleton]

theorem publish_sumLatencyCost (windows : List Metrics) (j : Fin memLevels) :
    (publish .zero windows).sumLatencyCost j =
      MovingAverage.average alpha (windows.map (fun copy => copy.sumLatencyCost j)) := by
  induction windows using List.reverseRecOn with
  | nil => rfl
  | append_singleton windows copy ih =>
    have level := updateObject_level copy (publish .zero windows) .sumLatencyCost j
    rw [publish_snoc, List.map_append, List.map_singleton, MovingAverage.average_snoc, ← ih]
    exact level

/-- What the monitor promises of the metrics of an object after its windows. -/
structure Averaged (windows : List Metrics) (metrics : Metrics) : Prop where
  average : ∀ (metric : Metric) j,
    metric.of metrics j = MovingAverage.weighted alpha (windows.map (fun copy => metric.of copy j))
  bounded : ∀ (metric : Metric) j bound, 0 ≤ bound → (∀ copy ∈ windows, metric.of copy j ≤ bound) →
    metric.of metrics j ≤ bound
  stores : metrics.storesCount = (windows.map Metrics.storesCount).sum

/-- Before the last window every metric has the average of `sum_latency_cost`. -/
def OneHistory (windows : List Metrics) : Prop :=
  ∀ (metric : Metric) j, MovingAverage.weighted alpha (windows.dropLast.map (fun copy => metric.of copy j)) =
    MovingAverage.weighted alpha (windows.dropLast.map (fun copy => copy.sumLatencyCost j))

theorem average_iff (windows : List Metrics) (metric : Metric) (j : Fin memLevels) :
    metric.of (publish .zero windows) j = MovingAverage.weighted alpha (windows.map (fun copy => metric.of copy j)) ↔
      MovingAverage.weighted alpha (windows.dropLast.map (fun copy => metric.of copy j)) =
        MovingAverage.weighted alpha (windows.dropLast.map (fun copy => copy.sumLatencyCost j)) := by
  simp only [← MovingAverage.average_eq_weighted]
  cases windows using List.reverseRecOn with
  | nil => cases metric <;> simp [publish, Metric.of, Metrics.zero, MovingAverage.average]
  | append_singleton windows copy =>
    rw [publish_snoc, updateObject_level, publish_sumLatencyCost, List.map_append, List.map_singleton,
      MovingAverage.average_snoc, MovingAverage.blend_cancel (ne_of_gt alpha_pos), List.dropLast_concat, eq_comm]

theorem averaged_iff (windows : List Metrics) : Averaged windows (publish .zero windows) ↔ OneHistory windows := by
  constructor
  · exact fun averaged metric j => (average_iff windows metric j).mp (averaged.average metric j)
  · intro history
    have average (metric : Metric) (j : Fin memLevels) := (average_iff windows metric j).mpr (history metric j)
    refine ⟨average, ?_, publish_storesCount windows⟩
    intro metric j bound start below
    rw [average metric j, ← MovingAverage.average_eq_weighted]
    apply MovingAverage.average_le (le_of_lt alpha_pos) alpha_le start
    intro sample member
    obtain ⟨copy, listed, rfl⟩ := List.mem_map.mp member
    exact below copy listed

theorem updateMetrics_object (copy : Fin maxObjects → Metrics) (t : Table) (i : Fin maxObjects) :
    (updateMetrics copy t).objVector i =
      if i.val < t.totalObj ∧ t.objAlloc i = 1 then
        { t.objVector i with metrics := updateObject (copy i) (t.objVector i).metrics }
      else t.objVector i := by
  have objects := Runs.pass (fun (objVector : Fin maxObjects → Object) i => objVector i)
    (fun i object =>
      if t.objAlloc i = 1 then { object with metrics := updateObject (copy i) object.metrics } else object)
    (fun objVector i =>
      if t.objAlloc i = 1 then
        Function.update objVector i { objVector i with metrics := updateObject (copy i) (objVector i).metrics }
      else objVector)
    (fun objVector i => by split <;> simp) (fun objVector i j apart => by split <;> simp [apart])
    (scan_nodup t.totalObj) t.objVector i
  simp only [← ite_and, mem_scan] at objects
  exact objects

end Monitor

theorem Touch.metrics (touched : Touch p t t') (i : Fin maxObjects) :
    (t'.objVector i).metrics = (t.objVector i).metrics := by
  cases touched with
  | status | promote | demote | undo =>
    refine update_field Object.metrics ?_ i
    rfl
  | readClock => rfl

theorem Touches.metrics (touched : Touches p t t') (i : Fin maxObjects) :
    (t'.objVector i).metrics = (t.objVector i).metrics :=
  unchanged (fun t => (t.objVector i).metrics) (fun last => last.metrics i) touched

def Action.window (slot : Fin maxObjects) : Action → Option Metrics
  | .updateMetrics copy => some (copy slot)
  | _ => none

def windows (slot : Fin maxObjects) (actions : List Action) : List Metrics := actions.filterMap (Action.window slot)

theorem State.step_metrics {s s' : State} {action : Action} (executed : s.step p action = .ok s')
    (valid : s.table.Valid) {i : Fin maxObjects} (used : i.val < s.table.totalObj) (live : s'.table.objAlloc i = 1) :
    s.table.objAlloc i = 1 ∧
      (s'.table.objVector i).metrics = publish (s.table.objVector i).metrics (windows i [action]) := by
  have effect := step_effect executed
  cases action with
  | insertObject =>
    obtain ⟨object, alloc⟩ := (Recorder.insertObject_inserted valid (step_insert executed)).old i used
    exact ⟨alloc.symm.trans live, congrArg Object.metrics object⟩
  | deallocateObject =>
    exact ⟨Frees.live effect live, by rw [(Frees.frame effect).1]; rfl⟩
  | updateMetrics copy =>
    have before : s.table.objAlloc i = 1 := by rwa [(Measures.same effect).alloc] at live
    cases executed
    refine ⟨before, ?_⟩
    rw [updateMetrics_object, if_pos ⟨used, before⟩]
    rfl
  | _ => exact ⟨by rwa [(Touches.same effect).alloc] at live, Touches.metrics effect i⟩

theorem State.run_metrics {s s' : State} {actions : List Action} (executed : s.run p actions = .ok s')
    (valid : s.table.Valid) {i : Fin maxObjects} (used : i.val < s.table.totalObj) (live : s'.table.objAlloc i = 1) :
    s.table.objAlloc i = 1 ∧
      (s'.table.objVector i).metrics = publish (s.table.objVector i).metrics (windows i actions) := by
  induction actions generalizing s with
  | nil => cases executed; exact ⟨live, rfl⟩
  | cons action rest ih =>
    obtain ⟨middle, first, remaining⟩ := Runs.cons_ok.mp executed
    obtain ⟨middleValid, total⟩ := step_valid first valid
    obtain ⟨later, metrics⟩ := ih remaining middleValid (by omega)
    obtain ⟨before, changed⟩ := step_metrics first valid used later
    refine ⟨before, ?_⟩
    rw [metrics, changed, publish, publish, publish, ← List.foldl_append, windows, windows, windows,
      ← List.filterMap_append, List.singleton_append]

/-- Along the life of an object the published metrics are the moving averages
of its windows exactly when the histories that `update_metrics` confuses have
the same average. -/
theorem published_averages {statusMemoryPages : Nat → ℚ} {before later : List Action} {s inserted after : State}
    {pid : BitVec 32} {startAddr size : BitVec 64} {i : Fin maxObjects}
    (executed : (State.start statusMemoryPages).run p before = .ok s)
    (stored : s.step p (.insertObject pid startAddr size) = .ok inserted)
    (free : s.table.objAlloc i ≠ 1) (filled : inserted.table.objAlloc i = 1)
    (continued : inserted.run p later = .ok after) (live : after.table.objAlloc i = 1) :
    Averaged (windows i later) (after.table.objVector i).metrics ↔ OneHistory (windows i later) := by
  obtain ⟨valid, _⟩ := State.run_valid executed
  have pieces := Recorder.insertObject_inserted valid (State.step_insert stored)
  obtain ⟨_, _, _, _, holds⟩ := pieces.fresh free filled
  obtain ⟨_, metrics⟩ := State.run_metrics continued pieces.valid (pieces.valid.live_below filled) live
  rw [metrics, holds.metrics]
  exact averaged_iff (windows i later)

def busyWindow : Metrics := ⟨fun _ => 1000, fun _ => 10, 0, fun _ => 0, fun _ => 0⟩

theorem published_averages_window : ∃ after,
    (State.start fun _ => 0).run machine [.insertObject 7 4096 4096, .updateMetrics fun _ => busyWindow] = .ok after ∧
    Averaged [busyWindow] (after.table.objVector 0).metrics := by
  have executed : (State.start fun _ => 0).run machine [] = .ok (.start fun _ => 0) := rfl
  have free : (State.start fun _ => 0).table.objAlloc 0 ≠ 1 := by decide
  obtain ⟨inserted, stored, filled⟩ : ∃ inserted,
      (State.start fun _ => 0).step machine (.insertObject 7 4096 4096) = .ok inserted ∧
        inserted.table.objAlloc 0 = 1 := ⟨_, rfl, rfl⟩
  obtain ⟨after, continued, live⟩ : ∃ after,
      inserted.run machine [.updateMetrics fun _ => busyWindow] = .ok after ∧ after.table.objAlloc 0 = 1 :=
    ⟨_, rfl, filled⟩
  have averages := published_averages executed stored free filled continued live
  exact ⟨after, Runs.cons_ok.mpr ⟨inserted, stored, continued⟩, averages.mpr (fun _ _ => rfl)⟩

/-- A second, idle window leaves more loads than any window had: 221.1, where
the moving average is 2.211. -/
theorem published_averages_leak : ∃ after,
    (State.start fun _ => 0).run machine
      [.insertObject 7 4096 4096, .updateMetrics fun _ => busyWindow, .updateMetrics fun _ => .zero] = .ok after ∧
    after.table.objAlloc 0 = 1 ∧ (after.table.objVector 0).metrics.loadsCount 4 = 2211 / 10 ∧
    ¬ Averaged [busyWindow, .zero] (after.table.objVector 0).metrics := by
  obtain ⟨inserted, stored, filled, fresh⟩ : ∃ inserted,
      (State.start fun _ => 0).step machine (.insertObject 7 4096 4096) = .ok inserted ∧
        inserted.table.objAlloc 0 = 1 ∧ (inserted.table.objVector 0).metrics = .zero :=
    ⟨_, rfl, rfl, rfl⟩
  have valid := (State.step_valid stored start_valid).1
  obtain ⟨after, continued, live⟩ : ∃ after,
      inserted.run machine [.updateMetrics fun _ => busyWindow, .updateMetrics fun _ => .zero] = .ok after ∧
        after.table.objAlloc 0 = 1 := ⟨_, rfl, filled⟩
  have metrics := (State.run_metrics continued valid (valid.live_below filled) live).2
  have history := publish_sumLatencyCost [busyWindow] 4
  have level := updateObject_level .zero (publish .zero [busyWindow]) .loadsCount 4
  have loads : (after.table.objVector 0).metrics.loadsCount 4 = 2211 / 10 := by
    rw [metrics, fresh]
    refine level.trans ?_
    rw [history]
    norm_num [MovingAverage.blend, MovingAverage.average, alpha, busyWindow, Metric.of, Metrics.zero]
  refine ⟨after, Runs.cons_ok.mpr ⟨inserted, stored, continued⟩, live, loads, ?_⟩
  intro averaged
  have bounded : (after.table.objVector 0).metrics.loadsCount 4 ≤ 10 := by
    apply averaged.bounded .loadsCount 4 10 (by norm_num)
    intro copy member
    simp only [List.mem_cons, List.not_mem_nil, or_false] at member
    rcases member with rfl | rfl <;> norm_num [Metric.of, busyWindow, Metrics.zero]
  norm_num [loads] at bounded

end OnlineScheduler
