import OnlineScheduler.Recorder
import Mathlib.Algebra.Order.Field.Rat

/-! The monitor's part in the object table: publishing one window of counters
and attributing an address to an object. A window is `g_tier_manager_copy` as
it stands when `update_metrics` runs. -/

namespace OnlineScheduler.Monitor

def alpha : ℚ := 33 / 100

/-- One pass of the inner loop of `update_metrics`. `old_value` is read from
`sum_latency_cost` and shared by the four assignments. -/
def updateLevel (copy : Metrics) (metrics : Metrics) (j : Fin memLevels) : Metrics :=
  let oldValue := metrics.sumLatencyCost j
  { metrics with
    sumLatencyCost := Function.update metrics.sumLatencyCost j
      (copy.sumLatencyCost j * (1 - alpha) + oldValue * alpha)
    loadsCount := Function.update metrics.loadsCount j (copy.loadsCount j * (1 - alpha) + oldValue * alpha)
    tlbHit := Function.update metrics.tlbHit j (copy.tlbHit j * (1 - alpha) + oldValue * alpha)
    tlbMiss := Function.update metrics.tlbMiss j (copy.tlbMiss j * (1 - alpha) + oldValue * alpha) }

def updateObject (copy : Metrics) (metrics : Metrics) : Metrics :=
  let metrics := (List.finRange memLevels).foldl (updateLevel copy) metrics
  { metrics with storesCount := metrics.storesCount + copy.storesCount }

def updateMetrics (copy : Fin maxObjects → Metrics) (t : Table) : Table :=
  { t with
    objVector := (scan t.totalObj).foldl (fun objVector i =>
      if t.objAlloc i = 1 then
        Function.update objVector i
          { objVector i with metrics := updateObject (copy i) (objVector i).metrics }
      else objVector) t.objVector }

/-- `get_vector_index`, with `none` for its answer -1. The key is compared with
unsigned words, so it is taken as one. -/
def getVectorIndex (chave : BitVec 64) (t : Table) : Option (Fin maxObjects) :=
  (scan maxObjects).find? (fun i =>
    (t.objVector i).startAddr ≤ chave ∧ chave ≤ (t.objVector i).endAddr ∧ t.objAlloc i = 1)

end OnlineScheduler.Monitor
