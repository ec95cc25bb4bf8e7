import OnlineScheduler.Actuator

/-! The mapping tracker: the hotness that it computes for an object, in each of
its builds (`METRIC` is chosen when it is compiled), and the lines that it
writes. -/

namespace OnlineScheduler.TrackMapping

inductive Metric where
  | absLlcm
  | llcmPerSize
  | absTlbMiss
  | tlbMissPerSize
  | absWrite
  | writePerSize
  | absLatency
  | latencyPerSize
deriving DecidableEq

/-- The value of a `double`, exact where it is finite. -/
inductive Double where
  | finite (value : ℚ)
  | infinite (negative : Bool)
  | nan
deriving DecidableEq

/-- A division whose divisor is a zero without a sign, or none. -/
def divide (dividend divisor : ℚ) : Double :=
  if divisor ≠ 0 then .finite (dividend / divisor)
  else if dividend = 0 then .nan
  else .infinite (dividend < 0)

def sizeGb (object : Object) : ℚ := object.size.toNat / gb

/-- The loop over the levels, with the total and its index variable, which is
live behind it. -/
def sumLevels (counter : Fin memLevels → ℚ) : ℚ × Int :=
  (List.finRange memLevels).foldl (fun (total, i) level => (total + counter level, i + 1)) (0, 0)

def getHotnessMetric (metric : Metric) (t : Table) (objIndex : Fin maxObjects) : Except Fault Double :=
  let metrics := (t.objVector objIndex).metrics
  match metric with
  | .absLlcm => .ok (.finite (metrics.loadsCount 4))
  | .llcmPerSize => .ok (divide (metrics.loadsCount 4) (sizeGb (t.objVector objIndex)))
  | .absTlbMiss => .ok (.finite (sumLevels metrics.tlbMiss).1)
  | .tlbMissPerSize => do
    let (allTlbMiss, i) := sumLevels metrics.tlbMiss
    let slot ← Actuator.slotAt i
    return divide allTlbMiss (sizeGb (t.objVector slot))
  | .absWrite => .ok (.finite metrics.storesCount)
  | .writePerSize => .ok (divide metrics.storesCount (sizeGb (t.objVector objIndex)))
  | .absLatency => .ok (.finite (sumLevels metrics.sumLatencyCost).1)
  | .latencyPerSize => do
    let (allLatency, i) := sumLevels metrics.sumLatencyCost
    let slot ← Actuator.slotAt i
    return divide allLatency (sizeGb (t.objVector slot))

/-- `>=`, which is false of a NaN. -/
def Double.atLeast (threshold : Int) : Double → Bool
  | .finite value => threshold ≤ value
  | .infinite negative => !negative
  | .nan => false

/-- A line of `track_mapping.txt`, without the time. -/
structure Row where
  interval : Nat
  index : Int
  addr : BitVec 64
  size : ℚ
  metricValue : Double
  statusMemoryPages : List ℚ

/-- A fault, or the failed assertion of `query_status_memory_pages`. -/
inductive Stop where
  | fault (fault : Fault)
  | assertion

/-- `counter` with the memory that `thread_track_mapping` allocates and the
lines of the file. -/
structure Tracker where
  counter : Nat
  statusMemoryPages : Nat → ℚ
  rows : List Row

/-- What a pass over the objects meets at each slot: the table as it stands
there, and what `numa_move_pages` reports, if it does not fail. -/
structure Pass where
  table : Fin maxObjects → Table
  pages : Fin maxObjects → Option (BitVec 64 → Int)

def queryStatusMemoryPages (p : Platform) (pages : Option (BitVec 64 → Int)) (addr size : BitVec 64)
    (statusMemoryPages : Nat → ℚ) : Except Stop (Nat → ℚ) :=
  if size % p.pageSize = 0 then
    match pages with
    | none => .ok fun i => if i < p.numNodes + 1 then -1 else statusMemoryPages i
    | some pages => .ok (Actuator.queryStatusMemoryPages p pages addr size statusMemoryPages)
  else .error .assertion

/-- The line is written and the memory cleaned. -/
def registerOnFile (p : Platform) (index : Int) (addr : BitVec 64) (size : ℚ) (metricValue : Double)
    (tracker : Tracker) : Tracker :=
  { tracker with
    rows := tracker.rows ++ [⟨tracker.counter, index, addr, size, metricValue,
      (List.range (p.numNodes + 1)).map tracker.statusMemoryPages⟩]
    statusMemoryPages := fun i => if i < p.numNodes + 1 then 0 else tracker.statusMemoryPages i }

/-- The body of the loop of `check_and_register_decisions`. -/
def visit (p : Platform) (metric : Metric) (hotnessThreshold : Int) (pass : Pass) (tracker : Tracker)
    (j : Fin maxObjects) : Except Stop Tracker := do
  let t := pass.table j
  let metricValue ← (getHotnessMetric metric t j).mapError .fault
  if t.objAlloc j = 1 ∧ metricValue.atLeast hotnessThreshold then
    let object := t.objVector j
    let statusMemoryPages ←
      queryStatusMemoryPages p (pass.pages j) object.startAddr object.size tracker.statusMemoryPages
    return registerOnFile p object.objIndex object.startAddr (sizeGb object) metricValue
      { tracker with statusMemoryPages }
  else return tracker

def checkAndRegisterDecisions (p : Platform) (metric : Metric) (hotnessThreshold : Int) (tracker : Tracker)
    (pass : Pass) : Except Stop Tracker :=
  (scan maxObjects).foldlM (visit p metric hotnessThreshold pass) { tracker with counter := tracker.counter + 1 }

def Tracker.start (statusMemoryPages : Nat → ℚ) : Tracker := ⟨0, statusMemoryPages, []⟩

/-- The loop of `thread_track_mapping`. -/
def Tracker.run (p : Platform) (metric : Metric) (hotnessThreshold : Int) (tracker : Tracker) (passes : List Pass) :
    Except Stop Tracker :=
  passes.foldlM (checkAndRegisterDecisions p metric hotnessThreshold) tracker

end OnlineScheduler.TrackMapping
