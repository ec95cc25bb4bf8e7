import OnlineScheduler.Monitor

/-! The monitor's windows of memory samples: what a sample's data source says,
the hash map of addresses that were stored to, and the counters of a window. -/

namespace OnlineScheduler.Monitor

/-- The fields of `union perf_mem_data_src`. The monitor does not look at
`memLvlNum`. -/
structure DataSrc where
  memOp : BitVec 5
  memLvl : BitVec 14
  memDtlb : BitVec 7
  memLvlNum : BitVec 4
deriving DecidableEq

def perfMemOpNa : BitVec 5 := 0x01
def perfMemOpLoad : BitVec 5 := 0x02
def perfMemOpStore : BitVec 5 := 0x04
def perfMemOpPfetch : BitVec 5 := 0x08
def perfMemOpExec : BitVec 5 := 0x10

def perfMemLvlNa : BitVec 14 := 0x01
def perfMemLvlHit : BitVec 14 := 0x02
def perfMemLvlMiss : BitVec 14 := 0x04
def perfMemLvlL1 : BitVec 14 := 0x08
def perfMemLvlLfb : BitVec 14 := 0x10
def perfMemLvlL2 : BitVec 14 := 0x20
def perfMemLvlL3 : BitVec 14 := 0x40
def perfMemLvlLocRam : BitVec 14 := 0x80

/-- A value of `mem_lvl_num`, which the source tests as bits of `mem_lvl`. -/
def perfMemLvlnumPmem : BitVec 14 := 0x0e

def perfMemTlbHit : BitVec 7 := 0x02
def perfMemTlbMiss : BitVec 7 := 0x04

def Has {w : Nat} (flags flag : BitVec w) : Prop := flags &&& flag ≠ 0

instance {w : Nat} (flags flag : BitVec w) : Decidable (Has flags flag) := inferInstanceAs (Decidable (_ ≠ _))

def IsServedBy (level : BitVec 14) (dataSrc : DataSrc) : Prop :=
  Has dataSrc.memLvl perfMemLvlHit ∧ Has dataSrc.memLvl level

instance (level : BitVec 14) (dataSrc : DataSrc) : Decidable (IsServedBy level dataSrc) :=
  inferInstanceAs (Decidable (_ ∧ _))

abbrev IsServedByLocalCache1 : DataSrc → Prop := IsServedBy perfMemLvlL1
abbrev IsServedByLocalLfb : DataSrc → Prop := IsServedBy perfMemLvlLfb
abbrev IsServedByLocalCache2 : DataSrc → Prop := IsServedBy perfMemLvlL2
abbrev IsServedByLocalCache3 : DataSrc → Prop := IsServedBy perfMemLvlL3
abbrev IsServedByLocalMemory : DataSrc → Prop := IsServedBy perfMemLvlLocRam
abbrev IsServedByLocalPmem : DataSrc → Prop := IsServedBy perfMemLvlnumPmem

def IsServedByLocalNAMiss (dataSrc : DataSrc) : Prop :=
  Has dataSrc.memLvl perfMemLvlNa ∨ Has dataSrc.memLvl perfMemLvlMiss ∧ Has dataSrc.memLvl perfMemLvlL3

instance (dataSrc : DataSrc) : Decidable (IsServedByLocalNAMiss dataSrc) := inferInstanceAs (Decidable (_ ∨ _ ∧ _))

/-- Without an operation bit, control runs off the end of `get_data_src_opcode`
and its caller may find any number, which `unset` stands for. -/
def getDataSrcOpcode (unset : Int) (dataSrc : DataSrc) : Int :=
  if Has dataSrc.memOp perfMemOpNa then 0
  else if Has dataSrc.memOp perfMemOpLoad then 1
  else if Has dataSrc.memOp perfMemOpStore then 2
  else if Has dataSrc.memOp perfMemOpPfetch then 3
  else if Has dataSrc.memOp perfMemOpExec then 4
  else unset

def getDataSrcDtlb (dataSrc : DataSrc) : Int :=
  if Has dataSrc.memDtlb perfMemTlbHit then 1
  else if Has dataSrc.memDtlb perfMemTlbMiss then 2
  else -1

/-- `mem_level` after the chain of tests for a load, with `none` for -1. -/
def memLevel (dataSrc : DataSrc) : Option (Fin memLevels) :=
  if IsServedByLocalNAMiss dataSrc then none
  else if IsServedByLocalCache1 dataSrc then some 0
  else if IsServedByLocalLfb dataSrc then some 1
  else if IsServedByLocalCache2 dataSrc then some 2
  else if IsServedByLocalCache3 dataSrc then some 3
  else if IsServedByLocalMemory dataSrc then some 4
  else if IsServedByLocalPmem dataSrc then some 4
  else none

/-- The places between which `address_compare` is called: the local
`sample_addr`, the entry of `hashmap_set` and the buckets. -/
inductive Pointer where
  | sampleAddr
  | entry
  | bucket (position : Nat)
deriving DecidableEq

/-- It compares the pointers, not what they point to. -/
def addressCompare (a b : Pointer) : Int := if a = b then 1 else 0

/-- The items of `g_hashmap`, without the order of its buckets. -/
abbrev Hashmap := List (BitVec 64)

section
variable (addressHash : BitVec 64 → BitVec 64)

def getHash (key : BitVec 64) : BitVec 64 := addressHash key <<< 16 >>> 16

/-- Where the probing for a key at `pointer` ends with an item. -/
def probe (pointer : Pointer) (key : BitVec 64) (map : Hashmap) : Option Nat :=
  (List.range map.length).find? (fun position =>
    (map[position]?.map (getHash addressHash)) = some (getHash addressHash key) ∧
      addressCompare pointer (.bucket position) = 0)

def hashmapGet (key : BitVec 64) (map : Hashmap) : Option (BitVec 64) :=
  (probe addressHash .sampleAddr key map).bind (fun position => map[position]?)

/-- `hashmap_set`, with the memory for its growth at hand. -/
def hashmapSet (key : BitVec 64) (map : Hashmap) : Hashmap :=
  match probe addressHash .entry key map with
  | some position => map.set position key
  | none => map ++ [key]

structure MemorySample where
  sampleAddr : BitVec 64
  weight : BitVec 64
  dataSrc : DataSrc
deriving DecidableEq

/-- A sample with what `get_data_src_opcode` leaves for it without an operation
bit. -/
structure Reading extends MemorySample where
  unset : Int
deriving DecidableEq

def Reading.opcode (sample : Reading) : Int := getDataSrcOpcode sample.unset sample.dataSrc

/-- `g_tier_manager_copy` and `g_hashmap` within a window. -/
structure Window where
  copy : Fin maxObjects → Metrics
  hashmap : Hashmap

def Window.clearMetrics (window : Window) : Window := { window with copy := fun _ => .zero }

/-- The counters of a load. One that is neither a TLB hit nor a miss is counted
as a load all the same. -/
def countLoad (sample : Reading) (level : Fin memLevels) (metrics : Metrics) : Metrics :=
  let loadsCount := Function.update metrics.loadsCount level (metrics.loadsCount level + 1)
  let sumLatencyCost :=
    Function.update metrics.sumLatencyCost level (metrics.sumLatencyCost level + sample.weight.toNat)
  if getDataSrcDtlb sample.dataSrc = 1 then
    { metrics with
      loadsCount, sumLatencyCost
      tlbHit := Function.update metrics.tlbHit level (metrics.tlbHit level + 1) }
  else if getDataSrcDtlb sample.dataSrc = 2 then
    { metrics with
      loadsCount, sumLatencyCost
      tlbMiss := Function.update metrics.tlbMiss level (metrics.tlbMiss level + 1) }
  else { metrics with loadsCount }

def countStore (sample : Reading) (i : Fin maxObjects) (window : Window) : Window :=
  match hashmapGet addressHash sample.sampleAddr window.hashmap with
  | none =>
    let metrics := { window.copy i with storesCount := (window.copy i).storesCount + 1 }
    { copy := Function.update window.copy i metrics
      hashmap := hashmapSet addressHash sample.sampleAddr window.hashmap }
  | some _ => window

def countSample (t : Table) (window : Window) (sample : Reading) : Window :=
  match getVectorIndex sample.sampleAddr t with
  | none => window
  | some i =>
    if sample.opcode = 1 then
      match memLevel sample.dataSrc with
      | some level => { window with copy := Function.update window.copy i (countLoad sample level (window.copy i)) }
      | none => window
    else if sample.opcode = 2 then countStore addressHash sample i window
    else window

end

def attributedSamples (t : Table) (samples : List Reading) : List (Reading × Fin maxObjects) :=
  samples.filterMap (fun sample => (getVectorIndex sample.sampleAddr t).map (sample, ·))

/-- The stores among attributed samples, by what tells their operation. -/
def storesBy (opcode : Reading → Int) (events : List (Reading × Fin maxObjects)) : List (BitVec 64 × Fin maxObjects) :=
  events.filterMap (fun event => if opcode event.1 = 2 then some (event.1.sampleAddr, event.2) else none)

def attributedStores (t : Table) (samples : List Reading) : List (BitVec 64 × Fin maxObjects) :=
  storesBy Reading.opcode (attributedSamples t samples)

/-- `attributed` remembers every sample attributed so far. -/
structure Sampler where
  table : Table
  window : Window
  attributed : List (Reading × Fin maxObjects)

/-- A window holds the samples of one pass of the loop; nothing is mapped or
unmapped while they are counted. -/
inductive SamplerAction where
  | insertObject (pid : BitVec 32) (startAddr size : BitVec 64)
  | deallocateObject (pid : BitVec 32) (startAddr size : BitVec 64)
  | window (samples : List Reading)

namespace Sampler

/-- The samples that the code took for stores. -/
def stores (s : Sampler) : List (BitVec 64 × Fin maxObjects) := storesBy Reading.opcode s.attributed

def start : Sampler := ⟨.start, ⟨fun _ => .zero, []⟩, []⟩

def step (p : Platform) (addressHash : BitVec 64 → BitVec 64) (s : Sampler) : SamplerAction → Except Fault Sampler
  | .insertObject pid startAddr size => do
    let table ← Recorder.insertObject p pid startAddr size s.table
    return { s with table }
  | .deallocateObject pid startAddr size =>
    return { s with table := Recorder.deallocateObject pid startAddr size s.table }
  | .window samples =>
    let window := samples.foldl (countSample addressHash s.table) s.window.clearMetrics
    return {
      table := updateMetrics window.copy s.table
      window
      attributed := s.attributed ++ attributedSamples s.table samples }

def run (p : Platform) (addressHash : BitVec 64 → BitVec 64) (s : Sampler) (actions : List SamplerAction) :
    Except Fault Sampler :=
  actions.foldlM (step p addressHash) s

end Sampler
end OnlineScheduler.Monitor
