import OnlineScheduler.System

/-! The loop of `thread_actuator`, one operation of its body at a time, so that
the other threads run in between. -/

namespace OnlineScheduler

open Actuator

/-- Where the thread stands in its body; `waiting` is the loop in front. -/
inductive Pc where
  | waiting
  | sortObjects
  | testDemotion
  | demotionStatus
  | policyDemotion
  | testPromotion
  | promotionStatus
  | policyPromotion
  | sleeping
deriving DecidableEq

/-- The gigabytes an order is about that lie on a node. -/
def Event.resident (t : Table) (node : Fin 4) : Event → ℚ
  | .order data =>
    if inside : 0 ≤ data.objIndex ∧ data.objIndex.toNat < maxObjects then
      sizeOn (t.objVector ⟨data.objIndex.toNat, inside.2⟩) node
    else 0
  | .undone _ => 0

/-- `count` is the local of that name. `demoted` lists what the current pass has
ordered out of DRAM, `rounds` the same for the passes behind it. -/
structure Loop where
  system : State
  pc : Pc
  count : Int
  demoted : List ℚ
  rounds : List (List ℚ)

structure Routines where
  sortObjects : Table → Globals → Except Fault Globals
  readAllocationStatus : Table → (Nat → ℚ) → Except Fault (Table × (Nat → ℚ))

/-- Those of the source, with what the machine answers in them. -/
def Routines.source (p : Platform) (objIndex : Int) (q : Qsort) (pages : BitVec 64 → Int) : Routines :=
  ⟨Actuator.sortObjects p objIndex q, Actuator.readAllocationStatus p pages⟩

def dramLimit : ℚ := 2 * chunkSize.toNat / gb

inductive LoopAction where
  | other (action : Action)
  | advance (routines : Routines) (freeDram : ℚ)

namespace Loop

def start (statusMemoryPages : Nat → ℚ) : Loop := ⟨.start statusMemoryPages, .waiting, 2, [], []⟩

/-- `if (g_has_demotion == 0)` and its two branches. -/
def testDemotion (freeDram : ℚ) (l : Loop) : Loop :=
  if freeDram < dramLimit then
    if l.system.globals.hasDemotion = 0 then { l with pc := .demotionStatus }
    else
      let count := l.count + 1
      let hasDemotion := if count ≥ 2 then 0 else l.system.globals.hasDemotion
      { l with
        system := { l.system with globals := { l.system.globals with hasDemotion } }
        pc := .testPromotion
        count }
  else { l with pc := .testPromotion }

def readStatus (routines : Routines) (pc : Pc) (l : Loop) : Except Fault Loop := do
  let (table, statusMemoryPages) ←
    routines.readAllocationStatus l.system.table l.system.globals.statusMemoryPages
  return { l with system := { table, globals := { l.system.globals with statusMemoryPages } }, pc }

def demote (p : Platform) (l : Loop) : Loop :=
  let t := l.system.table
  let (table, hasDemotion) := Actuator.policyDemotion p l.system.globals.ranked t
  { l with
    system := { table, globals := { l.system.globals with hasDemotion } }
    pc := .testPromotion
    count := 0
    demoted := (table.trace.drop t.trace.length).map (Event.resident t 0) }

def promote (p : Platform) (freeDram : ℚ) (l : Loop) : Loop :=
  { l with
    system := { l.system with table := Actuator.policyPromotion p freeDram l.system.globals.ranked l.system.table }
    pc := .sleeping }

/-- The call of `check_migration_error` at the end of the body is commented out. -/
def advance (p : Platform) (routines : Routines) (freeDram : ℚ) (l : Loop) : Except Fault Loop :=
  match l.pc with
  | .waiting => .ok (if freeDram > dramLimit then l else
      { l with
        system := { l.system with globals := { l.system.globals with hasDemotion := 0 } }
        pc := .sortObjects })
  | .sortObjects => do
    let globals ← routines.sortObjects l.system.table l.system.globals
    return { l with system := { l.system with globals }, pc := .testDemotion }
  | .testDemotion => .ok (l.testDemotion freeDram)
  | .demotionStatus => l.readStatus routines .policyDemotion
  | .policyDemotion => .ok (l.demote p)
  | .testPromotion =>
    .ok { l with pc := if l.system.globals.promotionFlag = 1 then .promotionStatus else .sleeping }
  | .promotionStatus => l.readStatus routines .policyPromotion
  | .policyPromotion => .ok (l.promote p freeDram)
  | .sleeping => .ok { l with pc := .sortObjects, demoted := [], rounds := l.rounds ++ [l.demoted] }

def step (p : Platform) (l : Loop) : LoopAction → Except Fault Loop
  | .other action => do
    let system ← l.system.step p action
    return { l with system }
  | .advance routines freeDram => l.advance p routines freeDram

def run (p : Platform) (l : Loop) (actions : List LoopAction) : Except Fault Loop :=
  actions.foldlM (step p) l

end Loop
end OnlineScheduler
