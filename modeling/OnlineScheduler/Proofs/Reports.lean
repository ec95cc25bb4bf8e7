import OnlineScheduler.TrackMapping
import OnlineScheduler.Proofs.Fractions

/-! The fractions that the tracker and the preloaded library print. Unlike the
actuator both zero their counters between two queries, so a line is about its
own pages. Only the first line of the tracker counts on what its memory held. -/

namespace OnlineScheduler

open Actuator

variable {p : Platform}

/-- The part of the pages of a range on each node, and on none. -/
def fractions (p : Platform) (pages : BitVec 64 → Int) (addr size : BitVec 64) : List ℚ :=
  (List.range (p.numNodes + 1)).map (Tally.share (place p) (statuses p pages addr size))

def Clean (p : Platform) (statusMemoryPages : Nat → ℚ) : Prop := ∀ k ≤ p.numNodes, statusMemoryPages k = 0

theorem query_fractions {pages : BitVec 64 → Int} {addr size : BitVec 64} {statusMemoryPages : Nat → ℚ}
    (positive : 0 < size) (aligned : size % p.pageSize = 0) (clean : Clean p statusMemoryPages) :
    (List.range (p.numNodes + 1)).map (Actuator.queryStatusMemoryPages p pages addr size statusMemoryPages) =
      fractions p pages addr size := by
  apply List.map_congr_left
  intro k member
  have inside : k ≤ p.numNodes := Nat.le_of_lt_succ (List.mem_range.mp member)
  rw [query_aligned aligned inside]
  exact (Tally.tally_share (statuses_present positive aligned)).mpr (clean k inside)

namespace TrackMapping

variable {metric : Metric} {hotnessThreshold : Int} {pass : Pass} {passes : List Pass} {tracker tracker' : Tracker}
  {j : Fin maxObjects}

def Row.heading (row : Row) : Nat × Int × BitVec 64 × ℚ × Double :=
  ⟨row.interval, row.index, row.addr, row.size, row.metricValue⟩

/-- The fractions of an object, or the mark of a failed query. -/
def shown (p : Platform) (pages : Option (BitVec 64 → Int)) (object : Object) : List ℚ :=
  match pages with
  | none => List.replicate (p.numNodes + 1) (-1)
  | some pages => fractions p pages object.startAddr object.size

/-- The line about an object. -/
def rowOf (p : Platform) (counter : Nat) (pass : Pass) (j : Fin maxObjects) (metricValue : Double) : Row :=
  let object := (pass.table j).objVector j
  ⟨counter, object.objIndex, object.startAddr, sizeGb object, metricValue, shown p (pass.pages j) object⟩

/-- The line that a visit should write. -/
def expectedRow (p : Platform) (metric : Metric) (hotnessThreshold : Int) (counter : Nat) (pass : Pass)
    (j : Fin maxObjects) : Option Row :=
  let t := pass.table j
  match getHotnessMetric metric t j with
  | .ok metricValue =>
    if t.objAlloc j = 1 ∧ metricValue.atLeast hotnessThreshold then some (rowOf p counter pass j metricValue) else none
  | .error _ => none

def expectedRows (p : Platform) (metric : Metric) (hotnessThreshold : Int) (passes : List Pass) : List Row :=
  (passes.zipIdx 1).flatMap fun (pass, counter) =>
    (scan maxObjects).filterMap (expectedRow p metric hotnessThreshold counter pass)

/-- The lines as they should be, except for the fractions in the first. -/
structure Registers (p : Platform) (memory : Nat → ℚ) (tracker : Tracker) (expected : List Row) : Prop where
  headings : tracker.rows.map Row.heading = expected.map Row.heading
  later : tracker.rows.tail = expected.tail
  clean : Clean p tracker.statusMemoryPages ∨ tracker.rows = [] ∧ tracker.statusMemoryPages = memory
  whole : Clean p memory → tracker.rows = expected ∧ Clean p tracker.statusMemoryPages

/-- No object is empty. -/
def Pass.Sized (pass : Pass) : Prop := ∀ j, (pass.table j).objAlloc j = 1 → 0 < ((pass.table j).objVector j).size

/-- What a visit that ends well does. -/
inductive Visits (p : Platform) (metric : Metric) (hotnessThreshold : Int) (pass : Pass) (tracker : Tracker)
    (j : Fin maxObjects) : Tracker → Prop where
  | quiet (quiet : expectedRow p metric hotnessThreshold tracker.counter pass j = none) :
      Visits p metric hotnessThreshold pass tracker j tracker
  | register (row expected : Row) (statusMemoryPages : Nat → ℚ)
      (due : expectedRow p metric hotnessThreshold tracker.counter pass j = some expected)
      (heading : row.heading = expected.heading) (clean : Clean p statusMemoryPages)
      (own : Clean p tracker.statusMemoryPages → row = expected) :
      Visits p metric hotnessThreshold pass tracker j { tracker with rows := tracker.rows ++ [row], statusMemoryPages }

private theorem failed_query (statusMemoryPages : Nat → ℚ) :
    (List.range (p.numNodes + 1)).map (fun i => if i < p.numNodes + 1 then -1 else statusMemoryPages i) =
      List.replicate (p.numNodes + 1) (-1) := by
  refine List.eq_replicate_iff.mpr ⟨by rw [List.length_map, List.length_range], ?_⟩
  intro value member
  obtain ⟨k, inside, rfl⟩ := List.mem_map.mp member
  exact if_pos (List.mem_range.mp inside)

private theorem query_shown {pages : Option (BitVec 64 → Int)} {object : Object} {before after : Nat → ℚ}
    (positive : 0 < object.size) (queried : queryStatusMemoryPages p pages object.startAddr object.size before = .ok after)
    (clean : Clean p before) : (List.range (p.numNodes + 1)).map after = shown p pages object := by
  unfold queryStatusMemoryPages at queried
  split at queried
  next aligned =>
    split at queried
    next => cases queried; exact failed_query before
    next => cases queried; exact query_fractions positive aligned clean
  next => cases queried

theorem visit_visits (sized : pass.Sized) (ok : visit p metric hotnessThreshold pass tracker j = .ok tracker') :
    Visits p metric hotnessThreshold pass tracker j tracker' := by
  obtain ⟨metricValue, measured, ok⟩ := Runs.bind_ok.mp ok
  have value : getHotnessMetric metric (pass.table j) j = .ok metricValue := by
    cases computed : getHotnessMetric metric (pass.table j) j with
    | error => rw [computed] at measured; cases measured
    | ok other => rw [computed] at measured; cases measured; rfl
  split at ok
  next hot =>
    obtain ⟨statusMemoryPages, queried, done⟩ := Runs.bind_ok.mp ok
    cases done
    have due : expectedRow p metric hotnessThreshold tracker.counter pass j =
        some (rowOf p tracker.counter pass j metricValue) := by
      simp only [expectedRow, value]
      exact if_pos hot
    refine .register _ _ _ due ?_ ?_ ?_
    · rfl
    · exact fun k inside => if_pos (Nat.lt_succ_of_le inside)
    · intro clean
      rw [rowOf, ← query_shown (sized j hot.1) queried clean]
  next cold =>
    cases ok
    apply Visits.quiet
    simp only [expectedRow, value]
    exact if_neg cold

theorem Visits.registers {memory : Nat → ℚ} {expected : List Row}
    (visits : Visits p metric hotnessThreshold pass tracker j tracker') (registers : Registers p memory tracker expected) :
    tracker'.counter = tracker.counter ∧ Registers p memory tracker'
      (expected ++ (expectedRow p metric hotnessThreshold tracker.counter pass j).toList) := by
  cases visits with
  | quiet quiet =>
    rw [quiet, Option.toList_none, List.append_nil]
    exact ⟨rfl, registers⟩
  | register row expectedLast statusMemoryPages due heading clean own =>
    rw [due, Option.toList_some]
    refine ⟨rfl, ?_, ?_, Or.inl clean, fun zero => ?_⟩
    · simp only [List.map_append, registers.headings, List.map_singleton, heading]
    · dsimp only
      rcases registers.clean with before | ⟨first, _⟩
      · rw [own before]
        by_cases empty : tracker.rows = []
        · have none : expected = [] := by
            have headings := registers.headings
            rw [empty] at headings
            exact List.map_eq_nil_iff.mp headings.symm
          rw [empty, none]
        · have some : expected ≠ [] := by
            intro none
            have headings := registers.headings
            rw [none] at headings
            exact empty (List.map_eq_nil_iff.mp headings)
          rw [List.tail_append_of_ne_nil empty, List.tail_append_of_ne_nil some, registers.later]
      · have none : expected = [] := by
          have headings := registers.headings
          rw [first] at headings
          exact List.map_eq_nil_iff.mp headings.symm
        rw [first, none]
        rfl
    · obtain ⟨same, before⟩ := registers.whole zero
      exact ⟨by rw [same, own before], clean⟩

private theorem visits_registers {memory : Nat → ℚ} {expected : List Row} (sized : pass.Sized)
    (registers : Registers p memory tracker expected) {slots : List (Fin maxObjects)}
    (ok : slots.foldlM (visit p metric hotnessThreshold pass) tracker = .ok tracker') :
    tracker'.counter = tracker.counter ∧ Registers p memory tracker'
      (expected ++ slots.filterMap (expectedRow p metric hotnessThreshold tracker.counter pass)) := by
  induction slots generalizing tracker expected with
  | nil =>
    cases ok
    rw [List.filterMap_nil, List.append_nil]
    exact ⟨rfl, registers⟩
  | cons j rest ih =>
    obtain ⟨middle, first, remaining⟩ := Runs.cons_ok.mp ok
    obtain ⟨counter, middleRegisters⟩ := (visit_visits sized first).registers registers
    obtain ⟨same, last⟩ := ih middleRegisters remaining
    refine ⟨same.trans counter, ?_⟩
    rw [counter] at last
    rw [List.append_assoc] at last
    cases due : expectedRow p metric hotnessThreshold tracker.counter pass j with
    | none => rw [due] at last; rw [List.filterMap_cons_none due]; exact last
    | some row => rw [due] at last; rw [List.filterMap_cons_some due]; exact last

theorem run_registers {memory : Nat → ℚ} (sized : ∀ pass ∈ passes, pass.Sized)
    (ok : (Tracker.start memory).run p metric hotnessThreshold passes = .ok tracker) :
    tracker.counter = passes.length ∧
      Registers p memory tracker (expectedRows p metric hotnessThreshold passes) := by
  induction passes using List.reverseRecOn generalizing tracker with
  | nil =>
    cases ok
    exact ⟨rfl, rfl, rfl, Or.inr ⟨rfl, rfl⟩, fun zero => ⟨rfl, zero⟩⟩
  | append_singleton earlier pass ih =>
    obtain ⟨middle, before, last⟩ := Runs.snoc_ok.mp ok
    obtain ⟨counter, registers⟩ := ih (fun other member => sized other (by simp [member])) before
    have counted : Registers p memory { middle with counter := middle.counter + 1 }
        (expectedRows p metric hotnessThreshold earlier) :=
      ⟨registers.headings, registers.later, registers.clean, registers.whole⟩
    obtain ⟨same, after⟩ := visits_registers (sized pass (by simp)) counted last
    refine ⟨?_, ?_⟩
    · rw [same, counter, List.length_append, List.length_singleton]
    · rw [expectedRows, List.zipIdx_append, List.flatMap_append, List.zipIdx_singleton, List.flatMap_singleton]
      rw [counter, Nat.add_comm] at after
      exact after

/-- The file has a line for each hot object of each pass, in the order of the
slots, with the object's own fractions. Only those in the first line also count
what the memory held, and are exact when it held zeros. -/
theorem rows_registered {memory : Nat → ℚ} (sized : ∀ pass ∈ passes, pass.Sized)
    (ok : (Tracker.start memory).run p metric hotnessThreshold passes = .ok tracker) :
    tracker.rows.map Row.heading = (expectedRows p metric hotnessThreshold passes).map Row.heading ∧
      tracker.rows.tail = (expectedRows p metric hotnessThreshold passes).tail ∧
      (Clean p memory → tracker.rows = expectedRows p metric hotnessThreshold passes) := by
  obtain ⟨_, registers⟩ := run_registers sized ok
  exact ⟨registers.headings, registers.later, fun zero => (registers.whole zero).1⟩

/-- Two pages on different nodes, met twice. -/
def twoPages : Pass where
  table _ := { Table.start with
    objAlloc := fun i => if i.val < 2 then 1 else 0
    objVector := fun i => { Table.start.objVector i with startAddr := 4096 * (i.val + 1), size := 4096, objIndex := i.val } }
  pages j := some fun _ => j.val

theorem rows_registered_pages : ∃ tracker,
    (Tracker.start fun _ => 7).run machine .absLlcm 0 [twoPages, twoPages] = .ok tracker ∧
    tracker.rows.map Row.statusMemoryPages = [[8, 7, 7, 7], [0, 1, 0, 0], [1, 0, 0, 0], [0, 1, 0, 0]] ∧
    tracker.rows.tail = (expectedRows machine .absLlcm 0 [twoPages, twoPages]).tail := by
  have sized : ∀ pass ∈ [twoPages, twoPages], pass.Sized := by
    intro pass member j _
    have same : pass = twoPages := by simpa using member
    subst same
    exact (by decide : (0 : BitVec 64) < 4096)
  have passed : Runs.ends (fun tracker : Tracker => tracker.rows.map Row.statusMemoryPages =
      [[8, 7, 7, 7], [0, 1, 0, 0], [1, 0, 0, 0], [0, 1, 0, 0]])
      ((Tracker.start fun _ => 7).run machine .absLlcm 0 [twoPages, twoPages]) = true := by decide +kernel
  obtain ⟨tracker, executed, printed⟩ := Runs.ends_ok passed
  exact ⟨tracker, executed, of_decide_eq_true printed, (rows_registered sized executed).2.1⟩

end TrackMapping

namespace Preload

/-- What a line about a record should show. A size that is no multiple of the
page size is marked. -/
def expectedCost (p : Platform) (handled : Handled) : Cost :=
  let { record, pagesBefore, pagesAfter } := handled
  let shown (pages : BitVec 64 → Int) :=
    if record.size % p.pageSize = 0 then fractions p pages record.startAddr record.size
    else List.replicate (p.numNodes + 1) (-1)
  ⟨record, shown pagesBefore, shown pagesAfter⟩

private theorem query_cleared {pages : BitVec 64 → Int} {addr size : BitVec 64} (positive : 0 < size)
    (statusMemoryPages : Nat → ℚ) :
    (List.range (p.numNodes + 1)).map (queryStatusMemoryPages p pages addr size (clearStatus p statusMemoryPages)) =
      if size % p.pageSize = 0 then fractions p pages addr size else List.replicate (p.numNodes + 1) (-1) := by
  split
  next aligned =>
    apply query_fractions positive aligned
    exact fun k inside => if_pos (Nat.lt_succ_of_le inside)
  next unaligned =>
    refine List.eq_replicate_iff.mpr ⟨by rw [List.length_map, List.length_range], ?_⟩
    intro value member
    obtain ⟨k, inside, rfl⟩ := List.mem_map.mp member
    exact query_unaligned unaligned (Nat.le_of_lt_succ (List.mem_range.mp inside))

/-- Whatever the two vectors held, each line shows where the pages of its own
record were before and after it was bound. -/
theorem costs_registered {costs : Costs} {records : List Handled}
    (sized : ∀ handled ∈ records, 0 < handled.record.size) :
    (records.foldl (Costs.measure p) costs).lines = costs.lines ++ records.map (expectedCost p) := by
  induction records generalizing costs with
  | nil => exact (List.append_nil _).symm
  | cons handled rest ih =>
    have positive : 0 < handled.record.size := sized handled List.mem_cons_self
    have line : (costs.measure p handled).lines = costs.lines ++ [expectedCost p handled] := by
      simp only [Costs.measure, query_cleared positive]
      rfl
    rw [List.foldl_cons, ih fun later member => sized later (List.mem_cons_of_mem _ member), line, List.append_assoc,
      List.map_cons, List.singleton_append]

def boundPage : Handled := ⟨⟨4096, 4096, 1, 0, .promotion, 2⟩, fun _ => 2, fun _ => 0⟩

theorem costs_registered_page :
    (([boundPage].foldl (Costs.measure machine) ⟨fun _ => 7, fun _ => 7, []⟩).lines.map fun line =>
      (line.before, line.after)) = [([0, 0, 1, 0], [1, 0, 0, 0])] := by
  rw [costs_registered (by decide)]
  decide +kernel

end Preload
end OnlineScheduler
