import OnlineScheduler.Proofs.Histories
import Mathlib.Algebra.BigOperators.Group.List.Basic

/-! What the table owes to the CPU on which each call was made. The samples
carry no time, so calls are handled in the order of the buffers. -/

namespace OnlineScheduler

variable {p : Platform}

namespace MapEvent

def recorded : MapEvent → Multiset Range
  | .mmap args ret => if Interceptor.Recorded args then ↑(Recorder.pieces ret args.len) else 0
  | .munmap .. => 0

def removed : MapEvent → List Range
  | .mmap .. => []
  | .munmap addr len => Recorder.pieces addr len

def side : MapEvent → Nat
  | .munmap .. => 0
  | .mmap .. => 1

end MapEvent

def recorded (events : List MapEvent) : Multiset Range := (events.map MapEvent.recorded).sum

theorem recorded_cons (event : MapEvent) (rest : List MapEvent) :
    recorded (event :: rest) = event.recorded + recorded rest := List.sum_cons

theorem recorded_append (first last : List MapEvent) : recorded (first ++ last) = recorded first + recorded last := by
  rw [recorded, List.map_append, List.sum_append, ← recorded, ← recorded]

theorem recorded_perm {first last : List MapEvent} (perm : first.Perm last) : recorded first = recorded last :=
  (perm.map MapEvent.recorded).sum_eq

theorem mem_recorded {events : List MapEvent} {piece : Range} :
    piece ∈ recorded events ↔ ∃ args ret, .mmap args ret ∈ events ∧ Interceptor.Recorded args ∧
      piece ∈ Recorder.pieces ret args.len := by
  have added (event : MapEvent) : piece ∈ event.recorded ↔
      ∃ args ret, event = .mmap args ret ∧ Interceptor.Recorded args ∧ piece ∈ Recorder.pieces ret args.len := by
    cases event with
    | mmap args ret => by_cases here : Interceptor.Recorded args <;> simp [MapEvent.recorded, here]
    | munmap => simp [MapEvent.recorded]
  induction events with
  | nil => simp [recorded]
  | cons event rest ih =>
    simp only [recorded_cons, Multiset.mem_add, added, ih]
    constructor
    · rintro (⟨args, ret, rfl, found⟩ | ⟨args, ret, member, found⟩)
      · exact ⟨args, ret, List.mem_cons_self, found⟩
      · exact ⟨args, ret, List.mem_cons_of_mem _ member, found⟩
    · rintro ⟨args, ret, member, found⟩
      rcases List.mem_cons.mp member with same | later
      · exact Or.inl ⟨args, ret, same.symm, found⟩
      · exact Or.inr ⟨args, ret, later, found⟩

namespace Interceptor

variable {thread : Thread} {s s' : State} {events : List MapEvent} {cpus : Nat}

def samplesOn (thread : Thread) (calls : List (Nat × MapEvent)) : List (Nat × Sample) :=
  calls.flatMap fun call => (call.2.samples thread).map (call.1, ·)

theorem pass_calls (calls : List (Nat × MapEvent)) :
    pass p thread.pid cpus (samplesOn thread calls) s = handleEvents p thread s (Buffers.drain cpus calls) := by
  rw [pass, samplesOn, Buffers.drain_flatMap]
  generalize Buffers.drain cpus calls = drained
  induction drained generalizing s with
  | nil => rfl
  | cons event rest ih =>
    rw [List.flatMap_cons, List.foldlM_append, handleEvents, List.foldlM_cons]
    exact bind_congr fun _ => ih

theorem handleEvent_ranges {event : MapEvent} (handled : handleEvent p thread s event = .ok s')
    (valid : s.table.Valid) : s'.table.ranges ≤ s.table.ranges + event.recorded ∧
      ((∀ piece ∈ event.removed, piece ∉ s.table.ranges) → s'.table.ranges = s.table.ranges + event.recorded) := by
  cases event with
  | mmap args ret =>
    have same : s'.table.ranges = s.table.ranges + (MapEvent.mmap args ret).recorded := by
      obtain ⟨_, table⟩ := handleEvent_mmap.mp handled
      rw [MapEvent.recorded]
      split at table
      next keeps => rw [if_pos keeps, Recorder.insertObject_ranges valid table]
      next ignored => rw [if_neg ignored, table, Multiset.add_zero]
    exact ⟨le_of_eq same, fun _ => same⟩
  | munmap addr len =>
    obtain ⟨_, _, _, table⟩ := handleEvent_munmap.mp handled
    rw [table, MapEvent.recorded, Multiset.add_zero]
    split
    next =>
      rw [Recorder.deallocateObject_ranges thread.pid addr len valid]
      refine ⟨Multiset.sub_le_self _ _, fun absent => ?_⟩
      apply Multiset.ext.mpr
      intro piece
      rw [Multiset.count_sub]
      by_cases present : piece ∈ Recorder.pieces addr len
      · rw [Multiset.count_eq_zero_of_notMem (absent piece present), Nat.zero_sub]
      · have none : Multiset.count piece ↑(Recorder.pieces addr len) = 0 := Multiset.count_eq_zero.mpr present
        rw [none, Nat.sub_zero]
    next => exact ⟨le_rfl, fun _ => rfl⟩

theorem handleEvents_ranges_le (handled : handleEvents p thread s events = .ok s') (valid : s.table.Valid) :
    s'.table.ranges ≤ s.table.ranges + recorded events := by
  induction events generalizing s with
  | nil => cases handled; exact Multiset.le_add_right s'.table.ranges 0
  | cons event rest ih =>
    obtain ⟨middle, first, remaining⟩ := Runs.cons_ok.mp handled
    calc s'.table.ranges
        ≤ middle.table.ranges + recorded rest := ih remaining (handleEvent_later first valid).valid
      _ ≤ s.table.ranges + event.recorded + recorded rest :=
        add_le_add_left (handleEvent_ranges first valid).1 (recorded rest)
      _ = s.table.ranges + recorded (event :: rest) := by
        rw [recorded_cons, add_assoc]

theorem handleEvents_ranges (handled : handleEvents p thread s events = .ok s') (valid : s.table.Valid)
    (kept : ∀ event ∈ events, ∀ piece ∈ event.removed, piece ∉ s.table.ranges + recorded events) :
    s'.table.ranges = s.table.ranges + recorded events := by
  induction events generalizing s with
  | nil => cases handled; exact (Multiset.add_zero _).symm
  | cons event rest ih =>
    obtain ⟨middle, first, remaining⟩ := Runs.cons_ok.mp handled
    have added : middle.table.ranges = s.table.ranges + event.recorded := by
      refine (handleEvent_ranges first valid).2 fun piece member present => ?_
      exact kept event List.mem_cons_self piece member (Multiset.mem_add.mpr (Or.inl present))
    have total : middle.table.ranges + recorded rest = s.table.ranges + recorded (event :: rest) := by
      rw [added, recorded_cons, add_assoc]
    rw [← total]
    refine ih remaining (handleEvent_later first valid).valid fun later member => ?_
    rw [total]
    exact kept later (List.mem_cons_of_mem _ member)

theorem handleEvents_removed {args : MmapEnterArgs} {ret addr len : BitVec 64} {before after : List MapEvent}
    (handled : handleEvents p thread s (before ++ .mmap args ret :: .munmap addr len :: after) = .ok s')
    (valid : s.table.Valid) (empty : s.table.ranges = 0) (kept : Recorded args) {piece : Range}
    (mapped : piece ∈ Recorder.pieces ret args.len) (unmapped : piece ∈ Recorder.pieces addr len) :
    s'.table.ranges.count piece <
      (recorded (before ++ .mmap args ret :: .munmap addr len :: after)).count piece := by
  obtain ⟨s₀, first, rest⟩ := Runs.append_ok.mp handled
  obtain ⟨s₁, map, rest⟩ := Runs.cons_ok.mp rest
  obtain ⟨s₂, unmap, last⟩ := Runs.cons_ok.mp rest
  have valid₀ := (handleEvents_later first valid).valid
  have valid₁ := (handleEvent_later map valid₀).valid
  have valid₂ := (handleEvent_later unmap valid₁).valid
  obtain ⟨entered, inserted⟩ := handleEvent_mmap.mp map
  obtain ⟨seen, there, _, table⟩ := handleEvent_munmap.mp unmap
  cases entered.symm.trans there
  rw [if_pos kept] at inserted
  rw [if_pos kept.2.2] at table
  have added := Recorder.insertObject_ranges valid₀ inserted
  have once : Multiset.count piece ↑(Recorder.pieces ret args.len) = 1 :=
    Multiset.count_eq_one_of_mem (Recorder.pieces_nodup _ _) mapped
  have gone : Multiset.count piece ↑(Recorder.pieces addr len) = 1 :=
    Multiset.count_eq_one_of_mem (Recorder.pieces_nodup _ _) unmapped
  have above₀ := Multiset.count_le_of_le piece (handleEvents_ranges_le first valid)
  have above := Multiset.count_le_of_le piece (handleEvents_ranges_le last valid₂)
  have total : (recorded (before ++ .mmap args ret :: .munmap addr len :: after)).count piece =
      (recorded before).count piece + 1 + (recorded after).count piece := by
    rw [recorded_append, recorded_cons, recorded_cons, MapEvent.recorded, MapEvent.recorded, if_pos kept, zero_add,
      Multiset.count_add, Multiset.count_add, once, Nat.add_assoc]
  rw [empty, zero_add] at above₀
  rw [table, Recorder.deallocateObject_ranges _ _ _ valid₁, added, Multiset.count_add, Multiset.count_sub,
    Multiset.count_add, once, gone] at above
  omega

/-- In time order the calls are handled, and one pass over the buffers leaves
the same ranges, wherever the calls were made. -/
def CpuIndependent (p : Platform) (thread : Thread) (cpus : Nat) (s : State) (events : List MapEvent) : Prop :=
  ∃ s', handleEvents p thread s events = .ok s' ∧
    ∀ calls, Buffers.Within cpus calls → calls.map Prod.snd = events →
      ∃ drained, pass p thread.pid cpus (samplesOn thread calls) s = .ok drained ∧
        drained.table.ranges = s'.table.ranges

/-- Nothing that is recorded is unmapped, and without an entry so far nothing is. -/
structure Unordered (s : State) (events : List MapEvent) : Prop where
  known : s.enter = none → ∀ addr len, .munmap addr len ∉ events
  kept : ∀ event ∈ events, ∀ piece ∈ event.removed, piece ∉ recorded events

theorem handleEvents_sides (valid : s.table.Valid) (empty : s.table.ranges = 0)
    (handled : handleEvents p thread s
      (events.filter (fun event => event.side = 0) ++ events.filter (fun event => event.side = 1)) = .ok s') :
    s'.table.ranges = recorded events := by
  obtain ⟨middle, unmaps, maps⟩ := Runs.append_ok.mp handled
  have none : recorded (events.filter fun event => event.side = 0) = 0 := by
    apply Multiset.eq_zero_of_forall_notMem
    intro piece member
    obtain ⟨args, ret, member, _⟩ := mem_recorded.mp member
    simp [MapEvent.side] at member
  have whole : recorded (events.filter fun event => event.side = 1) = recorded events := by
    have others : events.filter (fun event => event.side = 1) = events.filter (fun event => !decide (event.side = 0)) := by
      apply List.filter_congr
      intro event _
      cases event <;> rfl
    have parts := recorded_perm (List.filter_append_perm (fun event => event.side = 0) events)
    rwa [← others, recorded_append, none, zero_add] at parts
  have cleared : middle.table.ranges = 0 := by
    have bound := handleEvents_ranges_le unmaps valid
    rw [empty, none, add_zero] at bound
    exact Multiset.le_zero.mp bound
  have added := handleEvents_ranges maps (handleEvents_later unmaps valid).valid fun event member piece gone => by
    cases event with
    | mmap => cases gone
    | munmap => simp [MapEvent.side] at member
  rw [added, cleared, zero_add, whole]

/-- With two CPUs the unmappings may all come first, or one of them right after
any mapping. -/
theorem CpuIndependent.unordered (independent : CpuIndependent p thread cpus s events) (valid : s.table.Valid)
    (empty : s.table.ranges = 0) (many : 2 ≤ cpus) : Unordered s events := by
  obtain ⟨s', _, same⟩ := independent
  have sides : Buffers.Within 2 (events.map fun event => (event.side, event)) := by
    intro call member
    obtain ⟨event, _, rfl⟩ := List.mem_map.mp member
    cases event <;> simp [MapEvent.side]
  obtain ⟨early, passed, ranges⟩ := same _ (sides.mono many) (by simp [Function.comp_def])
  rw [pass_calls, Buffers.drain_two many sides, Buffers.held_map, Buffers.held_map] at passed
  constructor
  case known =>
    intro missing addr len member
    obtain ⟨_, known⟩ := (handleEvents_defined p thread valid).mp ⟨early, passed⟩
    have unmaps : .munmap addr len ∈ events.filter (fun event => event.side = 0) := List.mem_filter.mpr ⟨member, rfl⟩
    obtain ⟨event, rest, head⟩ := List.exists_cons_of_ne_nil (List.ne_nil_of_mem unmaps)
    have front : event ∈ events.filter (fun event => event.side = 0) := head ▸ List.mem_cons_self
    cases event with
    | mmap => simp [MapEvent.side] at front
    | munmap addr len => exact known missing addr len (by rw [head]; rfl)
  case kept =>
    intro event member piece unmapped shared
    obtain ⟨args, ret, there, keeps, mapped⟩ := mem_recorded.mp shared
    cases event with
    | mmap => cases unmapped
    | munmap addr len =>
      obtain ⟨calls, before, after, within, made, drained⟩ := Buffers.exists_adjacent many there member (by simp)
      obtain ⟨late, passed', ranges'⟩ := same calls (within.mono many) made
      rw [pass_calls, drained] at passed'
      have fewer := handleEvents_removed passed' valid empty keeps mapped unmapped
      rw [← drained, recorded_perm (Buffers.drain_perm (within.mono many)), made, ranges', ← ranges,
        handleEvents_sides valid empty passed] at fewer
      exact Nat.lt_irrefl _ fewer

theorem Unordered.independent (unordered : Unordered s events) (valid : s.table.Valid) (empty : s.table.ranges = 0)
    (room : s.table.totalObj + (events.map MapEvent.insertions).sum ≤ maxObjects) :
    CpuIndependent p thread cpus s events := by
  have handles {order : List MapEvent} (perm : order.Perm events) :
      ∃ s', handleEvents p thread s order = .ok s' ∧ s'.table.ranges = recorded events := by
    have fits : s.table.totalObj + (order.map MapEvent.insertions).sum ≤ maxObjects := by
      rw [(perm.map MapEvent.insertions).sum_eq]
      exact room
    have known : s.enter = none → ∀ addr len, order.head? ≠ some (.munmap addr len) := by
      intro missing addr len first
      exact unordered.known missing addr len (perm.subset (List.mem_of_head? first))
    obtain ⟨s', handled⟩ := (handleEvents_defined p thread valid).mpr ⟨fits, known⟩
    have total : s.table.ranges + recorded order = recorded events := by rw [empty, zero_add, recorded_perm perm]
    refine ⟨s', handled, ?_⟩
    rw [← total]
    refine handleEvents_ranges handled valid fun event member => ?_
    rw [total]
    exact unordered.kept event (perm.subset member)
  obtain ⟨s', handled, ranges⟩ := handles (.refl events)
  refine ⟨s', handled, fun calls within made => ?_⟩
  obtain ⟨drained, passed, ranges'⟩ := handles (made ▸ Buffers.drain_perm within)
  exact ⟨drained, (pass_calls calls).trans passed, ranges'.trans ranges.symm⟩

/-- The table depends on the CPUs wherever there are two of them and something
recorded is unmapped. -/
theorem cpu_independent (valid : s.table.Valid) (empty : s.table.ranges = 0) :
    CpuIndependent p thread cpus s events ↔
      (s.table.totalObj + (events.map MapEvent.insertions).sum ≤ maxObjects ∧
        (s.enter = none → ∀ addr len, events.head? ≠ some (.munmap addr len))) ∧
      (cpus ≤ 1 ∨ Unordered s events) := by
  constructor
  · intro independent
    have ⟨s', handled, _⟩ := independent
    refine ⟨(handleEvents_defined p thread valid).mp ⟨s', handled⟩, ?_⟩
    rcases Nat.lt_or_ge 1 cpus with many | single
    · exact Or.inr (independent.unordered valid empty many)
    · exact Or.inl single
  · rintro ⟨defined, single | unordered⟩
    · obtain ⟨s', handled⟩ := (handleEvents_defined p thread valid).mpr defined
      refine ⟨s', handled, fun calls within made => ⟨s', ?_, rfl⟩⟩
      rwa [pass_calls, Buffers.drain_one single within, made]
    · exact unordered.independent valid empty defined.1

/-- A mapping that was not recorded, and after it a region that is and an
unmapping of another. -/
def entered : State := ⟨some ⟨⟨7, 7⟩, ⟨0, 4096, 3, 34, -1, 0⟩⟩, .start⟩

def apartEvents : List MapEvent := [.mmap ⟨0, 2000000, 3, 34, -1, 0⟩ 4096, .munmap 8192000 2000000]

theorem cpu_independent_apart : CpuIndependent machine ⟨7, 7⟩ 4 entered apartEvents := by
  have valid : entered.table.Valid := start_valid
  have empty : entered.table.ranges = 0 := start_ranges
  have fits : entered.table.totalObj + (apartEvents.map MapEvent.insertions).sum ≤ maxObjects := by decide +kernel
  have known : entered.enter ≠ none := Option.some_ne_none _
  have held : recorded apartEvents = {(4096, 2000000)} := by decide +kernel
  have removals : ∀ event ∈ apartEvents, event.removed ⊆ [(8192000, 2000000)] := by decide +kernel
  refine (cpu_independent valid empty).mpr ⟨⟨fits, fun missing => absurd missing known⟩, Or.inr ⟨?_, ?_⟩⟩
  · exact fun missing => absurd missing known
  · intro event member piece removed present
    rw [List.mem_singleton.mp (removals event member removed), held] at present
    exact absurd (Multiset.mem_singleton.mp present) (by decide)

/-- A thread maps a region on one CPU, then maps another one and unmaps it
between two moves. -/
def movedCalls : List (Nat × MapEvent) :=
  [(0, .mmap ⟨0, 2000000, 3, 34, -1, 0⟩ 4096), (1, .mmap ⟨0, 3000000, 3, 34, -1, 0⟩ 8192000), (0, .munmap 8192000 3000000)]

theorem cpu_independent_moved : Legal [] (movedCalls.map Prod.snd) ∧
    ∃ s' drained, handleEvents machine ⟨7, 7⟩ .start (movedCalls.map Prod.snd) = .ok s' ∧
      pass machine 7 2 (samplesOn ⟨7, 7⟩ movedCalls) .start = .ok drained ∧
      s'.table.ranges = {(4096, 2000000)} ∧ drained.table.ranges = {(4096, 2000000), (8192000, 3000000)} ∧
      ¬ CpuIndependent machine ⟨7, 7⟩ 2 .start (movedCalls.map Prod.snd) := by
  have inOrder : Runs.ends (fun s => s.table.ranges = {(4096, 2000000)})
      (handleEvents machine ⟨7, 7⟩ .start (movedCalls.map Prod.snd)) = true := by decide +kernel
  have drains : Runs.ends (fun s => s.table.ranges = {(4096, 2000000), (8192000, 3000000)})
      (pass machine 7 2 (samplesOn ⟨7, 7⟩ movedCalls) .start) = true := by decide +kernel
  obtain ⟨s', handled, ranges⟩ := Runs.ends_ok inOrder
  obtain ⟨drained, passed, ranges'⟩ := Runs.ends_ok drains
  refine ⟨by decide +kernel, s', drained, handled, passed, of_decide_eq_true ranges, of_decide_eq_true ranges', ?_⟩
  rintro ⟨other, handled', same⟩
  cases handled.symm.trans handled'
  obtain ⟨late, passed', equal⟩ := same movedCalls (by decide) rfl
  cases passed.symm.trans passed'
  rw [of_decide_eq_true ranges, of_decide_eq_true ranges'] at equal
  exact absurd equal (by decide +kernel)

end Interceptor
end OnlineScheduler
