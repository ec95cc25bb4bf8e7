import OnlineScheduler.Proofs.Heat

/-! Metrics, maxima and values over whole runs. The monitor's averages are
never negative and the actuator's maxima only grow, also while the loop that
divides by them is running, so every value is a sum of three proper shares. -/

namespace OnlineScheduler

open Actuator

variable {p : Platform} {t : Table} {start built : Listing}

theorem Metrics.Nonneg.read {i : Fin maxObjects} (nonneg : (t.objVector i).metrics.Nonneg) (gauge : Gauge) :
    0 ≤ gauge.read t i := by
  cases gauge with
  | llcm => exact nonneg.levels .loadsCount 4
  | tlbm => exact nonneg.levels .tlbMiss 4
  | stores => exact nonneg.stores

namespace Actuator

/-- The listing when the loop has visited a slot. Its maxima are what the visit
divides by. -/
def listingAt (t : Table) (start : Listing) (i : Fin maxObjects) : Listing :=
  (scan (i.val + 1)).foldl (fun listing i => listObject t i listing) start

theorem listingAt_currMax (fresh : start.count = 0) (i : Fin maxObjects) (gauge : Gauge) :
    (listingAt t start i).currMax gauge = gauge.peak t start i :=
  (listScan_written fresh i.isLt).2.2 gauge

theorem Gauge.read_le_peak (gauge : Gauge) (i : Fin maxObjects) : gauge.read t i ≤ gauge.peak t start i :=
  Peaks.value_le_peak (fun j => gauge.read t j) (mem_scan.mpr (Nat.lt_succ_self i.val))

/-- A value that is three shares, each of a maximum that is at least one. -/
structure Normalised (t : Table) (start : Listing) (entry : KeyValue) : Prop where
  divisors : ∀ gauge, 1 ≤ (listingAt t start entry.key).currMax gauge
  value : entry.value =
    Gauge.total (fun gauge => gauge.read t entry.key / (listingAt t start entry.key).currMax gauge)
  nonneg : 0 ≤ entry.value
  atMost : entry.value ≤ 3

/-- No maximum falls. -/
def Listing.Grows (before after : Listing) : Prop := ∀ gauge, before.currMax gauge ≤ after.currMax gauge

theorem Listing.Grows.refl (listing : Listing) : listing.Grows listing := fun _ => le_rfl

theorem Listing.Grows.trans {before middle after : Listing} (first : before.Grows middle) (last : middle.Grows after) :
    before.Grows after := fun gauge => (first gauge).trans (last gauge)

theorem entryFor_normalised (scaled : start.Scaled) (fresh : start.count = 0) {i : Fin maxObjects}
    (nonneg : (t.objVector i).metrics.Nonneg) : Normalised t start (entryFor t start i) := by
  have divisor := listingAt_currMax (t := t) fresh i
  have proper (gauge : Gauge) : 1 ≤ gauge.peak t start i := gauge.one_le_peak scaled i
  have share (gauge : Gauge) : 0 ≤ gauge.read t i / gauge.peak t start i ∧ gauge.read t i / gauge.peak t start i ≤ 1 := by
    have positive : 0 ≤ gauge.peak t start i := zero_le_one.trans (proper gauge)
    exact ⟨div_nonneg (nonneg.read gauge) positive, div_le_one_of_le₀ (gauge.read_le_peak i) positive⟩
  refine ⟨?_, ?_, ?_, ?_⟩
  · intro gauge
    exact (proper gauge).trans_eq (divisor gauge).symm
  · simp only [entryFor, divisor]
  · exact add_nonneg (add_nonneg (share .llcm).1 (share .tlbm).1) (share .stores).1
  · have sum : (entryFor t start i).value ≤ 1 + 1 + 1 :=
      add_le_add (add_le_add (share .llcm).2 (share .tlbm).2) (share .stores).2
    exact sum.trans_eq (by norm_num)

theorem buildList_grows {objIndex : Int} (fresh : start.count = 0) (listed : buildList t objIndex start = .ok built) :
    start.Grows built := by
  rcases buildList_written fresh listed with ⟨_, peaks⟩ | ⟨_, same⟩
  · intro gauge
    rw [peaks]
    exact Peaks.start_le_peak _ _ _
  · rw [same]
    exact .refl _

/-- What one call writes is normalised, and its maxima end above what it read. -/
theorem buildList_normalised (scaled : start.Scaled) (fresh : start.count = 0)
    (nonneg : ∀ i, (t.objVector i).metrics.Nonneg) {objIndex : Int} (listed : buildList t objIndex start = .ok built)
    {entry : KeyValue} (member : entry ∈ built.written) :
    Normalised t start entry ∧ ∀ gauge : Gauge, gauge.read t entry.key ≤ built.currMax gauge := by
  rcases buildList_written fresh listed with ⟨written, peaks⟩ | ⟨none, _⟩
  · rw [written] at member
    obtain ⟨i, visited, rfl⟩ := List.mem_map.mp member
    refine ⟨entryFor_normalised scaled fresh (nonneg i), fun gauge => ?_⟩
    rw [peaks]
    exact Peaks.value_le_peak (fun j => gauge.read t j) visited
  · rw [none] at member
    cases member

theorem buildList_entries {s : State} (clean : s.Clean) {objIndex : Int}
    (listed : buildList s.table objIndex s.globals.listing = .ok built) {entry : KeyValue}
    (member : entry ∈ built.list.entries) : entry ∈ built.written ∨ entry ∈ s.globals.keyValueList.entries := by
  rcases buildList_cases clean listed with ⟨_, written, writes⟩ | ⟨_, rfl⟩
  · obtain ⟨front, whole, _⟩ := clean.ranked_front writes Qsort.plain
    rw [whole] at member
    rcases List.mem_append.mp member with new | old
    · exact Or.inl (by rwa [front])
    · exact Or.inr (List.mem_of_mem_drop old)
  · exact Or.inr member

theorem qsort_currMax (list : KeyValueList) (built : Listing) (gauge : Gauge) :
    Listing.currMax { built with list, count := 0 } gauge = built.currMax gauge := by
  cases gauge <;> rfl

end Actuator

theorem State.step_grows {s s' : State} {action : Action} (executed : s.step p action = .ok s') :
    s.globals.listing.Grows s'.globals.listing := by
  rcases step_listing executed with same | ⟨objIndex, q, built, listed, _, sorted⟩
  · rw [same]
    exact .refl _
  · intro gauge
    rw [sorted]
    exact (buildList_grows rfl listed gauge).trans_eq (qsort_currMax _ built gauge).symm

/-- No entry of the list is worth more than three, also none of those that a
call left behind the ones it wrote. -/
def State.Bounded (s : State) : Prop := ∀ entry ∈ s.globals.keyValueList.entries, entry.value ≤ 3

theorem State.step_bounded {s s' : State} {action : Action} (executed : s.step p action = .ok s') (clean : s.Clean)
    (bounded : s.Bounded) : s'.Bounded := by
  intro entry member
  rcases step_listing executed with same | ⟨objIndex, q, built, listed, _, sorted⟩
  · have list : s'.globals.keyValueList = s.globals.keyValueList := congrArg Listing.list same
    rw [list] at member
    exact bounded entry member
  · have list : s'.globals.keyValueList.entries = q.sort built.list.entries :=
      congrArg (fun listing => listing.list.entries) sorted
    rw [list] at member
    rcases buildList_entries clean listed ((q.perm _).subset member) with new | old
    · exact (buildList_normalised clean.scaled rfl clean.metrics listed new).1.atMost
    · exact bounded entry old

theorem State.run_bounded {statusMemoryPages : Nat → ℚ} {actions : List Action} {s : State}
    (executed : (State.start statusMemoryPages).run p actions = .ok s) (counts : ∀ action ∈ actions, action.Counts) :
    s.Clean ∧ s.Bounded := by
  refine Runs.invariant (fun s : State => s.Clean ∧ s.Bounded) ?_ executed ⟨start_clean statusMemoryPages, ?_⟩
  · intro action member before after stepped ⟨clean, bounded⟩
    exact ⟨step_clean stepped (counts action member) clean, step_bounded stepped clean bounded⟩
  · intro entry member
    have static : entry = ⟨0, 0, 0, 0, 0⟩ := List.eq_of_mem_replicate member
    rw [static]
    norm_num

theorem State.run_grows {s s' : State} {actions : List Action} (executed : s.run p actions = .ok s') :
    s.globals.listing.Grows s'.globals.listing :=
  Runs.related (fun s s' : State => s.globals.listing.Grows s'.globals.listing) (fun s => .refl s.globals.listing)
    Listing.Grows.trans (fun _ _ _ _ => step_grows) executed

/-- In every state a run reaches the metrics are not negative, the maxima are
at least one and never fall again, and the next call writes values in [0, 3]
and leaves the maxima above every metric it read, for good. -/
theorem normalisation_bounded {statusMemoryPages : Nat → ℚ} {actions : List Action} {s : State}
    (executed : (State.start statusMemoryPages).run p actions = .ok s) (counts : ∀ action ∈ actions, action.Counts) :
    (∀ i, (s.table.objVector i).metrics.Nonneg) ∧ s.globals.listing.Scaled ∧
    (∀ rest s', s.run p rest = .ok s' → s.globals.listing.Grows s'.globals.listing) ∧
    (∀ entry ∈ s.globals.keyValueList.entries, 0 ≤ entry.value ∧ entry.value ≤ 3) ∧
    ∀ objIndex q sorted, s.step p (.sortObjects objIndex q) = .ok sorted →
      ∃ built, buildList s.table objIndex s.globals.listing = .ok built ∧
        ∀ entry ∈ built.written, Normalised s.table s.globals.listing entry ∧
          ∀ rest s', sorted.run p rest = .ok s' →
            ∀ gauge : Gauge, gauge.read s.table entry.key ≤ s'.globals.listing.currMax gauge := by
  obtain ⟨clean, bounded⟩ := State.run_bounded executed counts
  refine ⟨clean.metrics, clean.scaled, fun _ _ continued => State.run_grows continued, ?_, ?_⟩
  · exact fun entry member => ⟨(clean.entries entry member).nonneg, bounded entry member⟩
  · intro objIndex q sorted called
    obtain ⟨globals, ok, done⟩ := Runs.bind_ok.mp called
    cases done
    obtain ⟨built, listed, same⟩ := sortObjects_ok ok
    refine ⟨built, listed, fun entry member => ?_⟩
    obtain ⟨normalised, above⟩ := buildList_normalised clean.scaled rfl clean.metrics listed member
    refine ⟨normalised, fun rest s' continued gauge => ?_⟩
    calc gauge.read s.table entry.key ≤ built.currMax gauge := above gauge
      _ = globals.listing.currMax gauge := by rw [same, qsort_currMax]
      _ ≤ s'.globals.listing.currMax gauge := State.run_grows continued gauge

/-- Two pages with stores in the window: the first is written with the whole
share, the second with two thirds. -/
theorem normalisation_bounded_page : ∃ s,
    (State.start fun _ => 0).run machine storedPages = .ok s ∧
    ∃ built, buildList s.table 0 s.globals.listing = .ok built ∧
      (∃ entry ∈ built.written, entry.key = 0 ∧ entry.value = 1) ∧
      (∃ entry ∈ built.written, entry.key = 1 ∧ entry.value = 2 / 3) ∧
      ∀ entry ∈ built.written, 0 ≤ entry.value ∧ entry.value ≤ 3 := by
  have passed : Runs.ends (fun s : State => s.table.totalObj = 2 ∧ s.table.objAlloc 0 = 1 ∧
      (entryFor s.table s.globals.listing 0).value = 1 ∧ (entryFor s.table s.globals.listing 1).value = 2 / 3)
      ((State.start fun _ => 0).run machine storedPages) = true := by decide +kernel
  obtain ⟨s, executed, reached⟩ := Runs.ends_ok passed
  obtain ⟨total, live, hot, warm⟩ := of_decide_eq_true reached
  have tests : Tests s.table 0 := ⟨0, rfl, live⟩
  obtain ⟨sorted, ok, _⟩ := sortObjects_defined (p := machine) Qsort.plain (buildList_tested tests s.globals.listing)
  have called : s.step machine (.sortObjects 0 Qsort.plain) = .ok { s with globals := sorted } :=
    Runs.bind_ok.mpr ⟨sorted, ok, rfl⟩
  obtain ⟨built, listed, bounds⟩ := (normalisation_bounded executed storedPages_counts).2.2.2.2 0 Qsort.plain _ called
  have fresh : s.globals.listing.count = 0 := rfl
  obtain ⟨_, lists, written⟩ := buildList_lists fresh tests
  cases listed.symm.trans lists
  have member (i : Fin maxObjects) (below : i.val < 2) : entryFor s.table s.globals.listing i ∈ built.written := by
    rw [written]
    apply List.mem_map_of_mem
    rw [mem_scan, total]
    exact below
  refine ⟨s, executed, built, listed, ⟨_, member 0 (by decide), rfl, hot⟩,
    ⟨_, member 1 (by decide), rfl, warm⟩, fun entry here => ?_⟩
  have normalised := (bounds entry here).1
  exact ⟨normalised.nonneg, normalised.atMost⟩

end OnlineScheduler
