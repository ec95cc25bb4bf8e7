import OnlineScheduler.Proofs.Fractions

/-! Where `read_allocation_status` writes. `page_status` has room for three
nodes and for the pages on none, but the number of nodes is only bounded from
below. -/

namespace OnlineScheduler.Actuator

variable {p : Platform} {pages : BitVec 64 → Int} {t t' : Table} {counters counters' : Nat → ℚ}

/-- Only the page status of live objects may differ. -/
structure Refreshed (t t' : Table) : Prop where
  objAlloc : t'.objAlloc = t.objAlloc
  totalObj : t'.totalObj = t.totalObj
  index : t'.index = t.index
  reads : t'.reads = t.reads
  trace : t'.trace = t.trace
  live : ∀ i, ∃ pageStatus, t'.objVector i = { t.objVector i with pageStatus }
  free : ∀ i, t.objAlloc i ≠ 1 → t'.objVector i = t.objVector i

theorem refreshed_refl (t : Table) : Refreshed t t := ⟨rfl, rfl, rfl, rfl, rfl, fun _ => ⟨_, rfl⟩, fun _ _ => rfl⟩

theorem restatus_refreshed (bound : Nat) : Refreshed t (restatus p pages t counters bound) := by
  refine ⟨rfl, rfl, rfl, rfl, rfl, fun i => ?_, fun i free => if_neg fun visited => free visited.1⟩
  by_cases visited : t.objAlloc i = 1 ∧ i.val < bound
  · exact ⟨_, if_pos visited⟩
  · exact ⟨_, if_neg visited⟩

theorem visitObject_alloc {s s' : Table × (Nat → ℚ)} {i : Fin maxObjects}
    (visited : visitObject p pages s i = .ok s') : s'.1.objAlloc = s.1.objAlloc := by
  unfold visitObject at visited
  split at visited
  next =>
    obtain ⟨object, _, done⟩ := Runs.bind_ok.mp visited
    cases done
    rfl
  next => cases visited; rfl

/-- With more than three nodes no live object is passed over. -/
theorem visitObject_free {s s' : Table × (Nat → ℚ)} {i : Fin maxObjects} (exceeds : 3 < p.numNodes)
    (visited : visitObject p pages s i = .ok s') : s.1.objAlloc i ≠ 1 := by
  intro live
  rw [visitObject, if_pos live] at visited
  obtain ⟨object, copied, _⟩ := Runs.bind_ok.mp visited
  rw [copyStatus_exceeds _ _ exceeds] at copied
  cases copied

theorem unread {slots : List (Fin maxObjects)} (free : ∀ i ∈ slots, t.objAlloc i ≠ 1) :
    slots.foldlM (visitObject p pages) (t, counters) = .ok (t, counters) := by
  induction slots with
  | nil => rfl
  | cons slot rest ih =>
    have passed : visitObject p pages (t, counters) slot = .ok (t, counters) := if_neg (free slot List.mem_cons_self)
    exact Runs.cons_ok.mpr ⟨_, passed, ih fun i member => free i (List.mem_cons_of_mem _ member)⟩

/-- The pass stays inside `page_status`, and changes nothing else, exactly when
there are at most three nodes or no live object. -/
theorem allocation_status_inside (p : Platform) (pages : BitVec 64 → Int) (t : Table) (counters : Nat → ℚ) :
    (∃ t' counters', readAllocationStatus p pages t counters = .ok (t', counters') ∧ Refreshed t t') ↔
      p.numNodes ≤ 3 ∨ ∀ i : Fin maxObjects, i.val < t.totalObj → t.objAlloc i ≠ 1 := by
  rw [readAllocationStatus_visits]
  constructor
  · rintro ⟨t', counters', executed, _⟩
    rcases Nat.lt_or_ge 3 p.numNodes with exceeds | fits
    · refine Or.inr fun i below => ?_
      obtain ⟨s, s', same, visited⟩ := Runs.visited (fun s => s.1.objAlloc = t.objAlloc)
        (fun _ _ _ stepped before => (visitObject_alloc stepped).trans before) executed rfl (mem_scan.mpr below)
      rw [← same]
      exact visitObject_free exceeds visited
    · exact Or.inl fits
  · rintro (fits | free)
    · exact ⟨_, _, readAllocationStatus_fits t counters fits, restatus_refreshed _⟩
    · refine ⟨t, counters, ?_, refreshed_refl t⟩
      exact unread fun i member => free i (mem_scan.mp member)

/-- A machine of two sockets, each with DRAM and persistent memory. -/
def fourNodes : Platform := { machine with numNodes := 4 }

theorem allocation_status_fourNodes : ∃ s,
    (State.start fun _ => 0).run fourNodes [.insertObject 7 4096 4096] = .ok s ∧
    readAllocationStatus fourNodes (fun _ => 0) s.table s.globals.statusMemoryPages = .error (.outOfBounds 4) :=
  ⟨_, rfl, rfl⟩

end OnlineScheduler.Actuator
