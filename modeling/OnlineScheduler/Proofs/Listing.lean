import OnlineScheduler.Proofs.Writes
import OnlineScheduler.General.Ranking
import Mathlib.Data.List.Induction

/-! What `sort_objects` builds and sorts. Its filter reads one slot for all of
them, so the list it writes holds every slot below the object count or none. -/

namespace OnlineScheduler.Actuator

variable {p : Platform} {t : Table}

/-- An entry written for its slot. Each metric is divided by some maximum that
is at least one. -/
structure Lists (t : Table) (entry : KeyValue) : Prop where
  llcm : entry.llcm = (t.objVector entry.key).metrics.loadsCount 4
  tlbm : entry.tlbm = (t.objVector entry.key).metrics.tlbMiss 4
  stores : entry.stores = (t.objVector entry.key).metrics.storesCount
  value : ∃ maxLlcm ≥ 1, ∃ maxTlbm ≥ 1, ∃ maxStores ≥ 1,
    entry.value = entry.llcm / maxLlcm + entry.tlbm / maxTlbm + entry.stores / maxStores

structure Listing.Scaled (listing : Listing) : Prop where
  llcm : 1 ≤ listing.currMaxLlcm
  tlbm : 1 ≤ listing.currMaxTlbm
  stores : 1 ≤ listing.currMaxStores

private theorem one_le_peak {metric peak : ℚ} (proper : 1 ≤ peak) :
    1 ≤ if metric > peak then metric else peak := by
  split
  next above => exact le_of_lt (lt_of_le_of_lt proper above)
  next => exact proper

theorem listObject_scaled (i : Fin maxObjects) {listing : Listing} (scaled : listing.Scaled) :
    (listObject t i listing).Scaled :=
  ⟨one_le_peak scaled.llcm, one_le_peak scaled.tlbm, one_le_peak scaled.stores⟩

theorem listObject_writes (i : Fin maxObjects) {listing : Listing} (scaled : listing.Scaled) :
    ∃ entry, entry.key = i ∧ Lists t entry ∧
      (listObject t i listing).list.entries = listing.list.entries.set listing.count entry := by
  refine ⟨_, ?_, ?_, rfl⟩
  · rfl
  · exact ⟨rfl, rfl, rfl, _, one_le_peak scaled.llcm, _, one_le_peak scaled.tlbm, _, one_le_peak scaled.stores, rfl⟩

/-- The list after the loop has visited some slots: their entries in front of
what was there before. -/
structure Built (t : Table) (slots : List (Fin maxObjects)) (start built : Listing) (written : List KeyValue) : Prop where
  scaled : built.Scaled
  count : built.count = slots.length
  keys : written.map KeyValue.key = slots
  lists : ∀ entry ∈ written, Lists t entry
  entries : built.list.entries = written ++ start.list.entries.drop slots.length

theorem listObjects_built {slots : List (Fin maxObjects)} {start : Listing} (scaled : start.Scaled)
    (first : start.count = 0) (fits : slots.length ≤ maxObjects) :
    ∃ written, Built t slots start (slots.foldl (fun listing i => listObject t i listing) start) written := by
  induction slots using List.reverseRecOn with
  | nil => exact ⟨[], scaled, first, rfl, fun _ impossible => by simp at impossible, rfl⟩
  | append_singleton slots i ih =>
    rw [List.length_append, List.length_singleton] at fits
    obtain ⟨written, built⟩ := ih (by omega)
    obtain ⟨entry, key, lists, writes⟩ := listObject_writes (t := t) i built.scaled
    have length : written.length = slots.length := by rw [← built.keys, List.length_map]
    refine ⟨written ++ [entry], ?_⟩
    rw [List.foldl_append, List.foldl_cons, List.foldl_nil]
    refine ⟨listObject_scaled i built.scaled, ?_, ?_, ?_, ?_⟩
    · rw [List.length_append, List.length_singleton, ← built.count]
      rfl
    · rw [List.map_append, List.map_singleton, built.keys, key]
    · intro other member
      rcases List.mem_append.mp member with earlier | last
      · exact built.lists other earlier
      · rw [List.mem_singleton.mp last]
        exact lists
    · have room : slots.length < start.list.entries.length := by rw [start.list.full]; omega
      rw [writes, built.entries, built.count, ← length, List.set_append_right _ _ (Nat.le_refl _), Nat.sub_self, length,
        List.drop_eq_getElem_cons room, List.set_cons_zero, List.length_append, List.length_singleton,
        List.append_assoc, List.singleton_append]

/-- Whether the filter lets slots through: it looks at one slot only. -/
def Tests (t : Table) (objIndex : Int) : Prop := ∃ slot : Fin maxObjects, objIndex = slot.val ∧ t.objAlloc slot = 1

/-- Whether the filter may read that slot. Without objects it reads none. -/
def Readable (t : Table) (objIndex : Int) : Prop := t.totalObj = 0 ∨ 0 ≤ objIndex ∧ objIndex < maxObjects

theorem scan_length {bound : Nat} (inside : bound ≤ maxObjects) : (scan bound).length = bound := by
  induction bound with
  | zero => rfl
  | succ bound ih =>
    have below : bound < maxObjects := inside
    rw [scan, List.range_succ, List.filterMap_append, List.length_append, ← scan, ih (by omega)]
    simp [below]

private theorem buildList_slot {objIndex : Int} {slot : Fin maxObjects} (found : slotAt objIndex = .ok slot)
    (listing : Listing) : buildList t objIndex listing = .ok ((scan t.totalObj).foldl
      (fun listing i => if t.objAlloc slot = 1 then listObject t i listing else listing) listing) := by
  rw [buildList, found]
  exact List.foldlM_pure

theorem buildList_tested {objIndex : Int} (tests : Tests t objIndex) (listing : Listing) :
    buildList t objIndex listing = .ok ((scan t.totalObj).foldl (fun listing i => listObject t i listing) listing) := by
  obtain ⟨slot, found, live⟩ := tests
  rw [buildList_slot (slotAt_ok.mpr found)]
  simp only [live, if_true]

theorem buildList_untested {objIndex : Int} (readable : Readable t objIndex) (untested : ¬ Tests t objIndex)
    (listing : Listing) : buildList t objIndex listing = .ok listing := by
  rcases readable with empty | ⟨positive, inside⟩
  · rw [buildList, empty]
    rfl
  · have found : slotAt objIndex = .ok ⟨objIndex.toNat, by omega⟩ := slotAt_ok.mpr (by simp [positive])
    have dead : t.objAlloc ⟨objIndex.toNat, by omega⟩ ≠ 1 := fun live => untested ⟨_, slotAt_ok.mp found, live⟩
    rw [buildList_slot found]
    simp only [dead, if_false, List.foldl_fixed]

theorem buildList_readable {objIndex : Int} {listing built : Listing} (ok : buildList t objIndex listing = .ok built) :
    Readable t objIndex := by
  rw [buildList] at ok
  cases visited : scan t.totalObj with
  | nil =>
    left
    by_contra some
    have member : (⟨0, by decide⟩ : Fin maxObjects) ∈ scan t.totalObj := mem_scan.mpr (Nat.pos_of_ne_zero some)
    rw [visited] at member
    exact absurd member List.not_mem_nil
  | cons i rest =>
    rw [visited] at ok
    obtain ⟨_, first, _⟩ := Runs.cons_ok.mp ok
    obtain ⟨slot, found, _⟩ := Runs.bind_ok.mp first
    have inside := slot.isLt
    have same := slotAt_ok.mp found
    exact Or.inr (by omega)

theorem buildList_defined {objIndex : Int} (readable : Readable t objIndex) (listing : Listing) :
    ∃ built, buildList t objIndex listing = .ok built := by
  by_cases tests : Tests t objIndex
  · exact ⟨_, buildList_tested tests listing⟩
  · exact ⟨_, buildList_untested readable tests listing⟩

theorem sortObjects_ok {objIndex : Int} {q : Qsort} {globals sorted : Globals}
    (ok : sortObjects p objIndex q t globals = .ok sorted) : ∃ built, buildList t objIndex globals.listing = .ok built ∧
      sorted.listing = { built with list := built.list.qsort q, count := 0 } := by
  obtain ⟨built, listed, done⟩ := Runs.bind_ok.mp ok
  cases done
  exact ⟨built, listed, rfl⟩

theorem sortObjects_defined {objIndex : Int} (q : Qsort) {globals : Globals} {built : Listing}
    (ok : buildList t objIndex globals.listing = .ok built) : ∃ sorted,
      sortObjects p objIndex q t globals = .ok sorted ∧ sorted.activeObj = built.count ∧
      sorted.ranked = (q.sort built.list.entries).take built.count :=
  ⟨_, Runs.bind_ok.mpr ⟨built, ok, rfl⟩, rfl, rfl⟩

theorem comp_ordered {first second : KeyValue} : comp first second ≤ 0 ↔ second.value ≤ first.value := by
  unfold comp
  split
  next below => simp [not_le.mpr below]
  next atLeast =>
    have le := not_lt.mp atLeast
    split <;> simp [le]

theorem Qsort.sorted (q : Qsort) (entries : List KeyValue) :
    Ranking.Sorted KeyValue.value entries (q.sort entries) :=
  ⟨q.perm entries, (q.ordered entries).imp comp_ordered.mp⟩

def Qsort.plain : Qsort where
  sort := Ranking.sort KeyValue.value
  perm entries := (Ranking.sort_sorted KeyValue.value entries).perm
  ordered entries := (Ranking.sort_sorted KeyValue.value entries).ordered.imp comp_ordered.mpr

/-- Any result the standard allows for one list is that of some `qsort`. -/
theorem exists_qsort {entries sorted : List KeyValue} (isSorted : Ranking.Sorted KeyValue.value entries sorted) :
    ∃ q : Qsort, q.sort entries = sorted := by
  refine ⟨⟨fun list => if list = entries then sorted else Qsort.plain.sort list, ?_, ?_⟩, if_pos rfl⟩
  · intro list
    split
    next same => rw [same]; exact isSorted.perm
    next => exact Qsort.plain.perm list
  · intro list
    split
    next same => exact isSorted.ordered.imp comp_ordered.mpr
    next => exact Qsort.plain.ordered list

end OnlineScheduler.Actuator
