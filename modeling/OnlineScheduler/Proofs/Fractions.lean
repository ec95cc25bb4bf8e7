import OnlineScheduler.Preload
import OnlineScheduler.Proofs.TableInvariant
import OnlineScheduler.General.Tally

/-! Whose pages the page status of an object counts. All queries of one pass
share the counters, and nothing zeroes them in between. -/

namespace OnlineScheduler.Actuator

variable {p : Platform} {pages : BitVec 64 → Int} {t t' : Table} {counters counters' : Nat → ℚ}

/-- The counter that the status of a page increments. -/
def place (p : Platform) (node : Int) : Nat := if 0 ≤ node ∧ node < p.numNodes then node.toNat else p.numNodes

def statuses (p : Platform) (pages : BitVec 64 → Int) (addr size : BitVec 64) : List Int :=
  (List.range (size / p.pageSize).toNat).map (fun i => pages (addr + BitVec.ofNat 64 i * p.pageSize))

theorem place_le (node : Int) : place p node ≤ p.numNodes := by
  rw [place]
  split
  next known => omega
  next => exact Nat.le_refl _

theorem place_node {node : Int} {j : Nat} (below : j < p.numNodes) : place p node = j ↔ node = j := by
  rw [place]
  split <;> omega

theorem place_elsewhere {node : Int} : place p node = p.numNodes ↔ ¬ (0 ≤ node ∧ node < p.numNodes) := by
  rw [place]
  split <;> omega

theorem statuses_length (addr size : BitVec 64) :
    (statuses p pages addr size).length = (size / p.pageSize).toNat := by
  rw [statuses, List.length_map, List.length_range]

theorem query_unaligned {addr size : BitVec 64} (unaligned : size % p.pageSize ≠ 0) {k : Nat}
    (inside : k ≤ p.numNodes) : queryStatusMemoryPages p pages addr size counters k = -1 := by
  rw [queryStatusMemoryPages, if_pos unaligned, if_pos (Nat.lt_succ_of_le inside)]

theorem query_aligned {addr size : BitVec 64} (aligned : size % p.pageSize = 0) {k : Nat}
    (inside : k ≤ p.numNodes) : queryStatusMemoryPages p pages addr size counters k =
      Tally.tally (place p) counters (statuses p pages addr size) k / (statuses p pages addr size).length := by
  rw [queryStatusMemoryPages, if_neg (not_not.mpr aligned), statuses_length]
  exact if_pos (Nat.lt_succ_of_le inside)

/-- The copying loop below some bound. -/
private theorem copyStatus_below (counters : Nat → ℚ) (object : Object) {bound : Nat} (inside : bound ≤ 4) :
    (List.range bound).foldlM (fun (object : Object) j =>
      if inside : j < 4 then
        (.ok { object with pageStatus := Function.update object.pageStatus ⟨j, inside⟩ (counters j) } : Except Fault Object)
      else .error (.outOfBounds j)) object = .ok { object with
        pageStatus := fun j => if j.val < bound then counters j else object.pageStatus j } := by
  induction bound with
  | zero => rfl
  | succ bound ih =>
    have below : bound < 4 := inside
    rw [List.range_succ, Runs.snoc_ok]
    refine ⟨_, ih (Nat.le_of_lt below), ?_⟩
    rw [dif_pos below]
    congr 2
    funext j
    by_cases here : j = ⟨bound, below⟩
    · subst here
      simp
    · have apart : j.val ≠ bound := fun same => here (Fin.ext same)
      rw [Function.update_of_ne here]
      simp only [Nat.lt_succ_iff_lt_or_eq, apart, or_false]

theorem copyStatus_fits (counters : Nat → ℚ) (object : Object) (fits : p.numNodes ≤ 3) :
    copyStatus p counters object = .ok { object with
      pageStatus := fun j => if j.val ≤ p.numNodes then counters j else object.pageStatus j } := by
  rw [copyStatus, copyStatus_below counters object (Nat.succ_le_succ fits)]
  simp only [Nat.lt_succ_iff]

theorem copyStatus_exceeds (counters : Nat → ℚ) (object : Object) (exceeds : 3 < p.numNodes) :
    copyStatus p counters object = .error (.outOfBounds 4) := by
  obtain ⟨more, same⟩ := Nat.exists_eq_add_of_lt exceeds
  have split : List.range (p.numNodes + 1) = List.range 4 ++ 4 :: (List.range more).map (5 + ·) := by
    rw [same, ← List.singleton_append, ← List.append_assoc, ← List.range_succ, ← List.range_add]
    congr 1
    omega
  rw [copyStatus, split, List.foldlM_append, copyStatus_below counters object (Nat.le_refl 4)]
  rfl

/-- The counters after the live slots among some were queried. -/
def counted (p : Platform) (pages : BitVec 64 → Int) (t : Table) (counters : Nat → ℚ) (slots : List (Fin maxObjects)) :
    Nat → ℚ :=
  slots.foldl (fun counters i =>
    if t.objAlloc i = 1 then
      queryStatusMemoryPages p pages (t.objVector i).startAddr (t.objVector i).size counters
    else counters) counters

def queried (p : Platform) (pages : BitVec 64 → Int) (t : Table) (counters : Nat → ℚ) (i : Fin maxObjects) : Nat → ℚ :=
  queryStatusMemoryPages p pages (t.objVector i).startAddr (t.objVector i).size
    (counted p pages t counters (scan i.val))

def restatus (p : Platform) (pages : BitVec 64 → Int) (t : Table) (counters : Nat → ℚ) (bound : Nat) : Table :=
  { t with objVector := fun i =>
      if t.objAlloc i = 1 ∧ i.val < bound then
        { t.objVector i with pageStatus := fun j =>
            if j.val ≤ p.numNodes then queried p pages t counters i j else (t.objVector i).pageStatus j }
      else t.objVector i }

theorem counted_succ (p : Platform) (pages : BitVec 64 → Int) (t : Table) (counters : Nat → ℚ) (i : Fin maxObjects) :
    counted p pages t counters (scan (i.val + 1)) =
      if t.objAlloc i = 1 then queried p pages t counters i else counted p pages t counters (scan i.val) := by
  rw [scan_succ, counted, List.foldl_append, List.foldl_cons, List.foldl_nil]
  rfl

theorem restatus_visited (i : Fin maxObjects) : restatus p pages t counters (i.val + 1) =
    { restatus p pages t counters i.val with
      objVector := if t.objAlloc i = 1 then
        Function.update (restatus p pages t counters i.val).objVector i
          { t.objVector i with pageStatus := fun j =>
              if j.val ≤ p.numNodes then queried p pages t counters i j else (t.objVector i).pageStatus j }
      else (restatus p pages t counters i.val).objVector } := by
  rw [restatus, restatus]
  congr 1
  funext k
  simp only [Nat.lt_succ_iff_lt_or_eq]
  by_cases here : k = i
  · subst here
    by_cases live : t.objAlloc k = 1 <;> simp [live]
  · have apart : k.val ≠ i.val := fun same => here (Fin.ext same)
    by_cases live : t.objAlloc i = 1 <;> simp [live, apart, Function.update_of_ne here]

/-- One visit of the loop over the objects. -/
def visitObject (p : Platform) (pages : BitVec 64 → Int) (s : Table × (Nat → ℚ)) (i : Fin maxObjects) :
    Except Fault (Table × (Nat → ℚ)) :=
  if s.1.objAlloc i = 1 then do
    let object := s.1.objVector i
    let counters := queryStatusMemoryPages p pages object.startAddr object.size s.2
    let object ← copyStatus p counters object
    return ({ s.1 with objVector := Function.update s.1.objVector i object }, counters)
  else return s

theorem readAllocationStatus_visits (t : Table) (counters : Nat → ℚ) :
    readAllocationStatus p pages t counters = (scan t.totalObj).foldlM (visitObject p pages) (t, counters) := rfl

private theorem visitObjects_fits (t : Table) (counters : Nat → ℚ) (fits : p.numNodes ≤ 3) {bound : Nat}
    (inside : bound ≤ maxObjects) : (scan bound).foldlM (visitObject p pages) (t, counters) =
      .ok (restatus p pages t counters bound, counted p pages t counters (scan bound)) := by
  induction bound with
  | zero =>
    simp only [restatus, Nat.not_lt_zero, and_false, if_false]
    rfl
  | succ bound ih =>
    let i : Fin maxObjects := ⟨bound, inside⟩
    have here : (restatus p pages t counters bound).objVector i = t.objVector i :=
      if_neg fun visited => Nat.lt_irrefl bound visited.2
    have next : scan (bound + 1) = scan bound ++ [i] := scan_succ i
    rw [restatus_visited i, counted_succ p pages t counters i, next, Runs.snoc_ok]
    refine ⟨_, ih (Nat.le_of_succ_le inside), ?_⟩
    by_cases live : t.objAlloc i = 1
    · simp only [live, if_true]
      refine (if_pos live).trans ?_
      dsimp only
      rw [here, copyStatus_fits _ _ fits]
      rfl
    · simp only [live, if_false]
      exact if_neg live

/-- With at most three nodes the pass writes inside `page_status` and returns. -/
theorem readAllocationStatus_fits (t : Table) (counters : Nat → ℚ) (fits : p.numNodes ≤ 3) :
    readAllocationStatus p pages t counters =
      .ok (restatus p pages t counters t.totalObj, counted p pages t counters (scan t.totalObj)) := by
  have cut : restatus p pages t counters t.totalObj = restatus p pages t counters (min t.totalObj maxObjects) := by
    simp only [restatus, Nat.lt_min, Fin.is_lt, and_true]
  rw [cut, readAllocationStatus_visits, scan_min]
  exact visitObjects_fits t counters fits (Nat.min_le_right _ _)

def pageCount (p : Platform) (object : Object) : Nat := (object.size / p.pageSize).toNat

def pagesWith (p : Platform) (pages : BitVec 64 → Int) (object : Object) (status : Int → Bool) : Nat :=
  (statuses p pages object.startAddr object.size).countP status

def Aligned (p : Platform) (t : Table) (i : Fin maxObjects) : Prop :=
  t.objAlloc i = 1 ∧ 0 < (t.objVector i).size ∧ (t.objVector i).size % p.pageSize = 0

/-- The page status counts the object's own pages and no others. -/
structure Own (p : Platform) (pages : BitVec 64 → Int) (object : Object) (pageStatus : Fin 4 → ℚ) : Prop where
  node : ∀ j : Fin 4, j.val < p.numNodes →
    pageStatus j = pagesWith p pages object (fun node => node = j.val) / pageCount p object
  elsewhere : ∀ j : Fin 4, j.val = p.numNodes →
    pageStatus j = pagesWith p pages object (fun node => ¬ (0 ≤ node ∧ node < p.numNodes)) / pageCount p object
  bounds : ∀ j : Fin 4, j.val ≤ p.numNodes → 0 ≤ pageStatus j ∧ pageStatus j ≤ 1
  total : ∑ j : Fin 4 with j.val ≤ p.numNodes, pageStatus j = 1
  agrees : ∀ (j : Fin 4) (before : Nat → ℚ), j.val ≤ p.numNodes → pageStatus j =
    Preload.queryStatusMemoryPages p pages object.startAddr object.size (Preload.clearStatus p before) j

/-- The part of the pages at a place: `j` for node `j`, the number of nodes for
the pages on none of them. -/
def pageFraction (p : Platform) (pages : BitVec 64 → Int) (object : Object) (k : Nat) : ℚ :=
  Tally.share (place p) (statuses p pages object.startAddr object.size) k

theorem pageFraction_node {object : Object} {j : Nat} (below : j < p.numNodes) :
    pageFraction p pages object j = pagesWith p pages object (fun node => node = j) / pageCount p object := by
  rw [pageFraction, Tally.share, statuses_length, Tally.count]
  simp only [place_node below]
  rfl

theorem pageFraction_elsewhere (object : Object) : pageFraction p pages object p.numNodes =
    pagesWith p pages object (fun node => ¬ (0 ≤ node ∧ node < p.numNodes)) / pageCount p object := by
  rw [pageFraction, Tally.share, statuses_length, Tally.count]
  simp only [place_elsewhere]
  rfl

theorem statuses_present {addr size : BitVec 64} (positive : 0 < size) (aligned : size % p.pageSize = 0) :
    statuses p pages addr size ≠ [] := by
  apply List.ne_nil_of_length_pos
  rw [statuses_length, BitVec.toNat_udiv]
  have bound : 0 < size.toNat := positive
  have whole : size.toNat % p.pageSize.toNat = 0 := by
    rw [← BitVec.toNat_umod, aligned]
    rfl
  rcases Nat.eq_zero_or_pos p.pageSize.toNat with none | some
  · rw [none, Nat.mod_zero] at whole
    omega
  · exact Nat.div_pos (Nat.le_of_dvd bound (Nat.dvd_of_mod_eq_zero whole)) some

theorem pageFraction_total (pages : BitVec 64 → Int) {object : Object} (fits : p.numNodes ≤ 3)
    (present : statuses p pages object.startAddr object.size ≠ []) :
    ∑ j : Fin 4 with j.val ≤ p.numNodes, pageFraction p pages object j = 1 := by
  have covered : ∀ node ∈ statuses p pages object.startAddr object.size, place p node ∈ Finset.range (p.numNodes + 1) :=
    fun node _ => Finset.mem_range.mpr (Nat.lt_succ_of_le (place_le node))
  rw [← Tally.share_sum (K := ℚ) covered present]
  refine Finset.sum_nbij Fin.val ?_ Fin.val_injective.injOn ?_ (fun _ _ => rfl)
  · intro j member
    exact Finset.mem_range.mpr (Nat.lt_succ_of_le (Finset.mem_filter.mp member).2)
  · intro k member
    have below := Finset.mem_range.mp (Finset.mem_coe.mp member)
    exact ⟨⟨k, by omega⟩, Finset.mem_coe.mpr (Finset.mem_filter.mpr ⟨Finset.mem_univ _, Nat.le_of_lt_succ below⟩), rfl⟩

theorem query_own {object : Object} (positive : 0 < object.size) (aligned : object.size % p.pageSize = 0) {k : Nat}
    (inside : k ≤ p.numNodes) :
    queryStatusMemoryPages p pages object.startAddr object.size counters k = pageFraction p pages object k ↔
      counters k = 0 := by
  rw [query_aligned aligned inside]
  exact Tally.tally_share (statuses_present positive aligned)

theorem own_fractions {object : Object} {pageStatus : Fin 4 → ℚ} (fits : p.numNodes ≤ 3) (positive : 0 < object.size)
    (aligned : object.size % p.pageSize = 0) :
    Own p pages object pageStatus ↔ ∀ j : Fin 4, j.val ≤ p.numNodes → pageStatus j = pageFraction p pages object j := by
  constructor
  · intro own j inside
    rcases Nat.lt_or_eq_of_le inside with below | last
    · rw [own.node j below, pageFraction_node below]
    · rw [own.elsewhere j last, last, pageFraction_elsewhere]
  · intro same
    constructor
    case node => exact fun j below => (same j below.le).trans (pageFraction_node below)
    case elsewhere =>
      intro j last
      rw [same j last.le, last, pageFraction_elsewhere]
    case bounds =>
      intro j inside
      rw [same j inside]
      exact ⟨Tally.share_nonneg _ _, Tally.share_le_one _ _⟩
    case total =>
      rw [Finset.sum_congr rfl fun j member => same j (Finset.mem_filter.mp member).2]
      exact pageFraction_total pages fits (statuses_present positive aligned)
    case agrees =>
      intro j before inside
      rw [same j inside]
      refine ((query_own positive aligned inside).mpr ?_).symm
      exact if_pos (Nat.lt_succ_of_le inside)

/-- A query never leaves all counters at zero: it leaves fractions of one whole
if it found them so, and -1 for a size it rejects. -/
theorem query_marks (pages : BitVec 64 → Int) (counters : Nat → ℚ) {object : Object} (fits : p.numNodes ≤ 3) (positive : 0 < object.size)
    (clean : object.size % p.pageSize = 0 → ∀ k ≤ p.numNodes, counters k = 0) :
    ∃ k ≤ p.numNodes, queryStatusMemoryPages p pages object.startAddr object.size counters k ≠ 0 := by
  by_cases aligned : object.size % p.pageSize = 0
  · by_contra zero
    push Not at zero
    have total := pageFraction_total pages fits (statuses_present positive aligned)
    rw [Finset.sum_eq_zero] at total
    · exact zero_ne_one total
    · intro j member
      have inside := (Finset.mem_filter.mp member).2
      rw [← (query_own positive aligned inside).mpr (clean aligned j inside)]
      exact zero j inside
  · refine ⟨0, Nat.zero_le _, ?_⟩
    rw [query_unaligned aligned (Nat.zero_le _)]
    exact neg_ne_zero.mpr one_ne_zero

theorem counted_last (p : Platform) (pages : BitVec 64 → Int) (t : Table) (counters : Nat → ℚ) {bound : Nat} (inside : bound ≤ maxObjects) :
    (∀ j : Fin maxObjects, j.val < bound → t.objAlloc j ≠ 1) ∧ counted p pages t counters (scan bound) = counters ∨
      ∃ j : Fin maxObjects, j.val < bound ∧ t.objAlloc j = 1 ∧
        counted p pages t counters (scan bound) = queried p pages t counters j := by
  induction bound with
  | zero => exact Or.inl ⟨fun j below => absurd below (Nat.not_lt_zero _), rfl⟩
  | succ bound ih =>
    let i : Fin maxObjects := ⟨bound, inside⟩
    have step := counted_succ p pages t counters i
    change counted p pages t counters (scan (bound + 1)) = _ at step
    rw [step]
    by_cases live : t.objAlloc i = 1
    · rw [if_pos live]
      exact Or.inr ⟨i, Nat.lt_succ_self _, live, rfl⟩
    · rw [if_neg live]
      rcases ih (Nat.le_of_succ_le inside) with ⟨none, same⟩ | ⟨j, below, used, same⟩
      · refine Or.inl ⟨fun j below => ?_, same⟩
        rcases Nat.lt_succ_iff_lt_or_eq.mp below with before | here
        · exact none j before
        · rwa [show j = i from Fin.ext here]
      · exact Or.inr ⟨j, Nat.lt_succ_of_lt below, used, same⟩

/-- The pass gives every object of whole pages its own fractions exactly when
such an object is queried first of all and finds the counters at zero. -/
theorem page_fractions_own (pages : BitVec 64 → Int) (counters : Nat → ℚ) (fits : p.numNodes ≤ 3)
    (scanned : ∀ i, t.objAlloc i = 1 → i.val < t.totalObj)
    (sized : ∀ i, t.objAlloc i = 1 → 0 < (t.objVector i).size) :
    ∃ t' counters', readAllocationStatus p pages t counters = .ok (t', counters') ∧
    ((∀ i, Aligned p t i → Own p pages (t.objVector i) (t'.objVector i).pageStatus) ↔
      ∀ i, Aligned p t i → (∀ j, t.objAlloc j = 1 → i ≤ j) ∧ ∀ k ≤ p.numNodes, counters k = 0) := by
  refine ⟨_, _, readAllocationStatus_fits t counters fits, ?_⟩
  have own (i : Fin maxObjects) (aligned : Aligned p t i) :
      Own p pages (t.objVector i) ((restatus p pages t counters t.totalObj).objVector i).pageStatus ↔
        ∀ k ≤ p.numNodes, counted p pages t counters (scan i.val) k = 0 := by
    rw [own_fractions fits aligned.2.1 aligned.2.2]
    have status (j : Fin 4) (inside : j.val ≤ p.numNodes) :
        ((restatus p pages t counters t.totalObj).objVector i).pageStatus j = queried p pages t counters i j := by
      simp only [restatus, aligned.1, scanned i aligned.1, and_self, if_true, inside]
    constructor
    · intro same k inside
      have own := same ⟨k, by omega⟩ inside
      rw [status _ inside] at own
      exact (query_own aligned.2.1 aligned.2.2 inside).mp own
    · intro zero j inside
      rw [status j inside]
      exact (query_own aligned.2.1 aligned.2.2 inside).mpr (zero j inside)
  constructor
  · intro all i aligned
    have zero := (own i aligned).mp (all i aligned)
    rcases counted_last p pages t counters i.isLt.le with ⟨first, same⟩ | ⟨j, _, live, same⟩
    · rw [same] at zero
      refine ⟨fun j live => ?_, zero⟩
      by_contra before
      exact first j (Nat.lt_of_not_le before) live
    · -- the query before this one left something in the counters
      rw [same] at zero
      obtain ⟨k, inside, left⟩ := query_marks pages (counted p pages t counters (scan j.val)) fits
         (sized j live) fun whole => (own j ⟨live, sized j live, whole⟩).mp (all j ⟨live, sized j live, whole⟩)
      exact absurd (zero k inside) left
  · intro first i aligned
    obtain ⟨least, zero⟩ := first i aligned
    refine (own i aligned).mpr ?_
    rcases counted_last p pages t counters i.isLt.le with ⟨_, same⟩ | ⟨j, before, live, _⟩
    · rwa [same]
    · exact absurd (least j live) (Nat.not_le_of_lt before)

theorem page_fractions_shared : ∃ s t' counters',
    (State.start fun _ => 0).run machine [.insertObject 7 4096 4096, .insertObject 7 8192 4096] = .ok s ∧
    readAllocationStatus machine (fun _ => 0) s.table s.globals.statusMemoryPages = .ok (t', counters') ∧
    Aligned machine s.table 1 ∧ (t'.objVector 1).pageStatus 0 = 2 ∧
    ¬ Own machine (fun _ => 0) (s.table.objVector 1) (t'.objVector 1).pageStatus := by
  have executed : (State.start fun _ => 0).run machine
    [.insertObject 7 4096 4096, .insertObject 7 8192 4096] = .ok _ := rfl
  refine ⟨_, _, _, executed, readAllocationStatus_fits _ _ (by decide), ⟨rfl, by decide, by decide⟩, by decide +kernel, ?_⟩
  intro own
  exact absurd (own.bounds 0 (by decide)).2 (by decide +kernel)

theorem page_fractions_single : ∃ s t' counters',
    (State.start fun _ => 0).run machine [.insertObject 7 4096 4096] = .ok s ∧
    readAllocationStatus machine (fun _ => 0) s.table s.globals.statusMemoryPages = .ok (t', counters') ∧
    ((∀ i, Aligned machine s.table i → Own machine (fun _ => 0) (s.table.objVector i) (t'.objVector i).pageStatus) ↔
      ∀ i, Aligned machine s.table i →
        (∀ j, s.table.objAlloc j = 1 → i ≤ j) ∧ ∀ k ≤ machine.numNodes, s.globals.statusMemoryPages k = 0) := by
  have executed : (State.start fun _ => 0).run machine [.insertObject 7 4096 4096] = .ok _ := rfl
  have below := fun i => (State.run_valid executed).1.live_below (i := i)
  refine ⟨_, _, _, executed, (page_fractions_own (fun _ => 0) _ (by decide) below ?_).choose_spec.choose_spec⟩
  intro i live
  have first : i = 0 := Fin.ext (Nat.lt_one_iff.mp (below i live))
  subst first
  decide

end OnlineScheduler.Actuator
