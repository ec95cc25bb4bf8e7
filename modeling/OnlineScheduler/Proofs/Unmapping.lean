import OnlineScheduler.Proofs.Histories

/-! Whether unmapping is recorded, for one thread that maps and unmaps whole
regions. The filter of `munmap` looks at the length of the last `mmap`, not at
that of the region, so a small mapping hides the unmapping of a large one. -/

namespace OnlineScheduler

variable {p : Platform}

/-- No piece of a mapping of this length starts behind it. -/
def Contained (len : BitVec 64) : Prop := len ≤ chunkSize ∨ len % chunkSize ≠ 0

instance (len : BitVec 64) : Decidable (Contained len) := inferInstanceAs (Decidable (_ ∨ _))

theorem Contained.remnant {len : BitVec 64} (contained : Contained len) (large : chunkSize < len) :
    len.toNat % 1000001536 ≠ 0 := by
  rcases contained with small | remnant
  · exact absurd large (BitVec.not_lt.mpr small)
  · simpa [← BitVec.toNat_inj, Recorder.chunkSize_toNat] using remnant

structure Placed (region : Range) : Prop where
  contained : Contained region.2
  positive : 0 < region.2.toNat
  fits : region.1.toNat + region.2.toNat < 2 ^ 64

/-- The live ranges are pieces of large regions that are mapped, each once. -/
structure Kept (mapped : List Range) (live : Multiset Range) : Prop where
  placed : ∀ region ∈ mapped, Placed region
  distinct : live.Nodup
  held : ∀ piece ∈ live, ∃ region ∈ mapped, 1000000 < region.2 ∧ piece ∈ Recorder.pieces region.1 region.2

/-- Mappings have no piece too many, and the unmapping of a large region comes
while the last mapping is large. -/
def MapEvent.Covered (latest : BitVec 64) : MapEvent → Prop
  | .mmap args _ => Contained args.len
  | .munmap _ len => 1000000 < len → 1000000 < latest

def Covered : BitVec 64 → List MapEvent → Prop
  | _, [] => True
  | latest, event :: rest => event.Covered latest ∧ Covered (event.onLength latest) rest

def history (pre : List MapEvent) (args : MmapEnterArgs) (ret : BitVec 64) (mid : List MapEvent) : List MapEvent :=
  pre ++ .mmap args ret :: mid ++ [.munmap ret args.len]

namespace Recorder

theorem pieces_inside {region piece : Range} (placed : Placed region) (member : piece ∈ pieces region.1 region.2) :
    region.1.toNat ≤ piece.1.toNat ∧ piece.1.toNat < region.1.toNat + region.2.toNat := by
  obtain ⟨startAddr, size⟩ := region
  obtain ⟨contained, positive, fits⟩ := placed
  simp only at contained positive fits
  obtain ⟨chunk, produced, rfl⟩ := List.mem_map.mp member
  by_cases large : chunkSize < size
  · have below := fullChunks_below (contained.remnant large)
    have full := fullChunks_lt size
    have start {i : Nat} (before : i ≤ fullChunks size) :
        startAddr.toNat ≤ (startAddr + BitVec.ofNat 64 i * chunkSize).toNat ∧
          (startAddr + BitVec.ofNat 64 i * chunkSize).toNat < startAddr.toNat + size.toNat := by
      have offset : i * 1000001536 < size.toNat := Nat.lt_of_le_of_lt (Nat.mul_le_mul_right _ before) below
      rw [BitVec.toNat_add, offset_toNat (by omega), Nat.mod_eq_of_lt (by omega)]
      omega
    rw [chunks_large large, List.mem_append, List.mem_map, List.mem_singleton] at produced
    rcases produced with ⟨i, inside, rfl⟩ | rfl
    · exact start (Nat.le_of_lt (List.mem_range.mp inside))
    · exact start (Nat.le_refl _)
  · rw [chunks_small large, List.mem_singleton] at produced
    subst chunk
    exact ⟨Nat.le_refl _, Nat.lt_add_of_pos_right positive⟩

end Recorder

namespace Kept

variable {mapped : List Range} {live : Multiset Range} {region : Range}

theorem map (kept : Kept mapped live) (placed : Placed region) : Kept (region :: mapped) live where
  placed := by
    intro other member
    rcases List.mem_cons.mp member with rfl | member
    · exact placed
    · exact kept.placed other member
  distinct := kept.distinct
  held piece member := by
    obtain ⟨region, mapped, large, inside⟩ := kept.held piece member
    exact ⟨region, List.mem_cons_of_mem _ mapped, large, inside⟩

theorem record (kept : Kept mapped live) (placed : Placed region) (large : 1000000 < region.2)
    (apart : ∀ other ∈ mapped, Apart region other) :
    Kept (region :: mapped) (live + ↑(Recorder.pieces region.1 region.2)) where
  placed := (kept.map placed).placed
  distinct := by
    refine Multiset.nodup_add.mpr ⟨kept.distinct, Multiset.coe_nodup.mpr (Recorder.pieces_nodup _ _), ?_⟩
    rw [Multiset.disjoint_left]
    intro piece before new
    obtain ⟨other, member, _, inside⟩ := kept.held piece before
    have old := Recorder.pieces_inside (kept.placed other member) inside
    have here := Recorder.pieces_inside placed (Multiset.mem_coe.mp new)
    rcases apart other member with below | above <;> omega
  held piece member := by
    rcases Multiset.mem_add.mp member with before | new
    · exact (kept.map placed).held piece before
    · exact ⟨region, List.mem_cons_self, large, Multiset.mem_coe.mp new⟩

theorem unmap (kept : Kept mapped live) : Kept (mapped.erase region) (live - ↑(Recorder.pieces region.1 region.2)) where
  placed other member := kept.placed other (List.mem_of_mem_erase member)
  distinct := Multiset.nodup_of_le (Multiset.sub_le_self _ _) kept.distinct
  held piece member := by
    obtain ⟨present, removed⟩ := (Multiset.mem_sub_of_nodup kept.distinct).mp member
    obtain ⟨other, mapped, large, inside⟩ := kept.held piece present
    have different : other ≠ region := fun same => removed (Multiset.mem_coe.mpr (same ▸ inside))
    exact ⟨other, (List.mem_erase_of_ne different).mpr mapped, large, inside⟩

theorem forget (kept : Kept mapped live) (small : ¬ 1000000 < region.2) : Kept (mapped.erase region) live where
  placed other member := kept.placed other (List.mem_of_mem_erase member)
  distinct := kept.distinct
  held piece member := by
    obtain ⟨other, mapped, large, inside⟩ := kept.held piece member
    have different : other ≠ region := fun same => small (same ▸ large)
    exact ⟨other, (List.mem_erase_of_ne different).mpr mapped, large, inside⟩

end Kept

namespace Interceptor

variable {thread : Thread} {s s' : State} {args : MmapEnterArgs} {ret addr len : BitVec 64} {events : List MapEvent}

theorem handleEvent_frees {seen : EnterSample} {i : Fin maxObjects} {piece : Range}
    (handled : handleEvent p thread s (.munmap addr len) = .ok s') (valid : s.table.Valid) (there : s.enter = some seen)
    (held : s.table.slots i = some piece) (inside : piece ∈ Recorder.pieces addr len) :
    s'.table.objAlloc i ≠ 1 ↔ 1000000 < seen.args.len ∧ ∀ j < i, s.table.slots j ≠ s.table.slots i := by
  have live := (Table.slots_some.mp held).1
  obtain ⟨seen', before, _, table⟩ := handleEvent_munmap.mp handled
  cases there.symm.trans before
  rw [table]
  split
  next large =>
    rw [← Table.slots_none, Recorder.deallocateObject_slots, Slots.removeAll_clears (Recorder.pieces_nodup _ _) held,
      scan_find (valid.live_below live) (decide_eq_true held), held]
    simp only [inside, large, true_and, decide_eq_false_iff_not, ne_eq]
  next small => exact iff_of_false (fun free => free live) (fun freed => small freed.1)

/-- The table and the length the filter reads, as a legal history leaves them. -/
structure Tracks (mapped : List Range) (latest : BitVec 64) (s : State) : Prop where
  valid : s.table.Valid
  length : ∀ seen, s.enter = some seen → seen.args.len = latest
  kept : Kept mapped s.table.ranges

theorem start_tracks : Tracks [] 0 .start where
  valid := start_valid
  length _ impossible := by cases impossible
  kept := by
    refine ⟨fun _ member => absurd member List.not_mem_nil, ?_, ?_⟩
    all_goals rw [State.start, start_ranges]
    · exact Multiset.nodup_zero
    · exact fun _ member => absurd member (Multiset.notMem_zero _)

theorem Tracks.step {mapped : List Range} {latest : BitVec 64} {event : MapEvent} (tracks : Tracks mapped latest s)
    (allowed : event.Allowed mapped) (covered : event.Covered latest) (handled : handleEvent p thread s event = .ok s') :
    Tracks (event.onMapped mapped) (event.onLength latest) s' := by
  refine ⟨(handleEvent_later handled tracks.valid).valid, ?_, ?_⟩
  · intro seen entered
    cases event with
    | mmap args ret =>
      cases (handleEvent_mmap.mp handled).1.symm.trans entered
      rfl
    | munmap addr len =>
      obtain ⟨seen', before, after, _⟩ := handleEvent_munmap.mp handled
      cases after.symm.trans entered
      exact tracks.length seen before
  · cases event with
    | mmap args ret =>
      obtain ⟨_, positive, fits, apart⟩ := allowed
      have placed : Placed (ret, args.len) := ⟨covered, positive, fits⟩
      obtain ⟨_, table⟩ := handleEvent_mmap.mp handled
      split at table
      next recorded =>
        rw [Recorder.insertObject_ranges tracks.valid table]
        exact tracks.kept.record placed recorded.2.2 apart
      next =>
        rw [table]
        exact tracks.kept.map placed
    | munmap addr len =>
      obtain ⟨seen, before, _, table⟩ := handleEvent_munmap.mp handled
      rw [table]
      split
      next =>
        rw [Recorder.deallocateObject_ranges _ _ _ tracks.valid]
        exact tracks.kept.unmap
      next small =>
        rw [tracks.length seen before] at small
        exact tracks.kept.forget (fun large => small (covered large))

/-- Along a legal history with covered unmappings the live ranges are pieces of
mapped regions, and what is left of the history is legal and covered too. -/
theorem Tracks.run {mapped : List Range} {latest : BitVec 64} {rest : List MapEvent} (tracks : Tracks mapped latest s)
    (legal : Legal mapped (events ++ rest)) (covered : Covered latest (events ++ rest))
    (handled : handleEvents p thread s events = .ok s') :
    ∃ mapped' latest', Tracks mapped' latest' s' ∧ Legal mapped' rest ∧ Covered latest' rest := by
  induction events generalizing s mapped latest with
  | nil => cases handled; exact ⟨mapped, latest, tracks, legal, covered⟩
  | cons event events ih =>
    obtain ⟨middle, first, remaining⟩ := Runs.cons_ok.mp handled
    obtain ⟨allowed, legal⟩ := legal
    obtain ⟨here, covered⟩ := covered
    exact ih (tracks.step allowed here first) legal covered remaining

structure Handled (p : Platform) (thread : Thread) (pre : List MapEvent) (args : MmapEnterArgs) (ret : BitVec 64)
    (mid : List MapEvent) (s₀ s₁ s₂ s₃ : State) : Prop where
  before : handleEvents p thread .start pre = .ok s₀
  mapped : handleEvent p thread s₀ (.mmap args ret) = .ok s₁
  between : handleEvents p thread s₁ mid = .ok s₂
  unmapped : handleEvent p thread s₂ (.munmap ret args.len) = .ok s₃

def Freed (before mapped unmapped : Table) : Prop :=
  ∀ i, before.objAlloc i ≠ 1 → mapped.objAlloc i = 1 → unmapped.objAlloc i ≠ 1

/-- The slots filled since `before` that are still live are those an unmapping
finds: the filter lets it through and no lower slot holds the same range. -/
def Found (latest : BitVec 64) (before mapped : Table) (t : Table) : Prop :=
  ∀ i, before.objAlloc i ≠ 1 → mapped.objAlloc i = 1 → t.objAlloc i = 1 →
    1000000 < latest ∧ ∀ j < i, t.slots j ≠ t.slots i

namespace Handled

variable {pre mid : List MapEvent} {s₀ s₁ s₂ s₃ : State}

theorem valid (handled : Handled p thread pre args ret mid s₀ s₁ s₂ s₃) : s₀.table.Valid :=
  (handleEvents_later handled.before start_valid).valid

theorem later (handled : Handled p thread pre args ret mid s₀ s₁ s₂ s₃) : s₁.table.Later s₂.table :=
  handleEvents_later handled.between (handleEvent_later handled.mapped handled.valid).valid

theorem used (handled : Handled p thread pre args ret mid s₀ s₁ s₂ s₃) {i : Fin maxObjects}
    (live : s₁.table.objAlloc i = 1) : i.val < s₂.table.totalObj :=
  ((handleEvent_later handled.mapped handled.valid).valid.live_below live).trans_le handled.later.total

theorem slot (handled : Handled p thread pre args ret mid s₀ s₁ s₂ s₃) (recorded : Recorded args) {i : Fin maxObjects}
    (free : s₀.table.objAlloc i ≠ 1) (live : s₁.table.objAlloc i = 1) (still : s₂.table.objAlloc i = 1) :
    ∃ piece ∈ Recorder.pieces ret args.len, s₂.table.slots i = some piece := by
  obtain ⟨_, inserted⟩ := handleEvent_mmap.mp handled.mapped
  rw [if_pos recorded] at inserted
  have inserted := Recorder.insertObject_inserted handled.valid inserted
  obtain ⟨piece, member, held⟩ := inserted.piece free live
  exact ⟨piece, member, (handled.later.slots live (inserted.valid.live_below live) still).trans held⟩

theorem freed_iff (handled : Handled p thread pre args ret mid s₀ s₁ s₂ s₃) (recorded : Recorded args) :
    Freed s₀.table s₁.table s₃.table ↔ Found (lastLen args.len mid) s₀.table s₁.table s₂.table := by
  have unmapped := handleEvent_later handled.unmapped handled.later.valid
  obtain ⟨seen, there, length⟩ := handleEvents_enter handled.between (handleEvent_mmap.mp handled.mapped).1
  -- one slot that is still live: whether the unmapping frees it
  have one {i : Fin maxObjects} (free : s₀.table.objAlloc i ≠ 1) (live : s₁.table.objAlloc i = 1)
      (still : s₂.table.objAlloc i = 1) : s₃.table.objAlloc i ≠ 1 ↔
        1000000 < lastLen args.len mid ∧ ∀ j < i, s₂.table.slots j ≠ s₂.table.slots i := by
    obtain ⟨piece, member, held⟩ := handled.slot recorded free live still
    rw [handleEvent_frees handled.unmapped handled.later.valid there held member, length]
  constructor
  · exact fun freed i free live still => (one free live still).mp (freed i free live)
  · intro found i free live last
    have still := unmapped.live i (handled.used live) last
    exact (one free live still).mpr (found i free live still) last

theorem freed (handled : Handled p thread pre args ret mid s₀ s₁ s₂ s₃) (recorded : Recorded args)
    (legal : Legal [] (history pre args ret mid)) (covered : Covered 0 (history pre args ret mid)) :
    Freed s₀.table s₁.table s₃.table := by
  have reached : handleEvents p thread .start (pre ++ .mmap args ret :: mid) = .ok s₂ :=
    Runs.append_ok.mpr ⟨s₀, handled.before, Runs.cons_ok.mpr ⟨s₁, handled.mapped, handled.between⟩⟩
  obtain ⟨mapped, latest, tracks, _, covered⟩ := start_tracks.run legal covered reached
  obtain ⟨seen, there, _, table⟩ := handleEvent_munmap.mp handled.unmapped
  rw [tracks.length seen there, if_pos (covered.1 recorded.2.2)] at table
  have later := handleEvent_later handled.unmapped tracks.valid
  intro i free live last
  have used := handled.used live
  have still := later.live i used last
  obtain ⟨piece, member, held⟩ := handled.slot recorded free live still
  have present : piece ∈ s₃.table.ranges := Slots.mem_bag.mpr ⟨i, (later.slots still used last).trans held⟩
  rw [table, Recorder.deallocateObject_ranges _ _ _ tracks.valid, Multiset.mem_sub_of_nodup tracks.kept.distinct] at present
  exact present.2 (Multiset.mem_coe.mpr member)

end Handled
end Interceptor

/-- A legal history that maps a region and later unmaps it is handled to its end.
Its slots are freed exactly when the unmapping finds those still live, and so
they are where every unmapping of a large region is covered. -/
theorem unmapping_recorded (p : Platform) (thread : Thread) {pre mid : List MapEvent} {args : MmapEnterArgs}
    {ret : BitVec 64} (legal : Legal [] (history pre args ret mid))
    (room : ((history pre args ret mid).map MapEvent.insertions).sum ≤ maxObjects)
    (recorded : Interceptor.Recorded args) :
    ∃ s₀ s₁ s₂ s₃, Interceptor.Handled p thread pre args ret mid s₀ s₁ s₂ s₃ ∧
      (Interceptor.Freed s₀.table s₁.table s₃.table ↔
        Interceptor.Found (lastLen args.len mid) s₀.table s₁.table s₂.table) ∧
      (Covered 0 (history pre args ret mid) →
        Interceptor.Freed s₀.table s₁.table s₃.table) := by
  obtain ⟨s₃, handled⟩ := (Interceptor.handleEvents_defined (s := .start) p thread start_valid).mpr
    ⟨Nat.le_trans (Nat.le_of_eq (Nat.zero_add _)) room, fun _ => legal.known rfl⟩
  obtain ⟨s₂, first, last⟩ := Runs.snoc_ok.mp handled
  obtain ⟨s₀, before, remaining⟩ := Runs.append_ok.mp first
  obtain ⟨s₁, mapped, between⟩ := Runs.cons_ok.mp remaining
  have handled : Interceptor.Handled p thread pre args ret mid s₀ s₁ s₂ s₃ := ⟨before, mapped, between, last⟩
  exact ⟨s₀, s₁, s₂, s₃, handled, handled.freed_iff recorded, handled.freed recorded legal⟩

theorem unmapping_recorded_page :
    let args : MmapEnterArgs := ⟨0, 2000000, 3, 34, -1, 0⟩
    (Legal [] (history [] args 4096 []) ∧ Interceptor.Recorded args) ∧
    ∃ s₀ s₁ s₂ s₃, Interceptor.Handled machine ⟨7, 7⟩ [] args 4096 [] s₀ s₁ s₂ s₃ ∧
      Interceptor.Freed s₀.table s₁.table s₃.table := by
  intro args
  have legal : Legal [] (history [] args 4096 []) := by decide
  have covered : Covered 0 (history [] args 4096 []) :=
    ⟨Or.inl (by decide), fun _ => by decide, trivial⟩
  refine ⟨⟨legal, by decide⟩, ?_⟩
  obtain ⟨s₀, s₁, s₂, s₃, handled, _, freed⟩ := unmapping_recorded machine ⟨7, 7⟩ legal (by decide) (by decide)
  exact ⟨s₀, s₁, s₂, s₃, handled, freed covered⟩

/-- A page is mapped before the region is unmapped, and its object stays live. -/
theorem unmapping_recorded_hidden :
    let args : MmapEnterArgs := ⟨0, 2000000, 3, 34, -1, 0⟩
    let mid : List MapEvent := [.mmap ⟨0, 4096, 3, 34, -1, 0⟩ 4194304]
    (Legal [] (history [] args 4096 mid) ∧ Interceptor.Recorded args) ∧
    ∃ s₀ s₁ s₂ s₃, Interceptor.Handled machine ⟨7, 7⟩ [] args 4096 mid s₀ s₁ s₂ s₃ ∧
      ¬ Interceptor.Freed s₀.table s₁.table s₃.table := by
  refine ⟨by decide, _, _, _, _, ⟨rfl, rfl, rfl, rfl⟩, ?_⟩
  intro freed
  exact freed 0 (by decide) (by decide) (by decide)

end OnlineScheduler
