import OnlineScheduler.Loop
import OnlineScheduler.Proofs.TableInvariant
import OnlineScheduler.Proofs.Demotions
import OnlineScheduler.Proofs.Promotions
import OnlineScheduler.General.Spacing

/-! How often and how much `thread_actuator` orders out of DRAM. A flag and a
counter keep it from demoting in the two passes after a demotion, and a pass
moves little more than one chunk. -/

namespace OnlineScheduler

open Actuator Spacing

variable {p : Platform} {t t' : Table} {l l' : Loop}

/-- `sort_objects` may leave any list and `read_allocation_status` any status
that counts no page twice. -/
structure Routines.Modest (routines : Routines) : Prop where
  sort : ∀ {t globals globals'}, routines.sortObjects t globals = .ok globals' →
    globals'.hasDemotion = globals.hasDemotion
  status : ∀ {t statusMemoryPages t' statusMemoryPages'},
    routines.readAllocationStatus t statusMemoryPages = .ok (t', statusMemoryPages') →
    ∃ pageStatus : Fin maxObjects → Fin 4 → ℚ, (∀ i, pageStatus i 0 ≤ 1) ∧
      t' = { t with objVector := fun i => { t.objVector i with pageStatus := pageStatus i } }

/-- The other threads map, unmap and count; the actuator's own operations are
left to its loop. -/
def LoopAction.Modest : LoopAction → Prop
  | .other (.insertObject _ _ size) => size.toNat < 2 ^ 47
  | .other (.deallocateObject ..) | .other (.updateMetrics _) => True
  | .other _ => False
  | .advance routines _ => routines.Modest

/-- Every live object is one chunk at most and has no page twice in DRAM. -/
structure Table.Sized (t : Table) : Prop where
  valid : t.Valid
  size : ∀ i, t.objAlloc i = 1 → (t.objVector i).size.toNat ≤ chunkSize.toNat
  status : ∀ i, (t.objVector i).pageStatus 0 ≤ 1

theorem Table.Sized.resident (sized : t.Sized) {i : Fin maxObjects} (live : t.objAlloc i = 1) :
    dramResident t i ≤ chunkSize.toNat / gb := by
  have positive : (0 : ℚ) ≤ gb := by decide +kernel
  have whole : 0 ≤ ((t.objVector i).size.toNat : ℚ) / gb := div_nonneg (Nat.cast_nonneg _) positive
  calc dramResident t i
      ≤ (t.objVector i).size.toNat / gb * 1 := mul_le_mul_of_nonneg_left (sized.status i) whole
    _ ≤ chunkSize.toNat / gb := by
      rw [mul_one]
      exact div_le_div_of_nonneg_right (Nat.cast_le.mpr (sized.size i live)) positive

theorem Stores.pageStatus (stored : Stores p t t') (i : Fin maxObjects) :
    (t'.objVector i).pageStatus = (t.objVector i).pageStatus :=
  unchanged (fun t => (t.objVector i).pageStatus) (fun last => (last.carries i).2) stored

theorem Measures.pageStatus (measured : Measures t t') (i : Fin maxObjects) :
    (t'.objVector i).pageStatus = (t.objVector i).pageStatus :=
  unchanged (fun t => (t.objVector i).pageStatus) (fun last => last.pageStatus i) measured

theorem Table.Same.sized (same : t.Same t') (status : ∀ i, (t'.objVector i).pageStatus = (t.objVector i).pageStatus)
    (sized : t.Sized) : t'.Sized where
  valid := same.valid sized.valid
  size i live := by
    rw [same.size]
    exact sized.size i (by rwa [← same.alloc])
  status i := by
    rw [status]
    exact sized.status i

theorem State.step_sized {s s' : State} {action : Action} (modest : LoopAction.Modest (.other action))
    (executed : s.step p action = .ok s') (sized : s.table.Sized) : s'.table.Sized := by
  have effect := step_effect executed
  cases action with
  | insertObject pid startAddr size =>
    have inserted := Recorder.insertObject_inserted sized.valid (step_insert executed)
    refine ⟨inserted.valid, fun i live => ?_, fun i => ?_⟩
    · by_cases before : s.table.objAlloc i = 1
      · rw [(inserted.old i (sized.valid.live_below before)).1]
        exact sized.size i before
      · obtain ⟨k, piece, _, found, holds⟩ := inserted.fresh before live
        rw [holds.size]
        exact Recorder.chunks_size modest (List.mem_of_getElem? found)
    · rw [Stores.pageStatus effect]
      exact sized.status i
  | deallocateObject =>
    have later := Frees.later effect sized.valid
    refine ⟨later.valid, fun i live => ?_, fun i => ?_⟩
    · rw [(Frees.frame effect).1]
      exact sized.size i (Frees.live effect live)
    · rw [(Frees.frame effect).1]
      exact sized.status i
  | updateMetrics => exact (Measures.same effect).sized (Measures.pageStatus effect) sized
  | _ => exact absurd modest id

def Demoting (round : List ℚ) : Prop := round ≠ []

def Pc.Early : Pc → Prop
  | .waiting | .sortObjects | .testDemotion | .demotionStatus | .policyDemotion => True
  | _ => False

instance : DecidablePred Pc.Early
  | .waiting | .sortObjects | .testDemotion | .demotionStatus | .policyDemotion => .isTrue trivial
  | .testPromotion | .promotionStatus | .policyPromotion | .sleeping => .isFalse id

def Pc.Cleared : Pc → Prop
  | .waiting | .demotionStatus | .policyDemotion => True
  | _ => False

/-- The passes whose demotion is decided. -/
def Loop.past (l : Loop) : List (List ℚ) := if l.pc.Early then l.rounds else l.rounds ++ [l.demoted]

/-- How long ago the last demotion was, by the flag and the counter. -/
def Rested (hasDemotion count : Int) (log : List (List ℚ)) : Prop :=
  if hasDemotion = 0 then Quiet Demoting 2 log else 0 ≤ count ∧ count ≤ 1 ∧ Quiet Demoting count.toNat log

structure Loop.Paced (l : Loop) : Prop where
  spaced : Spaced Demoting 3 l.past
  rested : Rested l.system.globals.hasDemotion l.count l.past
  clear : l.pc.Early → l.demoted = []
  allowed : l.pc.Cleared → l.system.globals.hasDemotion = 0
  bounded : ∀ round ∈ l.past, round.sum ≤ dramLimit

theorem dramLimit_eq : dramLimit = chunkSize.toNat / gb + chunkSize.toNat / gb := by
  rw [dramLimit, two_mul, add_div]

theorem dramLimit_nonneg : 0 ≤ dramLimit := by decide +kernel

theorem Rested.wait {hasDemotion count : Int} {log : List (List ℚ)} (rested : Rested hasDemotion count log) :
    Rested hasDemotion count (log ++ [[]]) := by
  have idle : ¬ Demoting [] := fun some => some rfl
  rw [Rested] at rested ⊢
  split
  next off =>
    rw [if_pos off] at rested
    exact (rested.snoc idle).mono (by omega)
  next on =>
    rw [if_neg on] at rested
    exact ⟨rested.1, rested.2.1, (rested.2.2.snoc idle).mono (by omega)⟩

theorem Rested.advance {hasDemotion count : Int} {log : List (List ℚ)} (on : hasDemotion ≠ 0)
    (rested : Rested hasDemotion count log) :
    Rested (if count + 1 ≥ 2 then 0 else hasDemotion) (count + 1) (log ++ [[]]) := by
  have idle : ¬ Demoting [] := fun some => some rfl
  rw [Rested, if_neg on] at rested
  obtain ⟨nonneg, small, quiet⟩ := rested
  have later := quiet.snoc idle
  by_cases done : count + 1 ≥ 2
  · rw [if_pos done, Rested, if_pos rfl]
    exact later.mono (by omega)
  · rw [if_neg done, Rested, if_neg on]
    exact ⟨by omega, by omega, later.mono (by omega)⟩

namespace Loop

theorem Paced.stay (paced : l.Paced) (phase : l'.pc.Early ↔ l.pc.Early) (rounds : l'.rounds = l.rounds)
    (demoted : l'.demoted = l.demoted) (count : l'.count = l.count)
    (flag : l'.system.globals.hasDemotion = l.system.globals.hasDemotion)
    (allowed : l'.pc.Cleared → l.system.globals.hasDemotion = 0) : l'.Paced := by
  have past : l'.past = l.past := by simp only [Loop.past, phase, rounds, demoted]
  constructor
  case spaced => rw [past]; exact paced.spaced
  case rested => rw [past, flag, count]; exact paced.rested
  case clear => exact fun early => demoted.trans (paced.clear (phase.mp early))
  case allowed => rw [flag]; exact allowed
  case bounded => rw [past]; exact paced.bounded

theorem Paced.skip (paced : l.Paced) (early : l.pc.Early) (late : ¬ l'.pc.Early) (rounds : l'.rounds = l.rounds)
    (demoted : l'.demoted = l.demoted)
    (rested : Rested l'.system.globals.hasDemotion l'.count (l.past ++ [[]])) : l'.Paced := by
  have past : l'.past = l.past ++ [[]] := by
    rw [Loop.past, if_neg late, Loop.past, if_pos early, rounds, demoted, paced.clear early]
  constructor
  case spaced => rw [past]; exact paced.spaced.snoc fun some => absurd rfl some
  case rested => rw [past]; exact rested
  case clear => exact fun impossible => absurd impossible late
  case allowed =>
    intro cleared
    cases here : l'.pc <;> rw [here] at late cleared <;> first | exact absurd trivial late | exact absurd cleared id
  case bounded =>
    rw [past]
    intro round member
    rcases List.mem_append.mp member with before | last
    · exact paced.bounded round before
    · rw [List.mem_singleton.mp last]
      exact dramLimit_nonneg

theorem Paced.testDemotion (paced : l.Paced) (here : l.pc = .testDemotion) (freeDram : ℚ) :
    (l.testDemotion freeDram).Paced := by
  have early : l.pc.Early := by rw [here]; trivial
  rw [Loop.testDemotion]
  split
  next =>
    split
    next off => exact paced.stay (by simp [here, Pc.Early]) rfl rfl rfl rfl fun _ => off
    next on => exact paced.skip early (by simp [Pc.Early]) rfl rfl (paced.rested.advance on)
  next => exact paced.skip early (by simp [Pc.Early]) rfl rfl paced.rested.wait

theorem resident_demotionOrder (t : Table) (i : Fin maxObjects) :
    (demotionOrder t i).resident t 0 = dramResident t i := by
  have inside : 0 ≤ (i.val : Int) ∧ (i.val : Int).toNat < maxObjects := ⟨Int.natCast_nonneg _, by simp⟩
  exact dif_pos inside

theorem Paced.demote (paced : l.Paced) (here : l.pc = .policyDemotion) (sized : l.system.table.Sized) :
    (l.demote p).Paced := by
  have early : l.pc.Early := by rw [here]; trivial
  have off := paced.allowed (by rw [here]; trivial)
  have quiet : Quiet Demoting 2 l.past := by
    have rested := paced.rested
    rwa [Rested, if_pos off] at rested
  have proper : (0 : ℚ) ≤ chunkSize.toNat / gb := by decide +kernel
  obtain ⟨slots, trace, flag, total⟩ := policyDemotion_orders (p := p) proper (fun i => sized.resident)
    l.system.globals.ranked
  have demoted : (l.demote p).demoted = slots.map (dramResident l.system.table) := by
    change ((policyDemotion p l.system.globals.ranked l.system.table).1.trace.drop
      l.system.table.trace.length).map (Event.resident l.system.table 0) = _
    rw [trace, List.drop_left, List.map_map]
    exact List.map_congr_left fun i _ => resident_demotionOrder l.system.table i
  have past : (l.demote p).past = l.past ++ [slots.map (dramResident l.system.table)] := by
    rw [← demoted, Loop.past, Loop.past, if_pos early]
    rfl
  have marked : Demoting (slots.map (dramResident l.system.table)) ↔ slots ≠ [] := not_congr List.map_eq_nil_iff
  constructor
  case spaced => rw [past]; exact paced.spaced.snoc fun _ => quiet
  case rested =>
    change Rested (policyDemotion p l.system.globals.ranked l.system.table).2 0 _
    rw [past, flag]
    by_cases none : slots = []
    · rw [if_pos none, Rested, if_pos rfl]
      exact (quiet.snoc fun some => marked.mp some none).mono (by omega)
    · rw [if_neg none, Rested, if_neg one_ne_zero]
      exact ⟨le_rfl, zero_le_one, quiet_zero _ _⟩
  case clear => exact fun impossible => absurd impossible id
  case allowed => exact fun impossible => absurd impossible id
  case bounded =>
    rw [past]
    intro round member
    rcases List.mem_append.mp member with before | last
    · exact paced.bounded round before
    · rw [List.mem_singleton.mp last, dramLimit_eq]
      exact total

theorem Paced.advance {routines : Routines} {freeDram : ℚ} (paced : l.Paced) (sized : l.system.table.Sized)
    (modest : routines.Modest) (ok : l.advance p routines freeDram = .ok l') : l'.Paced := by
  rw [Loop.advance] at ok
  cases here : l.pc with
  | waiting =>
    rw [here] at ok
    cases ok
    have off := paced.allowed (by rw [here]; trivial)
    split
    next => exact paced
    next => exact paced.stay (by simp [here, Pc.Early]) rfl rfl rfl off.symm fun _ => off
  | sortObjects =>
    rw [here] at ok
    obtain ⟨globals, sorted, done⟩ := Runs.bind_ok.mp ok
    cases done
    exact paced.stay (by simp [here, Pc.Early]) rfl rfl rfl (modest.sort sorted) (by simp [Pc.Cleared])
  | testDemotion =>
    rw [here] at ok
    cases ok
    exact paced.testDemotion here freeDram
  | demotionStatus =>
    rw [here] at ok
    obtain ⟨⟨table, counters⟩, read, done⟩ := Runs.bind_ok.mp ok
    cases done
    exact paced.stay (by simp [here, Pc.Early]) rfl rfl rfl rfl fun _ => paced.allowed (by rw [here]; trivial)
  | policyDemotion =>
    rw [here] at ok
    cases ok
    exact paced.demote here sized
  | testPromotion =>
    rw [here] at ok
    cases ok
    refine paced.stay ?_ rfl rfl rfl rfl ?_
    · simp only [here]
      split <;> simp [Pc.Early]
    · simp only
      split <;> simp [Pc.Cleared]
  | promotionStatus =>
    rw [here] at ok
    obtain ⟨⟨table, counters⟩, read, done⟩ := Runs.bind_ok.mp ok
    cases done
    exact paced.stay (by simp [here, Pc.Early]) rfl rfl rfl rfl (by simp [Pc.Cleared])
  | policyPromotion =>
    rw [here] at ok
    cases ok
    exact paced.stay (by simp [here, Pc.Early, Loop.promote]) rfl rfl rfl rfl (by simp [Pc.Cleared, Loop.promote])
  | sleeping =>
    rw [here] at ok
    cases ok
    have past : l.past = l.rounds ++ [l.demoted] := by
      rw [Loop.past, here]
      rfl
    exact ⟨past ▸ paced.spaced, past ▸ paced.rested, fun _ => rfl, fun impossible => absurd impossible id,
      past ▸ paced.bounded⟩

theorem advance_sized {routines : Routines} {freeDram : ℚ} (sized : l.system.table.Sized) (modest : routines.Modest)
    (ok : l.advance p routines freeDram = .ok l') : l'.system.table.Sized := by
  rw [Loop.advance] at ok
  have read {table : Table} {counters : Nat → ℚ} (status :
      routines.readAllocationStatus l.system.table l.system.globals.statusMemoryPages = .ok (table, counters)) :
      table.Sized := by
    obtain ⟨pageStatus, small, rfl⟩ := modest.status status
    exact ⟨⟨sized.valid.cursor, sized.valid.bounded, sized.valid.unused⟩, sized.size, small⟩
  cases here : l.pc with
  | waiting =>
    rw [here] at ok
    cases ok
    split <;> exact sized
  | sortObjects =>
    rw [here] at ok
    obtain ⟨globals, sorted, done⟩ := Runs.bind_ok.mp ok
    cases done
    exact sized
  | testDemotion =>
    rw [here] at ok
    cases ok
    rw [Loop.testDemotion]
    split
    next => split <;> exact sized
    next => exact sized
  | demotionStatus | promotionStatus =>
    rw [here] at ok
    obtain ⟨⟨table, counters⟩, status, done⟩ := Runs.bind_ok.mp ok
    cases done
    exact read status
  | policyDemotion =>
    rw [here] at ok
    cases ok
    exact (Touches.same (demoteFrom_touches _ _ _ _)).sized (policyDemotion_field Object.pageStatus (fun _ _ => rfl) _) sized
  | testPromotion | sleeping =>
    rw [here] at ok
    cases ok
    exact sized
  | policyPromotion =>
    rw [here] at ok
    cases ok
    exact (Touches.same (promoteFrom_touches _ _ _ _)).sized (policyPromotion_field Object.pageStatus (fun _ _ _ => rfl) _)
      sized

theorem step_paced {action : LoopAction} (modest : action.Modest) (ok : l.step p action = .ok l')
    (holds : l.Paced ∧ l.system.table.Sized) : l'.Paced ∧ l'.system.table.Sized := by
  obtain ⟨paced, sized⟩ := holds
  cases action with
  | other action =>
    obtain ⟨system, executed, done⟩ := Runs.bind_ok.mp ok
    cases done
    refine ⟨paced.stay Iff.rfl rfl rfl rfl ?_ paced.allowed, State.step_sized modest executed sized⟩
    cases action with
    | insertObject =>
      obtain ⟨table, _, done⟩ := Runs.bind_ok.mp executed
      cases done
      rfl
    | deallocateObject => cases executed; rfl
    | updateMetrics => cases executed; rfl
    | _ => exact absurd modest id
  | advance routines freeDram => exact ⟨paced.advance sized modest ok, advance_sized sized modest ok⟩

theorem start_paced (statusMemoryPages : Nat → ℚ) :
    (start statusMemoryPages).Paced ∧ (start statusMemoryPages).system.table.Sized := by
  constructor
  · constructor
    case spaced => exact fun i _ inside => absurd inside (Nat.not_lt_zero i)
    case rested => exact fun i inside => absurd inside (Nat.not_lt_zero i)
    case clear => exact fun _ => rfl
    case allowed => exact fun _ => rfl
    case bounded => exact fun round member => absurd member List.not_mem_nil
  · exact ⟨start_valid, fun i live => absurd live zero_ne_one, fun i => zero_le_one⟩

/-- The passes so far, the current one included. -/
def log (l : Loop) : List (List ℚ) := l.rounds ++ [l.demoted]

theorem Paced.log (paced : l.Paced) : Spaced Demoting 3 l.log ∧ ∀ round ∈ l.log, round.sum ≤ dramLimit := by
  by_cases early : l.pc.Early
  · have same : l.log = l.past ++ [[]] := by rw [Loop.log, paced.clear early, Loop.past, if_pos early]
    rw [same]
    refine ⟨paced.spaced.snoc fun some => absurd rfl some, fun round member => ?_⟩
    rcases List.mem_append.mp member with before | last
    · exact paced.bounded round before
    · rw [List.mem_singleton.mp last]
      exact dramLimit_nonneg
  · have same : l.log = l.past := by rw [Loop.log, Loop.past, if_neg early]
    rw [same]
    exact ⟨paced.spaced, paced.bounded⟩

/-- Demotions are at least three passes apart, and any three passes in a row
order at most two chunks out of DRAM. -/
theorem demotion_rate {statusMemoryPages : Nat → ℚ} {actions : List LoopAction}
    (modest : ∀ action ∈ actions, action.Modest) (ok : (start statusMemoryPages).run p actions = .ok l) :
    (∀ i j (first : i < l.log.length) (last : j < l.log.length), i < j → l.log[i] ≠ [] → l.log[j] ≠ [] → i + 3 ≤ j) ∧
    ∀ i, ((l.log.drop i).take 3).flatten.sum ≤ dramLimit := by
  obtain ⟨paced, _⟩ := Runs.invariant (fun l => l.Paced ∧ l.system.table.Sized)
    (fun action member _ _ => step_paced (modest action member)) ok (start_paced statusMemoryPages)
  obtain ⟨spaced, bounded⟩ := paced.log
  refine ⟨spaced, fun i => ?_⟩
  rw [List.sum_flatten]
  refine total_le dramLimit_nonneg (spaced.window i) ?_ ?_
  · exact fun round member => bounded round (List.mem_of_mem_drop (List.mem_of_mem_take member))
  · intro round idle
    rw [not_not.mp idle]
    rfl

def cold : Routines where
  sortObjects _ globals := .ok { globals with activeObj := 1 }
  readAllocationStatus t statusMemoryPages :=
    .ok ({ t with objVector := fun i => { t.objVector i with pageStatus := fun _ => 1 } }, statusMemoryPages)

theorem cold_modest : cold.Modest where
  sort sorted := by cases sorted; rfl
  status read := by
    cases read
    exact ⟨fun _ _ => 1, fun _ => le_rfl, rfl⟩

def pressed : List LoopAction :=
  .other (.insertObject 7 4096 600002560) :: List.replicate 6 (.other (.insertObject 7 1000005632 4096)) ++
    List.replicate 5 (.advance cold 1)

theorem demotion_rate_pressed : ∃ l, (start fun _ => 0).run machine pressed = .ok l ∧ l.demoted ≠ [] ∧
    ∀ i, ((l.log.drop i).take 3).flatten.sum ≤ dramLimit := by
  have passed : Runs.ends (fun l => l.demoted ≠ []) ((start fun _ => 0).run machine pressed) = true := by decide +kernel
  obtain ⟨l, executed, demoted⟩ := Runs.ends_ok passed
  refine ⟨l, executed, of_decide_eq_true demoted, (demotion_rate ?_ executed).2⟩
  intro action member
  rcases List.mem_cons.mp member with rfl | later
  · exact (by decide : (600002560 : BitVec 64).toNat < 2 ^ 47)
  · rcases List.mem_append.mp later with mapped | advanced
    · rw [List.eq_of_mem_replicate mapped]
      exact (by decide : (4096 : BitVec 64).toNat < 2 ^ 47)
    · rw [List.eq_of_mem_replicate advanced]
      exact cold_modest

end Loop

end OnlineScheduler
