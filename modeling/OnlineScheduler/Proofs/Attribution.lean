import OnlineScheduler.Proofs.TableInvariant

/-! To which object `get_vector_index` attributes an address. Its upper test
admits the end address, so an object also captures the first byte after it. -/

namespace OnlineScheduler

variable {p : Platform} {t t' : Table}

def Table.Owns (t : Table) (i : Fin maxObjects) (a : BitVec 64) : Prop :=
  t.objAlloc i = 1 ∧ (t.objVector i).startAddr.toNat ≤ a.toNat ∧
    a.toNat < (t.objVector i).startAddr.toNat + (t.objVector i).size.toNat

def Table.EndsAt (t : Table) (i : Fin maxObjects) (a : BitVec 64) : Prop :=
  t.objAlloc i = 1 ∧ (t.objVector i).startAddr.toNat + (t.objVector i).size.toNat = a.toNat

instance (t : Table) (i : Fin maxObjects) (a : BitVec 64) : Decidable (t.Owns i a) :=
  inferInstanceAs (Decidable (_ ∧ _ ∧ _))

instance (t : Table) (i : Fin maxObjects) (a : BitVec 64) : Decidable (t.EndsAt i a) :=
  inferInstanceAs (Decidable (_ ∧ _))

def Table.Ends (t : Table) : Prop :=
  ∀ i, t.objAlloc i = 1 → (t.objVector i).endAddr = (t.objVector i).startAddr + (t.objVector i).size

/-- Live objects stay below the top of the address space and share no address. -/
structure Table.Laid (t : Table) : Prop where
  ends : t.Ends
  inside : ∀ i, t.objAlloc i = 1 → (t.objVector i).startAddr.toNat + (t.objVector i).size.toNat ≤ 2 ^ 64
  disjoint : ∀ i j a, t.Owns i a → t.Owns j a → i = j

theorem Table.EndsAt.unowned {i : Fin maxObjects} {a : BitVec 64} (ending : t.EndsAt i a) : ¬ t.Owns i a := by
  intro owns
  have below := owns.2.2
  rw [ending.2] at below
  exact Nat.lt_irrefl _ below

theorem Store.ends (stored : Store p t t') (ends : t.Ends) : t'.Ends := by
  cases stored with
  | store pid startAddr size sliced slot found =>
    intro i live
    by_cases here : i = slot
    · subst here
      simp [Recorder.storeObject, Recorder.bindOrder, writeOrder, getMyTimestamp]
    · simp only [Recorder.storeObject, Recorder.bindOrder, writeOrder, getMyTimestamp,
        Function.update_of_ne here] at live ⊢
      exact ends i live

theorem Table.Same.ends (same : t.Same t') (ends : t.Ends) : t'.Ends := by
  intro i live
  rw [same.endAddr, same.startAddr, same.size]
  exact ends i (by rwa [← same.alloc])

theorem Write.ends (written : Write p t t') (ends : t.Ends) : t'.Ends := by
  cases written with
  | store stored => exact stored.ends ends
  | free freed =>
    intro i live
    rw [freed.frame.1]
    exact ends i (Frees.live (.single freed) live)
  | measure measured => exact measured.same.ends ends
  | touch touched => exact touched.same.ends ends

theorem Table.laid_adjacent (valid : t.Valid) (ends : t.Ends) (two : t.totalObj = 2)
    (adjacent : (t.objVector 1).startAddr.toNat = (t.objVector 0).startAddr.toNat + (t.objVector 0).size.toNat)
    (inside : (t.objVector 1).startAddr.toNat + (t.objVector 1).size.toNat ≤ 2 ^ 64) : t.Laid := by
  have either {i : Fin maxObjects} (live : t.objAlloc i = 1) : i = 0 ∨ i = 1 := by
    have below := valid.live_below live
    rw [two] at below
    rcases Nat.lt_succ_iff_lt_or_eq.mp below with first | second
    · exact Or.inl (Fin.ext (Nat.lt_one_iff.mp first))
    · exact Or.inr (Fin.ext second)
  refine ⟨ends, ?_, ?_⟩
  · intro i live
    rcases either live with rfl | rfl
    · omega
    · exact inside
  · intro i j a ownsI ownsJ
    have aboveI := ownsI.2
    have aboveJ := ownsJ.2
    rcases either ownsI.1 with rfl | rfl <;> rcases either ownsJ.1 with rfl | rfl
    · rfl
    · omega
    · omega
    · rfl

theorem State.run_ends {statusMemoryPages : Nat → ℚ} {actions : List Action} {s : State}
    (executed : (start statusMemoryPages).run p actions = .ok s) : s.table.Ends :=
  preserved Write.ends (run_writes executed) (fun _ live => by cases live)

namespace Monitor

def Captures (t : Table) (i : Fin maxObjects) (chave : BitVec 64) : Prop :=
  (t.objVector i).startAddr ≤ chave ∧ chave ≤ (t.objVector i).endAddr ∧ t.objAlloc i = 1

instance (t : Table) (i : Fin maxObjects) (chave : BitVec 64) : Decidable (Captures t i chave) :=
  inferInstanceAs (Decidable (_ ∧ _ ∧ _))

theorem captures_iff (laid : t.Laid) {i : Fin maxObjects} {a : BitVec 64} :
    Captures t i a ↔
      t.Owns i a ∧ (t.objVector i).startAddr.toNat + (t.objVector i).size.toNat < 2 ^ 64 ∨ t.EndsAt i a := by
  rw [Captures, Table.Owns, Table.EndsAt, BitVec.le_def, BitVec.le_def]
  by_cases live : t.objAlloc i = 1
  · have inside := laid.inside i live
    have bound := a.isLt
    have sizeBound := (t.objVector i).size.isLt
    rw [laid.ends i live, BitVec.toNat_add]
    rcases Nat.lt_or_eq_of_le inside with below | top
    · rw [Nat.mod_eq_of_lt below]
      simp only [live, and_true, true_and]
      omega
    · rw [top, Nat.mod_self]
      simp only [live, and_true, true_and]
      omega
  · simp only [live, and_false, false_and, or_self]

theorem getVectorIndex_captures (chave : BitVec 64) (t : Table) :
    getVectorIndex chave t = (scan maxObjects).find? (fun i => Captures t i chave) := rfl

theorem getVectorIndex_some {i : Fin maxObjects} {a : BitVec 64} :
    getVectorIndex a t = some i ↔ Captures t i a ∧ ∀ j < i, ¬ Captures t j a := by
  rw [getVectorIndex_captures]
  have first (captured : Captures t i a) :
      (scan maxObjects).find? (fun i => Captures t i a) = some i ↔ ∀ j < i, ¬ Captures t j a := by
    rw [scan_find i.isLt (decide_eq_true captured)]
    simp only [decide_eq_false_iff_not]
  constructor
  · intro found
    have captured : Captures t i a := by simpa using List.find?_some found
    exact ⟨captured, (first captured).mp found⟩
  · rintro ⟨captured, before⟩
    exact (first captured).mpr before

theorem getVectorIndex_none {a : BitVec 64} : getVectorIndex a t = none ↔ ∀ i, ¬ Captures t i a := by
  rw [getVectorIndex_captures, List.find?_eq_none]
  constructor
  · intro missing i captured
    exact missing i (mem_scan.mpr i.isLt) (decide_eq_true captured)
  · intro missing i _ captured
    exact missing i (of_decide_eq_true captured)

/-- The answer names the object that holds the address, and is -1 without one. -/
def Exact (t : Table) (a : BitVec 64) : Prop :=
  (∀ i, getVectorIndex a t = some i ↔ t.Owns i a) ∧ (getVectorIndex a t = none ↔ ∀ i, ¬ t.Owns i a)

theorem exact_of_owner (laid : t.Laid) {i : Fin maxObjects} {a : BitVec 64} (owns : t.Owns i a)
    (found : getVectorIndex a t = some i) : Exact t a := by
  refine ⟨fun j => ?_, ?_⟩
  · rw [found, Option.some.injEq]
    constructor
    · rintro rfl; exact owns
    · exact laid.disjoint i j a owns
  · rw [found]
    constructor
    · intro impossible; cases impossible
    · intro unowned; exact False.elim (unowned i owns)

theorem exact_of_unowned {a : BitVec 64} (unowned : ∀ i, ¬ t.Owns i a) (missing : getVectorIndex a t = none) :
    Exact t a := by
  refine ⟨fun i => ?_, ⟨fun _ => unowned, fun _ => missing⟩⟩
  rw [missing]
  constructor
  · intro impossible; cases impossible
  · intro owns; exact False.elim (unowned i owns)

/-- Attribution is exact at an address unless a live object ends there and the
scan meets it before the address's owner, or the owner reaches the top of the
address space, where the stored end wraps around. -/
theorem attribution_exact (laid : t.Laid) (a : BitVec 64) :
    Exact t a ↔
      (∀ i, t.Owns i a → (t.objVector i).startAddr.toNat + (t.objVector i).size.toNat < 2 ^ 64) ∧
      ∀ j, t.EndsAt j a → ∃ i < j, t.Owns i a := by
  constructor
  · rintro ⟨owner, unowned⟩
    constructor
    · intro i owns
      have captured := (getVectorIndex_some.mp ((owner i).mpr owns)).1
      rcases (captures_iff laid).mp captured with ⟨_, below⟩ | ending
      · exact below
      · exact False.elim (ending.unowned owns)
    · intro j ending
      have captured := (captures_iff laid).mpr (Or.inr ending)
      cases found : getVectorIndex a t with
      | none => exact False.elim (getVectorIndex_none.mp found j captured)
      | some i =>
        have owns := (owner i).mp found
        have first := (getVectorIndex_some.mp found).2
        have apart : i ≠ j := by intro same; subst same; exact ending.unowned owns
        have notAfter : ¬ j < i := fun after => first j after captured
        exact ⟨i, by omega, owns⟩
  · rintro ⟨below, bordered⟩
    by_cases owned : ∃ i, t.Owns i a
    · obtain ⟨i, owns⟩ := owned
      refine exact_of_owner laid owns (getVectorIndex_some.mpr ⟨(captures_iff laid).mpr (Or.inl ⟨owns, below i owns⟩), ?_⟩)
      intro j before captured
      rcases (captures_iff laid).mp captured with ⟨also, _⟩ | ending
      · have same := laid.disjoint j i a also owns
        omega
      · obtain ⟨k, earlier, also⟩ := bordered j ending
        have same := laid.disjoint k i a also owns
        omega
    · have unowned := fun i owns => owned ⟨i, owns⟩
      refine exact_of_unowned unowned (getVectorIndex_none.mpr ?_)
      intro i captured
      rcases (captures_iff laid).mp captured with ⟨owns, _⟩ | ending
      · exact unowned i owns
      · obtain ⟨k, _, owns⟩ := bordered i ending
        exact unowned k owns

/-- The object that ends last captures an address that belongs to nobody, so a
table with a live object is never exact everywhere. -/
theorem attribution_inexact (laid : t.Laid)
    (below : ∀ i, t.objAlloc i = 1 → (t.objVector i).startAddr.toNat + (t.objVector i).size.toNat < 2 ^ 64)
    {i : Fin maxObjects} (live : t.objAlloc i = 1) : ∃ a, ¬ Exact t a := by
  by_contra exact
  push Not at exact
  -- a chain of borders with falling slots cannot go on for ever
  induction i using WellFoundedLT.induction with
  | ind i ih =>
    let border := BitVec.ofNat 64 ((t.objVector i).startAddr.toNat + (t.objVector i).size.toNat)
    have ending : t.EndsAt i border := ⟨live, by rw [BitVec.toNat_ofNat, Nat.mod_eq_of_lt (below i live)]⟩
    obtain ⟨j, before, owns⟩ := ((attribution_exact laid border).mp (exact border)).2 i ending
    exact ih j before owns.1

end Monitor

theorem adjacent_chunks : ∃ s,
    (State.start fun _ => 0).run machine [.insertObject 7 4096 1000005632] = .ok s ∧ s.table.Laid ∧
    s.table.EndsAt 0 1000005632 ∧ s.table.Owns 1 1000005632 ∧ s.table.Owns 1 1000005633 := by
  have executed : (State.start fun _ => 0).run machine [.insertObject 7 4096 1000005632] = .ok _ := rfl
  have laid := Table.laid_adjacent (State.run_valid executed).1 (State.run_ends executed) rfl (by decide) (by decide)
  exact ⟨_, executed, laid, by decide, by decide, by decide⟩

/-- The byte where the second chunk begins goes to the first. -/
theorem attribution_border : ∃ s,
    (State.start fun _ => 0).run machine [.insertObject 7 4096 1000005632] = .ok s ∧ s.table.Laid ∧
    s.table.Owns 1 1000005632 ∧ Monitor.getVectorIndex 1000005632 s.table = some 0 ∧
    ¬ Monitor.Exact s.table 1000005632 := by
  obtain ⟨s, executed, laid, ending, owns, _⟩ := adjacent_chunks
  have found : Monitor.getVectorIndex 1000005632 s.table = some 0 :=
    Monitor.getVectorIndex_some.mpr ⟨(Monitor.captures_iff laid).mpr (Or.inr ending),
      fun j before => absurd before (Fin.not_lt_zero j)⟩
  refine ⟨s, executed, laid, owns, found, fun exact => ?_⟩
  exact ending.unowned ((exact.1 0).mp found)

theorem attribution_inside : ∃ s,
    (State.start fun _ => 0).run machine [.insertObject 7 4096 1000005632] = .ok s ∧ s.table.Laid ∧
    (Monitor.Exact s.table 1000005633 ↔
      (∀ i, s.table.Owns i 1000005633 →
        (s.table.objVector i).startAddr.toNat + (s.table.objVector i).size.toNat < 2 ^ 64) ∧
      ∀ j, s.table.EndsAt j 1000005633 → ∃ i < j, s.table.Owns i 1000005633) := by
  obtain ⟨s, executed, laid, _⟩ := adjacent_chunks
  exact ⟨s, executed, laid, Monitor.attribution_exact laid 1000005633⟩

end OnlineScheduler
