import OnlineScheduler.HashMap
import OnlineScheduler.General.RobinHood
import Mathlib.Data.ZMod.Basic

/-! The loops over the buckets, on the ring that the mask makes of them. An item
of the ring is an entry with its hash, and the hash is its home. -/

namespace OnlineScheduler.HashMap
open RobinHood

variable {α : Type} {n : ℕ} {functions : Functions α} {same : Setoid α}

def Bucket.cell (bucket : Bucket α) : Cell (BitVec 48 × α) := ⟨bucket.dib.toNat, bucket.hash, bucket.item⟩

def ring (n : ℕ) (buckets : ℕ → Bucket α) (j : ZMod n) : Cell (BitVec 48 × α) := (buckets j.val).cell

def home (n : ℕ) (entry : BitVec 48 × α) : ZMod n := entry.1.toNat

/-- `compare` is 0 between items that are the same, wherever they lie. -/
def Compares (functions : Functions α) (same : Setoid α) : Prop :=
  ∀ p x q y, p ≠ q → (functions.compare p x q y = 0 ↔ same x y)

/-- What the loops tell items apart by. -/
def key (same : Setoid α) (entry : BitVec 48 × α) : BitVec 48 × Quotient same := (entry.1, Quotient.mk same entry.2)

theorem Compares.key_eq (compares : Compares functions same) {p q : Place} (apart : p ≠ q) {first second : BitVec 48 × α} :
    first.1 = second.1 ∧ functions.compare p first.2 q second.2 = 0 ↔ key same first = key same second := by
  rw [compares p first.2 q second.2 apart, key, key, Prod.mk.injEq, Quotient.eq]

structure Sized (n : ℕ) (map : Hashmap α) : Prop where
  power : ∃ k, n = 2 ^ k
  mask : map.mask = n - 1
  allocated : n ≤ map.allocated

variable {map : Hashmap α} {i : ℕ}

theorem Sized.store (sized : Sized n map) (i : ℕ) (bucket : Bucket α) : Sized n (map.store i bucket) :=
  ⟨sized.power, sized.mask, sized.allocated⟩

theorem Sized.bucketAt (sized : Sized n map) (inside : i < n) : map.bucketAt i = some (map.buckets i) :=
  if_pos (inside.trans_le sized.allocated)

private theorem Sized.masked (sized : Sized n map) (index : ℕ) : index &&& map.mask = index % n := by
  obtain ⟨k, size⟩ := sized.power
  rw [sized.mask, size, Nat.and_two_pow_sub_one_eq_mod]

section
variable [NeZero n]

theorem Sized.next_lt (sized : Sized n map) (i : ℕ) : map.next i < n := by
  rw [Hashmap.next, sized.masked]
  exact Nat.mod_lt _ (NeZero.pos n)

omit [NeZero n] in
theorem Sized.next_cast (sized : Sized n map) (i : ℕ) : (map.next i : ZMod n) = i + 1 := by
  rw [Hashmap.next, sized.masked, ZMod.natCast_mod, Nat.cast_succ]

theorem Sized.start_lt (sized : Sized n map) (hash : BitVec 48) : map.start hash < n := by
  rw [Hashmap.start, sized.masked]
  exact Nat.mod_lt _ (NeZero.pos n)

omit [NeZero n] in
theorem Sized.start_cast (sized : Sized n map) (entry : BitVec 48 × α) : (map.start entry.1 : ZMod n) = home n entry := by
  rw [Hashmap.start, sized.masked, ZMod.natCast_mod, home]

omit [NeZero n] in
theorem ring_at {buckets : ℕ → Bucket α} (inside : i < n) : ring n buckets i = (buckets i).cell := by
  rw [ring, ZMod.val_natCast_of_lt inside]

theorem ring_update {buckets : ℕ → Bucket α} (inside : i < n) (bucket : Bucket α) :
    ring n (Function.update buckets i bucket) = Function.update (ring n buckets) i bucket.cell := by
  funext j
  by_cases here : j = i
  · subst here
    rw [Function.update_self, ring_at inside, Function.update_self]
  · rw [Function.update_of_ne here, ring, ring, Function.update_of_ne]
    rintro rfl
    exact here (ZMod.natCast_zmod_val j).symm

omit [NeZero n] in
private theorem further {i : ℕ} (sized : Sized n map) (s : ℕ) : (i : ZMod n) + (s + 1 : ℕ) = map.next i + s := by
  rw [sized.next_cast, Nat.cast_succ, add_assoc, add_comm (s : ZMod n)]

omit [NeZero n] in
theorem free_iff (buckets : ℕ → Bucket α) (inside : i < n) : (buckets i).dib = 0 ↔ (ring n buckets i).dib = 0 := by
  rw [ring_at inside]
  exact BitVec.toNat_inj.symm

open Classical in
omit [NeZero n] in
private theorem search_step (compares : Compares functions same) (sized : Sized n map) (wanted : BitVec 48 × α)
    (inside : i < n) (rounds : ℕ) :
    search functions map wanted.1 wanted.2 (rounds + 1) i =
      if (ring n map.buckets i).dib = 0 then some none
      else if key same wanted = key same (ring n map.buckets i).item then some (some i)
      else search functions map wanted.1 wanted.2 rounds (map.next i) := by
  have matched : (map.buckets i).hash = wanted.1 ∧ functions.compare .key wanted.2 (.bucket i) (map.buckets i).item = 0 ↔
      key same wanted = key same (ring n map.buckets i).item := by
    rw [ring_at inside, ← compares.key_eq (by simp : Place.key ≠ .bucket i), eq_comm]
    rfl
  rw [search, sized.bucketAt inside]
  simp only [Option.bind_eq_bind, Option.bind_some, Option.pure_def, free_iff map.buckets inside, matched]

/-- A search ends at the first bucket that is free or has the key. -/
theorem search_stops (compares : Compares functions same) (sized : Sized n map) {wanted : BitVec 48 × α} {s : ℕ}
    (stop : (ring n map.buckets (i + s)).dib = 0 ∨ key same wanted = key same (ring n map.buckets (i + s)).item)
    (on : ∀ t < s, (ring n map.buckets (i + t)).dib ≠ 0 ∧ key same wanted ≠ key same (ring n map.buckets (i + t)).item)
    (inside : i < n) {rounds : ℕ} (enough : s < rounds) :
    search functions map wanted.1 wanted.2 rounds i =
      some (if (ring n map.buckets (i + s)).dib = 0 then none else some (i + s : ZMod n).val) := by
  obtain ⟨rounds, rfl⟩ := Nat.exists_eq_add_of_lt (Nat.zero_lt_of_lt enough)
  rw [Nat.zero_add] at enough ⊢
  rw [search_step compares sized wanted inside]
  induction s generalizing i rounds with
  | zero =>
    rw [Nat.cast_zero, add_zero] at stop ⊢
    rw [ZMod.val_natCast_of_lt inside]
    split
    next => rfl
    next used => rw [if_pos (stop.resolve_left used)]
  | succ s ih =>
    obtain ⟨used, other⟩ := on 0 (Nat.succ_pos s)
    rw [Nat.cast_zero, add_zero] at used other
    obtain ⟨rounds, rfl⟩ := Nat.exists_eq_succ_of_ne_zero (by omega : rounds ≠ 0)
    rw [if_neg used, if_neg other, search_step compares sized wanted (sized.next_lt i)]
    rw [further sized] at stop ⊢
    apply ih stop ?_ (sized.next_lt i) rounds (by omega)
    intro t before
    rw [← further sized]
    exact on (t + 1) (by omega)

/-- A search in a table that is not full comes to the item with its key, or
there is none. -/
theorem search_finds (compares : Compares functions same) (sized : Sized n map)
    (sound : Sound (home n) (ring n map.buckets)) (room : (contents (ring n map.buckets)).card < n)
    (wanted : BitVec 48 × α) :
    (search functions map wanted.1 wanted.2 n (map.start wanted.1) = some none ∧
      key same wanted ∉ (contents (ring n map.buckets)).map (key same)) ∨
    ∃ i < n, search functions map wanted.1 wanted.2 n (map.start wanted.1) = some (some i) ∧
      (ring n map.buckets i).dib ≠ 0 ∧ key same wanted = key same (ring n map.buckets i).item := by
  classical
  obtain ⟨limit, few, free⟩ := free_near room (home n wanted)
  have stops : ∃ s : ℕ, (ring n map.buckets (home n wanted + s)).dib = 0 ∨
      key same wanted = key same (ring n map.buckets (home n wanted + s)).item := ⟨limit, Or.inl free⟩
  have on : ∀ t < Nat.find stops, _ := fun t before => not_or.mp (Nat.find_min stops before)
  have stop := Nat.find_spec stops
  have early : Nat.find stops < n := ((Nat.find_min' stops (Or.inl free)).trans few).trans_lt room
  generalize Nat.find stops = s at on stop early
  have found : search functions map wanted.1 wanted.2 n (map.start wanted.1) = _ :=
    search_stops (s := s) compares sized (by rwa [sized.start_cast]) (by rwa [sized.start_cast]) (sized.start_lt _) early
  rw [sized.start_cast] at found
  by_cases empty : (ring n map.buckets (home n wanted + s)).dib = 0
  · rw [if_pos empty] at found
    refine Or.inl ⟨found, ?_⟩
    intro member
    obtain ⟨entry, member, matched⟩ := Multiset.mem_map.mp member
    obtain ⟨j, used, rfl⟩ := mem_contents.mp member
    apply sound.absent (h := home n wanted) (P := fun entry => key same wanted = key same entry)
      (empty.trans_le (Nat.zero_le s)) (fun t before => (on t before).2) used ?_ matched.symm
    rw [home, home, (Prod.mk.inj matched).1]
  · rw [if_neg empty] at found
    refine Or.inr ⟨_, ZMod.val_lt _, found, ?_⟩
    rw [ZMod.natCast_zmod_val]
    exact ⟨empty, stop.resolve_left empty⟩

omit [NeZero n] in
private theorem rehash_step (sized : Sized n map) (inside : i < n) (entry : Bucket α) (rounds : ℕ) :
    rehash (rounds + 1) map i entry =
      if (ring n map.buckets i).dib = 0 then some (map.store i entry)
      else if (ring n map.buckets i).dib < entry.dib.toNat then
        rehash rounds (map.store i entry) (map.next i) { map.buckets i with dib := (map.buckets i).dib + 1 }
      else rehash rounds map (map.next i) { entry with dib := entry.dib + 1 } := by
  rw [rehash, sized.bucketAt inside]
  simp only [Option.bind_eq_bind, Option.bind_some, Option.pure_def, free_iff map.buckets inside, BitVec.lt_def]
  rw [ring_at inside]
  rfl

theorem store_ring (inside : i < n) (bucket : Bucket α) :
    ring n (map.store i bucket).buckets = Function.update (ring n map.buckets) i bucket.cell :=
  ring_update inside bucket

private theorem succ_toNat {dib : BitVec 16} {limit : ℕ} (few : limit < 2 ^ 16) (below : dib.toNat + 1 ≤ limit) :
    (dib + 1).toNat = dib.toNat + 1 := by
  rw [BitVec.toNat_add]
  exact Nat.mod_eq_of_lt (below.trans_lt few)

open Classical in
omit [NeZero n] in
private theorem setLoop_step (compares : Compares functions same) (sized : Sized n map) (inside : i < n)
    (entry : Bucket α) (rounds : ℕ) :
    setLoop functions (rounds + 1) map i entry =
      if (ring n map.buckets i).dib = 0 then some ({ map.store i entry with count := map.count + 1 }, none)
      else if key same (entry.hash, entry.item) = key same (ring n map.buckets i).item then
        some (map.store i { map.buckets i with item := entry.item }, some (map.buckets i).item)
      else if (ring n map.buckets i).dib < entry.dib.toNat then
        setLoop functions rounds (map.store i entry) (map.next i) { map.buckets i with dib := (map.buckets i).dib + 1 }
      else setLoop functions rounds map (map.next i) { entry with dib := entry.dib + 1 } := by
  have matched : entry.hash = (map.buckets i).hash ∧
      functions.compare .edata entry.item (.bucket i) (map.buckets i).item = 0 ↔
      key same (entry.hash, entry.item) = key same (ring n map.buckets i).item := by
    rw [ring_at inside, ← compares.key_eq (by simp : Place.edata ≠ .bucket i)]
    rfl
  rw [setLoop, sized.bucketAt inside]
  simp only [Option.bind_eq_bind, Option.bind_some, Option.pure_def, free_iff map.buckets inside, BitVec.lt_def, matched]
  rw [ring_at inside]
  rfl

/-- An item that is not there goes the way of one that is rehashed. -/
theorem setLoop_absent (compares : Compares functions same) (sized : Sized n map) (entry : Bucket α)
    (distinct : Distinct (key same) (ring n map.buckets))
    (absent : key same (entry.hash, entry.item) ∉ (contents (ring n map.buckets)).map (key same))
    (inside : i < n) (rounds : ℕ) :
    setLoop functions rounds map i entry =
      (rehash rounds map i entry).map fun map => ({ map with count := map.count + 1 }, none) := by
  induction rounds generalizing map i entry with
  | zero => rfl
  | succ rounds ih =>
    rw [setLoop_step compares sized inside, rehash_step sized inside]
    split
    next => rfl
    next used =>
      have other : key same (entry.hash, entry.item) ≠ key same (ring n map.buckets i).item := by
        intro matched
        rw [matched] at absent
        exact absent (Multiset.mem_map_of_mem _ (mem_contents.mpr ⟨i, used, rfl⟩))
      rw [if_neg other]
      split
      next nearer =>
        have swapped := contents_swap used (Nat.ne_zero_of_lt nearer) (entry.hash, entry.item)
        rw [ring_at inside] at swapped
        change _ ::ₘ contents (Function.update _ _ entry.cell) = _ at swapped
        rw [← store_ring inside] at swapped
        have keys := congrArg (Multiset.map (key same)) swapped
        rw [Multiset.map_cons, Multiset.map_cons] at keys
        have nodup := Multiset.nodup_cons.mpr ⟨absent, distinct⟩
        rw [← keys, Multiset.nodup_cons] at nodup
        exact ih (sized.store i entry) { map.buckets i with dib := (map.buckets i).dib + 1 } nodup.2 nodup.1 (sized.next_lt i)
      next => exact ih sized { entry with dib := entry.dib + 1 } distinct absent (sized.next_lt i)

private theorem setLoop_present (compares : Compares functions same) (sized : Sized n map) (entry : Bucket α) {s : ℕ}
    (on : ∀ t ≤ s, entry.dib.toNat + t ≤ (ring n map.buckets (i + t)).dib) (travels : entry.dib.toNat ≠ 0)
    (others : ∀ t < s, key same (entry.hash, entry.item) ≠ key same (ring n map.buckets (i + t)).item)
    (matched : key same (entry.hash, entry.item) = key same (ring n map.buckets (i + s)).item)
    (inside : i < n) (rounds : ℕ) (enough : s < rounds) :
    let there := (i + s : ZMod n).val
    setLoop functions rounds map i entry =
      some (map.store there { map.buckets there with item := entry.item }, some (map.buckets there).item) := by
  obtain ⟨rounds, rfl⟩ := Nat.exists_eq_add_of_lt (Nat.zero_lt_of_lt enough)
  rw [Nat.zero_add] at enough ⊢
  induction s generalizing i entry rounds with
  | zero =>
    have here := on 0 le_rfl
    rw [Nat.add_zero, Nat.cast_zero, add_zero] at here
    rw [Nat.cast_zero, add_zero] at matched ⊢
    rw [setLoop_step compares sized inside, if_neg (by omega), if_pos matched, ZMod.val_natCast_of_lt inside]
  | succ s ih =>
    have here := on 0 (Nat.zero_le _)
    have other := others 0 (Nat.succ_pos s)
    have last := on (s + 1) le_rfl
    rw [Nat.add_zero, Nat.cast_zero, add_zero] at here
    rw [Nat.cast_zero, add_zero] at other
    obtain ⟨rounds, rfl⟩ := Nat.exists_eq_succ_of_ne_zero (by omega : rounds ≠ 0)
    rw [setLoop_step compares sized inside, if_neg (by omega), if_neg other, if_neg (by omega)]
    have short : (ring n map.buckets (i + (s + 1 : ℕ))).dib < 2 ^ 16 := (map.buckets _).dib.isLt
    have longer : (entry.dib + 1).toNat = entry.dib.toNat + 1 := succ_toNat short (by omega)
    rw [further sized] at matched ⊢
    apply ih { entry with dib := entry.dib + 1 } ?_ ?_ ?_ matched (sized.next_lt i) rounds (by omega)
    · intro t before
      have on := on (t + 1) (by omega)
      rw [longer, ← further sized]
      omega
    · rw [longer]
      exact Nat.succ_ne_zero _
    · intro t before
      rw [← further sized]
      exact others (t + 1) (by omega)

/-- A new version of an item takes its place. -/
theorem setLoop_replaces (compares : Compares functions same) (sized : Sized n map)
    (sound : Sound (home n) (ring n map.buckets)) (distinct : Distinct (key same) (ring n map.buckets))
    (room : (contents (ring n map.buckets)).card < n) {entry : Bucket α} (fresh : entry.dib = 1) {j : ZMod n}
    (used : (ring n map.buckets j).dib ≠ 0)
    (matched : key same (entry.hash, entry.item) = key same (ring n map.buckets j).item) :
    setLoop functions n map (map.start entry.hash) entry =
      some (map.store j.val { map.buckets j.val with item := entry.item }, some (map.buckets j.val).item) := by
  have start : (map.start entry.hash : ZMod n) = home n (ring n map.buckets j).item := by
    rw [sized.start_cast (entry.hash, entry.item), home, home, (Prod.mk.inj matched).1]
  have near := sound.dib_le room j
  have reached : (map.start entry.hash + ((ring n map.buckets j).dib - 1 : ℕ) : ZMod n) = j := by
    rw [start, Nat.cast_sub (by omega), Nat.cast_one, ← add_sub_assoc, sound.located j used, add_sub_cancel_right]
  have path : ∀ t ≤ (ring n map.buckets j).dib - 1, entry.dib.toNat + t ≤ (ring n map.buckets (map.start entry.hash + t)).dib := by
    intro t before
    have path := sound.path (show t < (ring n map.buckets j).dib by omega)
    rw [start, fresh]
    change 1 + t ≤ _
    omega
  have others : ∀ t < (ring n map.buckets j).dib - 1,
      key same (entry.hash, entry.item) ≠ key same (ring n map.buckets (map.start entry.hash + t)).item := by
    intro t before again
    have taken := path t before.le
    rw [fresh] at taken
    change 1 + t ≤ _ at taken
    have here := distinct.only (by omega) used (again.symm.trans matched)
    rw [← reached] at here
    exact before.ne (steps_injective (by omega) (by omega) here)
  have stored := setLoop_present compares sized entry path (by rw [fresh]; decide) others (by rw [reached]; exact matched)
    (sized.start_lt entry.hash) n (by omega)
  rwa [reached] at stored

private theorem shiftBack_step (sized : Sized n map) (prev : ℕ) (rounds : ℕ) :
    shiftBack (rounds + 1) map prev =
      if (ring n map.buckets (prev + 1)).dib ≤ 1 then some (map.store prev { map.buckets prev with dib := 0 })
      else shiftBack rounds (map.store prev
        { map.buckets (map.next prev) with dib := (map.buckets (map.next prev)).dib - 1 }) (map.next prev) := by
  rw [shiftBack, sized.bucketAt (sized.next_lt prev), ← sized.next_cast, ring_at (sized.next_lt prev)]
  simp only [Option.bind_eq_bind, Option.bind_some, Option.pure_def, BitVec.le_def]
  rfl

variable [Nontrivial (ZMod n)]

private theorem rehash_put (sized : Sized n map) (sound : Sound (home n) (ring n map.buckets)) {entry : Bucket α}
    (ready : Ready (home n) (ring n map.buckets) i entry.dib.toNat (entry.hash, entry.item))
    (inside : i < n) (free : (ring n map.buckets i).dib = 0) (rounds : ℕ) :
    ∃ buckets, rehash (rounds + 1) map i entry = some { map with buckets } ∧ Sound (home n) (ring n buckets) ∧
      contents (ring n buckets) = (entry.hash, entry.item) ::ₘ contents (ring n map.buckets) := by
  rw [rehash_step sized inside, if_pos free]
  refine ⟨_, rfl, ?_⟩
  rw [ring_update inside]
  exact ⟨ready.put sound (free.trans_le (Nat.zero_le _)), contents_put free ready.travels _⟩

/-- An entry ends up in the table, and what it displaces on its way too. -/
theorem rehash_settles (sized : Sized n map) (sound : Sound (home n) (ring n map.buckets)) (entry : Bucket α)
    (ready : Ready (home n) (ring n map.buckets) i entry.dib.toNat (entry.hash, entry.item))
    (room : (contents (ring n map.buckets)).card < n) (few : (contents (ring n map.buckets)).card + 1 < 2 ^ 16)
    (inside : i < n) {s : ℕ} (free : (ring n map.buckets (i + s)).dib = 0) (rounds : ℕ) (enough : s < rounds) :
    ∃ buckets, rehash rounds map i entry = some { map with buckets } ∧ Sound (home n) (ring n buckets) ∧
      contents (ring n buckets) = (entry.hash, entry.item) ::ₘ contents (ring n map.buckets) := by
  obtain ⟨rounds, rfl⟩ := Nat.exists_eq_add_of_lt (Nat.zero_lt_of_lt enough)
  rw [Nat.zero_add] at enough ⊢
  induction s generalizing map i entry rounds with
  | zero =>
    rw [Nat.cast_zero, add_zero] at free
    exact rehash_put sized sound ready inside free rounds
  | succ s ih =>
    by_cases used : (ring n map.buckets i).dib = 0
    · exact rehash_put sized sound ready inside used rounds
    rw [further sized] at free
    obtain ⟨rounds, rfl⟩ := Nat.exists_eq_succ_of_ne_zero (by omega : rounds ≠ 0)
    rw [rehash_step sized inside, if_neg used]
    split
    next nearer =>
      have apart : (map.next i + s : ZMod n) ≠ i := by
        intro around
        rw [around] at free
        exact used free
      rw [← Function.update_of_ne apart entry.cell (ring n map.buckets), ← store_ring inside] at free
      have put := ready.put sound nearer.le
      have travels := sound.swap used nearer.le (entry.hash, entry.item)
      have swapped := contents_swap used ready.travels (entry.hash, entry.item)
      rw [ring_at inside] at travels swapped
      change Sound (home n) (Function.update _ _ entry.cell) at put
      change Ready (home n) (Function.update _ _ entry.cell) _ ((map.buckets i).dib.toNat + 1) _ at travels
      change _ ::ₘ contents (Function.update _ _ entry.cell) = _ at swapped
      rw [← store_ring inside] at put travels swapped
      have as_many := congrArg Multiset.card swapped
      rw [Multiset.card_cons, Multiset.card_cons, Nat.add_right_cancel_iff] at as_many
      rw [← as_many] at room few
      rw [← sized.next_cast, ← succ_toNat few (travels.travels_le put room)] at travels
      obtain ⟨buckets, done, kept, items⟩ := ih (sized.store i entry) put
        { map.buckets i with dib := (map.buckets i).dib + 1 } travels room few (sized.next_lt i) free rounds (by omega)
      exact ⟨buckets, done, kept, items.trans swapped⟩
    next passed =>
      have travels := ready.skip (not_lt.mp passed)
      have short := travels.travels_le sound room
      apply ih sized sound { entry with dib := entry.dib + 1 } ?_ room few (sized.next_lt i) free rounds (by omega)
      rw [sized.next_cast, succ_toNat few short]
      exact travels

/-- The next items step back until one is at home. -/
theorem shiftBack_closes (sized : Sized n map) {prev : ℕ} (holed : Holed (home n) (ring n map.buckets) prev)
    (inside : prev < n) {s : ℕ} (near : (ring n map.buckets (prev + 1 + s)).dib ≤ 1) (around : s + 1 < n)
    (rounds : ℕ) (enough : s < rounds) :
    ∃ buckets, shiftBack rounds map prev = some { map with buckets } ∧ Sound (home n) (ring n buckets) ∧
      contents (ring n buckets) = remaining (ring n map.buckets) prev := by
  obtain ⟨rounds, rfl⟩ := Nat.exists_eq_add_of_lt (Nat.zero_lt_of_lt enough)
  rw [Nat.zero_add] at enough ⊢
  induction s generalizing map prev rounds with
  | zero =>
    rw [Nat.cast_zero, add_zero] at near
    rw [shiftBack_step sized, if_pos near]
    refine ⟨_, rfl, ?_⟩
    rw [ring_update inside]
    exact ⟨holed.close near _, contents_close _⟩
  | succ s ih =>
    obtain ⟨rounds, rfl⟩ := Nat.exists_eq_succ_of_ne_zero (by omega : rounds ≠ 0)
    rw [shiftBack_step sized]
    split
    next home =>
      refine ⟨_, rfl, ?_⟩
      rw [ring_update inside]
      exact ⟨holed.close home _, contents_close _⟩
    next away =>
      have far : 1 < (ring n map.buckets (prev + 1)).dib := not_le.mp away
      have next : ring n map.buckets (prev + 1) = (map.buckets (map.next prev)).cell := by
        rw [← sized.next_cast, ring_at (sized.next_lt prev)]
      have nearer : ((map.buckets (map.next prev)).dib - 1).toNat = (ring n map.buckets (prev + 1)).dib - 1 := by
        rw [next] at far ⊢
        exact BitVec.toNat_sub_of_le (BitVec.le_def.mpr far.le)
      have apart : (prev + 1 + (s + 1 : ℕ) : ZMod n) ≠ prev := by
        rw [add_assoc, Ne, add_eq_left, ← Nat.cast_one, ← Nat.cast_add, ZMod.natCast_eq_zero_iff]
        exact Nat.not_dvd_of_pos_of_lt (by omega) (by omega)
      let moved : Bucket α := { map.buckets (map.next prev) with dib := (map.buckets (map.next prev)).dib - 1 }
      have cell : moved.cell = ⟨(ring n map.buckets (prev + 1)).dib - 1, (ring n map.buckets (prev + 1)).item⟩ := by
        rw [← nearer, next]
        rfl
      have hole := holed.move far
      have items := remaining_move (Nat.ne_zero_of_lt far) (Nat.sub_ne_zero_of_lt far)
      rw [← Function.update_of_ne apart moved.cell (ring n map.buckets), ← store_ring inside, Nat.cast_succ,
        add_comm (s : ZMod n), ← add_assoc] at near
      rw [← cell, ← store_ring inside] at hole items
      rw [← sized.next_cast] at hole items near
      obtain ⟨buckets, done, kept, rest⟩ := ih (sized.store prev moved) hole (sized.next_lt prev) near (by omega) rounds (by omega)
      exact ⟨buckets, done, kept, rest.trans items⟩

end
end OnlineScheduler.HashMap
