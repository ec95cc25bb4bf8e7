import OnlineScheduler.General.Dictionary
import OnlineScheduler.Proofs.Buckets

/-! Each operation on a table that is in order, by the items in its buckets. -/

namespace OnlineScheduler.HashMap
open RobinHood

section
variable {k : ℕ}

/-- `nbuckets` is a power of two, and no less than 16. -/
abbrev size (k : ℕ) : ℕ := 16 * 2 ^ k

instance size_neZero : NeZero (size k) := ⟨by simp⟩

instance size_nontrivial : Nontrivial (ZMod (size k)) :=
  haveI : Fact (1 < size k) := ⟨by have := Nat.one_le_two_pow (n := k); unfold size; omega⟩
  inferInstance

theorem roundUp_size (small : k ≤ 26) : roundUp (size k) = some (size k) := by
  have all : ∀ k < 27, roundUp (size k) = some (size k) := by decide
  exact all k (by omega)

theorem size_of_roundUp {cap rounded : ℕ} (made : roundUp cap = some rounded) : ∃ k ≤ 26, rounded = size k := by
  unfold roundUp at made
  split at made
  next => exact ⟨0, by decide, (Option.some.inj made).symm⟩
  next =>
    obtain ⟨k, inside, same⟩ := List.mem_map.mp (List.mem_of_find?_eq_some made)
    exact ⟨k, Nat.lt_succ_iff.mp (List.mem_range.mp inside), same.symm⟩

end

variable {α : Type} {functions : Functions α} {same : Setoid α} {map : Hashmap α} {k : ℕ}

def Hashmap.entry (map : Hashmap α) (i : ℕ) : Option (BitVec 48 × α) := (map.buckets i).cell.content

/-- The entries in use, with their hashes. -/
def entries (k : ℕ) (map : Hashmap α) : Multiset (BitVec 48 × α) := contents (ring (size k) map.buckets)

structure Valid (functions : Functions α) (same : Setoid α) (k : ℕ) (map : Hashmap α) : Prop where
  nbuckets : map.nbuckets = size k
  small : k ≤ 26
  capacity : ∃ c ≤ k, map.cap = size c
  mask : map.mask = size k - 1
  growat : map.growat = size k * 3 / 4
  shrinkat : map.shrinkat = size k / 10
  allocated : size k ≤ map.allocated
  count : map.count = (entries k map).card
  load : map.count ≤ map.growat
  sound : Sound (home (size k)) (ring (size k) map.buckets)
  hashed : ∀ entry ∈ entries k map, entry.1 = getHash functions map.seed0 map.seed1 entry.2
  distinct : ((entries k map).map (key same)).Nodup

theorem Valid.sized (valid : Valid functions same k map) : Sized (size k) map :=
  ⟨⟨4 + k, by rw [pow_add]; rfl⟩, valid.mask, valid.allocated⟩

theorem Valid.room (valid : Valid functions same k map) : (entries k map).card < size k := by
  have load := valid.load
  have positive := NeZero.pos (size k)
  rw [valid.growat, valid.count] at load
  omega

variable [Inhabited α]

section
variable {n : ℕ} [NeZero n] [Nontrivial (ZMod n)]

omit [Inhabited α] in
/-- The outer loop of `resize` over some of the buckets. -/
private theorem rehash_all (map map2 : Hashmap α) (sized : Sized n map2) (nbuckets : map2.nbuckets = n)
    (sound : Sound (home n) (ring n map2.buckets)) (order : List ℕ) (inside : ∀ i ∈ order, i < map.allocated)
    (room : (order.filterMap map.entry).length + (contents (ring n map2.buckets)).card < n)
    (few : (order.filterMap map.entry).length + (contents (ring n map2.buckets)).card < 2 ^ 16) :
    ∃ buckets, order.foldlM (rehashBucket map) map2 = some { map2 with buckets } ∧ Sound (home n) (ring n buckets) ∧
      contents (ring n buckets) =
        ↑(order.filterMap map.entry) + contents (ring n map2.buckets) := by
  induction order generalizing map2 with
  | nil => exact ⟨map2.buckets, rfl, sound, (zero_add _).symm⟩
  | cons i rest ih =>
    have found : map.bucketAt i = some (map.buckets i) := if_pos (inside i List.mem_cons_self)
    rw [List.foldlM_cons]
    by_cases free : (map.buckets i).dib = 0
    · have content : map.entry i = none := Cell.content_none.mpr (congrArg BitVec.toNat free)
      have skipped : rehashBucket map map2 i = some map2 := by simp [rehashBucket, found, free]
      rw [List.filterMap_cons_none content] at room few ⊢
      rw [skipped]
      exact ih map2 sized nbuckets sound (fun j member => inside j (List.mem_cons_of_mem i member)) room few
    · have content : map.entry i = some ((map.buckets i).hash, (map.buckets i).item) :=
        Cell.content_some fun zero => free (BitVec.toNat_inj.mp zero)
      have moved : rehashBucket map map2 i =
          rehash n map2 (map2.start (map.buckets i).hash) { map.buckets i with dib := 1 } := by
        simp only [rehashBucket, found, Option.bind_eq_bind, Option.bind_some, if_neg free, nbuckets]
      rw [List.filterMap_cons_some content] at room few ⊢
      rw [List.length_cons] at room few
      have space : (contents (ring n map2.buckets)).card < n := by omega
      obtain ⟨s, near, empty⟩ := free_near space (home n ((map.buckets i).hash, (map.buckets i).item))
      have ready := Ready.start (home n) (ring n map2.buckets) ((map.buckets i).hash, (map.buckets i).item)
      rw [← sized.start_cast] at ready empty
      obtain ⟨buckets, done, kept, items⟩ := rehash_settles sized sound { map.buckets i with dib := 1 } ready
        space (by omega) (sized.start_lt _) empty n (by omega)
      have as_many := congrArg Multiset.card items
      rw [Multiset.card_cons] at as_many
      obtain ⟨final, completed, settled, all⟩ := ih { map2 with buckets }
        ⟨sized.power, sized.mask, sized.allocated⟩ nbuckets kept
        (fun j member => inside j (List.mem_cons_of_mem i member)) (by rw [as_many]; omega) (by rw [as_many]; omega)
      rw [moved, done]
      refine ⟨final, completed, settled, ?_⟩
      rw [all, items, ← Multiset.cons_coe, Multiset.add_cons, Multiset.cons_add]

end

omit [Inhabited α] in
theorem entries_range (k : ℕ) (map : Hashmap α) : entries k map = ↑((List.range (size k)).filterMap map.entry) :=
  contents_range fun i => (map.buckets i).cell

theorem resize_without_memory (map : Hashmap α) (small : k ≤ 26) : resize (size k) false map = some none := by
  simp [resize, hashmapNew, roundUp_size small]

/-- A table keeps its entries when its size changes. -/
theorem Valid.resized {j : ℕ} (valid : Valid functions same j map) (small : k ≤ 26) (load : map.count ≤ size k * 3 / 4)
    (few : map.count < 2 ^ 16) (capacity : ∃ c ≤ k, map.cap = size c) :
    ∃ resized, resize (size k) true map = some (some resized) ∧ Valid functions same k resized ∧
      entries k resized = entries j map ∧ resized.oom = map.oom ∧ resized.seed0 = map.seed0 ∧
      resized.seed1 = map.seed1 ∧ resized.count = map.count := by
  let map2 : Hashmap α :=
    { oom := false, cap := size k, seed0 := map.seed1, seed1 := map.seed1, nbuckets := size k, count := 0
      mask := size k - 1, growat := size k * 3 / 4, shrinkat := size k / 10, allocated := size k
      buckets := fun _ => emptyBucket }
  have made : hashmapNew (size k) map.seed1 map.seed1 true = some (some map2) := by
    rw [hashmapNew, roundUp_size small]
    rfl
  have free : ∀ j, (ring (size k) map2.buckets j).dib = 0 := fun _ => rfl
  have all := valid.count
  have positive := NeZero.pos (size k)
  rw [entries_range, Multiset.coe_card] at all
  obtain ⟨buckets, done, sound, items⟩ := rehash_all map map2 ⟨⟨4 + k, by rw [pow_add]; rfl⟩, rfl, le_rfl⟩ rfl
    (Sound.empty free) (List.range (size j))
    (fun i member => (List.mem_range.mp member).trans_le valid.allocated)
    (by rw [contents_empty free, ← all, Multiset.card_zero]; omega)
    (by rw [contents_empty free, ← all, Multiset.card_zero]; omega)
  rw [contents_empty free, add_zero, ← entries_range] at items
  refine ⟨{ map with
    buckets, allocated := size k, nbuckets := size k, mask := size k - 1, growat := size k * 3 / 4
    shrinkat := size k / 10 }, ?_, ?_, items, rfl, rfl, rfl, rfl⟩
  · rw [HashMap.resize, made, valid.nbuckets]
    simp only [Option.bind_eq_bind, Option.bind_some, done]
    rfl
  · exact {
      nbuckets := rfl, small, capacity, mask := rfl, growat := rfl, shrinkat := rfl, allocated := le_rfl
      count := valid.count.trans (congrArg Multiset.card items.symm)
      load, sound
      hashed := fun entry member => valid.hashed entry (items ▸ member)
      distinct := (congrArg (fun entries => (entries.map (key same)).Nodup) items).mpr valid.distinct }

/-- What the table tells items apart by. -/
def Hashmap.identity (functions : Functions α) (same : Setoid α) (map : Hashmap α) (item : α) :
    BitVec 48 × Quotient same :=
  (getHash functions map.seed0 map.seed1 item, Quotient.mk same item)

def items (k : ℕ) (map : Hashmap α) : Multiset α := (entries k map).map Prod.snd

omit [Inhabited α] in
theorem Valid.keys (valid : Valid functions same k map) :
    (entries k map).map (key same) = (items k map).map (map.identity functions same) := by
  rw [items, Multiset.map_map]
  apply Multiset.map_congr rfl
  intro entry member
  rw [key, valid.hashed entry member]
  rfl

omit [Inhabited α] in
private theorem Valid.rebuilt (valid : Valid functions same k map) {buckets : ℕ → Bucket α} {count : ℕ}
    (sound : Sound (home (size k)) (ring (size k) buckets)) (counted : count = (contents (ring (size k) buckets)).card)
    (load : count ≤ map.growat)
    (hashed : ∀ entry ∈ contents (ring (size k) buckets), entry.1 = getHash functions map.seed0 map.seed1 entry.2)
    (distinct : ((contents (ring (size k) buckets)).map (key same)).Nodup) :
    Valid functions same k { map with buckets, count } where
  nbuckets := valid.nbuckets
  small := valid.small
  capacity := valid.capacity
  mask := valid.mask
  growat := valid.growat
  shrinkat := valid.shrinkat
  allocated := valid.allocated
  count := counted
  load
  sound
  hashed
  distinct

variable {item : α}

omit [Inhabited α] in
private theorem Valid.added (valid : Valid functions same k map) (compares : Compares functions same)
    (room : map.count < map.growat) (few : map.count + 1 < 2 ^ 16) (entry : Bucket α) (fresh : entry.dib = 1)
    (hashed : entry.hash = getHash functions map.seed0 map.seed1 entry.item)
    (absent : key same (entry.hash, entry.item) ∉ (entries k map).map (key same)) :
    ∃ buckets, setLoop functions (size k) map (map.start entry.hash) entry =
        some ({ map with buckets, count := map.count + 1 }, none) ∧
      Valid functions same k { map with buckets, count := map.count + 1 } ∧
      contents (ring (size k) buckets) = (entry.hash, entry.item) ::ₘ entries k map := by
  have ready := Ready.start (home (size k)) (ring (size k) map.buckets) (entry.hash, entry.item)
  obtain ⟨s, near, empty⟩ := free_near valid.room (home (size k) (entry.hash, entry.item))
  rw [← valid.sized.start_cast] at ready empty
  rw [valid.count] at few
  obtain ⟨buckets, done, sound, inserted⟩ := rehash_settles valid.sized valid.sound entry
    (by rw [fresh]; exact ready) valid.room few (valid.sized.start_lt _) empty _ (near.trans_lt valid.room)
  refine ⟨buckets, ?_, valid.rebuilt sound ?_ room ?_ ?_, inserted⟩
  · rw [setLoop_absent compares valid.sized entry valid.distinct absent (valid.sized.start_lt _), done]
    rfl
  · rw [inserted, Multiset.card_cons, valid.count]
    rfl
  · intro other member
    rw [inserted, Multiset.mem_cons] at member
    obtain rfl | member := member
    · exact hashed
    · exact valid.hashed other member
  · rw [inserted, Multiset.map_cons]
    exact Multiset.nodup_cons.mpr ⟨absent, valid.distinct⟩

omit [Inhabited α] in
private theorem Valid.replaced (valid : Valid functions same k map) (compares : Compares functions same)
    (entry : Bucket α) (fresh : entry.dib = 1)
    (hashed : entry.hash = getHash functions map.seed0 map.seed1 entry.item)
    (present : key same (entry.hash, entry.item) ∈ (entries k map).map (key same)) :
    ∃ buckets old rest, setLoop functions (size k) map (map.start entry.hash) entry =
        some ({ map with buckets }, some old.2) ∧
      Valid functions same k { map with buckets } ∧ entries k map = old ::ₘ rest ∧
      key same old = key same (entry.hash, entry.item) ∧
      contents (ring (size k) buckets) = (entry.hash, entry.item) ::ₘ rest := by
  obtain ⟨old, member, matched⟩ := Multiset.mem_map.mp present
  obtain ⟨rest, there⟩ := Multiset.exists_cons_of_mem member
  obtain ⟨j, used, rfl⟩ := mem_contents.mp member
  have done := setLoop_replaces compares valid.sized valid.sound valid.distinct valid.room fresh used matched.symm
  have hash : (map.buckets j.val).hash = entry.hash := (Prod.mk.inj matched).1
  have cells : ring (size k) (Function.update map.buckets j.val { map.buckets j.val with item := entry.item }) =
      Function.update (ring (size k) map.buckets) j ⟨(ring (size k) map.buckets j).dib, entry.hash, entry.item⟩ := by
    rw [ring_update j.val_lt, ZMod.natCast_zmod_val, ← hash]
    rfl
  have replaced : contents (Function.update (ring (size k) map.buckets) j
      ⟨(ring (size k) map.buckets j).dib, entry.hash, entry.item⟩) = (entry.hash, entry.item) ::ₘ rest := by
    have swapped := contents_swap used used (entry.hash, entry.item)
    change _ = _ ::ₘ entries k map at swapped
    rwa [there, Multiset.cons_swap, Multiset.cons_inj_right] at swapped
  refine ⟨Function.update map.buckets j.val { map.buckets j.val with item := entry.item },
    (ring (size k) map.buckets j).item, rest, done, valid.rebuilt ?_ ?_ valid.load ?_ ?_, there, matched, ?_⟩
  · rw [cells]
    apply valid.sound.replace
    rw [home, home, (Prod.mk.inj matched).1]
  · rw [cells, replaced, valid.count, there, Multiset.card_cons, Multiset.card_cons]
  · intro other member
    rw [cells, replaced, Multiset.mem_cons] at member
    obtain rfl | member := member
    · exact hashed
    · apply valid.hashed other
      rw [there]
      exact Multiset.mem_cons_of_mem member
  · have distinct := valid.distinct
    rw [there, Multiset.map_cons, matched] at distinct
    rwa [cells, replaced, Multiset.map_cons]
  · rw [cells, replaced]

omit [Inhabited α] in
/-- What `hashmap_set` does when there is room. -/
theorem Valid.inserted (valid : Valid functions same k map) (compares : Compares functions same)
    (room : map.count < map.growat) (few : map.count + 1 < 2 ^ 16) (item : α) :
    let hash := getHash functions map.seed0 map.seed1 item
    ∃ buckets count old, setLoop functions (size k) map (map.start hash) ⟨hash, 1, item⟩ =
        some ({ map with buckets, count }, old) ∧
      Valid functions same k { map with buckets, count } ∧ count ≤ map.count + 1 ∧
      Dictionary.Stored (map.identity functions same) item (items k map)
        (items k { map with buckets, count }) old := by
  intro hash
  by_cases absent : key same (hash, item) ∉ (entries k map).map (key same)
  · obtain ⟨buckets, done, kept, inserted⟩ :=
      valid.added compares room few ⟨hash, 1, item⟩ rfl rfl absent
    refine ⟨buckets, _, none, done, kept, le_rfl, ?_⟩
    have after : items k { map with buckets, count := map.count + 1 } = item ::ₘ items k map :=
      (congrArg (Multiset.map Prod.snd) inserted).trans (Multiset.map_cons ..)
    rw [after]
    rw [valid.keys] at absent
    exact .added absent
  · obtain ⟨buckets, old, rest, done, kept, there, matched, inserted⟩ :=
      valid.replaced compares ⟨hash, 1, item⟩ rfl rfl (not_not.mp absent)
    have before : items k map = old.2 ::ₘ rest.map Prod.snd :=
      (congrArg (Multiset.map Prod.snd) there).trans (Multiset.map_cons ..)
    have after : items k { map with buckets } = item ::ₘ rest.map Prod.snd :=
      (congrArg (Multiset.map Prod.snd) inserted).trans (Multiset.map_cons ..)
    refine ⟨buckets, map.count, some old.2, done, kept, Nat.le_succ _, ?_⟩
    rw [after]
    refine .replaced ?_ before
    rw [key, valid.hashed old (there ▸ Multiset.mem_cons_self ..)] at matched
    exact matched

omit [Inhabited α] in
/-- What `hashmap_delete` does before it shrinks the table. -/
theorem Valid.emptied (valid : Valid functions same k map) {i : ℕ} (inside : i < size k)
    (used : (ring (size k) map.buckets i).dib ≠ 0) :
    ∃ buckets, shiftBack (size k) (map.store i { map.buckets i with dib := 0 }) i = some { map with buckets } ∧
      Valid functions same k { map with buckets, count := map.count - 1 } ∧
      entries k map = (ring (size k) map.buckets i).item ::ₘ contents (ring (size k) buckets) := by
  let bucket : Bucket α := { map.buckets i with dib := 0 }
  have sized := valid.sized.store i bucket
  have holed := valid.sound.hole i bucket.cell
  have there := contents_hole used bucket.cell
  obtain ⟨s, near, free⟩ := free_near valid.room i
  have space := near.trans_lt valid.room
  have ahead : s ≠ 0 := by
    rintro rfl
    rw [Nat.cast_zero, add_zero] at free
    exact used free
  obtain ⟨s, rfl⟩ := Nat.exists_eq_succ_of_ne_zero ahead
  have close : (ring (size k) (map.store i bucket).buckets (i + 1 + s)).dib ≤ 1 := by
    rw [Nat.cast_succ, add_comm (s : ZMod (size k)), ← add_assoc] at free
    rw [store_ring inside]
    by_cases around : (i + 1 + s : ZMod (size k)) = i
    · rw [around, Function.update_self]
      exact Nat.zero_le 1
    · rw [Function.update_of_ne around, free]
      exact Nat.zero_le 1
  rw [← store_ring inside] at holed there
  obtain ⟨buckets, done, sound, kept⟩ := shiftBack_closes sized holed inside close (by omega) (size k) (by omega)
  rw [← kept] at there
  change entries k map = _ at there
  have count := valid.count
  have distinct := valid.distinct
  rw [there, Multiset.card_cons] at count
  rw [there, Multiset.map_cons, Multiset.nodup_cons] at distinct
  refine ⟨buckets, done, valid.rebuilt sound (Nat.sub_eq_of_eq_add count) ?_ ?_ distinct.2, there⟩
  · exact (Nat.sub_le ..).trans valid.load
  · intro entry member
    apply valid.hashed
    rw [there]
    exact Multiset.mem_cons_of_mem member

omit [Inhabited α] in
theorem Valid.with_oom (valid : Valid functions same k map) (oom : Bool) :
    Valid functions same k { map with oom } where
  nbuckets := valid.nbuckets
  small := valid.small
  capacity := valid.capacity
  mask := valid.mask
  growat := valid.growat
  shrinkat := valid.shrinkat
  allocated := valid.allocated
  count := valid.count
  load := valid.load
  sound := valid.sound
  hashed := valid.hashed
  distinct := valid.distinct

omit [Inhabited α] in
private theorem Valid.of_free (map : Hashmap α) (free : ∀ i, (ring (size k) map.buckets i).dib = 0) (nbuckets : map.nbuckets = size k)
    (small : k ≤ 26) (capacity : ∃ c ≤ k, map.cap = size c) (mask : map.mask = size k - 1)
    (growat : map.growat = size k * 3 / 4) (shrinkat : map.shrinkat = size k / 10) (allocated : size k ≤ map.allocated)
    (count : map.count = 0) : Valid functions same k map ∧ items k map = 0 := by
  have none : entries k map = 0 := contents_empty free
  refine ⟨?_, by rw [items, none, Multiset.map_zero]⟩
  exact {
    nbuckets, small, capacity, mask, growat, shrinkat, allocated, sound := Sound.empty free
    count := by rw [count, none, Multiset.card_zero]
    load := by rw [count]; exact Nat.zero_le _
    hashed := by rw [none]; exact fun entry member => absurd member (Multiset.notMem_zero entry)
    distinct := by rw [none]; exact Multiset.nodup_zero }

theorem Valid.new {cap : ℕ} {seed0 seed1 : BitVec 64} (functions : Functions α) (same : Setoid α)
    (made : hashmapNew cap seed0 seed1 true = some (some map)) :
    ∃ k, Valid functions same k map ∧ items k map = 0 ∧ map.oom = false ∧ map.count = 0 := by
  obtain ⟨rounded, round, same⟩ := Option.map_eq_some_iff.mp made
  obtain rfl := Option.some.inj same
  obtain ⟨k, small, rfl⟩ := size_of_roundUp round
  obtain ⟨valid, none⟩ := Valid.of_free (Hashmap.mk (α := α) false (size k) seed0 seed1 (size k) 0 (size k - 1) (size k * 3 / 4)
    (size k / 10) (size k) fun _ => emptyBucket) (fun _ => rfl) rfl small ⟨k, le_rfl, rfl⟩ rfl rfl rfl le_rfl rfl
  exact ⟨k, valid, none, rfl, rfl⟩

/-- A set lacks memory and changes nothing, or stores the item. -/
theorem Valid.set (valid : Valid functions same k map) (compares : Compares functions same)
    (few : map.count + 1 < 2 ^ 16) (item : α) (memory : Bool) :
    (memory = false ∧ map.count = map.growat ∧
      hashmapSet functions item memory map = some ({ map with oom := true }, none)) ∨
    ∃ j final old, hashmapSet functions item memory map = some (final, old) ∧ Valid functions same j final ∧
      final.oom = false ∧ final.identity functions same = map.identity functions same ∧ final.count ≤ map.count + 1 ∧
      Dictionary.Stored (map.identity functions same) item (items k map) (items j final) old := by
  have idle := valid.with_oom false
  have limit := valid.growat
  by_cases full : map.count = map.growat
  · have small : k + 1 ≤ 26 := by
      by_contra large
      have power : 2 ^ 26 ≤ 2 ^ k := Nat.pow_le_pow_right (by decide) (by omega)
      unfold size at limit
      omega
    have doubled : map.nbuckets * 2 = size (k + 1) := by rw [valid.nbuckets, size, size, pow_succ, mul_assoc]
    have more : map.count < size (k + 1) * 3 / 4 := by
      have positive := NeZero.pos (size k)
      rw [← doubled, valid.nbuckets]
      omega
    cases memory with
    | false =>
      refine Or.inl ⟨rfl, full, ?_⟩
      simp only [hashmapSet, if_pos full, doubled, resize_without_memory _ small, Option.bind_eq_bind, Option.bind_some]
      rfl
    | true =>
      obtain ⟨c, below, cap⟩ := valid.capacity
      obtain ⟨grown, resized, kept, all, oom, seed0, seed1, count⟩ := idle.resized small more.le
        (show map.count < _ by omega) ⟨c, by omega, cap⟩
      have room : grown.count < grown.growat := by rwa [kept.growat, count]
      obtain ⟨buckets, total, old, done, final, added, stored⟩ := kept.inserted compares room (by rwa [count]) item
      have identity : grown.identity functions same = map.identity functions same := by
        funext item
        rw [Hashmap.identity, seed0, seed1]
        rfl
      have before : items (k + 1) grown = items k map := congrArg _ all
      rw [← kept.nbuckets] at done
      rw [identity, before] at stored
      refine Or.inr ⟨k + 1, _, old, ?_, final, oom, identity, added.trans_eq (congrArg (· + 1) count), stored⟩
      simp only [hashmapSet, if_pos full, doubled, resized, Option.bind_eq_bind, Option.bind_some]
      exact done
  · have room : map.count < map.growat := lt_of_le_of_ne valid.load full
    obtain ⟨buckets, count, old, done, kept, more, stored⟩ := idle.inserted compares room few item
    rw [← idle.nbuckets] at done
    refine Or.inr ⟨k, _, old, ?_, kept, rfl, rfl, more, stored⟩
    simp only [hashmapSet, if_neg full, Option.bind_eq_bind, Option.bind_some]
    exact done

omit [Inhabited α] in
private theorem Valid.located (valid : Valid functions same k map) (compares : Compares functions same) (key : α) :
    let found := search functions map (getHash functions map.seed0 map.seed1 key) key map.nbuckets
      (map.start (getHash functions map.seed0 map.seed1 key))
    (found = some none ∧ map.identity functions same key ∉ (items k map).map (map.identity functions same)) ∨
    ∃ i < size k, found = some (some i) ∧ (ring (size k) map.buckets i).dib ≠ 0 ∧
      map.identity functions same (map.buckets i).item = map.identity functions same key := by
  rw [valid.nbuckets]
  obtain ⟨missing, absent⟩ | ⟨i, inside, found, used, matched⟩ := search_finds compares valid.sized valid.sound
    valid.room (getHash functions map.seed0 map.seed1 key, key)
  · refine Or.inl ⟨missing, ?_⟩
    rw [← valid.keys]
    exact absent
  · refine Or.inr ⟨i, inside, found, used, ?_⟩
    have hashed := valid.hashed _ (mem_contents.mpr ⟨i, used, rfl⟩)
    rw [HashMap.key, HashMap.key, hashed, ring_at inside] at matched
    exact matched.symm

omit [Inhabited α] in
/-- A get answers what a delete would take. -/
theorem Valid.get (valid : Valid functions same k map) (compares : Compares functions same) (key : α) :
    ∃ found rest, hashmapGet functions key map = some found ∧
      Dictionary.Taken (map.identity functions same) (map.identity functions same key) (items k map) rest found := by
  obtain ⟨missing, absent⟩ | ⟨i, inside, found, used, matched⟩ := valid.located compares key
  · refine ⟨none, _, ?_, .missing absent⟩
    rw [hashmapGet, missing]
    rfl
  · have held : (map.buckets i).item ∈ items k map := by
      apply Multiset.mem_map.mpr
      refine ⟨(ring (size k) map.buckets i).item, mem_contents.mpr ⟨i, used, rfl⟩, ?_⟩
      rw [ring_at inside]
      rfl
    obtain ⟨rest, there⟩ := Multiset.exists_cons_of_mem held
    refine ⟨_, rest, ?_, .found matched there⟩
    rw [hashmapGet, found]
    rfl

/-- A delete takes the item out, and then may shrink the table. -/
theorem Valid.delete (valid : Valid functions same k map) (compares : Compares functions same)
    (few : map.count < 2 ^ 16) (key : α) (memory : Bool) :
    ∃ j final found, hashmapDelete functions key memory map = some (final, found) ∧ Valid functions same j final ∧
      final.oom = false ∧ final.identity functions same = map.identity functions same ∧ final.count ≤ map.count ∧
      Dictionary.Taken (map.identity functions same) (map.identity functions same key) (items k map)
        (items j final) found := by
  have idle := valid.with_oom false
  obtain ⟨missing, absent⟩ | ⟨i, inside, found, used, matched⟩ := idle.located compares key
  · refine ⟨k, _, none, ?_, idle, rfl, rfl, le_rfl, .missing absent⟩
    rw [hashmapDelete, missing]
    rfl
  · obtain ⟨buckets, done, kept, taken⟩ := idle.emptied inside used
    have before : items k map = (map.buckets i).item ::ₘ (contents (ring (size k) buckets)).map Prod.snd := by
      have split := congrArg (Multiset.map Prod.snd) taken
      rw [Multiset.map_cons, ring_at inside] at split
      exact split
    let removed : Hashmap α := { map with oom := false, buckets, count := map.count - 1 }
    have fewer : removed.count ≤ map.count := Nat.sub_le ..
    have deleted : hashmapDelete functions key memory map =
        if removed.nbuckets > removed.cap ∧ removed.count ≤ removed.shrinkat then
          (resize (removed.nbuckets / 2) memory removed).bind fun shrunk =>
            some (shrunk.getD removed, some (map.buckets i).item)
        else some (removed, some (map.buckets i).item) := by
      rw [← idle.nbuckets] at done
      have at_i := idle.sized.bucketAt inside
      rw [hashmapDelete, found]
      simp only [Option.bind_eq_bind, Option.bind_some, at_i, done]
      rfl
    rw [deleted]
    split
    next shrinks =>
      obtain ⟨c, below, cap⟩ := valid.capacity
      have larger : size c < size k := by
        rw [← cap, ← valid.nbuckets]
        exact shrinks.1
      have above : c < k := by
        by_contra lower
        exact absurd (Nat.mul_le_mul_left 16 (Nat.pow_le_pow_right (n := 2) (by decide) (not_lt.mp lower))) (not_le.mpr larger)
      obtain ⟨j, rfl⟩ := Nat.exists_eq_add_one_of_ne_zero (Nat.ne_zero_of_lt above)
      have half : removed.nbuckets / 2 = size j := by
        change map.nbuckets / 2 = _
        rw [valid.nbuckets, size, size, Nat.pow_succ, ← mul_assoc, Nat.mul_div_cancel _ (by decide)]
      rw [half]
      cases memory with
      | false =>
        rw [resize_without_memory _ ((Nat.le_succ j).trans valid.small)]
        exact ⟨j + 1, removed, _, rfl, kept, rfl, rfl, fewer, .found matched before⟩
      | true =>
        have positive := NeZero.pos (size j)
        have few_left : removed.count ≤ size j * 3 / 4 := by
          have twice : size (j + 1) = 2 * size j := by rw [size, size, pow_succ]; omega
          have shrinkat := valid.shrinkat
          have limit : removed.count ≤ map.shrinkat := shrinks.2
          omega
        obtain ⟨shrunk, resized, smaller, all, oom, seed0, seed1, count⟩ := kept.resized
          ((Nat.le_succ j).trans valid.small) few_left (fewer.trans_lt few) ⟨c, Nat.lt_succ_iff.mp above, cap⟩
        have identity : shrunk.identity functions same = map.identity functions same := by
          funext item
          rw [Hashmap.identity, seed0, seed1]
          rfl
        have after : items j shrunk = (contents (ring (size (j + 1)) buckets)).map Prod.snd := congrArg _ all
        rw [resized]
        refine ⟨j, shrunk, _, rfl, smaller, oom, identity, count.trans_le fewer, ?_⟩
        rw [after]
        exact .found matched before
    next => exact ⟨k, removed, _, rfl, kept, rfl, rfl, fewer, .found matched before⟩

omit [Inhabited α] in
private theorem mapM_found {order : List ℕ} (inside : ∀ i ∈ order, i < map.allocated) :
    order.mapM map.bucketAt = some (order.map map.buckets) := by
  induction order with
  | nil => rfl
  | cons i rest ih =>
    have found : map.bucketAt i = some (map.buckets i) := if_pos (inside i List.mem_cons_self)
    rw [List.mapM_cons, found, ih fun j member => inside j (List.mem_cons_of_mem i member)]
    rfl

/-- The items in the order of their buckets. -/
def Hashmap.listed (map : Hashmap α) (order : List ℕ) : List α := (order.filterMap map.entry).map Prod.snd

omit [Inhabited α] in
theorem listed_free {i : ℕ} (free : (map.buckets i).dib = 0) (rest : List ℕ) :
    map.listed (i :: rest) = map.listed rest := by
  have none : map.entry i = none := Cell.content_none.mpr (congrArg BitVec.toNat free)
  rw [Hashmap.listed, List.filterMap_cons_none none, Hashmap.listed]

omit [Inhabited α] in
theorem listed_used {i : ℕ} (used : (map.buckets i).dib ≠ 0) (rest : List ℕ) :
    map.listed (i :: rest) = (map.buckets i).item :: map.listed rest := by
  have some : map.entry i = some ((map.buckets i).hash, (map.buckets i).item) :=
    Cell.content_some fun zero => used (BitVec.toNat_inj.mp zero)
  rw [Hashmap.listed, List.filterMap_cons_some some, List.map_cons, Hashmap.listed]

omit [Inhabited α] in
theorem items_listed (k : ℕ) (map : Hashmap α) : items k map = ↑(map.listed (List.range (size k))) := by
  rw [items, entries_range, Multiset.map_coe, Hashmap.listed]

omit [Inhabited α] in
private theorem used_items (order : List ℕ) :
    ((order.map map.buckets).filter fun bucket => bucket.dib ≠ 0).map Bucket.item = map.listed order := by
  induction order with
  | nil => rfl
  | cons i rest ih =>
    by_cases free : (map.buckets i).dib = 0
    · rw [listed_free free, ← ih, List.map_cons, List.filter_cons_of_neg (by simpa using free)]
    · rw [listed_used free, ← ih, List.map_cons, List.filter_cons_of_pos (by simpa using free), List.map_cons]

omit [Inhabited α] in
theorem Valid.freed (valid : Valid functions same k map) :
    ∃ freed, freeElements functions map = some freed ∧
      (freed : Multiset α) = if functions.elfree then items k map else 0 := by
  rw [freeElements]
  split
  next =>
    have inside : ∀ i ∈ List.range map.nbuckets, i < map.allocated := by
      intro i member
      rw [valid.nbuckets, List.mem_range] at member
      exact member.trans_le valid.allocated
    rw [mapM_found inside]
    refine ⟨_, rfl, ?_⟩
    rw [used_items, items_listed, valid.nbuckets]
  next => exact ⟨[], rfl, rfl⟩

private theorem Valid.zeroed (functions : Functions α) (same : Setoid α) {j : ℕ} (nbuckets : map.nbuckets = size j) (small : j ≤ 26)
    (capacity : ∃ c ≤ j, map.cap = size c) (enough : map.nbuckets ≤ map.allocated) (count : map.count = 0) :
    let final : Hashmap α :=
      { map with
        buckets := fun i => if i < map.nbuckets then emptyBucket else map.buckets i
        mask := map.nbuckets - 1
        growat := map.nbuckets * 3 / 4
        shrinkat := map.nbuckets / 10 }
    Valid functions same j final ∧ items j final = 0 := by
  intro final
  refine Valid.of_free final ?_ nbuckets small capacity (congrArg (· - 1) nbuckets) (congrArg (· * 3 / 4) nbuckets)
    (congrArg (· / 10) nbuckets) (nbuckets ▸ enough) count
  intro i
  have zero : final.buckets i.val = emptyBucket := if_pos (i.val_lt.trans_eq nbuckets.symm)
  rw [ring, zero]
  rfl

omit [Inhabited α] in
private theorem Valid.recapped (valid : Valid functions same k map) (updateCap memory : Bool) :
    let map' := recap updateCap memory { map with count := 0 }
    (∃ j ≤ 26, map'.nbuckets = size j ∧ ∃ c ≤ j, map'.cap = size c) ∧ map'.nbuckets ≤ map'.allocated ∧
      map'.count = 0 ∧ map'.oom = map.oom ∧ map'.seed0 = map.seed0 ∧ map'.seed1 = map.seed1 := by
  have enough : map.nbuckets ≤ map.allocated := valid.nbuckets ▸ valid.allocated
  obtain ⟨c, below, cap⟩ := valid.capacity
  have smaller : map.cap ≤ map.allocated := by
    rw [cap]
    exact (Nat.mul_le_mul_left 16 (Nat.pow_le_pow_right (by decide) below)).trans valid.allocated
  cases updateCap with
  | true => exact ⟨⟨k, valid.small, valid.nbuckets, k, le_rfl, valid.nbuckets⟩, enough, rfl, rfl, rfl, rfl⟩
  | false =>
    by_cases kept : map.nbuckets = map.cap
    · have same : recap false memory { map with count := 0 } = { map with count := 0 } := by simp [recap, kept]
      rw [same]
      exact ⟨⟨k, valid.small, valid.nbuckets, c, below, cap⟩, enough, rfl, rfl, rfl, rfl⟩
    · have small := below.trans valid.small
      cases memory with
      | true =>
        have renewed : recap false true { map with count := 0 } =
            { map with count := 0, allocated := map.cap, nbuckets := map.cap } := by simp [recap, kept]
        rw [renewed]
        exact ⟨⟨c, small, cap, c, le_rfl, cap⟩, le_rfl, rfl, rfl, rfl, rfl⟩
      | false =>
        have shortened : recap false false { map with count := 0 } = { map with count := 0, nbuckets := map.cap } := by
          simp [recap, kept]
        rw [shortened]
        exact ⟨⟨c, small, cap, c, le_rfl, cap⟩, smaller, rfl, rfl, rfl, rfl⟩

/-- A clear empties the table, and no item is forgotten. -/
theorem Valid.clear (valid : Valid functions same k map) (updateCap memory : Bool) :
    ∃ j final freed, hashmapClear functions updateCap memory map = some (final, freed) ∧ Valid functions same j final ∧
      final.oom = map.oom ∧ final.identity functions same = map.identity functions same ∧ final.count = 0 ∧
      items j final = 0 ∧ (freed : Multiset α) = if functions.elfree then items k map else 0 := by
  obtain ⟨freed, called, all⟩ := valid.freed
  have called_first : freeElements functions { map with count := 0 } = some freed := called
  obtain ⟨⟨j, small, nbuckets, capacity⟩, enough, count, oom, seed0, seed1⟩ := valid.recapped updateCap memory
  rw [hashmapClear, called_first]
  simp only [Option.bind_eq_bind, Option.bind_some, if_pos enough]
  obtain ⟨kept, none⟩ := Valid.zeroed functions same nbuckets small capacity enough count
  refine ⟨j, _, freed, rfl, kept, oom, ?_, count, none, all⟩
  funext item
  rw [Hashmap.identity, Hashmap.identity, seed0, seed1]

end OnlineScheduler.HashMap
