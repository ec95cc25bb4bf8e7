import OnlineScheduler.Proofs.Iterations

/-! Runs of the hash map against what it is for. Its user sees a dictionary, in
which an operation that lacks memory changes nothing. -/

namespace OnlineScheduler.HashMap
open RobinHood

variable {α κ : Type}

/-- The items of a map, without their places. -/
structure Stock (α : Type) where
  items : Multiset α
  oom : Bool

/-- What an operation does to the items. -/
inductive Effect (identity : α → κ) (elfree : Bool) : Stock α → Operation α → Answer α → Stock α → Prop where
  | set {before after : Stock α} {item : α} {memory : Bool} {old : Option α}
      (stored : Dictionary.Stored identity item before.items after.items old) (done : after.oom = false) :
    Effect identity elfree before (.set item memory) ⟨old, [], false⟩ after
  | refused {before : Stock α} {item : α} :
    Effect identity elfree before (.set item false) ⟨none, [], true⟩ ⟨before.items, true⟩
  | get {before : Stock α} {key : α} {found : Option α} {rest : Multiset α}
      (taken : Dictionary.Taken identity (identity key) before.items rest found) :
    Effect identity elfree before (.get key) ⟨found, [], before.oom⟩ before
  | delete {before after : Stock α} {key : α} {memory : Bool} {found : Option α}
      (taken : Dictionary.Taken identity (identity key) before.items after.items found) (done : after.oom = false) :
    Effect identity elfree before (.delete key memory) ⟨found, [], false⟩ after
  | clear {before : Stock α} {updateCap memory : Bool} {freed : List α}
      (all : (freed : Multiset α) = if elfree then before.items else 0) :
    Effect identity elfree before (.clear updateCap memory) ⟨none, freed, before.oom⟩ ⟨0, before.oom⟩

inductive Effects (identity : α → κ) (elfree : Bool) :
    Stock α → List (Operation α) → List (Answer α) → Stock α → Prop where
  | nil {stock : Stock α} : Effects identity elfree stock [] [] stock
  | cons {before between after : Stock α} {operation : Operation α} {answer : Answer α}
      {operations : List (Operation α)} {answers : List (Answer α)}
      (first : Effect identity elfree before operation answer between)
      (rest : Effects identity elfree between operations answers after) :
    Effects identity elfree before (operation :: operations) (answer :: answers) after

def sets (operations : List (Operation α)) : ℕ := operations.countP Operation.isSet

section
variable {functions : Functions α} {same : Setoid α} {map : Hashmap α} {k : ℕ} [Inhabited α]

def Hashmap.stock (k : ℕ) (map : Hashmap α) : Stock α := ⟨items k map, map.oom⟩

private theorem Valid.step (valid : Valid functions same k map) (compares : Compares functions same)
    (operation : Operation α) (few : map.count + sets [operation] < 2 ^ 16) :
    ∃ j final answer, step functions map operation = some (final, answer) ∧ Valid functions same j final ∧
      final.identity functions same = map.identity functions same ∧ final.count ≤ map.count + sets [operation] ∧
      Effect (map.identity functions same) functions.elfree (map.stock k) operation answer (final.stock j) := by
  cases operation with
  | set item memory =>
    obtain ⟨rfl, -, refused⟩ | ⟨j, final, old, done, kept, oom, identity, count, stored⟩ :=
      valid.set compares few item memory
    · refine ⟨k, _, _, ?_, valid.with_oom true, rfl, Nat.le_add_right .., .refused⟩
      rw [HashMap.step, refused]
      rfl
    · refine ⟨j, final, _, ?_, kept, identity, count, .set stored oom⟩
      rw [HashMap.step, done, ← oom]
      rfl
  | get key =>
    obtain ⟨found, rest, done, taken⟩ := valid.get compares key
    refine ⟨k, map, _, ?_, valid, rfl, Nat.le_add_right .., .get taken⟩
    rw [HashMap.step, done]
    rfl
  | delete key memory =>
    obtain ⟨j, final, found, done, kept, oom, identity, count, taken⟩ := valid.delete compares few key memory
    refine ⟨j, final, _, ?_, kept, identity, count, .delete taken oom⟩
    rw [HashMap.step, done, ← oom]
    rfl
  | clear updateCap memory =>
    obtain ⟨j, final, freed, done, kept, oom, identity, count, none, all⟩ := valid.clear updateCap memory
    have after : final.stock j = ⟨0, map.oom⟩ := by rw [Hashmap.stock, none, oom]
    refine ⟨j, final, ⟨.none, freed, map.oom⟩, ?_, kept, identity, by omega, ?_⟩
    · rw [HashMap.step, done, ← oom]
      rfl
    · rw [after]
      exact .clear all

private theorem Valid.run (valid : Valid functions same k map) (compares : Compares functions same)
    (operations : List (Operation α)) (few : map.count + sets operations < 2 ^ 16) :
    ∃ j final answers, run functions map operations = some (final, answers) ∧ Valid functions same j final ∧
      final.identity functions same = map.identity functions same ∧ final.count ≤ map.count + sets operations ∧
      Effects (map.identity functions same) functions.elfree (map.stock k) operations answers (final.stock j) := by
  induction operations generalizing map k with
  | nil => exact ⟨k, map, [], rfl, valid, rfl, le_rfl, .nil⟩
  | cons operation rest ih =>
    have split : sets (operation :: rest) = sets [operation] + sets rest :=
      (List.countP_append : ([operation] ++ rest).countP _ = _)
    obtain ⟨i, next, answer, first, kept, identity, count, effect⟩ := valid.step compares operation (by omega)
    obtain ⟨j, final, answers, more, settled, identities, counts, effects⟩ := ih kept (by omega)
    rw [identity] at identities effects
    refine ⟨j, final, answer :: answers, ?_, settled, identities, by omega, .cons effect effects⟩
    rw [HashMap.run, first]
    simp only [Option.bind_eq_bind, Option.bind_some, more]
    rfl

end

/-- A map as its user sees it. -/
structure View (κ α : Type) where
  dictionary : κ → Option α
  oom : Bool

open Classical in
/-- What a dictionary does. A set may be refused, but only for want of memory. -/
inductive Seen (identity : α → κ) (elfree : Bool) : View κ α → Operation α → Answer α → View κ α → Prop where
  | set (view : View κ α) (item : α) (memory : Bool) :
    Seen identity elfree view (.set item memory) ⟨view.dictionary (identity item), [], false⟩
      ⟨Function.update view.dictionary (identity item) (some item), false⟩
  | refused (view : View κ α) (item : α) :
    Seen identity elfree view (.set item false) ⟨none, [], true⟩ ⟨view.dictionary, true⟩
  | get (view : View κ α) (key : α) :
    Seen identity elfree view (.get key) ⟨view.dictionary (identity key), [], view.oom⟩ view
  | delete (view : View κ α) (key : α) (memory : Bool) :
    Seen identity elfree view (.delete key memory) ⟨view.dictionary (identity key), [], false⟩
      ⟨Function.update view.dictionary (identity key) none, false⟩
  | clear (view : View κ α) (updateCap memory : Bool) (freed : List α)
      (all : if elfree then Dictionary.Represents identity freed view.dictionary else freed = []) :
    Seen identity elfree view (.clear updateCap memory) ⟨none, freed, view.oom⟩ ⟨fun _ => none, view.oom⟩

inductive SeenAll (identity : α → κ) (elfree : Bool) :
    View κ α → List (Operation α) → List (Answer α) → View κ α → Prop where
  | nil (view : View κ α) : SeenAll identity elfree view [] [] view
  | cons {before between after : View κ α} {operation : Operation α} {answer : Answer α}
      {operations : List (Operation α)} {answers : List (Answer α)}
      (first : Seen identity elfree before operation answer between)
      (rest : SeenAll identity elfree between operations answers after) :
    SeenAll identity elfree before (operation :: operations) (answer :: answers) after

/-- The stock behind a view. -/
structure Shows (identity : α → κ) (stock : Stock α) (view : View κ α) : Prop where
  represents : Dictionary.Represents identity stock.items view.dictionary
  oom : view.oom = stock.oom

variable {identity : α → κ} {elfree : Bool}

private theorem Shows.effect {before after : Stock α} {view : View κ α} {operation : Operation α} {answer : Answer α}
    (shows : Shows identity before view) (effect : Effect identity elfree before operation answer after) :
    ∃ next, Seen identity elfree view operation answer next ∧ Shows identity after next := by
  classical
  cases effect with
  | set stored done =>
    obtain ⟨represents, rfl⟩ := shows.represents.stored stored
    exact ⟨_, .set view _ _, represents, done.symm⟩
  | refused => exact ⟨_, .refused view _, shows.represents, rfl⟩
  | get taken =>
    obtain ⟨-, rfl⟩ := shows.represents.taken taken
    rw [← shows.oom]
    exact ⟨_, .get view _, shows⟩
  | delete taken done =>
    obtain ⟨represents, rfl⟩ := shows.represents.taken taken
    exact ⟨_, .delete view _ _, represents, done.symm⟩
  | clear all =>
    rw [← shows.oom]
    refine ⟨_, .clear view _ _ _ ?_, .empty, rfl⟩
    cases elfree with
    | true =>
      have represents := shows.represents
      rwa [← all.trans (if_pos rfl)] at represents
    | false => exact Multiset.coe_eq_zero _ |>.mp all

private theorem Shows.effects {before after : Stock α} {view : View κ α} {operations : List (Operation α)}
    {answers : List (Answer α)} (shows : Shows identity before view)
    (effects : Effects identity elfree before operations answers after) :
    ∃ final, SeenAll identity elfree view operations answers final ∧ Shows identity after final := by
  induction effects generalizing view with
  | nil => exact ⟨view, .nil view, shows⟩
  | cons first rest ih =>
    obtain ⟨next, seen, shows⟩ := shows.effect first
    obtain ⟨final, seen_all, shown⟩ := ih shows
    exact ⟨final, .cons seen seen_all, shown⟩

/-- Words that are told apart by their values. -/
def wordFunctions : Functions (BitVec 64) := ⟨fun word _ _ => word, fun _ x _ y => if x = y then 0 else 1, true⟩

def sameWord : Setoid (BitVec 64) := ⟨Eq, eq_equivalence⟩

theorem words_compare : Compares wordFunctions sameWord := by
  intro a x b y _
  change (if x = y then (0 : Int) else 1) = 0 ↔ x = y
  split <;> simp [*]

def newWords : Hashmap (BitVec 64) := ⟨false, 16, 1, 2, 16, 0, 15, 12, 1, 16, fun _ => emptyBucket⟩

theorem newWords_made : hashmapNew 0 1 2 true = some (some newWords) := rfl

def wordOperations : List (Operation (BitVec 64)) := [.set 5 true, .set 21 true, .get 5, .delete 5 false, .clear false true]

section
variable {functions : Functions α} {same : Setoid α} {map : Hashmap α} [Inhabited α]

private theorem reached (compares : Compares functions same) {cap : ℕ} {seed0 seed1 : BitVec 64}
    (made : hashmapNew cap seed0 seed1 true = some (some map)) (operations : List (Operation α))
    (few : sets operations < 2 ^ 16) :
    ∃ k final answers, run functions map operations = some (final, answers) ∧ Valid functions same k final ∧
      final.identity functions same = map.identity functions same ∧
      Effects (map.identity functions same) functions.elfree ⟨0, false⟩ operations answers (final.stock k) := by
  obtain ⟨k, valid, none, oom, count⟩ := Valid.new functions same made
  obtain ⟨j, final, answers, done, kept, identity, -, effects⟩ := valid.run compares operations (by omega)
  rw [Hashmap.stock, none, oom] at effects
  exact ⟨j, final, answers, done, kept, identity, effects⟩

/-- A hash map is a dictionary, whatever the hashes, the growth and the
collisions are. -/
theorem dictionary_refined (compares : Compares functions same) {cap : ℕ} {seed0 seed1 : BitVec 64}
    (made : hashmapNew cap seed0 seed1 true = some (some map)) (operations : List (Operation α))
    (few : sets operations < 2 ^ 16) :
    ∃ final answers view stored, run functions map operations = some (final, answers) ∧
      SeenAll (map.identity functions same) functions.elfree ⟨fun _ => none, false⟩ operations answers view ∧
      hashmapScan (fun _ => true) final = some (stored, true) ∧
      Dictionary.Represents (map.identity functions same) stored view.dictionary ∧ hashmapOom final = view.oom := by
  obtain ⟨k, final, answers, done, kept, identity, effects⟩ := reached compares made operations few
  have empty : Shows (map.identity functions same) ⟨0, false⟩ ⟨fun _ => none, false⟩ := ⟨.empty, rfl⟩
  obtain ⟨view, seen, shows⟩ := empty.effects effects
  have represents := shows.represents
  rw [Hashmap.stock, items_listed] at represents
  exact ⟨final, answers, view, _, done, seen, kept.scan_all, represents, shows.oom.symm⟩

theorem dictionary_refined_words :
    ∃ final answers view stored, run wordFunctions newWords wordOperations = some (final, answers) ∧
      SeenAll (newWords.identity wordFunctions sameWord) true ⟨fun _ => none, false⟩ wordOperations answers view ∧
      hashmapScan (fun _ => true) final = some (stored, true) ∧
      Dictionary.Represents (newWords.identity wordFunctions sameWord) stored view.dictionary ∧
      hashmapOom final = view.oom :=
  dictionary_refined words_compare newWords_made wordOperations (by decide)

/-- A scan and an iteration come to each item once, and the items are what a get
finds. -/
theorem items_visited (compares : Compares functions same) {cap : ℕ} {seed0 seed1 : BitVec 64}
    (made : hashmapNew cap seed0 seed1 true = some (some map)) (operations : List (Operation α))
    (few : sets operations < 2 ^ 16) :
    ∃ final answers stored, run functions map operations = some (final, answers) ∧
      (stored.map (map.identity functions same)).Nodup ∧ hashmapCount final = stored.length ∧
      (∀ iter, hashmapScan iter final =
        some (stored.takeWhile iter ++ (stored.dropWhile iter).take 1, stored.all iter)) ∧
      (∀ rounds > stored.length, iterLoop final rounds 0 = some stored) ∧
      ∀ item, item ∈ stored ↔ hashmapGet functions item final = some (some item) := by
  obtain ⟨k, final, answers, done, kept, identity, -⟩ := reached compares made operations few
  have listed := items_listed k final
  have distinct := kept.distinct
  have count := kept.count
  rw [kept.keys, listed, Multiset.map_coe, Multiset.coe_nodup, identity] at distinct
  rw [← Multiset.card_map Prod.snd, ← items, listed, Multiset.coe_card] at count
  refine ⟨final, answers, _, done, distinct, count, fun iter => kept.scan iter, fun rounds => kept.iterate, ?_⟩
  intro item
  obtain ⟨found, rest, got, taken⟩ := kept.get compares item
  rw [got, Option.some_inj, ← Multiset.mem_coe, ← listed]
  cases taken with
  | missing absent => exact iff_of_false (fun member => absent (Multiset.mem_map_of_mem _ member)) (by simp)
  | found same there =>
    rename_i old
    rw [Option.some_inj]
    constructor
    · intro member
      have first : old ∈ items k final := there ▸ Multiset.mem_cons_self old rest
      have nodup := kept.distinct
      rw [kept.keys] at nodup
      exact Multiset.inj_on_of_nodup_map nodup old first item member same
    · rintro rfl
      exact there ▸ Multiset.mem_cons_self old rest

theorem items_visited_words :
    ∃ final answers stored, run wordFunctions newWords wordOperations = some (final, answers) ∧
      (stored.map (newWords.identity wordFunctions sameWord)).Nodup ∧ hashmapCount final = stored.length ∧
      (∀ iter, hashmapScan iter final =
        some (stored.takeWhile iter ++ (stored.dropWhile iter).take 1, stored.all iter)) ∧
      (∀ rounds > stored.length, iterLoop final rounds 0 = some stored) ∧
      ∀ item, item ∈ stored ↔ hashmapGet wordFunctions item final = some (some item) :=
  items_visited words_compare newWords_made wordOperations (by decide)

end

/-- The items of the sets that were carried out. -/
def handedOver : List (Operation α) → List (Answer α) → List α
  | .set item _ :: operations, answer :: answers =>
    if answer.oom then handedOver operations answers else item :: handedOver operations answers
  | _ :: operations, _ :: answers => handedOver operations answers
  | _, _ => []

/-- What sets and deletes return and what is freed. -/
def givenBack : List (Operation α) → List (Answer α) → List α
  | .get _ :: operations, _ :: answers => givenBack operations answers
  | _ :: operations, answer :: answers => answer.item.toList ++ answer.freed ++ givenBack operations answers
  | _, _ => []

private theorem handedOver_cons (operation : Operation α) (answer : Answer α) (operations : List (Operation α))
    (answers : List (Answer α)) : handedOver (operation :: operations) (answer :: answers) =
      handedOver [operation] [answer] ++ handedOver operations answers := by
  cases operation <;> simp only [handedOver]
  case set => split <;> rfl
  all_goals rfl

private theorem givenBack_cons (operation : Operation α) (answer : Answer α) (operations : List (Operation α))
    (answers : List (Answer α)) : givenBack (operation :: operations) (answer :: answers) =
      givenBack [operation] [answer] ++ givenBack operations answers := by
  cases operation <;> simp [givenBack]

private theorem Effect.conserves {before after : Stock α} {operation : Operation α} {answer : Answer α}
    (effect : Effect identity true before operation answer after) :
    ↑(handedOver [operation] [answer]) + before.items = ↑(givenBack [operation] [answer]) + after.items := by
  cases effect with
  | set stored done =>
    generalize after.items = items at stored ⊢
    cases stored with
    | added absent => simp [handedOver, givenBack]
    | replaced same there => simpa [handedOver, givenBack, there] using Multiset.cons_swap ..
  | refused => simp [handedOver, givenBack]
  | get taken => simp [handedOver, givenBack]
  | delete taken done =>
    generalize after.items = items at taken ⊢
    cases taken with
    | missing absent => simp [handedOver, givenBack]
    | found same there => simp [handedOver, givenBack, there]
  | clear all => simp [handedOver, givenBack, all]

private theorem Effects.conserves {before after : Stock α} {operations : List (Operation α)} {answers : List (Answer α)}
    (effects : Effects identity true before operations answers after) :
    ↑(handedOver operations answers) + before.items = ↑(givenBack operations answers) + after.items := by
  induction effects with
  | nil => simp [handedOver, givenBack]
  | cons first rest ih =>
    rw [handedOver_cons, givenBack_cons, ← Multiset.coe_add, ← Multiset.coe_add, add_right_comm, first.conserves,
      add_assoc, add_comm (Stock.items _), ih, add_assoc]

section
variable {functions : Functions α} {same : Setoid α} {map : Hashmap α} [Inhabited α]

/-- Each item that the map took is given back once: by the set or the delete that
takes it out, or by the clear or the free that frees it. -/
theorem items_conserved (compares : Compares functions same) (frees : functions.elfree = true) {cap : ℕ}
    {seed0 seed1 : BitVec 64} (made : hashmapNew cap seed0 seed1 true = some (some map))
    (operations : List (Operation α)) (few : sets operations < 2 ^ 16) :
    ∃ final answers freed, run functions map operations = some (final, answers) ∧
      hashmapFree functions final = some freed ∧
      (handedOver operations answers).Perm (givenBack operations answers ++ freed) := by
  obtain ⟨k, final, answers, done, kept, identity, effects⟩ := reached compares made operations few
  obtain ⟨freed, called, all⟩ := kept.freed
  rw [if_pos frees] at all
  rw [frees] at effects
  have conserved := effects.conserves
  change _ + 0 = _ + items k final at conserved
  rw [add_zero, ← all, Multiset.coe_add] at conserved
  exact ⟨final, answers, freed, done, called, Multiset.coe_eq_coe.mp conserved⟩

end

theorem items_conserved_words :
    ∃ final answers freed, run wordFunctions newWords wordOperations = some (final, answers) ∧
      hashmapFree wordFunctions final = some freed ∧
      (handedOver wordOperations answers).Perm (givenBack wordOperations answers ++ freed) :=
  items_conserved words_compare rfl newWords_made wordOperations (by decide)

/-- How the buckets lie. -/
structure Layout (functions : Functions α) (map : Hashmap α) : Prop where
  power : ∃ k, 4 ≤ k ∧ k ≤ 30 ∧ map.nbuckets = 2 ^ k
  mask : map.mask = map.nbuckets - 1
  allocated : map.nbuckets ≤ map.allocated
  capacity : map.cap ≤ map.nbuckets
  count : map.count = ((List.range map.nbuckets).filter fun i => (map.buckets i).dib ≠ 0).length
  load : 4 * map.count ≤ 3 * map.nbuckets
  hashed : ∀ i < map.nbuckets, (map.buckets i).dib ≠ 0 →
    (map.buckets i).hash = getHash functions map.seed0 map.seed1 (map.buckets i).item
  located : ∀ i < map.nbuckets, (map.buckets i).dib ≠ 0 →
    ((map.buckets i).hash.toNat + (map.buckets i).dib.toNat) % map.nbuckets = (i + 1) % map.nbuckets
  ordered : ∀ i < map.nbuckets, (map.buckets (map.next i)).dib.toNat ≤ (map.buckets i).dib.toNat + 1
  near : ∀ i < map.nbuckets, (map.buckets i).dib.toNat ≤ map.count

section
variable {functions : Functions α} {same : Setoid α} {map : Hashmap α} {k : ℕ}

private theorem used_entries (order : List ℕ) :
    (order.filter fun i => (map.buckets i).dib ≠ 0).length = (order.filterMap map.entry).length := by
  induction order with
  | nil => rfl
  | cons i rest ih =>
    by_cases free : (map.buckets i).dib = 0
    · have none : map.entry i = none := Cell.content_none.mpr (congrArg BitVec.toNat free)
      rw [List.filterMap_cons_none none, List.filter_cons_of_neg (by simpa using free), ih]
    · have some : map.entry i = some _ := Cell.content_some fun zero => free (BitVec.toNat_inj.mp zero)
      rw [List.filterMap_cons_some some, List.filter_cons_of_pos (by simpa using free), List.length_cons, ih,
        List.length_cons]

private theorem Valid.layout (valid : Valid functions same k map) : Layout functions map := by
  have positive := NeZero.pos (size k)
  have size_power : size k = 2 ^ (4 + k) := by rw [pow_add]; rfl
  constructor
  case power => exact ⟨4 + k, by omega, by have := valid.small; omega, valid.nbuckets.trans size_power⟩
  case mask => rw [valid.mask, valid.nbuckets]
  case allocated => rw [valid.nbuckets]; exact valid.allocated
  case capacity =>
    obtain ⟨c, below, cap⟩ := valid.capacity
    rw [cap, valid.nbuckets]
    exact Nat.mul_le_mul_left 16 (Nat.pow_le_pow_right (by decide) below)
  case count =>
    rw [valid.count, entries_range, Multiset.coe_card, used_entries, valid.nbuckets]
  case load =>
    have load := valid.load
    rw [valid.growat] at load
    rw [valid.nbuckets]
    omega
  case hashed =>
    intro i inside used
    rw [valid.nbuckets] at inside
    have taken := (free_iff map.buckets inside).not.mp used
    have hashed := valid.hashed _ (mem_contents.mpr ⟨i, taken, rfl⟩)
    rwa [ring_at inside] at hashed
  case located =>
    intro i inside used
    rw [valid.nbuckets] at inside ⊢
    have located := valid.sound.located i ((free_iff map.buckets inside).not.mp used)
    rw [ring_at inside, home, ← Nat.cast_add, ← Nat.cast_succ, ZMod.natCast_eq_natCast_iff'] at located
    exact located
  case ordered =>
    intro i inside
    rw [valid.nbuckets] at inside
    have ordered := valid.sound.ordered i
    rwa [← valid.sized.next_cast, ring_at (valid.sized.next_lt i), ring_at inside] at ordered
  case near =>
    intro i inside
    rw [valid.nbuckets] at inside
    have near := valid.sound.dib_le valid.room i
    rw [ring_at inside] at near
    exact near.trans_eq valid.count.symm

variable [Inhabited α]

/-- The buckets are in Robin Hood order in every state. -/
theorem layout_kept (compares : Compares functions same) {cap : ℕ} {seed0 seed1 : BitVec 64}
    (made : hashmapNew cap seed0 seed1 true = some (some map)) (operations : List (Operation α))
    (few : sets operations < 2 ^ 16) :
    ∃ final answers, run functions map operations = some (final, answers) ∧ Layout functions final := by
  obtain ⟨k, final, answers, done, kept, -, -⟩ := reached compares made operations few
  exact ⟨final, answers, done, kept.layout⟩

theorem layout_kept_words :
    ∃ final answers, run wordFunctions newWords wordOperations = some (final, answers) ∧ Layout wordFunctions final :=
  layout_kept words_compare newWords_made wordOperations (by decide)

end
end OnlineScheduler.HashMap
