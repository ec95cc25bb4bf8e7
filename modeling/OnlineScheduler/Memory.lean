import OnlineScheduler.World
import OnlineScheduler.General.Overlays

/-! The memory of the application, as far as `mbind` settles it: the policy of
an address is that of the last call that covers it and does not fail. -/

namespace OnlineScheduler

def DataBind.Binds (data : DataBind) (a : BitVec 64) : Prop :=
  data.startAddr.toNat ≤ a.toNat ∧ a.toNat < data.startAddr.toNat + data.size.toNat

instance (data : DataBind) (a : BitVec 64) : Decidable (data.Binds a) := inferInstanceAs (Decidable (_ ∧ _))

/-- The record each address was last bound by. -/
abbrev Memory := BitVec 64 → Option DataBind

def mbind (memory : Memory) (data : DataBind) : Memory := Overlay.lay DataBind.Binds memory data

/-- The answer of `mbind`, in the passes of its thread. -/
def WorldAction.bound : WorldAction → Bool
  | .iterate _ bound => bound
  | _ => false

structure Host where
  world : World
  memory : Memory

namespace Host

def start (statusMemoryPages : Nat → ℚ) : Host := ⟨.start statusMemoryPages, fun _ => none⟩

def step (p : Platform) (capacity : Nat) (h : Host) (action : WorldAction) : Except Stop Host := do
  let world ← h.world.step p capacity action
  let executed := world.preload.executed.drop h.world.preload.executed.length
  return ⟨world, if action.bound then executed.foldl mbind h.memory else h.memory⟩

def run (p : Platform) (capacity : Nat) (h : Host) (actions : List WorldAction) : Except Stop Host :=
  actions.foldlM (step p capacity) h

end Host
end OnlineScheduler
