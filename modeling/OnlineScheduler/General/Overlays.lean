import Mathlib.Data.List.Basic

/-! Records laid over a space one after another: of those that cover a point,
the last one shows. -/

namespace Overlay

variable {α ρ : Type} (covers : ρ → α → Prop) [∀ record a, Decidable (covers record a)]

def lay (shown : α → Option ρ) (record : ρ) : α → Option ρ :=
  fun a => if covers record a then some record else shown a

def layers (records : List ρ) : α → Option ρ := records.foldl (lay covers) fun _ => none

variable {covers} {shown : α → Option ρ} {record : ρ} {records : List ρ} {a : α}

theorem lay_inside (inside : covers record a) : lay covers shown record a = some record := if_pos inside

theorem lay_outside (outside : ¬ covers record a) : lay covers shown record a = shown a := if_neg outside

theorem layers_snoc : layers covers (records ++ [record]) = lay covers (layers covers records) record := by
  rw [layers, List.foldl_append]
  rfl

variable (covers) in
/-- Some of the records were turned away: a point shows the last one over it,
unless that one was. -/
def Shows (shown : α → Option ρ) (records refused : List ρ) : Prop :=
  ∀ a, shown a = layers covers records a ∨ ∃ record ∈ refused, layers covers records a = some record

variable {refused : List ρ}

theorem Shows.start : Shows covers (fun _ => none) [] [] := fun _ => .inl rfl

theorem Shows.accept (shows : Shows covers shown records refused) (record : ρ) :
    Shows covers (lay covers shown record) (records ++ [record]) refused := by
  intro a
  rw [layers_snoc]
  by_cases inside : covers record a
  · rw [lay_inside inside, lay_inside inside]
    exact .inl rfl
  · rw [lay_outside inside, lay_outside inside]
    exact shows a

theorem Shows.refuse (shows : Shows covers shown records refused) (record : ρ) :
    Shows covers shown (records ++ [record]) (refused ++ [record]) := by
  intro a
  rw [layers_snoc]
  by_cases inside : covers record a
  · exact .inr ⟨record, by simp, lay_inside inside⟩
  · rw [lay_outside inside]
    rcases shows a with same | ⟨other, member, last⟩
    · exact .inl same
    · exact .inr ⟨other, List.mem_append_left _ member, last⟩

end Overlay
