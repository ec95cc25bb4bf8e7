import Mathlib.Data.List.Basic

/-! A stream of symbols that carries records of one width. A reader that takes
that many symbols at a time never sees a part of a record. -/

namespace Frames

variable {α β : Type} {width : Nat} {carries : α → List β → Prop}

inductive Framed (carries : α → List β → Prop) : List α → List β → Prop where
  | nil : Framed carries [] []
  | cons {item : α} {frame : List β} {items : List α} {stream : List β} (carried : carries item frame)
      (rest : Framed carries items stream) : Framed carries (item :: items) (frame ++ stream)

variable {item : α} {frame : List β} {items : List α} {stream : List β}

theorem Framed.snoc (framed : Framed carries items stream) (carried : carries item frame) :
    Framed carries (items ++ [item]) (stream ++ frame) := by
  induction framed with
  | nil =>
    rw [List.nil_append, List.nil_append, ← List.append_nil frame]
    exact .cons carried .nil
  | cons first _ ih =>
    rw [List.append_assoc, List.cons_append]
    exact .cons first ih

theorem Framed.length (wide : ∀ item frame, carries item frame → frame.length = width)
    (framed : Framed carries items stream) : stream.length = width * items.length := by
  induction framed with
  | nil => rfl
  | cons carried _ ih => rw [List.length_append, wide _ _ carried, ih, List.length_cons, Nat.mul_succ, Nat.add_comm]

/-- What a read of the width finds. -/
theorem Framed.read (wide : ∀ item frame, carries item frame → frame.length = width)
    (framed : Framed carries items stream) (filled : stream ≠ []) : ∃ item rest, items = item :: rest ∧
      carries item (stream.take width) ∧ Framed carries rest (stream.drop width) := by
  cases framed with
  | nil => exact absurd rfl filled
  | cons carried rest =>
    refine ⟨_, _, rfl, ?_, ?_⟩
    · rw [List.take_left' (wide _ _ carried)]; exact carried
    · rw [List.drop_left' (wide _ _ carried)]; exact rest

theorem Framed.frames (wide : ∀ item frame, carries item frame → frame.length = width)
    (framed : Framed carries items stream) :
    ∃ frames, stream = frames.flatten ∧ (∀ frame ∈ frames, frame.length = width) ∧ List.Forall₂ carries items frames := by
  induction framed with
  | nil => exact ⟨[], rfl, nofun, .nil⟩
  | cons carried _ ih =>
    obtain ⟨frames, rfl, widths, rest⟩ := ih
    exact ⟨_ :: frames, rfl, List.forall_mem_cons.mpr ⟨wide _ _ carried, widths⟩, .cons carried rest⟩

end Frames
