import Mathlib.Data.List.Basic

/-! A queue that remembers what was taken from it. -/

structure Fifo (α : Type) where
  taken : List α
  queued : List α

namespace Fifo

variable {α : Type}

def empty : Fifo α := ⟨[], []⟩

def put (fifo : Fifo α) (item : α) : Fifo α := { fifo with queued := fifo.queued ++ [item] }

def take (fifo : Fifo α) : Option (α × Fifo α) :=
  match fifo.queued with
  | [] => none
  | item :: rest => some (item, ⟨fifo.taken ++ [item], rest⟩)

def written (fifo : Fifo α) : List α := fifo.taken ++ fifo.queued

theorem written_put (fifo : Fifo α) (item : α) : (fifo.put item).written = fifo.written ++ [item] :=
  (List.append_assoc ..).symm

theorem put_all (fifo : Fifo α) (items : List α) :
    (items.foldl put fifo).taken = fifo.taken ∧ (items.foldl put fifo).written = fifo.written ++ items := by
  induction items generalizing fifo with
  | nil => exact ⟨rfl, (List.append_nil _).symm⟩
  | cons item rest ih =>
    obtain ⟨taken, written⟩ := ih (fifo.put item)
    refine ⟨taken, ?_⟩
    rw [List.foldl_cons, written, written_put, List.append_assoc, List.singleton_append]

variable {fifo fifo' : Fifo α} {item : α}

theorem take_some (took : fifo.take = some (item, fifo')) :
    fifo'.taken = fifo.taken ++ [item] ∧ fifo.queued = item :: fifo'.queued := by
  unfold take at took
  split at took
  next => cases took
  next found => cases took; exact ⟨rfl, found⟩

theorem take_written (took : fifo.take = some (item, fifo')) : fifo'.written = fifo.written := by
  obtain ⟨taken, queued⟩ := take_some took
  rw [written, written, taken, queued, List.append_assoc, List.singleton_append]

theorem taken_first (fifo : Fifo α) : fifo.taken <+: fifo.written := List.prefix_append _ _

end Fifo
