import Mathlib.Data.List.Basic
import Mathlib.Tactic

/-!
# Bounded first-in first-out queues

A queue carries its capacity and the proof that its contents fit.  The two
producers of a circular buffer are one partial operation here: `addIfRoom`
fails on a full queue, which is where the blocking producer would wait.
Contents are listed from the next element to leave to the last one added.
-/

structure BoundedFifo (α : Type*) where
  capacity : ℕ
  items : List α
  fits : items.length ≤ capacity
  deriving DecidableEq

namespace BoundedFifo

variable {α β : Type*}

def empty (capacity : ℕ) : BoundedFifo α where
  capacity := capacity
  items := []
  fits := by simp

def hasRoom (queue : BoundedFifo α) : Prop :=
  queue.items.length < queue.capacity

instance (queue : BoundedFifo α) : Decidable queue.hasRoom :=
  inferInstanceAs (Decidable (queue.items.length < queue.capacity))

def addIfRoom (queue : BoundedFifo α) (x : α) : Option (BoundedFifo α) :=
  if hroom : queue.items.length < queue.capacity then
    some {
      capacity := queue.capacity
      items := queue.items ++ [x]
      fits := by simpa using hroom }
  else
    none

def remove : BoundedFifo α → Option (α × BoundedFifo α)
  | ⟨_, [], _⟩ => none
  | ⟨capacity, x :: rest, hfits⟩ =>
      some (x, ⟨capacity, rest, by simp at hfits; omega⟩)

@[simp] theorem items_empty (capacity : ℕ) :
    (empty capacity : BoundedFifo α).items = [] := rfl

theorem addIfRoom_eq_some
    {queue next : BoundedFifo α} {x : α}
    (hadd : queue.addIfRoom x = some next) :
    queue.hasRoom ∧ next.items = queue.items ++ [x] ∧
      next.capacity = queue.capacity := by
  unfold addIfRoom at hadd
  split at hadd
  · rename_i hroom
    simp only [Option.some.injEq] at hadd
    subst next
    exact ⟨hroom, rfl, rfl⟩
  · simp at hadd

theorem addIfRoom_eq_none_iff
    {queue : BoundedFifo α} {x : α} :
    queue.addIfRoom x = none ↔ ¬queue.hasRoom := by
  unfold addIfRoom hasRoom
  split <;> simp_all

theorem addIfRoom_of_hasRoom
    {queue : BoundedFifo α} (hroom : queue.hasRoom) (x : α) :
    ∃ next, queue.addIfRoom x = some next ∧
      next.items = queue.items ++ [x] ∧
      next.capacity = queue.capacity := by
  have hlt : queue.items.length < queue.capacity := hroom
  unfold addIfRoom
  rw [dif_pos hlt]
  exact ⟨_, rfl, rfl, rfl⟩

theorem remove_eq_some
    {queue next : BoundedFifo α} {x : α}
    (hremove : queue.remove = some (x, next)) :
    queue.items = x :: next.items ∧ next.capacity = queue.capacity := by
  obtain ⟨capacity, items, hfits⟩ := queue
  cases items with
  | nil => simp [remove] at hremove
  | cons y rest =>
      simp only [remove, Option.some.injEq, Prod.mk.injEq] at hremove
      obtain ⟨rfl, rfl⟩ := hremove
      exact ⟨rfl, rfl⟩

theorem remove_eq_none_iff
    {queue : BoundedFifo α} :
    queue.remove = none ↔ queue.items = [] := by
  obtain ⟨capacity, items, hfits⟩ := queue
  cases items <;> simp [remove]

/-- Whatever was just taken out can be put back. -/
theorem hasRoom_of_remove
    {queue next : BoundedFifo α} {x : α}
    (hremove : queue.remove = some (x, next)) :
    next.hasRoom := by
  obtain ⟨hitems, hcapacity⟩ := remove_eq_some hremove
  have hfits := queue.fits
  rw [hitems, List.length_cons] at hfits
  unfold hasRoom
  omega

end BoundedFifo
