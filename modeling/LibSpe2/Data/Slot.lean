import Mathlib.Data.List.Basic

/-!
# A buffer for one element

A slot holds the last element that was put into it, until it is taken or dropped; an element put into a
full slot replaces the one in there. What was put and what was taken is remembered.

Main result:
* `Slot.Sound` — the taken elements, and then the one in the slot, are among those put, in their order:
  each is taken at most once, and never after a newer one.
-/

namespace LibSpe2

structure Slot (α : Type) where
  content : Option α
  put : List α
  taken : List α

namespace Slot

variable {α : Type} {x : Slot α} {a : α}

def empty : Slot α := ⟨none, [], []⟩

/-- Put an element, in place of the one that is there. -/
def store (x : Slot α) (a : α) : Slot α := { x with content := some a, put := x.put ++ [a] }

/-- Take the element, if there is one. -/
def take (x : Slot α) : Slot α := { x with content := none, taken := x.taken ++ x.content.toList }

/-- Drop the element, if there is one. -/
def drop (x : Slot α) : Slot α := { x with content := none }

/-- The elements taken and left are among those put, in order. -/
def Sound (x : Slot α) : Prop := (x.taken ++ x.content.toList).Sublist x.put

theorem sound_empty : (empty : Slot α).Sound := List.Sublist.refl []

theorem Sound.taken (h : x.Sound) : x.taken.Sublist x.put :=
  (List.sublist_append_left x.taken x.content.toList).trans h

theorem Sound.store (h : x.Sound) : (x.store a).Sound := h.taken.append_right [a]

theorem Sound.take (h : x.Sound) : x.take.Sound := by
  show ((x.taken ++ x.content.toList) ++ []).Sublist x.put
  rw [List.append_nil]
  exact h

theorem Sound.drop (h : x.Sound) : x.drop.Sound := by
  show (x.taken ++ []).Sublist x.put
  rw [List.append_nil]
  exact h.taken

end Slot

end LibSpe2
