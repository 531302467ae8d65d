import Mathlib.Data.List.Basic
import Mathlib.Data.List.Count

/-!
# Who has the references to a shared thing

A thing that is shared by counting is open as long as somebody has a reference to it. A reference that
is taken is in somebody's hands; it can be given back, be passed on to a user that is registered, or be
left behind, which is what caching means.

* `References` — the references to one thing, by who has them.
* `total` — how many there are; every operation says what it does to that number.
-/

/-- The references to one thing: `T` takes them, `K` is registered. -/
structure References (T K : Type) where
  /-- Taken by somebody who has neither given them back nor passed them on. -/
  hands : List T
  /-- One for each user that is registered. -/
  live : List K
  /-- Left behind: nobody will give them back. -/
  cached : Nat

namespace References

variable {T K : Type}

def none : References T K := ⟨[], [], 0⟩

def total (x : References T K) : Nat := x.hands.length + x.live.length + x.cached

def take (t : T) (x : References T K) : References T K := { x with hands := t :: x.hands }

/-- Take a reference and leave it behind. -/
def cache (x : References T K) : References T K := { x with cached := x.cached + 1 }

section

variable [DecidableEq T]

def drop (t : T) (x : References T K) : References T K := { x with hands := x.hands.erase t }

/-- Pass a reference on to `k`. -/
def register (t : T) (k : K) (x : References T K) : References T K :=
  { x with hands := x.hands.erase t, live := k :: x.live }

/-- `t` leaves behind what it has in its hands. -/
def leave (t : T) (x : References T K) : References T K :=
  { x with hands := x.hands.filter (· ≠ t), cached := x.cached + x.hands.count t }

end

/-- `k` is not registered any more, and its reference is left behind. -/
def unregister [DecidableEq K] (k : K) (x : References T K) : References T K :=
  { x with live := x.live.erase k, cached := x.cached + 1 }

variable {t : T} {k : K} {x : References T K}

@[simp] theorem total_none : (none : References T K).total = 0 := rfl

@[simp] theorem total_take : (x.take t).total = x.total + 1 := by
  simp only [total, take, List.length_cons]
  omega

@[simp] theorem total_cache : x.cache.total = x.total + 1 := by
  simp only [total, cache]
  omega

theorem total_unregister [DecidableEq K] (hk : k ∈ x.live) : (x.unregister k).total = x.total := by
  have hlength := List.length_erase_of_mem hk
  have hpos := List.length_pos_of_mem hk
  simp only [total, unregister]
  omega

/-- The other registrations are kept. -/
theorem mem_unregister [DecidableEq K] {j : K} (hj : j ≠ k) (hmem : j ∈ x.live) :
    j ∈ (x.unregister k).live := (List.mem_erase_of_ne hj).mpr hmem

theorem unregister_nil [DecidableEq K] (hx : x.live = []) : (x.unregister k).live = [] := by
  simp [unregister, hx]

variable [DecidableEq T]

theorem total_drop : x.total ≤ (x.drop t).total + 1 := by
  have hlength : x.hands.length ≤ (x.hands.erase t).length + 1 := by
    rw [List.length_erase]
    split <;> omega
  simp only [total, drop]
  omega

theorem total_drop_le : (x.drop t).total ≤ x.total := by
  have hlength : (x.hands.erase t).length ≤ x.hands.length := List.length_erase_le
  simp only [total, drop]
  omega

/-- Passing a reference on changes who has it. -/
theorem total_register (ht : t ∈ x.hands) : (x.register t k).total = x.total := by
  have hlength := List.length_erase_of_mem ht
  have hpos := List.length_pos_of_mem ht
  simp only [total, register, List.length_cons]
  omega

@[simp] theorem total_leave : (x.leave t).total = x.total := by
  have hlength : x.hands.length = x.hands.count t + (x.hands.filter (· ≠ t)).length := by
    rw [List.length_eq_countP_add_countP (· == t), ← List.countP_eq_length_filter]
    simp [List.count]
  simp only [total, leave]
  omega

/-- Nothing is left in the hands of who leaves. -/
theorem mem_leave {u : T} : u ∈ (x.leave t).hands ↔ u ∈ x.hands ∧ u ≠ t := by
  simp [leave]

end References
