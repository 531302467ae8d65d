import Mathlib.Data.List.Basic

/-!
# Linked records

Records that are linked by a pointer in each of them: `Linked next start l` says that whoever follows the
pointers from `start` meets exactly the records `l` and then the null pointer.
-/

variable {A : Type} {next next' : A → Option A} {start start' : Option A} {a : A} {l l' : List A}

/-- Following `next` from `start` meets the records `l` and ends. -/
def Linked (next : A → Option A) : Option A → List A → Prop
  | start, [] => start = none
  | start, a :: l => start = some a ∧ Linked next (next a) l

namespace Linked

@[simp] theorem nil_iff : Linked next start [] ↔ start = none := Iff.rfl

@[simp] theorem cons_iff : Linked next start (a :: l) ↔ start = some a ∧ Linked next (next a) l := Iff.rfl

/-- Records that are not met do not matter. -/
theorem congr (h : Linked next start l) (hnext : ∀ a ∈ l, next' a = next a) : Linked next' start l := by
  induction l generalizing start with
  | nil => exact h
  | cons a l ih =>
    obtain ⟨ha, hl⟩ := List.forall_mem_cons.mp hnext
    exact ⟨h.1, ih (ha ▸ h.2) hl⟩

end Linked
