import Mathlib.Data.List.Flatten
import Mathlib.Data.List.Infix

/-!
# Fixed-size blocks in a stream

A stream (`List α`) that was written block by block and is read in arbitrary pieces. When all blocks
have the same length `k > 0`, block boundaries can be recovered from the stream alone: a flattened
list of blocks determines the blocks.
-/

namespace Blocks

variable {α : Type} {k : ℕ}

/-- Every block has length `k`. -/
def Sized (k : ℕ) (bs : List (List α)) : Prop := ∀ b ∈ bs, b.length = k

@[simp] theorem sized_nil : Sized k ([] : List (List α)) := by simp [Sized]

@[simp] theorem sized_cons {b : List α} {bs : List (List α)} :
    Sized k (b :: bs) ↔ b.length = k ∧ Sized k bs := by simp [Sized]

@[simp] theorem sized_append {bs cs : List (List α)} :
    Sized k (bs ++ cs) ↔ Sized k bs ∧ Sized k cs := by
  simp [Sized, or_imp, forall_and]

/-- **Blocks are recovered from the stream**: if the blocks read, flattened, begin the blocks
written, flattened, then the blocks read begin the blocks written. -/
theorem Sized.prefix_of_flatten {bs cs : List (List α)} (hk : 0 < k) (hb : Sized k bs)
    (hc : Sized k cs) (h : bs.flatten <+: cs.flatten) : bs <+: cs := by
  induction bs generalizing cs with
  | nil => exact List.nil_prefix
  | cons b bs ih =>
    rw [sized_cons] at hb
    cases cs with
    | nil =>
      have := h.length_le
      simp only [List.flatten_cons, List.length_append, List.flatten_nil, List.length_nil] at this
      omega
    | cons c cs =>
      rw [sized_cons] at hc
      simp only [List.flatten_cons] at h
      obtain ⟨rest, hrest⟩ := h
      rw [List.append_assoc] at hrest
      obtain ⟨rfl, htail⟩ := List.append_inj hrest (hb.1.trans hc.1.symm)
      exact List.cons_prefix_cons.mpr ⟨rfl, ih hb.2 hc.2 ⟨rest, htail⟩⟩

end Blocks
