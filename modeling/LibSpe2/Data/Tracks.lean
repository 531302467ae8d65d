import Mathlib.Data.List.Basic
import Mathlib.Data.List.Nodup
import Mathlib.Logic.Function.Basic

/-!
# Lists that keep track of a predicate

`Tracks l P` says that `l` lists the keys that satisfy `P`, each once. A program that counts its users
keeps such a list as history: taking a reference adds its key, dropping it erases the key, and the
length of the list is what the counter has to hold.
-/

variable {κ : Type}

/-- `l` lists the keys with `P`, each once. -/
structure Tracks (l : List κ) (P : κ → Prop) : Prop where
  nodup : l.Nodup
  mem : ∀ k, k ∈ l ↔ P k

namespace Tracks

variable {l : List κ} {P Q : κ → Prop} {k : κ}

theorem congr (h : Tracks l P) (hPQ : ∀ k, P k ↔ Q k) : Tracks l Q :=
  ⟨h.nodup, fun k => (h.mem k).trans (hPQ k)⟩

theorem cons (h : Tracks l P) (hk : ¬ P k) (hQ : ∀ j, Q j ↔ j = k ∨ P j) : Tracks (k :: l) Q where
  nodup := List.nodup_cons.mpr ⟨fun hmem => hk ((h.mem k).mp hmem), h.nodup⟩
  mem j := by rw [List.mem_cons, h.mem, hQ]

theorem erase [BEq κ] [LawfulBEq κ] (h : Tracks l P) (hQ : ∀ j, Q j ↔ j ≠ k ∧ P j) :
    Tracks (l.erase k) Q where
  nodup := h.nodup.erase k
  mem j := by rw [h.nodup.mem_erase_iff, h.mem, hQ]

/-! ## A state for each key

`P` is read off a state that each key has, and the state of `k` changes to `g`. -/

section
variable [DecidableEq κ] {G : Type} {γ : κ → G} {g : G} {P : G → Prop}

theorem update_same (h : Tracks l fun j => P (γ j)) (hg : P g ↔ P (γ k)) :
    Tracks l fun j => P (Function.update γ k g j) := by
  refine h.congr fun j => ?_
  by_cases hj : j = k
  · rw [hj, Function.update_self, hg]
  · rw [Function.update_of_ne hj]

theorem update_cons (h : Tracks l fun j => P (γ j)) (hk : ¬P (γ k)) (hg : P g) :
    Tracks (k :: l) fun j => P (Function.update γ k g j) := by
  refine h.cons hk fun j => ?_
  by_cases hj : j = k
  · simp [hj, hg]
  · simp [hj]

theorem update_erase (h : Tracks l fun j => P (γ j)) (hg : ¬P g) :
    Tracks (l.erase k) fun j => P (Function.update γ k g j) := by
  refine h.erase fun j => ?_
  by_cases hj : j = k
  · simp [hj, hg]
  · simp [hj]

end

theorem perm_erase [BEq κ] [LawfulBEq κ] (h : Tracks l P) (hk : P k) : l.Perm (k :: l.erase k) :=
  List.perm_cons_erase ((h.mem k).mpr hk)

end Tracks
