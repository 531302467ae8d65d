import Mathlib.Data.List.Sort
import Mathlib.Data.Rat.Defs
import Mathlib.Data.UInt
import Mathlib.Algebra.Order.Ring.Rat

/-!
# What spu-tools uses of the C library

* `Consistent` — what `qsort` requires of a comparison, and `Accepts`, when a call of it has a meaning.
* `Libc` — `strcmp` and `qsort`, and how the floating point unit rounds. A number of type `float` or `double` is its
  value.
* `Libc.sort` — a call of `qsort`.
* `Libc.plain` — a library that is simple enough to run.
-/

namespace LibSpe2.SpuTools

/-- The sign of what a comparison returns. -/
def sgn (n : Int32) : Int := n.toInt.sign

variable {α : Type} {cmp : α → α → Option Int32} {l l' : List α}

/-- A comparison does not put `a` behind `b`. It has no result where it follows a null pointer. -/
def Below (cmp : α → α → Option Int32) (a b : α) : Prop := ∃ n ∈ cmp a b, sgn n ≤ 0

instance (cmp : α → α → Option Int32) : DecidableRel (Below cmp) := fun a b =>
  match h : cmp a b with
  | none => isFalse (by simp [Below, h])
  | some n => decidable_of_iff (sgn n ≤ 0) (by simp [Below, h])

/-- What `qsort` requires of a comparison, for the elements of an array. -/
structure Consistent (cmp : α → α → Option Int32) (l : List α) : Prop where
  defined : ∀ a ∈ l, ∀ b ∈ l, (cmp a b).isSome
  antisymm : ∀ a ∈ l, ∀ b ∈ l, (cmp a b).map sgn = (cmp b a).map fun n => -sgn n
  trans : ∀ a ∈ l, ∀ b ∈ l, ∀ c ∈ l, Below cmp a b → Below cmp b c → Below cmp a c

theorem Consistent.iff_forall : Consistent cmp l ↔
    (∀ a ∈ l, ∀ b ∈ l, (cmp a b).isSome) ∧
      (∀ a ∈ l, ∀ b ∈ l, (cmp a b).map sgn = (cmp b a).map fun n => -sgn n) ∧
      ∀ a ∈ l, ∀ b ∈ l, ∀ c ∈ l, Below cmp a b → Below cmp b c → Below cmp a c :=
  ⟨fun h => ⟨h.defined, h.antisymm, h.trans⟩, fun ⟨hd, ha, ht⟩ => ⟨hd, ha, ht⟩⟩

instance (cmp : α → α → Option Int32) (l : List α) : Decidable (Consistent cmp l) :=
  decidable_of_iff' _ Consistent.iff_forall

/-- A call of `qsort` has a meaning. One element is not compared. -/
def Accepts (cmp : α → α → Option Int32) (l : List α) : Prop := l.length ≤ 1 ∨ Consistent cmp l

instance (cmp : α → α → Option Int32) (l : List α) : Decidable (Accepts cmp l) :=
  inferInstanceAs (Decidable (_ ∨ _))

/-- What is used of the C library, and how the floating point unit rounds. -/
structure Libc where
  strcmp : String → String → Int32
  qsort : {α : Type} → (α → α → Option Int32) → List α → List α
  qsort_perm : ∀ {α : Type} (cmp : α → α → Option Int32) (l : List α), Accepts cmp l → (qsort cmp l).Perm l
  qsort_sorted : ∀ {α : Type} (cmp : α → α → Option Int32) (l : List α), Consistent cmp l →
    (qsort cmp l).Pairwise (Below cmp)
  /-- To the numbers of type `float`. -/
  single : ℚ → ℚ
  single_mono : Monotone single
  single_neg : ∀ x, single (-x) = -single x
  /-- To the numbers of type `double`. -/
  double : ℚ → ℚ

/-- A call of `qsort`: where the comparison is not one for the array, C gives it no meaning, and it has no result. -/
def Libc.sort (lib : Libc) (cmp : α → α → Option Int32) (l : List α) : Option (List α) :=
  if Accepts cmp l then some (lib.qsort cmp l) else none

theorem Libc.sort_accepts (lib : Libc) (h : Accepts cmp l) :
    ∃ l', lib.sort cmp l = some l' ∧ l'.Perm l := ⟨_, if_pos h, lib.qsort_perm cmp l h⟩

theorem Libc.sort_eq_none (lib : Libc) (h : ¬Accepts cmp l) : lib.sort cmp l = none := if_neg h

/-- The elements of an array are compared by something else that they lead to. -/
theorem accepts_map {β : Type} {f : β → α} {l : List β} :
    Accepts cmp (l.map f) ↔ Accepts (fun a b => cmp (f a) (f b)) l := by
  unfold Accepts
  rw [Consistent.iff_forall, Consistent.iff_forall, List.length_map]
  simp only [List.forall_mem_map]
  rfl

/-- The order of an array does not matter. -/
theorem Accepts.perm (h : Accepts cmp l) (hperm : l'.Perm l) : Accepts cmp l' := by
  refine h.imp (fun hlen => hperm.length_eq ▸ hlen) fun h => ?_
  have hmem {a : α} (ha : a ∈ l') : a ∈ l := hperm.mem_iff.mp ha
  exact ⟨fun a ha b hb => h.defined a (hmem ha) b (hmem hb), fun a ha b hb => h.antisymm a (hmem ha) b (hmem hb),
    fun a ha b hb c hc => h.trans a (hmem ha) b (hmem hb) c (hmem hc)⟩

/-! ## A library to run -/

def strcmpOf (s1 s2 : String) : Int32 := if s1 < s2 then -1 else if s2 < s1 then 1 else 0

/-- The order of the elements of an array. -/
def InOrder (cmp : α → α → Option Int32) (l : List α) (a b : { a // a ∈ l }) : Prop := Below cmp a b

instance (cmp : α → α → Option Int32) (l : List α) : DecidableRel (InOrder cmp l) :=
  fun a b => inferInstanceAs (Decidable (Below cmp a b))

/-- Any two elements are in one order or in the other. -/
theorem Consistent.total (h : Consistent cmp l) {a b : α} (ha : a ∈ l) (hb : b ∈ l) :
    Below cmp a b ∨ Below cmp b a := by
  obtain ⟨m, hm⟩ := Option.isSome_iff_exists.mp (h.defined a ha b hb)
  obtain ⟨n, hn⟩ := Option.isSome_iff_exists.mp (h.defined b hb a ha)
  have hmn : sgn m = -sgn n := by simpa [hm, hn] using h.antisymm a ha b hb
  rcases Int.le_total (sgn m) 0 with hle | hle
  · exact .inl ⟨m, hm, hle⟩
  · exact .inr ⟨n, hn, by omega⟩

theorem Consistent.pairwise (h : Consistent cmp l) :
    (l.attach.insertionSort (InOrder cmp l)).Pairwise (InOrder cmp l) := by
  have htotal : Std.Total (InOrder cmp l) := ⟨fun a b => h.total a.2 b.2⟩
  have htrans : IsTrans _ (InOrder cmp l) := ⟨fun a b c => h.trans a a.2 b b.2 c c.2⟩
  exact List.pairwise_insertionSort (InOrder cmp l) l.attach

/-- A library that sorts by insertion, with numbers that need not be rounded. -/
def Libc.plain : Libc where
  strcmp := strcmpOf
  qsort cmp l := (l.attach.insertionSort (InOrder cmp l)).map Subtype.val
  qsort_perm cmp l _ := by
    have hperm := (List.perm_insertionSort (InOrder cmp l) l.attach).map Subtype.val
    rw [List.attach_map_subtype_val] at hperm
    exact hperm
  qsort_sorted cmp l h := List.pairwise_map.mpr h.pairwise
  single := id
  single_mono := monotone_id
  single_neg _ := rfl
  double := id

end LibSpe2.SpuTools
