import Mathlib.Data.List.Basic
import Mathlib.Logic.Function.Basic
import Mathlib.Order.Basic

/-!
# Arrays of pointers that grow

An array in memory that is enlarged when an element is to be put behind the last one. An access at or past the capacity
has no result, nor has following a null pointer.

* `Growable` — the array, and `Holds`, which elements it has.
* `loop_rule` — an invariant of a loop over an index.
* `push`, `delete` — the operations that change the number of elements, each with what it makes of them.
* `sweep` — a loop that deletes elements while its index goes on, and `skim`, what it leaves.
-/

/-- What the slots hold, where `none` is a null pointer, how many elements there are and how many slots. -/
structure Growable (α : Type) where
  slots : Nat → Option α
  n : Nat
  capacity : Nat

namespace Growable

variable {α β : Type}

/-- A loop over the indices from `i` on. -/
theorem loop_rule {f : β → Nat → Option β} (J : Nat → β → Prop) {m i : Nat} {b : β} (hb : J i b)
    (hf : ∀ j b, i ≤ j → j < i + m → J j b → ∃ b', f b j = some b' ∧ J (j + 1) b') :
    ∃ b', (List.range' i m).foldlM f b = some b' ∧ J (i + m) b' := by
  induction m generalizing i b with
  | zero => exact ⟨b, rfl, hb⟩
  | succ m ih =>
    obtain ⟨b₁, hb₁, hJ⟩ := hf i b (Nat.le_refl i) (by omega) hb
    obtain ⟨b', hb', hJ'⟩ := ih hJ fun j b hij hjm => hf j b (by omega) (by omega)
    refine ⟨b', ?_, ?_⟩
    · rw [List.range'_succ, List.foldlM_cons, hb₁]
      exact hb'
    · rw [Nat.add_right_comm] at hJ'
      exact hJ'

/-! ## Accesses -/

/-- `t[i]`. -/
def read (t : Growable α) (i : Nat) : Option (Option α) := if i < t.capacity then some (t.slots i) else none

/-- What `t[i]` points to. -/
def deref (t : Growable α) (i : Nat) : Option α := do
  let v ← t.read i
  v

/-- `t[i] = v`. -/
def write (t : Growable α) (i : Nat) (v : Option α) : Option (Growable α) :=
  if i < t.capacity then some { t with slots := Function.update t.slots i v } else none

/-- What `t[i]` points to is changed. -/
def modify (t : Growable α) (i : Nat) (f : α → α) : Option (Growable α) := do
  let a ← t.deref i
  t.write i (some (f a))

/-- The elements of an array. -/
structure Holds (t : Growable α) (l : List α) : Prop where
  n : t.n = l.length
  fits : t.n ≤ t.capacity
  slots : ∀ i, i < l.length → t.slots i = l[i]?

variable {t : Growable α} {l l₁ l₂ : List α} {i : Nat} {a : α}

theorem Holds.lt_capacity (h : t.Holds l) (hi : i < l.length) : i < t.capacity :=
  Nat.lt_of_lt_of_le (h.n ▸ hi) h.fits

theorem Holds.read (h : t.Holds l) (hi : i < l.length) : t.read i = some l[i]? := by
  unfold Growable.read
  rw [if_pos (h.lt_capacity hi), h.slots i hi]

theorem Holds.deref (h : t.Holds l) (hi : i < l.length) : t.deref i = some l[i] := by
  unfold Growable.deref
  rw [h.read hi, List.getElem?_eq_getElem hi]
  rfl

/-- The array without what its slots hold. -/
theorem Holds.unique {l' : List α} (h : t.Holds l) (h' : t.Holds l') : l = l' := by
  have hlen : l.length = l'.length := h.n.symm.trans h'.n
  apply List.ext_getElem?
  intro i
  by_cases hi : i < l.length
  · rw [← h.slots i hi, h'.slots i (hlen ▸ hi)]
  · rw [List.getElem?_eq_none (by omega), List.getElem?_eq_none (by omega)]

theorem Holds.write (h : t.Holds l) (hi : i < l.length) (a : α) :
    ∃ t', t.write i (some a) = some t' ∧ t'.Holds (l.set i a) ∧ t'.capacity = t.capacity := by
  refine ⟨{ t with slots := Function.update t.slots i (some a) }, if_pos (h.lt_capacity hi), ⟨?_, h.fits, ?_⟩, rfl⟩
  · rw [List.length_set]
    exact h.n
  · intro j hj
    rw [List.length_set] at hj
    show Function.update t.slots i (some a) j = _
    by_cases hji : j = i
    · subst hji
      rw [Function.update_self, List.getElem?_set_self hj]
    · rw [Function.update_of_ne hji, List.getElem?_set_ne (Ne.symm hji), h.slots j hj]

/-- The element behind `l₁` is changed. -/
theorem Holds.modify (h : t.Holds (l₁ ++ a :: l₂)) (f : α → α) : ∃ t', t.modify l₁.length f = some t' ∧
    t'.Holds (l₁ ++ f a :: l₂) ∧ t'.capacity = t.capacity := by
  have hi : l₁.length < (l₁ ++ a :: l₂).length := by simp
  have ha : (l₁ ++ a :: l₂)[l₁.length] = a := by simp
  obtain ⟨t', ht', hholds⟩ := h.write hi (f a)
  refine ⟨t', ?_, ?_⟩
  · unfold Growable.modify
    rw [h.deref hi, ha]
    exact ht'
  · rw [List.set_append_right l₁.length (f a) (Nat.le_refl _), Nat.sub_self] at hholds
    exact hholds

/-- A loop that changes every element. -/
def forEach (t : Growable α) (f : α → α) : Option (Growable α) :=
  (List.range' 0 t.n).foldlM (fun t i => t.modify i f) t

theorem Holds.forEach (h : t.Holds l) (f : α → α) :
    ∃ t', t.forEach f = some t' ∧ t'.Holds (l.map f) ∧ t'.capacity = t.capacity := by
  -- the elements before the index have been changed
  let J (i : Nat) (t' : Growable α) : Prop := ∃ l₁ l₂, l = l₁ ++ l₂ ∧ l₁.length = i ∧
    t'.Holds (l₁.map f ++ l₂) ∧ t'.capacity = t.capacity
  have hinit : J 0 t := ⟨[], l, rfl, rfl, h, rfl⟩
  have hstep (i : Nat) (t' : Growable α) (_ : 0 ≤ i) (hi : i < 0 + t.n) (hJ : J i t') :
      ∃ t'', t'.modify i f = some t'' ∧ J (i + 1) t'' := by
    obtain ⟨l₁, l₂, rfl, rfl, hholds, hcap⟩ := hJ
    rw [Nat.zero_add, h.n, List.length_append] at hi
    obtain ⟨a, l₂, rfl⟩ := List.exists_cons_of_length_pos (by omega : 0 < l₂.length)
    obtain ⟨t'', ht'', hholds', hcap'⟩ := hholds.modify f
    rw [List.length_map] at ht''
    refine ⟨t'', ht'', l₁ ++ [a], l₂, by simp, by simp, ?_, hcap'.trans hcap⟩
    simpa using hholds'
  obtain ⟨t', ht', l₁, l₂, rfl, hlen, hholds, hcap⟩ := loop_rule J hinit hstep
  have hnil : l₂ = [] := by
    rw [Nat.zero_add, h.n, List.length_append] at hlen
    exact List.eq_nil_of_length_eq_zero (by omega)
  subst hnil
  rw [List.append_nil] at hholds ⊢
  exact ⟨t', ht', hholds, hcap⟩

/-! ## Elements that are put behind the last one -/

/-- The capacity is raised by `step` while it is less than `n`, `fuel` times at most. -/
def raise (step n : Nat) : Nat → Nat → Nat
  | 0, capacity => capacity
  | fuel + 1, capacity => if capacity < n then raise step n fuel (capacity + step) else capacity

def ensureCapacity (t : Growable α) (step n : Nat) : Growable α :=
  { t with capacity := raise step n n t.capacity }

/-- A null pointer behind the last element. -/
def terminate (t : Growable α) (step : Nat) : Option (Growable α) :=
  (t.ensureCapacity step (t.n + 1)).write t.n none

/-- An element behind the last one. -/
def push (t : Growable α) (step : Nat) (a : α) : Option (Growable α) := do
  let t' ← (t.ensureCapacity step (t.n + 1)).write t.n (some a)
  some { t' with n := t.n + 1 }

variable {step n capacity fuel : Nat}

theorem le_raise : capacity ≤ raise step n fuel capacity := by
  induction fuel generalizing capacity with
  | zero => exact Nat.le_refl _
  | succ fuel ih =>
    unfold raise
    split
    · exact Nat.le_trans (Nat.le_add_right ..) ih
    · exact Nat.le_refl _

/-- Enough rounds. -/
theorem le_raise_of_le (hstep : 0 < step) (hfuel : n ≤ capacity + fuel) : n ≤ raise step n fuel capacity := by
  induction fuel generalizing capacity with
  | zero => exact hfuel
  | succ fuel ih =>
    unfold raise
    split
    · exact ih (by omega)
    · omega

theorem raise_of_le (h : n ≤ capacity) : raise step n fuel capacity = capacity := by
  cases fuel with
  | zero => rfl
  | succ fuel => exact if_neg (Nat.not_lt.mpr h)

theorem raise_of_lt (h : capacity < n) : raise step n (fuel + 1) capacity = raise step n fuel (capacity + step) :=
  if_pos h

theorem raise_succ_fuel (hstep : 0 < step) (hfuel : n ≤ capacity + fuel) :
    raise step n (fuel + 1) capacity = raise step n fuel capacity := by
  induction fuel generalizing capacity with
  | zero => exact raise_of_le hfuel
  | succ fuel ih =>
    by_cases hlt : capacity < n
    · rw [raise_of_lt hlt, raise_of_lt hlt]
      exact ih (by omega)
    · rw [raise_of_le (Nat.not_lt.mp hlt), raise_of_le (Nat.not_lt.mp hlt)]

/-- A capacity is raised in one go or in two. -/
theorem raise_raise {k fuel' : Nat} (hstep : 0 < step) (hk : k ≤ n) (hfuel : n ≤ capacity + fuel) :
    raise step n fuel (raise step k fuel' capacity) = raise step n fuel capacity := by
  induction fuel' generalizing capacity with
  | zero => rfl
  | succ fuel' ih =>
    by_cases hlt : capacity < k
    · obtain ⟨fuel, rfl⟩ : ∃ m, fuel = m + 1 := ⟨fuel - 1, by omega⟩
      rw [raise_of_lt hlt, ih (by omega), raise_of_lt (Nat.lt_of_lt_of_le hlt hk), raise_succ_fuel hstep (by omega)]
    · rw [raise_of_le (Nat.not_lt.mp hlt)]

theorem le_capacity_ensureCapacity (hstep : 0 < step) : n ≤ (t.ensureCapacity step n).capacity :=
  le_raise_of_le hstep (Nat.le_add_left ..)

theorem Holds.ensureCapacity (h : t.Holds l) : (t.ensureCapacity step n).Holds l :=
  ⟨h.n, Nat.le_trans h.fits le_raise, h.slots⟩

theorem Holds.terminate (h : t.Holds l) (hstep : 0 < step) : ∃ t', t.terminate step = some t' ∧ t'.Holds l ∧
    t'.slots t'.n = none ∧ t'.n < t'.capacity ∧ t'.capacity = (t.ensureCapacity step (t.n + 1)).capacity := by
  have hlt : t.n < (t.ensureCapacity step (t.n + 1)).capacity := le_capacity_ensureCapacity hstep
  refine ⟨_, if_pos hlt, ⟨h.n, h.ensureCapacity.fits, ?_⟩, Function.update_self .., hlt, rfl⟩
  intro i hi
  have hne : i ≠ t.n := by
    rw [h.n]
    omega
  exact (Function.update_of_ne hne ..).trans (h.slots i hi)

theorem Holds.push (h : t.Holds l) (hstep : 0 < step) (a : α) : ∃ t', t.push step a = some t' ∧ t'.Holds (l ++ [a]) ∧
    t'.capacity = (t.ensureCapacity step (t.n + 1)).capacity := by
  have hlt : t.n < (t.ensureCapacity step (t.n + 1)).capacity := le_capacity_ensureCapacity hstep
  refine ⟨⟨Function.update t.slots t.n (some a), t.n + 1, (t.ensureCapacity step (t.n + 1)).capacity⟩, ?_,
    ⟨?_, hlt, ?_⟩, rfl⟩
  · unfold Growable.push Growable.write
    rw [if_pos hlt]
    rfl
  · simp [h.n]
  · intro i hi
    show Function.update t.slots t.n (some a) i = _
    rw [h.n]
    by_cases hil : i = l.length
    · subst hil
      rw [Function.update_self]
      simp
    · have hlt : i < l.length := by
        simp at hi
        omega
      rw [Function.update_of_ne hil, List.getElem?_append_left hlt, h.slots i hlt]

/-! ## All elements -/

/-- The elements, read one after the other. -/
def elements (t : Growable α) : Option (List α) :=
  (List.range' 0 t.n).foldlM (fun l i => do
    let a ← t.deref i
    some (l ++ [a])) []

theorem Holds.elements (h : t.Holds l) : t.elements = some l := by
  have hstep (i : Nat) (l' : List α) (_ : 0 ≤ i) (hi : i < 0 + t.n) (hl : l' = l.take i) :
      ∃ l'', (do let a ← t.deref i; some (l' ++ [a])) = some l'' ∧ l'' = l.take (i + 1) := by
    have hi : i < l.length := by
      rw [← h.n]
      omega
    refine ⟨l' ++ [l[i]], ?_, ?_⟩
    · rw [h.deref hi]
      rfl
    · rw [hl, List.take_append_getElem]
  obtain ⟨l', hl', rfl⟩ := loop_rule (fun i l' => l' = l.take i) (i := 0) (List.take_zero).symm hstep
  rw [Nat.zero_add, h.n, List.take_length] at hl'
  unfold Growable.elements
  rw [h.n]
  exact hl'

/-- The elements are put into another order, by a sort that may have no result. -/
def rearrange (t : Growable α) (sort : List α → Option (List α)) : Option (Growable α) := do
  let l ← t.elements
  let l' ← sort l
  some { t with slots := fun i => if i < t.n then l'[i]? else t.slots i }

theorem Holds.rearrange (h : t.Holds l) {sort : List α → Option (List α)} {l' : List α} (hsort : sort l = some l')
    (hperm : l'.Perm l) : ∃ t', t.rearrange sort = some t' ∧ t'.Holds l' ∧ t'.n = t.n ∧ t'.capacity = t.capacity ∧
      ∀ i, t.n ≤ i → t'.slots i = t.slots i := by
  refine ⟨{ t with slots := fun i => if i < t.n then l'[i]? else t.slots i }, ?_, ⟨?_, h.fits, ?_⟩, rfl, rfl, ?_⟩
  · unfold Growable.rearrange
    rw [h.elements]
    show (sort l).bind _ = _
    rw [hsort]
    rfl
  · rw [hperm.length_eq]
    exact h.n
  · intro i hi
    rw [hperm.length_eq, ← h.n] at hi
    exact if_pos hi
  · intro i hi
    exact if_neg (Nat.not_lt.mpr hi)

theorem Holds.rearrange_none (h : t.Holds l) {sort : List α → Option (List α)} (hsort : sort l = none) :
    t.rearrange sort = none := by
  unfold Growable.rearrange
  rw [h.elements]
  show (sort l).bind _ = _
  rw [hsort]
  rfl

/-- The first element with a property. -/
def find (t : Growable α) (p : α → Bool) : Nat → Nat → Option (Option Nat)
  | 0, _ => some none
  | k + 1, i => do
    let a ← t.deref i
    if p a then some (some i) else t.find p k (i + 1)

theorem Holds.find {p : α → Bool} (h : t.Holds (l₁ ++ l₂)) :
    t.find p l₂.length l₁.length = some none ∧ (∀ a ∈ l₂, p a = false) ∨
      ∃ l₃ a l₄, l₂ = l₃ ++ a :: l₄ ∧ p a = true ∧ (∀ b ∈ l₃, p b = false) ∧
        t.find p l₂.length l₁.length = some (some (l₁ ++ l₃).length) := by
  induction l₂ generalizing l₁ with
  | nil => exact .inl ⟨rfl, nofun⟩
  | cons a l₂ ih =>
    have hi : l₁.length < (l₁ ++ a :: l₂).length := by simp
    have ha : (l₁ ++ a :: l₂)[l₁.length] = a := by simp
    have hfind : t.find p (a :: l₂).length l₁.length =
        if p a then some (some l₁.length) else t.find p l₂.length (l₁ ++ [a]).length := by
      rw [List.length_append]
      show (t.deref l₁.length).bind _ = _
      rw [h.deref hi, ha]
      rfl
    rw [hfind]
    cases hp : p a with
    | true => exact .inr ⟨[], a, l₂, rfl, hp, nofun, by simp⟩
    | false =>
      have h' : t.Holds ((l₁ ++ [a]) ++ l₂) := by simpa using h
      rw [if_neg (by simp)]
      obtain ⟨hnone, hall⟩ | ⟨l₃, b, l₄, rfl, hb, hall, hsome⟩ := ih h'
      · exact .inl ⟨hnone, List.forall_mem_cons.mpr ⟨hp, hall⟩⟩
      · exact .inr ⟨a :: l₃, b, l₄, rfl, hb, List.forall_mem_cons.mpr ⟨hp, hall⟩, by rw [hsome]; simp⟩

/-! ## Elements that are deleted -/

/-- The elements behind `index` move up, each read from the slot behind its new one. -/
def shift (t : Growable α) (index m : Nat) : Option (Growable α) :=
  (List.range' index m).foldlM (fun t i => do
    let v ← t.read (i + 1)
    t.write i v) t

def delete (t : Growable α) (index : Nat) : Option (Growable α) := do
  let t' ← t.shift index (t.n - index)
  some { t' with n := t.n - 1 }

theorem shift_spec (index m : Nat) (h : index + m < t.capacity) : ∃ t', t.shift index m = some t' ∧
    t'.n = t.n ∧ t'.capacity = t.capacity ∧
    ∀ j, t'.slots j = if index ≤ j ∧ j < index + m then t.slots (j + 1) else t.slots j := by
  let J (i : Nat) (t' : Growable α) : Prop := t'.n = t.n ∧ t'.capacity = t.capacity ∧
    ∀ j, t'.slots j = if index ≤ j ∧ j < i then t.slots (j + 1) else t.slots j
  have hinit : J index t := by
    refine ⟨rfl, rfl, fun j => ?_⟩
    rw [if_neg (by omega)]
  have hstep (i : Nat) (t' : Growable α) (hle : index ≤ i) (hi : i < index + m) (hJ : J i t') :
      ∃ t'', (do let v ← t'.read (i + 1); t'.write i v) = some t'' ∧ J (i + 1) t'' := by
    obtain ⟨hn, hcap, hslots⟩ := hJ
    refine ⟨{ t' with slots := Function.update t'.slots i (t'.slots (i + 1)) }, ?_, hn, hcap, ?_⟩
    · unfold Growable.read Growable.write
      rw [if_pos (by omega)]
      exact if_pos (by omega)
    · intro j
      show Function.update t'.slots i (t'.slots (i + 1)) j = _
      by_cases hji : j = i
      · subst hji
        rw [Function.update_self, hslots, if_neg (by omega), if_pos (by omega)]
      · rw [Function.update_of_ne hji, hslots]
        have hiff : index ≤ j ∧ j < i ↔ index ≤ j ∧ j < i + 1 := by omega
        simp only [hiff]
  exact loop_rule J hinit hstep

/-- **Deleting** an element while there is a slot behind the last one. -/
theorem Holds.delete (h : t.Holds (l₁ ++ a :: l₂)) (hroom : t.n < t.capacity) :
    ∃ t', t.delete l₁.length = some t' ∧ t'.Holds (l₁ ++ l₂) ∧ t'.capacity = t.capacity ∧ t'.n < t.n := by
  have hn : t.n = l₁.length + (l₂.length + 1) := by
    rw [h.n, List.length_append, List.length_cons]
  obtain ⟨t', ht', -, hcap, hslots⟩ := shift_spec (t := t) l₁.length (t.n - l₁.length) (by omega)
  refine ⟨{ t' with n := t.n - 1 }, ?_, ⟨?_, ?_, ?_⟩, hcap, ?_⟩
  · unfold Growable.delete
    rw [ht']
    rfl
  · rw [List.length_append]
    show t.n - 1 = _
    omega
  · show t.n - 1 ≤ t'.capacity
    omega
  · intro j hj
    rw [List.length_append] at hj
    show t'.slots j = _
    rw [hslots]
    by_cases hlt : j < l₁.length
    · rw [if_neg (by omega), h.slots j (by simp; omega), List.getElem?_append_left hlt,
        List.getElem?_append_left hlt]
    · rw [if_pos (by omega), h.slots (j + 1) (by simp; omega), List.getElem?_append_right (by omega),
        List.getElem?_append_right (by omega), show j + 1 - l₁.length = (j - l₁.length) + 1 by omega,
        List.getElem?_cons_succ]
  · show t.n - 1 < t.n
    omega

/-- Where every slot is in use, the one behind the last is read. -/
theorem Holds.delete_full (h : t.Holds l) (hi : i < l.length) (hfull : t.n = t.capacity) : t.delete i = none := by
  have hn := h.n
  obtain ⟨m, hm⟩ : ∃ m, t.n - i = m + 1 := ⟨t.n - i - 1, by omega⟩
  obtain ⟨t', ht', -, hcap, -⟩ := shift_spec (t := t) i m (by omega)
  have hlast : t'.read (i + m + 1) = none := by
    unfold Growable.read
    exact if_neg (by omega)
  unfold Growable.delete Growable.shift
  unfold Growable.shift at ht'
  rw [hm, List.range'_concat, List.foldlM_append, Nat.one_mul, ht']
  show Option.bind (Option.bind (Option.bind (t'.read (i + m + 1)) _) _) _ = none
  rw [hlast]
  rfl

/-- What is left when the element that takes the place of a deleted one is not looked at. -/
def skim (keep : α → Bool) : List α → List α
  | [] => []
  | [a] => if keep a then [a] else []
  | a :: b :: l => if keep a then a :: skim keep (b :: l) else b :: skim keep l

/-- A loop that deletes elements while its index goes on. The index is compared with the number of elements that are
left, and past it nothing happens. -/
def sweep (t : Growable α) (keep : α → Bool) : Option (Growable α) :=
  (List.range' 0 t.n).foldlM (fun t i =>
    if i < t.n then do
      let a ← t.deref i
      if keep a then some t else t.delete i
    else some t) t

section

variable {keep : α → Bool}

theorem skim_cons_of_keep (ha : keep a = true) : skim keep (a :: l) = a :: skim keep l := by
  cases l with
  | nil => exact if_pos ha
  | cons b l => exact if_pos ha

/-- **Only elements to keep are left** if and only if no two neighbours are to be deleted. -/
theorem forall_skim_iff : (∀ a ∈ skim keep l, keep a = true) ↔ l.IsChain fun a b => keep a = true ∨ keep b = true := by
  fun_induction skim keep l with
  | case1 => simp
  | case2 a ha => simp [ha]
  | case3 a ha => simp
  | case4 a b l ha ih => simp [ha, ih]
  | case5 a b l ha ih =>
    have hb : (b :: l).IsChain (fun a b => keep a = true ∨ keep b = true) ∧ keep b = true ↔
        keep b = true ∧ l.IsChain fun a b => keep a = true ∨ keep b = true := by
      cases l with
      | nil => simp
      | cons c l =>
        rw [List.isChain_cons_cons]
        constructor
        · exact fun h => ⟨h.2, h.1.2⟩
        · exact fun h => ⟨⟨.inl h.1, h.2⟩, h.1⟩
    rw [List.forall_mem_cons, ih, ← hb, List.isChain_cons_cons, or_iff_right ha]
    exact and_comm

theorem filter_sublist_skim : (l.filter keep).Sublist (skim keep l) := by
  fun_induction skim keep l with
  | case1 => exact .slnil
  | case2 a ha => simp [ha]
  | case3 a ha => simp [ha]
  | case4 a b l ha ih =>
    rw [List.filter_cons_of_pos ha]
    exact ih.cons_cons a
  | case5 a b l ha ih =>
    rw [List.filter_cons_of_neg ha]
    cases hb : keep b with
    | true =>
      rw [List.filter_cons_of_pos hb]
      exact ih.cons_cons b
    | false =>
      rw [List.filter_cons_of_neg (by simp [hb])]
      exact ih.cons b

theorem skim_sublist : (skim keep l).Sublist l := by
  fun_induction skim keep l with
  | case1 => exact .slnil
  | case2 a => exact .refl _
  | case3 a => exact List.nil_sublist _
  | case4 a b l ha ih => exact ih.cons_cons a
  | case5 a b l ha ih => exact (ih.cons_cons b).cons a

theorem skim_eq_filter (h : ∀ a ∈ skim keep l, keep a = true) : skim keep l = l.filter keep := by
  have hsub : (skim keep l).Sublist (l.filter keep) := by
    have hskim : ((skim keep l).filter keep).Sublist (l.filter keep) := skim_sublist.filter keep
    rwa [List.filter_eq_self.mpr h] at hskim
  exact hsub.antisymm filter_sublist_skim

/-- **The loop** while there is room, or nothing to delete. -/
theorem Holds.sweep (h : t.Holds l) (hroom : t.n < t.capacity ∨ ∀ a ∈ l, keep a = true) :
    ∃ t', t.sweep keep = some t' ∧ t'.Holds (skim keep l) ∧ t'.capacity = t.capacity := by
  -- `l₁` has been looked at, or its elements have been passed over
  let J (i : Nat) (t' : Growable α) : Prop := ∃ l₁ l₂, t'.Holds (l₁ ++ l₂) ∧ skim keep l = l₁ ++ skim keep l₂ ∧
    (l₁.length = i ∨ l₂ = [] ∧ l₁.length ≤ i) ∧ t'.capacity = t.capacity ∧
    (t'.n < t'.capacity ∨ ∀ a ∈ l₂, keep a = true) ∧ t'.n ≤ t.n
  have hinit : J 0 t := ⟨[], l, h, rfl, .inl rfl, rfl, hroom, Nat.le_refl _⟩
  have hstep (i : Nat) (t' : Growable α) (_ : 0 ≤ i) (_ : i < 0 + t.n) (hJ : J i t') :
      ∃ t'', (if i < t'.n then do
        let a ← t'.deref i
        if keep a then some t' else t'.delete i
      else some t') = some t'' ∧ J (i + 1) t'' := by
    obtain ⟨l₁, l₂, hholds, hskim, hi, hcap, hroom, hle⟩ := hJ
    have hn : t'.n = l₁.length + l₂.length := by
      rw [hholds.n, List.length_append]
    by_cases hlt : i < t'.n
    · obtain rfl : l₁.length = i := by
        rcases hi with hi | ⟨rfl, hi⟩
        · exact hi
        · simp at hn
          omega
      obtain ⟨a, l₂, rfl⟩ := List.exists_cons_of_length_pos (by omega : 0 < l₂.length)
      have hderef : t'.deref l₁.length = some a := by
        rw [hholds.deref (by simp)]
        simp
      rw [if_pos hlt, hderef]
      show ∃ t'', (if keep a then some t' else t'.delete l₁.length) = some t'' ∧ _
      cases ha : keep a with
      | true =>
        refine ⟨t', if_pos rfl, l₁ ++ [a], l₂, by simpa using hholds, ?_, .inl (by simp), hcap, ?_, hle⟩
        · rw [hskim, skim_cons_of_keep ha]
          simp
        · exact hroom.imp_right fun hall => (List.forall_mem_cons.mp hall).2
      | false =>
        have hroom : t'.n < t'.capacity := hroom.resolve_right fun hall => by
          simpa [ha] using hall a (List.mem_cons_self ..)
        obtain ⟨t'', ht'', hholds'', hcap'', hn''⟩ := hholds.delete hroom
        rw [if_neg (by simp)]
        refine ⟨t'', ht'', ?_⟩
        cases l₂ with
        | nil =>
          refine ⟨l₁, [], hholds'', ?_, .inr ⟨rfl, by omega⟩, hcap''.trans hcap, .inr nofun, by omega⟩
          rw [hskim]
          simp [skim, ha]
        | cons b l₂ =>
          refine ⟨l₁ ++ [b], l₂, by simpa using hholds'', ?_, .inl (by simp), hcap''.trans hcap,
            .inl (by omega), by omega⟩
          rw [hskim]
          simp [skim, ha]
    · rw [if_neg hlt]
      refine ⟨t', rfl, l₁, l₂, hholds, hskim, .inr ⟨?_, by omega⟩, hcap, hroom, hle⟩
      rcases hi with hi | ⟨hnil, -⟩
      · exact List.eq_nil_of_length_eq_zero (by omega)
      · exact hnil
  obtain ⟨t', ht', l₁, l₂, hholds, hskim, hi, hcap, -, hle⟩ := loop_rule J hinit hstep
  have hnil : l₂ = [] := by
    have hn : t'.n = l₁.length + l₂.length := by
      rw [hholds.n, List.length_append]
    rcases hi with hi | ⟨hnil, -⟩
    · exact List.eq_nil_of_length_eq_zero (by omega)
    · exact hnil
  subst hnil
  rw [List.append_nil] at hholds
  rw [hskim]
  refine ⟨t', ht', ?_, hcap⟩
  simpa [skim] using hholds

/-- **The loop** where every slot is in use and there is an element to delete. -/
theorem Holds.sweep_full (h : t.Holds l) (hfull : t.n = t.capacity) (hdrop : ∃ a ∈ l, keep a = false) :
    t.sweep keep = none := by
  have hnone (m : Nat) (l₁ l₂ : List α) (hl : l = l₁ ++ l₂) (hm : m = l₂.length) (hdrop : ∃ a ∈ l₂, keep a = false) :
      (List.range' l₁.length m).foldlM (fun t i =>
        if i < t.n then do
          let a ← t.deref i
          if keep a then some t else t.delete i
        else some t) t = none := by
    induction m generalizing l₁ l₂ with
    | zero =>
      obtain ⟨a, ha, -⟩ := hdrop
      rw [List.eq_nil_of_length_eq_zero hm.symm] at ha
      exact absurd ha List.not_mem_nil
    | succ m ih =>
      obtain ⟨a, l₂, rfl⟩ := List.exists_cons_of_length_pos (by omega : 0 < l₂.length)
      have hi : l₁.length < l.length := by
        rw [hl]
        simp
      have hderef : t.deref l₁.length = some a := by
        rw [h.deref hi]
        simp [hl]
      rw [List.range'_succ, List.foldlM_cons, if_pos (h.n ▸ hi), hderef]
      show Option.bind (if keep a then some t else t.delete l₁.length) _ = none
      cases ha : keep a with
      | true =>
        obtain ⟨b, hb, hkeep⟩ := hdrop
        have hb : b ∈ l₂ := by
          rcases List.mem_cons.mp hb with rfl | hb
          · rw [ha] at hkeep
            cases hkeep
          · exact hb
        have hrest := ih (l₁ ++ [a]) l₂ (by simp [hl]) (by simpa using hm) ⟨b, hb, hkeep⟩
        rw [List.length_append] at hrest
        exact hrest
      | false =>
        rw [if_neg (by simp), h.delete_full hi hfull]
        rfl
  exact hnone t.n [] l rfl h.n hdrop

end

end Growable
