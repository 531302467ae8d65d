import LibSpe2.Data.Narrow
import LibSpe2.SpuTools.Libc
import LibSpe2.SpuTools.Records
import Mathlib.Algebra.Order.Floor.Ring
import Mathlib.Data.Rat.Floor
import Mathlib.Data.Sign.Basic

/-!
# The order of a table (`tools/spu-tools/src/{ctx,proc,spu}-info.c`)

Contexts, processes and SPUs are sorted with `qsort` by a field that the user chooses, upwards or downwards. A
comparison returns the difference of two values, narrowed to an `int`, or what `strcmp` returns for two texts.

* `ctxsCompare`, `procsCompare`, `spusCompare` — the comparisons, which have no result where a text is a null pointer.
* `Orders` — what is asked of a comparison, and `Fits`, when the difference of two values keeps its sign.
* `compare_orders` — a comparison orders a table if and only if the values fit.
-/

namespace LibSpe2.SpuTools

/-- A `float` stored to an `int`: towards zero, and to the last number there is where it is out of range. -/
def floatToInt (x : ℚ) : Int32 :=
  .ofInt (max (-2 ^ 31) (min (2 ^ 31 - 1) (if 0 ≤ x then ⌊x⌋ else ⌈x⌉)))

/-- `v1 - v2`, stored to an `int`, or `strcmp`, which follows its pointers. -/
def Libc.difference (lib : Libc) : Key → Key → Option Int32
  | .int v1, .int v2 => some (v1 - v2)
  | .char v1, .char v2 => some (Int32.ofNat v1.toNat - Int32.ofNat v2.toNat)
  | .u64 v1, .u64 v2 => some (v1 - v2).toUInt32.toInt32
  | .float v1, .float v2 => some (floatToInt (lib.single (v1 - v2)))
  | .text (some v1), .text (some v2) => some (lib.strcmp v1 v2)
  | _, _ => none

/-- What a comparison makes of the difference. -/
def signed (descending : Bool) (ret : Int32) : Int32 := if descending then -ret else ret

variable (lib : Libc)

def ctxsCompare (field : CtxField) (descending : Bool) (p1 p2 : Ctx) : Option Int32 :=
  (lib.difference (p1.key field) (p2.key field)).map (signed descending)

/-- There is no case for `PROC_N_THREADS`. -/
def procsCompare (field : ProcField) (descending : Bool) (p1 p2 : Proc) : Option Int32 :=
  let ret := match field with
    | .nThreads => some 0
    | _ => lib.difference (p1.key field) (p2.key field)
  ret.map (signed descending)

def spusCompare (field : SpuField) (descending : Bool) (p1 p2 : Spu) : Option Int32 :=
  (lib.difference (p1.key field) (p2.key field)).map (signed descending)

/-! ## What is asked of a comparison -/

/-- The sign of the exact difference, which is the other way round where the order is descending. -/
def exactSign (descending : Bool) (v1 v2 : ℚ) : ℤ := SignType.sign (if descending then v2 - v1 else v1 - v2)

section

variable {α : Type}

/-- **Order**: the signs are exact, the comparison is one that `qsort` accepts, and the table is sorted. -/
structure Orders (cmp : α → α → Option Int32) (value : α → ℚ) (descending : Bool) (l : List α) : Prop extends
    Consistent cmp l where
  exact : ∀ a ∈ l, ∀ b ∈ l, (cmp a b).map sgn = some (exactSign descending (value a) (value b))
  sorted : (lib.qsort cmp l).Pairwise fun a b => if descending then value b ≤ value a else value a ≤ value b

end

/-! ## When the sign is kept -/

/-- The difference of two values keeps its sign, in both directions. -/
def Libc.Fits (descending : Bool) : Key → Key → Prop
  | .int v1, .int v2 => (v1.toInt - v2.toInt).natAbs < 2 ^ 31
  | .char _, .char _ => True
  | .u64 v1, .u64 v2 => Narrow.Near (2 ^ 31) (v1.toNat - v2.toNat)
  | .float v1, .float v2 =>
    v1 = v2 ∨ 1 ≤ |lib.single (v1 - v2)| ∧ (descending → |lib.single (v1 - v2)| < 2 ^ 31)
  | _, _ => False

/-- Two values of one field that has numbers. -/
inductive SameKind : Key → Key → Prop
  | int (v1 v2 : Int32) : SameKind (.int v1) (.int v2)
  | char (v1 v2 : UInt8) : SameKind (.char v1) (.char v2)
  | u64 (v1 v2 : UInt64) : SameKind (.u64 v1) (.u64 v2)
  | float (v1 v2 : ℚ) : SameKind (.float v1) (.float v2)

variable {lib} {α : Type} {descending : Bool} {k1 k2 : Key}

/-- A sign is exact. -/
def ExactSign (lib : Libc) (descending : Bool) (k1 k2 : Key) : Prop :=
  ((lib.difference k1 k2).map (signed descending)).map sgn = some (exactSign descending k1.value k2.value)

/-- Both signs are exact. -/
def ExactPair (lib : Libc) (descending : Bool) (k1 k2 : Key) : Prop :=
  ExactSign lib descending k1 k2 ∧ ExactSign lib descending k2 k1

theorem exactSign_iff {n : Int32} (h : lib.difference k1 k2 = some n) :
    ExactSign lib descending k1 k2 ↔ sgn (signed descending n) = exactSign descending k1.value k2.value := by
  unfold ExactSign
  rw [h]
  exact Option.some_inj

theorem sign_cast (d : ℤ) : ((SignType.sign (d : ℚ) : SignType) : ℤ) = d.sign := by
  rw [sign_intCast, Int.sign_eq_sign]

/-- **Integers**: the difference is reduced to 32 bits, and so is its negative. -/
theorem exactPair_iff_near {d : ℤ} {n12 n21 : Int32} (hd : k1.value - k2.value = d)
    (hn12 : lib.difference k1 k2 = some n12) (hn21 : lib.difference k2 k1 = some n21)
    (h12 : n12.toInt = d.bmod (2 ^ 32)) (h21 : n21.toInt = (-d).bmod (2 ^ 32)) :
    ExactPair lib descending k1 k2 ↔ Narrow.Near (2 ^ 31) d := by
  have hneg : k2.value - k1.value = ((-d : ℤ) : ℚ) := by
    rw [Int.cast_neg, ← hd]
    ring
  have hpow : (2 : ℕ) ^ 32 = 2 * 2 ^ 31 := by norm_num
  rw [Narrow.near_iff (by norm_num), ← hpow]
  unfold ExactPair
  rw [exactSign_iff hn12, exactSign_iff hn21]
  unfold exactSign signed sgn
  cases descending with
  | false =>
    simp only [Bool.false_eq_true, ↓reduceIte]
    rw [hd, hneg, sign_cast, sign_cast, h12, h21]
  | true =>
    simp only [↓reduceIte]
    rw [hd, hneg, sign_cast, sign_cast, Int32.toInt_neg, Int32.toInt_neg, h12, h21, Int.bmod_neg_bmod,
      Int.bmod_neg_bmod, Int.neg_neg]
    exact and_comm

theorem exactPair_int (v1 v2 : Int32) :
    ExactPair lib descending (.int v1) (.int v2) ↔ (v1.toInt - v2.toInt).natAbs < 2 ^ 31 := by
  have h1 := v1.le_toInt
  have h1' := v1.toInt_lt
  have h2 := v2.le_toInt
  have h2' := v2.toInt_lt
  rw [← Narrow.near_iff_lt (by omega)]
  apply exactPair_iff_near
  · exact (Int.cast_sub v1.toInt v2.toInt).symm
  · rfl
  · rfl
  · exact Int32.toInt_sub v1 v2
  · rw [Int.neg_sub]
    exact Int32.toInt_sub v2 v1

theorem exactPair_u64 (v1 v2 : UInt64) :
    ExactPair lib descending (.u64 v1) (.u64 v2) ↔ Narrow.Near (2 ^ 31) (v1.toNat - v2.toNat) := by
  apply exactPair_iff_near
  · exact (Int.cast_sub (v1.toNat : ℤ) (v2.toNat : ℤ)).symm
  · rfl
  · rfl
  · exact Narrow.toInt_narrow v1 v2
  · rw [Int.neg_sub]
    exact Narrow.toInt_narrow v2 v1

theorem exactPair_char (v1 v2 : UInt8) : ExactPair lib descending (.char v1) (.char v2) := by
  have h1 := v1.toNat_lt
  have h2 := v2.toNat_lt
  have hofNat {v : UInt8} (hv : v.toNat < 2 ^ 8) : (Int32.ofNat v.toNat).toInt = v.toNat :=
    Int32.toInt_ofNat_of_lt (by omega)
  have hnear : ExactPair lib descending (.char v1) (.char v2) ↔ Narrow.Near (2 ^ 31) (v1.toNat - v2.toNat) := by
    apply exactPair_iff_near
    · exact (Int.cast_sub (v1.toNat : ℤ) (v2.toNat : ℤ)).symm
    · rfl
    · rfl
    · show (Int32.ofNat v1.toNat - Int32.ofNat v2.toNat).toInt = _
      rw [Int32.toInt_sub, hofNat h1, hofNat h2]
    · show (Int32.ofNat v2.toNat - Int32.ofNat v1.toNat).toInt = _
      rw [Int32.toInt_sub, hofNat h1, hofNat h2, Int.neg_sub]
  rw [hnear, Narrow.near_iff_lt (by omega)]
  omega

/-! ## Floating point -/

theorem toInt_floatToInt (x : ℚ) :
    (floatToInt x).toInt = max (-2 ^ 31) (min (2 ^ 31 - 1) (if 0 ≤ x then ⌊x⌋ else ⌈x⌉)) :=
  Int32.toInt_ofInt_of_le (le_max_left ..) (by omega)

/-- The sign is lost where the absolute value is less than 1. -/
theorem sgn_floatToInt (x : ℚ) : sgn (floatToInt x) = if 1 ≤ x then 1 else if x ≤ -1 then -1 else 0 := by
  unfold sgn
  rw [toInt_floatToInt]
  by_cases h1 : 1 ≤ x
  · have hfloor : 1 ≤ ⌊x⌋ := Int.le_floor.mpr (by exact_mod_cast h1)
    rw [if_pos h1, if_pos (by linarith), Int.sign_eq_one_iff_pos]
    omega
  rw [if_neg h1]
  by_cases h2 : x ≤ -1
  · have hceil : ⌈x⌉ ≤ -1 := Int.ceil_le.mpr (by exact_mod_cast h2)
    rw [if_pos h2, if_neg (by linarith), Int.sign_eq_neg_one_iff_neg]
    omega
  rw [if_neg h2]
  have htrunc : (if 0 ≤ x then ⌊x⌋ else ⌈x⌉) = 0 := by
    split
    · exact Int.floor_eq_zero_iff.mpr ⟨by assumption, by linarith⟩
    · exact Int.ceil_eq_zero_iff.mpr ⟨by linarith, by linarith⟩
  rw [htrunc]
  rfl

theorem sgn_neg {n : Int32} (hn : n.toInt ≠ -2 ^ 31) : sgn (-n) = -sgn n := by
  have h1 := n.le_toInt
  have h2 := n.toInt_lt
  unfold sgn
  rw [Int32.toInt_neg, Int.bmod_eq_of_le (by omega) (by omega), Int.sign_neg]

/-- After it has been turned round the sign is wrong where the number was the least there is. -/
theorem sgn_neg_floatToInt (x : ℚ) :
    sgn (-floatToInt x) = if x ≤ -2 ^ 31 then -1 else -sgn (floatToInt x) := by
  have ht := toInt_floatToInt x
  split
  · next hx =>
    have hceil : ⌈x⌉ ≤ -2 ^ 31 := Int.ceil_le.mpr (by exact_mod_cast hx)
    rw [if_neg (by linarith), max_eq_left (by omega)] at ht
    unfold sgn
    rw [Int32.toInt_neg, ht]
    rfl
  · next hx =>
    apply sgn_neg
    rw [ht]
    split
    · next hpos =>
      have hfloor : 0 ≤ ⌊x⌋ := Int.floor_nonneg.mpr hpos
      omega
    · have hceil : -2 ^ 31 < ⌈x⌉ := Int.lt_ceil.mpr (by exact_mod_cast not_le.mp hx)
      omega

theorem Libc.single_zero (lib : Libc) : lib.single 0 = 0 := by
  have h := lib.single_neg 0
  rw [neg_zero] at h
  linarith

theorem ExactPair.comm : ExactPair lib descending k1 k2 ↔ ExactPair lib descending k2 k1 := and_comm

/-- The greater number first. -/
theorem exactPair_float_of_lt {v1 v2 : ℚ} (hlt : v2 < v1) : ExactPair lib descending (.float v1) (.float v2) ↔
    1 ≤ lib.single (v1 - v2) ∧ (descending → lib.single (v1 - v2) < 2 ^ 31) := by
  have hy : 0 ≤ lib.single (v1 - v2) := by
    rw [← lib.single_zero]
    exact lib.single_mono (by linarith)
  have hneg : lib.single (v2 - v1) = -lib.single (v1 - v2) := by
    rw [← lib.single_neg, neg_sub]
  have hpos : SignType.sign (v1 - v2) = 1 := sign_pos (sub_pos.mpr hlt)
  have hneg' : SignType.sign (v2 - v1) = -1 := sign_neg (sub_neg.mpr hlt)
  unfold ExactPair
  have hdiff (w1 w2 : ℚ) : lib.difference (.float w1) (.float w2) = some (floatToInt (lib.single (w1 - w2))) := rfl
  rw [exactSign_iff (hdiff v1 v2), exactSign_iff (hdiff v2 v1)]
  unfold exactSign signed
  show sgn (if _ then -floatToInt (lib.single (v1 - v2)) else floatToInt (lib.single (v1 - v2))) =
      ((SignType.sign (if _ then v2 - v1 else v1 - v2) : SignType) : ℤ) ∧
    sgn (if _ then -floatToInt (lib.single (v2 - v1)) else floatToInt (lib.single (v2 - v1))) =
      ((SignType.sign (if _ then v1 - v2 else v2 - v1) : SignType) : ℤ) ↔ _
  rw [hneg]
  generalize lib.single (v1 - v2) = y at hy
  -- the sign of the number and that of its negative, as `int`s
  have hge : sgn (floatToInt y) = if 1 ≤ y then 1 else 0 := by
    rw [sgn_floatToInt, if_neg (not_le.mpr (show -1 < y by linarith))]
  have hle : sgn (floatToInt (-y)) = if 1 ≤ y then -1 else 0 := by
    rw [sgn_floatToInt, if_neg (not_le.mpr (show -y < 1 by linarith))]
    simp only [neg_le_neg_iff]
  cases descending with
  | false =>
    simp only [Bool.false_eq_true, ↓reduceIte, hpos, hneg', hge, hle, false_implies, and_true]
    by_cases h1 : 1 ≤ y
    · simp [h1]
    · simp [h1]
  | true =>
    have hbig : ¬y ≤ -2 ^ 31 := by
      rw [not_le]
      linarith
    simp only [↓reduceIte, hpos, hneg', sgn_neg_floatToInt, if_neg hbig, neg_le_neg_iff, hge, hle, true_implies]
    by_cases h1 : 1 ≤ y
    · by_cases h2 : (2 : ℚ) ^ 31 ≤ y
      · simp [h1, h2]
      · simp [h1, h2, not_le.mp h2]
    · have h2 : ¬(2 : ℚ) ^ 31 ≤ y := fun h => h1 (by linarith)
      simp [h1, h2]

theorem exactPair_float (v1 v2 : ℚ) : ExactPair lib descending (.float v1) (.float v2) ↔
    v1 = v2 ∨ 1 ≤ |lib.single (v1 - v2)| ∧ (descending → |lib.single (v1 - v2)| < 2 ^ 31) := by
  have hsingle {a b : ℚ} (h : b < a) : |lib.single (a - b)| = lib.single (a - b) := by
    apply abs_of_nonneg
    rw [← lib.single_zero]
    exact lib.single_mono (by linarith)
  rcases lt_trichotomy v1 v2 with hlt | rfl | hlt
  · have hswap : |lib.single (v1 - v2)| = |lib.single (v2 - v1)| := by
      rw [← abs_neg, ← lib.single_neg, neg_sub]
    rw [ExactPair.comm, exactPair_float_of_lt hlt, hswap, hsingle hlt]
    exact (or_iff_right hlt.ne).symm
  · have hzero : lib.difference (.float v1) (.float v1) = some 0 := by
      show some (floatToInt (lib.single (v1 - v1))) = some 0
      rw [sub_self, lib.single_zero]
      rfl
    refine iff_of_true ?_ (.inl rfl)
    unfold ExactPair
    rw [exactSign_iff hzero]
    unfold exactSign signed
    cases descending with
    | false => simp [sgn]
    | true => simp [sgn]
  · rw [exactPair_float_of_lt hlt, hsingle hlt]
    exact (or_iff_right hlt.ne').symm

/-- **A pair** of values of one field. -/
theorem exactPair_iff (h : SameKind k1 k2) : ExactPair lib descending k1 k2 ↔ lib.Fits descending k1 k2 := by
  cases h with
  | int v1 v2 => exact exactPair_int v1 v2
  | char v1 v2 => exact iff_of_true (exactPair_char v1 v2) trivial
  | u64 v1 v2 => exact exactPair_u64 v1 v2
  | float v1 v2 => exact exactPair_float v1 v2

/-! ## Tables -/

theorem exactSign_comm (v1 v2 : ℚ) : exactSign descending v1 v2 = -exactSign descending v2 v1 := by
  have hsign (x y : ℚ) : ((SignType.sign (x - y) : SignType) : ℤ) = -(SignType.sign (y - x) : SignType) := by
    rw [← neg_sub y x, Left.sign_neg, SignType.coe_neg]
  unfold exactSign
  cases descending with
  | false => exact hsign v1 v2
  | true => exact hsign v2 v1

theorem exactSign_nonpos {v1 v2 : ℚ} :
    exactSign descending v1 v2 ≤ 0 ↔ if descending then v2 ≤ v1 else v1 ≤ v2 := by
  have hsign (x y : ℚ) : ((SignType.sign (x - y) : SignType) : ℤ) ≤ 0 ↔ x ≤ y := by
    rcases lt_trichotomy x y with h | rfl | h
    · simp [sign_neg (sub_neg.mpr h), h.le]
    · simp
    · simp [sign_pos (sub_pos.mpr h), h]
  unfold exactSign
  cases descending with
  | false => exact hsign v1 v2
  | true => exact hsign v2 v1

variable {cmp : α → α → Option Int32} {value : α → ℚ} {l : List α}

theorem below_iff {a b : α} (h : (cmp a b).map sgn = some (exactSign descending (value a) (value b))) :
    Below cmp a b ↔ if descending then value b ≤ value a else value a ≤ value b := by
  obtain ⟨n, hn, hsgn⟩ := Option.map_eq_some_iff.mp h
  rw [← exactSign_nonpos, ← hsgn]
  unfold Below
  simp [hn]

/-- Exact signs are the signs of a total preorder. -/
theorem consistent_of_exact
    (h : ∀ a ∈ l, ∀ b ∈ l, (cmp a b).map sgn = some (exactSign descending (value a) (value b))) :
    Consistent cmp l where
  defined a ha b hb := by
    obtain ⟨n, hn, -⟩ := Option.map_eq_some_iff.mp (h a ha b hb)
    exact Option.isSome_of_mem hn
  antisymm a ha b hb := by
    have hneg : (cmp b a).map (fun n => -sgn n) = ((cmp b a).map sgn).map fun k => -k := by
      rw [Option.map_map]
      rfl
    rw [hneg, h a ha b hb, h b hb a ha, exactSign_comm]
    rfl
  trans a ha b hb c hc := by
    rw [below_iff (h a ha b hb), below_iff (h b hb c hc), below_iff (h a ha c hc)]
    cases descending with
    | false => exact le_trans
    | true => exact fun hba hcb => le_trans hcb hba

/-- All that is asked of a comparison follows from its signs. -/
theorem orders_iff_exact : Orders lib cmp value descending l ↔
    ∀ a ∈ l, ∀ b ∈ l, (cmp a b).map sgn = some (exactSign descending (value a) (value b)) := by
  constructor
  · exact Orders.exact
  · intro h
    have hc : Consistent cmp l := consistent_of_exact h
    refine ⟨hc, h, ?_⟩
    have hmem {a : α} : a ∈ lib.qsort cmp l → a ∈ l := (lib.qsort_perm cmp l (.inr hc)).mem_iff.mp
    refine (lib.qsort_sorted cmp l hc).imp_of_mem ?_
    intro a b ha hb hab
    exact (below_iff (h a (hmem ha) b (hmem hb))).mp hab

/-- A comparison that is the difference of two values of a field. -/
theorem orders_iff_fits {key : α → Key} (hkind : ∀ a b, SameKind (key a) (key b)) :
    Orders lib (fun a b => (lib.difference (key a) (key b)).map (signed descending)) (fun a => (key a).value)
      descending l ↔ ∀ a ∈ l, ∀ b ∈ l, lib.Fits descending (key a) (key b) := by
  rw [orders_iff_exact]
  constructor
  · intro h a ha b hb
    exact (exactPair_iff (hkind a b)).mp ⟨h a ha b hb, h b hb a ha⟩
  · intro h a ha b hb
    exact ((exactPair_iff (hkind a b)).mpr (h a ha b hb)).1

theorem Ctx.sameKind {field : CtxField} (hf : field.Numeric) (p1 p2 : Ctx) :
    SameKind (p1.key field) (p2.key field) := by
  cases field with
  | user | binaryName => exact hf.elim
  | _ => constructor

theorem Proc.sameKind {field : ProcField} (hf : field.Numeric) (p1 p2 : Proc) :
    SameKind (p1.key field) (p2.key field) := by
  cases field with
  | user | binaryName => exact hf.elim
  | _ => constructor

theorem Spu.sameKind (field : SpuField) (p1 p2 : Spu) : SameKind (p1.key field) (p2.key field) := by
  cases field with
  | _ => constructor

theorem exactSign_eq_zero {v1 v2 : ℚ} : exactSign descending v1 v2 = 0 ↔ v1 = v2 := by
  have hsign (x y : ℚ) : ((SignType.sign (x - y) : SignType) : ℤ) = 0 ↔ x = y := by
    rcases lt_trichotomy x y with h | rfl | h
    · simp [sign_neg (sub_neg.mpr h), h.ne]
    · simp
    · simp [sign_pos (sub_pos.mpr h), h.ne']
  unfold exactSign
  cases descending with
  | false => exact hsign v1 v2
  | true => exact (hsign v2 v1).trans eq_comm

/-- Without a case of its own, a field orders only processes that have the same number of threads. -/
theorem orders_nThreads {l : List Proc} :
    Orders lib (procsCompare lib .nThreads descending) (fun p => (p.key .nThreads).value) descending l ↔
      ∀ p1 ∈ l, ∀ p2 ∈ l, p1.nThreads = p2.nThreads := by
  have hzero (p1 p2 : Proc) : (procsCompare lib .nThreads descending p1 p2).map sgn = some 0 := by
    cases descending with
    | false => rfl
    | true => simp [procsCompare, signed, sgn]
  have hvalue (p1 p2 : Proc) : (p1.key .nThreads).value = (p2.key .nThreads).value ↔ p1.nThreads = p2.nThreads := by
    show ((p1.nThreads.toInt : ℤ) : ℚ) = (p2.nThreads.toInt : ℤ) ↔ _
    rw [Int.cast_inj, Int32.toInt_inj]
  rw [orders_iff_exact]
  apply forall₂_congr
  intro p1 _
  apply forall₂_congr
  intro p2 _
  rw [hzero, Option.some_inj, eq_comm, exactSign_eq_zero, hvalue]

/-- **The order of a table.** A comparison by a field that has numbers gives the sign of the exact difference for
all records of a table, is accepted by `qsort` and leads to a table that is sorted if and only if the values of any
two records fit. For the number of threads of a process they have to be the same. -/
theorem compare_orders (lib : Libc) (descending : Bool) :
    (∀ field : CtxField, field.Numeric → ∀ l : List Ctx,
      (Orders lib (ctxsCompare lib field descending) (fun p => (p.key field).value) descending l ↔
        ∀ p1 ∈ l, ∀ p2 ∈ l, lib.Fits descending (p1.key field) (p2.key field))) ∧
    (∀ field : ProcField, field.Numeric → ∀ l : List Proc,
      (Orders lib (procsCompare lib field descending) (fun p => (p.key field).value) descending l ↔
        ∀ p1 ∈ l, ∀ p2 ∈ l, if field = .nThreads then p1.nThreads = p2.nThreads
          else lib.Fits descending (p1.key field) (p2.key field))) ∧
    ∀ (field : SpuField) (l : List Spu),
      (Orders lib (spusCompare lib field descending) (fun p => (p.key field).value) descending l ↔
        ∀ p1 ∈ l, ∀ p2 ∈ l, lib.Fits descending (p1.key field) (p2.key field)) := by
  refine ⟨?_, ?_, ?_⟩
  · intro field hf l
    exact orders_iff_fits (Ctx.sameKind hf)
  · intro field hf l
    by_cases hn : field = .nThreads
    · subst hn
      simp only [↓reduceIte]
      exact orders_nThreads
    · simp only [if_neg hn]
      have hcmp : procsCompare lib field descending =
          fun p1 p2 => (lib.difference (p1.key field) (p2.key field)).map (signed descending) := by
        funext p1 p2
        unfold procsCompare
        cases field with
        | nThreads => exact absurd rfl hn
        | _ => rfl
      rw [hcmp]
      exact orders_iff_fits (Proc.sameKind hf)
  · intro field l
    exact orders_iff_fits (Spu.sameKind field)

/-! ## Tables that are not sorted -/

/-- A context that has run for this time. -/
def Ctx.ofTime (total : UInt64) : Ctx where
  ppuPid := 1
  threadId := 1
  user := none
  status := 0
  flags := 0
  spe := -1
  binaryName := none
  time
    | .total => total
    | _ => 0
  percentSpu := 0
  counter _ := 0
  updated := true

/-- A process with this number of threads. -/
def Proc.ofThreads (nThreads : Int32) : Proc where
  ppuPid := 1
  user := none
  binaryName := none
  time _ := 0
  percentSpu := 0
  counter _ := 0
  nThreads := nThreads

/-- Two times that are near to each other. -/
theorem compare_orders_times :
    Orders .plain (ctxsCompare .plain .totalTime true) (fun p => (p.key .totalTime).value) true
      [.ofTime 3, .ofTime 5] := by
  apply ((compare_orders .plain true).1 .totalTime trivial [.ofTime 3, .ofTime 5]).mpr
  simp [Libc.Fits, Ctx.key, Ctx.ofTime, Narrow.Near]

/-- Three times in a circle, and two processes that count as equal. -/
theorem order_broken :
    ¬Orders .plain (ctxsCompare .plain .totalTime false) (fun p => (p.key .totalTime).value) false
      [.ofTime 0, .ofTime 0x7fffffff, .ofTime 0xfffffffe] ∧
    ¬Orders .plain (procsCompare .plain .nThreads false) (fun p => (p.key .nThreads).value) false
      [.ofThreads 1, .ofThreads 2] := by
  constructor
  · intro h
    have htrans := h.trans (.ofTime 0) (by simp) (.ofTime 0x7fffffff) (by simp) (.ofTime 0xfffffffe) (by simp)
    exact absurd (htrans (by decide) (by decide)) (by decide)
  · intro h
    have hexact := h.exact (.ofThreads 1) (by simp) (.ofThreads 2) (by simp)
    have hsame : (Proc.key (.ofThreads 1) .nThreads).value = (Proc.key (.ofThreads 2) .nThreads).value :=
      exactSign_eq_zero.mp (Option.some.inj hexact).symm
    exact absurd hsame (by decide)

end LibSpe2.SpuTools
