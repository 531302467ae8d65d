import LibSpe2.SpeBase.BufferArgs
import Mathlib.Logic.Function.Basic

/-!
# The sizes of an array of buffers (`spebase/default_posix1_handler.c`)

`check_conv_spuvec` converts the array of buffers that an SPE program passes to `readv` or `writev` and adds
up their sizes, in a `size_t`. The number of buffers is a word of the SPE, which becomes an `int`.

* `checkConvSpuvec` — the function, with the array `vec` that it fills.
* `Checked` — what it should do, with sums that have no bounds.
* `Fits` — the condition under which it does that.

Main results:
* `checked_iff` — it does so exactly under the condition.
* `conv_eq` — on an array in local store, `LibCall.checkConvSpuvec` is the same function.
-/

namespace LibSpe2.SpuVec

open Function
open Format (Build)
open LibCall (lsPtr intOf sizeTSpace spuSsizeMax iovMax)

/-- `struct ls_iovec`. -/
structure LsIovec where
  iovBase : UInt32
  iovLen : UInt32
  deriving DecidableEq

/-- `struct iovec`. -/
structure Iovec where
  iovBase : Nat
  iovLen : Nat
  deriving DecidableEq

/-- What `check_conv_spuvec` returns and what it has done to `errno` and to `vec`. -/
structure Conv where
  rc : Int
  errno : Option Int
  vec : Nat → Iovec

/-- `EINVAL`. -/
def einval : Int := 22

variable (b : Build) (ls : Nat) (lsvec : Nat → LsIovec)

/-- The buffer that an entry of the array names. -/
def convert (e : LsIovec) : Iovec := ⟨ls + lsPtr e.iovBase, e.iovLen.toNat⟩

/-- The loop, with `n` entries left from entry `i` on. -/
def convLoop : (n i sum : Nat) → (Nat → Iovec) → Conv
  | 0, _, _, vec => ⟨0, none, vec⟩
  | n + 1, i, sum, vec =>
    let vec := update vec i (convert ls (lsvec i))
    let sum := (sum + (vec i).iovLen) % sizeTSpace b
    if sum > spuSsizeMax then ⟨-1, some einval, vec⟩ else convLoop n (i + 1) sum vec

/-- `check_conv_spuvec`. -/
def checkConvSpuvec (count : Int) (vec : Nat → Iovec) : Conv :=
  if count > iovMax then ⟨-1, some einval, vec⟩ else convLoop b ls lsvec count.toNat 0 0 vec

/-! ## What it should do -/

/-- The exact sum of the first `n` sizes. -/
def total (n : Nat) : Nat := ((List.range n).map fun i => (lsvec i).iovLen.toNat).sum

/-- **The check**, for the word that the SPE passes as the number of buffers. -/
structure Checked (count : UInt32) (vec : Nat → Iovec) (c : Conv) : Prop where
  accepts : c.rc = 0 ↔ count.toNat ≤ 1024 ∧ total lsvec count.toNat ≤ 0x7fffffff
  converts : c.rc = 0 → ∀ i < count.toNat,
    c.vec i = ⟨ls + (lsvec i).iovBase.toNat % 0x40000, (lsvec i).iovLen.toNat⟩
  keeps : c.rc = 0 → ∀ i, count.toNat ≤ i → c.vec i = vec i

/-- **The condition**: the count is not negative as an `int`, and a sum that is too large does not pass a
32-bit `size_t` by, below the limit after each entry. -/
def Fits (count : UInt32) : Prop :=
  count.toNat < 2 ^ 31 ∧ (b.wordSize = 4 → count.toNat ≤ 1024 → total lsvec count.toNat ≤ 0x7fffffff ∨
    ∃ n ≤ count.toNat, 0x7fffffff < total lsvec n % 2 ^ 32)

variable {b ls lsvec} {vec : Nat → Iovec} {count : UInt32}

theorem total_succ (n : Nat) : total lsvec (n + 1) = total lsvec n + (lsvec n).iovLen.toNat := by
  simp [total, List.range_succ]

theorem total_mono {n m : Nat} (h : n ≤ m) : total lsvec n ≤ total lsvec m := by
  induction h with
  | refl => exact Nat.le_refl _
  | step _ ih =>
    rw [total_succ]
    omega

theorem total_lt (lsvec : Nat → LsIovec) (n : Nat) : total lsvec n ≤ n * 2 ^ 32 := by
  induction n with
  | zero => simp [total]
  | succ n ih =>
    have hlen := (lsvec n).iovLen.toNat_lt
    rw [total_succ]
    omega

/-- The sum after each of the first `n` entries is below the limit. -/
def Passes (b : Build) (lsvec : Nat → LsIovec) (n : Nat) : Prop :=
  ∀ m ≤ n, total lsvec m % sizeTSpace b ≤ spuSsizeMax

theorem passes_succ {n : Nat} :
    Passes b lsvec (n + 1) ↔ Passes b lsvec n ∧ total lsvec (n + 1) % sizeTSpace b ≤ spuSsizeMax := by
  constructor
  · intro h
    exact ⟨fun m hm => h m (by omega), h (n + 1) (Nat.le_refl _)⟩
  · intro ⟨h, hlast⟩ m hm
    rcases Nat.lt_or_eq_of_le hm with hlt | rfl
    · exact h m (by omega)
    · exact hlast

/-- **The loop** accepts the entries if the sum stays below the limit, and then has converted them. -/
theorem convLoop_spec (ls n i : Nat) (vec : Nat → Iovec) (hi : Passes b lsvec i) :
    ((convLoop b ls lsvec n i (total lsvec i % sizeTSpace b) vec).rc = 0 ↔ Passes b lsvec (i + n)) ∧
    (Passes b lsvec (i + n) → (convLoop b ls lsvec n i (total lsvec i % sizeTSpace b) vec).vec =
      fun j => if i ≤ j ∧ j < i + n then convert ls (lsvec j) else vec j) := by
  induction n generalizing i vec with
  | zero =>
    refine ⟨iff_of_true rfl hi, fun _ => ?_⟩
    funext j
    rw [if_neg (by omega)]
    rfl
  | succ n ih =>
    have hsum : (total lsvec i % sizeTSpace b + (update vec i (convert ls (lsvec i)) i).iovLen) % sizeTSpace b =
        total lsvec (i + 1) % sizeTSpace b := by
      rw [update_self, total_succ, Nat.mod_add_mod]
      rfl
    unfold convLoop
    simp only [hsum]
    by_cases hmax : total lsvec (i + 1) % sizeTSpace b > spuSsizeMax
    · have hnot : ¬Passes b lsvec (i + (n + 1)) := by
        intro h
        exact absurd (h (i + 1) (by omega)) (Nat.not_le_of_lt hmax)
      rw [if_pos hmax]
      exact ⟨iff_of_false (by simp) hnot, fun h => absurd h hnot⟩
    · have hstep := ih (i + 1) (update vec i (convert ls (lsvec i)))
        (passes_succ.mpr ⟨hi, Nat.le_of_not_lt hmax⟩)
      rw [if_neg hmax, show i + (n + 1) = i + 1 + n by omega]
      refine ⟨hstep.1, fun h => ?_⟩
      rw [hstep.2 h]
      funext j
      by_cases hj : j = i
      · rw [hj, if_neg (by omega), if_pos (by omega), update_self]
      · by_cases hin : i + 1 ≤ j ∧ j < i + 1 + n
        · rw [if_pos hin, if_pos (by omega)]
        · rw [if_neg hin, if_neg (by omega), update_of_ne hj]

/-- With a sum that is small enough every entry passes. -/
theorem passes_of_total {n : Nat} (h : total lsvec n ≤ spuSsizeMax) : Passes b lsvec n := by
  intro m hm
  exact Nat.le_trans (Nat.le_trans (Nat.mod_le _ _) (total_mono hm)) h

/-- With a 64-bit `size_t` the sum of so few entries does not wrap. -/
theorem passes_ppc64 {n : Nat} (hn : n ≤ 1024) :
    Passes .ppc64 lsvec n ↔ total lsvec n ≤ spuSsizeMax := by
  refine ⟨fun h => ?_, passes_of_total⟩
  have hlast := h n (Nat.le_refl n)
  have hlt := total_lt lsvec n
  have hspace : sizeTSpace .ppc64 = 2 ^ 64 := rfl
  rwa [hspace, Nat.mod_eq_of_lt (by omega)] at hlast

/-- The number of buffers as an `int`. -/
theorem intOf_small (h : count.toNat < 2 ^ 31) : intOf count = count.toNat := if_pos h

theorem intOf_large (h : ¬count.toNat < 2 ^ 31) : intOf count < 0 := by
  have hlt := count.toNat_lt
  unfold intOf
  rw [if_neg h]
  omega

theorem check_spec (ls : Nat) (count : UInt32) (vec : Nat → Iovec) (hle : count.toNat ≤ 1024) :
    ((checkConvSpuvec b ls lsvec (intOf count) vec).rc = 0 ↔ Passes b lsvec count.toNat) ∧
    (Passes b lsvec count.toNat → (checkConvSpuvec b ls lsvec (intOf count) vec).vec =
      fun j => if j < count.toNat then convert ls (lsvec j) else vec j) := by
  have hcount : ¬(count.toNat : Int) > iovMax := by
    unfold iovMax
    omega
  have hzero : Passes b lsvec 0 := passes_of_total (by simp [total])
  have hloop := convLoop_spec ls count.toNat 0 vec hzero
  have hstart : total lsvec 0 % sizeTSpace b = 0 := by simp [total]
  unfold checkConvSpuvec
  rw [intOf_small (by omega), if_neg hcount, Int.toNat_natCast]
  simpa [hstart] using hloop

/-- **The sizes are checked** exactly under the condition. -/
theorem checked_iff (b : Build) (ls : Nat) (lsvec : Nat → LsIovec) (count : UInt32) (vec : Nat → Iovec) :
    Checked ls lsvec count vec (checkConvSpuvec b ls lsvec (intOf count) vec) ↔ Fits b lsvec count := by
  by_cases hneg : count.toNat < 2 ^ 31
  · by_cases hle : count.toNat ≤ 1024
    · obtain ⟨hrc, hvec⟩ := check_spec ls count vec hle
      have hpasses : Checked ls lsvec count vec (checkConvSpuvec b ls lsvec (intOf count) vec) ↔
          (Passes b lsvec count.toNat ↔ total lsvec count.toNat ≤ spuSsizeMax) := by
        constructor
        · intro h
          rw [← hrc, h.accepts]
          exact and_iff_right hle
        · intro h
          refine ⟨?_, fun hzero i hi => ?_, fun hzero i hi => ?_⟩
          · rw [hrc, h]
            exact (and_iff_right hle).symm
          · simp only [hvec (hrc.mp hzero), if_pos hi, convert, LibCall.lsPtr_eq]
            rfl
          · simp only [hvec (hrc.mp hzero), if_neg (Nat.not_lt.mpr hi)]
      rw [hpasses]
      cases b with
      | ppc64 => exact iff_of_true (passes_ppc64 hle) ⟨hneg, fun h => absurd h (by decide)⟩
      | ppc32 =>
        constructor
        · intro h
          refine ⟨hneg, fun _ _ => ?_⟩
          by_contra hnot
          obtain ⟨hbig, hnone⟩ := not_or.mp hnot
          apply hbig
          apply h.mp
          intro m hm
          by_contra hm'
          exact hnone ⟨m, hm, Nat.lt_of_not_le hm'⟩
        · intro h
          refine ⟨fun hp => ?_, passes_of_total⟩
          rcases h.2 rfl hle with hsmall | ⟨n, hn, hbig⟩
          · exact hsmall
          · exact absurd (hp n hn) (Nat.not_le_of_lt hbig)
    · -- too many entries, as the code says
      have hcount : (count.toNat : Int) > iovMax := by
        unfold iovMax
        omega
      have hrc : checkConvSpuvec b ls lsvec (intOf count) vec = ⟨-1, some einval, vec⟩ := by
        unfold checkConvSpuvec
        rw [intOf_small hneg, if_pos hcount]
      rw [hrc]
      refine iff_of_true ⟨?_, by simp, by simp⟩ ⟨hneg, fun _ h => absurd h hle⟩
      simp [hle]
  · -- a negative number of entries, none of which is looked at
    have hcount : ¬intOf count > iovMax := by
      have hlt := intOf_large hneg
      unfold iovMax
      omega
    have hrc : checkConvSpuvec b ls lsvec (intOf count) vec = ⟨0, none, vec⟩ := by
      unfold checkConvSpuvec
      rw [if_neg hcount, Int.toNat_of_nonpos (Int.le_of_lt (intOf_large hneg))]
      rfl
    rw [hrc]
    refine iff_of_false (fun h => ?_) fun h => hneg h.1
    have hle := (h.accepts.mp rfl).1
    omega

/-- A count of -1 is accepted. -/
theorem unchecked : ¬∀ (b : Build) (ls : Nat) (lsvec : Nat → LsIovec) (count : UInt32) (vec : Nat → Iovec),
    Checked ls lsvec count vec (checkConvSpuvec b ls lsvec (intOf count) vec) := by
  intro h
  have hneg := h .ppc64 0 (fun _ => ⟨0, 0⟩) 0xffffffff (fun _ => ⟨0, 0⟩)
  have hle := (hneg.accepts.mp rfl).1
  simp at hle

/-! ## In local store -/

/-- An array in local store. -/
def entries (mem : Nat → UInt8) (lsvec : Nat) : Nat → LsIovec := fun i =>
  ⟨LibCall.loadWord mem (lsvec + 8 * i), LibCall.loadWord mem (lsvec + 8 * i + 4)⟩

theorem passes_entries {mem : Nat → UInt8} {lsvec n : Nat} :
    Passes b (entries mem lsvec) n ↔ LibCall.Accepted b mem lsvec n := by
  constructor
  · intro h i hi
    exact h (i + 1) hi
  · intro h m hm
    cases m with
    | zero => simp [total]
    | succ m => exact h m hm

/-- **The same function**: it accepts the same arrays, and has the same buffers for the host. -/
theorem conv_eq (mem : Nat → UInt8) (lsvec : Nat) (count : Int) (vec : Nat → Iovec) {l : List LibCall.Region} :
    (LibCall.checkConvSpuvec b mem lsvec count).2 = some l ↔
      (checkConvSpuvec b 0 (entries mem lsvec) count vec).rc = 0 ∧
        l = (List.range count.toNat).map fun i =>
          let v := (checkConvSpuvec b 0 (entries mem lsvec) count vec).vec i
          ⟨v.iovBase, v.iovLen⟩ := by
  by_cases hmax : count > iovMax
  · simp [LibCall.checkConvSpuvec, checkConvSpuvec, hmax]
  · have hzero : Passes b (entries mem lsvec) 0 := passes_of_total (by simp [total])
    have hloop := convLoop_spec 0 count.toNat 0 vec hzero
    have hold : (LibCall.convFrom b mem lsvec count.toNat 0 (LibCall.sumOf b mem lsvec 0)).2 = some l ↔ _ :=
      LibCall.convFrom_snd (passes_entries.mp hzero)
    have hstart : total (entries mem lsvec) 0 % sizeTSpace b = 0 := by simp [total]
    have hstart' : LibCall.sumOf b mem lsvec 0 = 0 := hstart
    rw [hstart, Nat.zero_add] at hloop
    rw [hstart', Nat.zero_add, ← passes_entries, ← List.range_eq_range'] at hold
    unfold LibCall.checkConvSpuvec checkConvSpuvec
    rw [if_neg hmax, if_neg hmax, hold, hloop.1]
    apply and_congr_right
    intro hp
    have hmap : (List.range count.toNat).map (LibCall.vecAt mem lsvec) =
        (List.range count.toNat).map fun i =>
          let v := (convLoop b 0 (entries mem lsvec) count.toNat 0 0 vec).vec i
          ⟨v.iovBase, v.iovLen⟩ := by
      apply List.map_congr_left
      intro i hi
      simp only [hloop.2 hp]
      rw [if_pos ⟨Nat.zero_le i, List.mem_range.mp hi⟩]
      simp [convert, entries, LibCall.vecAt]
    rw [hmap]

end LibSpe2.SpuVec
