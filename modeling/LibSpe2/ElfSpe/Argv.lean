import LibSpe2.SpeBase.Run
import LibSpe2.SpeBase.ScanfStores

/-!
# The arguments of an SPE program (`elfspe/elfspe.c`)

`elfspe` passes its arguments in a block that the start-up code of the SPE program copies to the end of local
store: a table of addresses and the strings, one after the other.

* `speCopyArgv` — the function, with what `posix_memalign` answers.
* `Laid` — local store with the block: each string is at its address.
* `Builds` — a block is built if it is not too large, and an error is returned otherwise.

Main result:
* `builds_iff` — this is so unless the size of the block, as an `int`, is not too large where the size is.
-/

namespace LibSpe2.ElfSpe

open LibCall (Region)
open Format (Store storeAll)
open Mapped (digits bytesAt be)
open Run (Reg128)

/-! ## The arguments -/

/-- A string, without its NUL. -/
abbrev CString := { s : List UInt8 // 0 ∉ s }

/-- The size of a string with its NUL. -/
def CString.size (s : CString) : Nat := s.1.length + 1

/-- `argv`; `argc` is a positive `int`, and so is `argc + 1`. -/
structure Args where
  argv : List CString
  pos : argv ≠ []
  count : argv.length + 1 < 2 ^ 31

/-- `SPE_NO_ARGS` is set; and `SPE_ARG_MAX`, if it is, as the `int` that `strtol` makes of it. -/
structure Env where
  speNoArgs : Bool
  speArgMax : Option Int

/-- `struct spe_regs`. -/
structure SpeRegs where
  r3 : Reg128
  r4 : Reg128
  r5 : Reg128

def SpeRegs.zero : SpeRegs := ⟨.zero, .zero, .zero⟩

/-- The block: its address, and what is stored in it after it was cleared. -/
structure Block where
  start : UInt64
  stores : List Store

structure Result where
  rc : Int
  regs : SpeRegs
  block : Option Block

/-! ## The code -/

/-- `spe_arg_max`. -/
def speArgMax (env : Env) : Int :=
  match env.speArgMax with
  | none => 4096
  | some v => if 0 ≤ v ∧ v ≤ 4096 then v / 16 * 16 else 4096

/-- The first loop. -/
def countBytes : List CString → (nbytes : Int) → Int
  | [], nbytes => nbytes
  | s :: argv, nbytes => countBytes argv (toInt32 (nbytes + s.size))

/-- `nbytes`. -/
def nbytesOf (argv : List CString) : Int :=
  let nbytes := countBytes argv 0
  let nbytes := toInt32 (nbytes + (argv.length + 1) * 4)
  toInt32 (nbytes + 15) / 16 * 16

/-- The address in local store of what is at `ptr` in the block. -/
def argvOffset (nbytes : Int) (ptr : Nat) : UInt32 := (0x40000 - UInt32.ofInt (nbytes - ptr)) &&& (0x40000 - 1)

/-- The second loop from entry `i` of the table on, and the last entry. -/
def copyLoop (nbytes : Int) : (i ptr : Nat) → List CString → List Store
  | i, _, [] => [⟨4 * i, digits 4 0⟩]
  | i, ptr, s :: argv =>
    ⟨4 * i, digits 4 (argvOffset nbytes ptr).toNat⟩ :: ⟨ptr, s.1 ++ [0]⟩ ::
      copyLoop nbytes (i + 1) (ptr + s.size) argv

/-- `spe_copy_argv`. -/
def speCopyArgv (env : Env) (argv : List CString) (posixMemalign : Int → Option UInt64) : Result :=
  if argv.length ≤ 0 ∨ env.speNoArgs then ⟨0, .zero, none⟩
  else
    let nbytes := nbytesOf argv
    if nbytes > speArgMax env then ⟨2, .zero, none⟩
    else
      match posixMemalign nbytes with
      | none => ⟨3, .zero, none⟩
      | some start =>
        let r3 : Reg128 := ⟨.ofNat argv.length, 0, 0, 0⟩
        let r4 : Reg128 := ⟨.ofInt (0x40000 - nbytes), (start >>> 32).toUInt32, start.toUInt32, .ofInt nbytes⟩
        ⟨0, ⟨r3, r4, .zero⟩, some ⟨start, copyLoop nbytes 0 (4 * (argv.length + 1)) argv⟩⟩

/-! ## The law -/

/-- The rounded total. -/
def total (argv : List CString) : Nat :=
  ((argv.map CString.size).sum + 4 * (argv.length + 1) + 15) / 16 * 16

/-- Local store after the block was copied to its end. -/
def copied (ls : Nat → UInt8) (nbytes : Nat) (stores : List Store) : Nat → UInt8 := fun a =>
  if lsSize - nbytes ≤ a ∧ a < lsSize then storeAll (fun _ => 0) stores (a - (lsSize - nbytes)) else ls a

/-- The regions do not overlap. -/
def Apart (r r' : Region) : Prop := r.base + r.size ≤ r'.base ∨ r'.base + r'.size ≤ r.base

/-- An entry of the table. -/
def offsetAt (nbytes : Nat) (ls : Nat → UInt8) (i : Nat) : Nat := be ls 4 (lsSize - nbytes + 4 * i)

/-- The string that an entry names. -/
def stringAt (nbytes : Nat) (ls : Nat → UInt8) (i : Nat) (s : CString) : Region :=
  ⟨offsetAt nbytes ls i, s.size⟩

/-- The block of `nbytes` at the end of local store. -/
structure Laid (argv : List CString) (nbytes : Nat) (ls : Nat → UInt8) : Prop where
  string : ∀ i s, argv[i]? = some s → bytesAt ls s.size (offsetAt nbytes ls i) = s.1 ++ [0]
  inside : ∀ i s, argv[i]? = some s → lsSize - nbytes ≤ offsetAt nbytes ls i ∧
    offsetAt nbytes ls i + s.size ≤ lsSize
  table : ∀ i s, argv[i]? = some s →
    Apart ⟨lsSize - nbytes, 4 * (argv.length + 1)⟩ (stringAt nbytes ls i s)
  apart : ∀ i j s t, argv[i]? = some s → argv[j]? = some t → i ≠ j →
    Apart (stringAt nbytes ls i s) (stringAt nbytes ls j t)
  tableInside : lsSize - nbytes + 4 * (argv.length + 1) ≤ lsSize
  null : offsetAt nbytes ls argv.length = 0
  multiple : 16 ∣ nbytes

/-- **The law**: a total that is not too large gives a block, in which nothing is stored beyond its end, and its
registers; one that is too large gives an error and no block. -/
structure Builds (env : Env) (argv : List CString) (posixMemalign : Int → Option UInt64) (ls : Nat → UInt8) :
    Prop where
  block : total argv ≤ speArgMax env → ∀ start, posixMemalign (total argv) = some start →
    (speCopyArgv env argv posixMemalign).rc = 0 ∧
      (speCopyArgv env argv posixMemalign).regs =
        ⟨⟨.ofNat argv.length, 0, 0, 0⟩,
          ⟨.ofNat (lsSize - total argv), (start >>> 32).toUInt32, start.toUInt32, .ofNat (total argv)⟩, .zero⟩ ∧
      ∃ stores, (speCopyArgv env argv posixMemalign).block = some ⟨start, stores⟩ ∧
        (∀ s ∈ stores, s.off + s.bytes.length ≤ total argv) ∧
          Laid argv (total argv) (copied ls (total argv) stores)
  error : speArgMax env < total argv →
    (speCopyArgv env argv posixMemalign).rc ≠ 0 ∧ (speCopyArgv env argv posixMemalign).block = none

/-- **The condition**: where the total is too large, it is so as an `int`, or there is no memory for the size
that it has as an `int`. -/
def Fits (env : Env) (argv : List CString) (posixMemalign : Int → Option UInt64) : Prop :=
  speArgMax env < total argv →
    speArgMax env < toInt32 (total argv) ∨ posixMemalign (toInt32 (total argv)) = none

/-! ## Sizes -/

section

variable {argv : List CString} {s t : CString} {nbytes i ptr k : Nat}

theorem toInt32_add (x y : Int) : toInt32 (toInt32 x + y) = toInt32 (x + y) := by
  unfold toInt32
  rw [Int.bmod_add_bmod]

theorem countBytes_eq (x : Int) : toInt32 (countBytes argv x) = toInt32 (x + (argv.map CString.size).sum) := by
  induction argv generalizing x with
  | nil => simp [countBytes]
  | cons s argv ih =>
    rw [countBytes, ih, toInt32_add, List.map_cons, List.sum_cons, Nat.cast_add, add_assoc]

/-- Rounding down to a multiple of 16 is the same for an `int`. -/
theorem toInt32_round (x : Int) : toInt32 x / 16 * 16 = toInt32 (x / 16 * 16) := by
  unfold toInt32
  rw [Int.bmod_def, Int.bmod_def]
  split <;> split <;> omega

/-- The size is the total, as an `int`. -/
theorem nbytesOf_eq (argv : List CString) : nbytesOf argv = toInt32 (total argv) := by
  have hsum : toInt32 (toInt32 (countBytes argv 0 + (argv.length + 1) * 4) + 15) =
      toInt32 ((argv.map CString.size).sum + 4 * (argv.length + 1) + 15 : Nat) := by
    rw [toInt32_add, add_assoc, ← toInt32_add, countBytes_eq, toInt32_add]
    congr 1
    push_cast
    ring
  unfold nbytesOf
  dsimp only
  rw [hsum, toInt32_round]
  rfl

theorem speArgMax_le (env : Env) : speArgMax env ≤ 4096 := by
  unfold speArgMax
  split
  · exact le_refl _
  · split <;> omega

theorem toInt32_of_le {x : Int} (h : 0 ≤ x) (hx : x ≤ 4096) : toInt32 x = x := by
  unfold toInt32
  rw [Int.bmod_def]
  split <;> omega

/-! ## The layout -/

/-- Where string `k` is stored. -/
def ptrAt (ptr : Nat) (argv : List CString) (k : Nat) : Nat := ptr + ((argv.take k).map CString.size).sum

theorem ptrAt_succ (h : argv[k]? = some s) : ptrAt ptr argv (k + 1) = ptrAt ptr argv k + s.size := by
  unfold ptrAt
  rw [List.take_add_one, h, List.map_append, List.sum_append, ← Nat.add_assoc]
  rfl

theorem ptrAt_mono {k' : Nat} (h : k ≤ k') : ptrAt ptr argv k ≤ ptrAt ptr argv k' := by
  unfold ptrAt
  apply Nat.add_le_add_left
  rw [← Nat.add_sub_cancel' h, List.take_add, List.map_append, List.sum_append]
  exact Nat.le_add_right _ _

/-- A string ends before the next one. -/
theorem ptrAt_lt {k' : Nat} (h : argv[k]? = some s) (hlt : k < k') :
    ptrAt ptr argv k + s.size ≤ ptrAt ptr argv k' := by
  rw [← ptrAt_succ h]
  exact ptrAt_mono hlt

theorem ptrAt_end : ptrAt ptr argv argv.length = ptr + (argv.map CString.size).sum := by
  rw [ptrAt, List.take_length]

theorem ptrAt_cons : ptrAt ptr (s :: argv) (k + 1) = ptrAt (ptr + s.size) argv k := by
  unfold ptrAt
  rw [List.take_succ_cons, List.map_cons, List.sum_cons, Nat.add_assoc]

/-- The stores of the second loop. -/
theorem mem_copyLoop {n : Int} {st : Store} : st ∈ copyLoop n i ptr argv ↔
    st = ⟨4 * (i + argv.length), digits 4 0⟩ ∨ ∃ k s, argv[k]? = some s ∧
      (st = ⟨4 * (i + k), digits 4 (argvOffset n (ptrAt ptr argv k)).toNat⟩ ∨
        st = ⟨ptrAt ptr argv k, s.1 ++ [0]⟩) := by
  induction argv generalizing i ptr with
  | nil => simp [copyLoop]
  | cons s argv ih =>
    rw [copyLoop, List.mem_cons, List.mem_cons, ih, List.length_cons]
    have hlen : i + 1 + argv.length = i + (argv.length + 1) := by omega
    rw [hlen]
    constructor
    · intro h
      rcases h with hst | hst | hst | ⟨k, s', hk, hst⟩
      · exact .inr ⟨0, s, rfl, .inl hst⟩
      · exact .inr ⟨0, s, rfl, .inr hst⟩
      · exact .inl hst
      · rw [← ptrAt_cons, Nat.add_right_comm] at hst
        exact .inr ⟨k + 1, s', hk, hst⟩
    · intro h
      rcases h with hst | ⟨k, s', hk, hst⟩
      · exact .inr (.inr (.inl hst))
      · cases k with
        | zero =>
          obtain rfl := Option.some.inj hk
          rcases hst with hst | hst
          · exact .inl hst
          · exact .inr (.inl hst)
        | succ k =>
          rw [ptrAt_cons, ← Nat.add_assoc, Nat.add_right_comm] at hst
          exact .inr (.inr (.inr ⟨k, s', hk, hst⟩))

/-! ## The block -/

theorem lt_of_getElem? (h : argv[k]? = some s) : k < argv.length := (List.getElem?_eq_some_iff.mp h).1

/-- The size of the table. -/
def tableSize (argv : List CString) : Nat := 4 * (argv.length + 1)

theorem le_total (h : argv[k]? = some s) : ptrAt (tableSize argv) argv k + s.size ≤ total argv := by
  have hend : ptrAt (tableSize argv) argv k + s.size ≤ _ := ptrAt_lt h (lt_of_getElem? h)
  rw [ptrAt_end] at hend
  unfold total
  unfold tableSize at hend ⊢
  omega

theorem table_le_total (argv : List CString) : tableSize argv ≤ total argv := by
  unfold total tableSize
  omega

theorem tableSize_le (argv : List CString) (k : Nat) : tableSize argv ≤ ptrAt (tableSize argv) argv k :=
  Nat.le_add_right _ _

/-- The stores of a block. -/
def blockStores (argv : List CString) : List Store := copyLoop (total argv) 0 (tableSize argv) argv

/-- An entry of the table. -/
def entryStore (argv : List CString) (k : Nat) : Store :=
  ⟨4 * k, digits 4 (argvOffset (total argv) (ptrAt (tableSize argv) argv k)).toNat⟩

/-- A string. -/
def stringStore (argv : List CString) (k : Nat) (s : CString) : Store :=
  ⟨ptrAt (tableSize argv) argv k, s.1 ++ [0]⟩

/-- The last entry of the table. -/
def nullStore (argv : List CString) : Store := ⟨4 * argv.length, digits 4 0⟩

theorem mem_blockStores {st : Store} : st ∈ blockStores argv ↔ st = nullStore argv ∨
    ∃ k s, argv[k]? = some s ∧ (st = entryStore argv k ∨ st = stringStore argv k s) := by
  unfold blockStores entryStore stringStore nullStore
  rw [mem_copyLoop]
  simp only [Nat.zero_add]

theorem covers_nullStore {a : Nat} : (nullStore argv).Covers a ↔ 4 * argv.length ≤ a ∧ a < tableSize argv := by
  unfold nullStore Store.Covers tableSize
  simp only [Mapped.length_digits]
  omega

theorem covers_entryStore {a : Nat} : (entryStore argv k).Covers a ↔ 4 * k ≤ a ∧ a < 4 * k + 4 := by
  unfold entryStore Store.Covers
  simp only [Mapped.length_digits]

theorem covers_stringStore {a : Nat} : (stringStore argv k s).Covers a ↔
    ptrAt (tableSize argv) argv k ≤ a ∧ a < ptrAt (tableSize argv) argv k + s.size := by
  unfold stringStore Store.Covers CString.size
  simp only [List.length_append, List.length_singleton]

/-- Two stores that have a byte in common are one. -/
theorem blockStores_apart {st st' : Store} {a : Nat} (hst : st ∈ blockStores argv)
    (hst' : st' ∈ blockStores argv) (h : st.Covers a) (h' : st'.Covers a) : st' = st := by
  have hentry {k : Nat} {s : CString} (hk : argv[k]? = some s) : 4 * k + 4 ≤ 4 * argv.length := by
    have hlt := lt_of_getElem? hk
    omega
  have htable : tableSize argv = 4 * argv.length + 4 := rfl
  rcases mem_blockStores.mp hst with rfl | ⟨k, s, hk, rfl | rfl⟩ <;>
    rcases mem_blockStores.mp hst' with rfl | ⟨k', s', hk', rfl | rfl⟩
  · rfl
  · rw [covers_nullStore] at h
    rw [covers_entryStore] at h'
    have hle := hentry hk'
    omega
  · rw [covers_nullStore] at h
    rw [covers_stringStore] at h'
    have hle := tableSize_le argv k'
    omega
  · rw [covers_entryStore] at h
    rw [covers_nullStore] at h'
    have hle := hentry hk
    omega
  · rw [covers_entryStore] at h h'
    have hsame : k' = k := by omega
    rw [hsame]
  · rw [covers_entryStore] at h
    rw [covers_stringStore] at h'
    have hle := tableSize_le argv k'
    have hle' := hentry hk
    omega
  · rw [covers_stringStore] at h
    rw [covers_nullStore] at h'
    have hle := tableSize_le argv k
    omega
  · rw [covers_stringStore] at h
    rw [covers_entryStore] at h'
    have hle := tableSize_le argv k
    have hle' := hentry hk'
    omega
  · rw [covers_stringStore] at h h'
    rcases Nat.lt_trichotomy k k' with hlt | rfl | hlt
    · have hle : ptrAt (tableSize argv) argv k + s.size ≤ _ := ptrAt_lt hk hlt
      omega
    · obtain rfl := Option.some.inj (hk.symm.trans hk')
      rfl
    · have hle : ptrAt (tableSize argv) argv k' + s'.size ≤ _ := ptrAt_lt hk' hlt
      omega

/-- What is stored is there. -/
theorem bytesAt_block {st : Store} (h : st ∈ blockStores argv) :
    bytesAt (storeAll (fun _ => 0) (blockStores argv)) st.bytes.length st.off = st.bytes := by
  apply List.ext_getElem (Mapped.length_bytesAt)
  intro j hj hj'
  have hcovers : st.Covers (st.off + j) := ⟨Nat.le_add_right _ _, Nat.add_lt_add_left hj' _⟩
  have hbyte : storeAll (fun _ => 0) (blockStores argv) (st.off + j) = _ :=
    Format.storeAll_covered h hcovers fun st' hst' hcovers' => blockStores_apart h hst' hcovers hcovers'
  rw [Nat.add_sub_cancel_left, List.getD_eq_getElem?_getD, List.getElem?_eq_getElem hj'] at hbyte
  apply Option.some.inj
  rw [← List.getElem?_eq_getElem hj, Mapped.getElem?_bytesAt hj', hbyte]
  rfl

/-! ## The end of local store -/

theorem small_le (h : total argv ≤ 4096) : total argv ≤ lsSize := Nat.le_trans h (by decide)

/-- A store of the block is in local store after the copy. -/
theorem bytesAt_copied (hsmall : total argv ≤ 4096) {st : Store} (h : st ∈ blockStores argv)
    (hle : st.off + st.bytes.length ≤ total argv) (ls : Nat → UInt8) :
    bytesAt (copied ls (total argv) (blockStores argv)) st.bytes.length (lsSize - total argv + st.off) =
      st.bytes := by
  have hls := small_le hsmall
  apply Eq.trans _ (bytesAt_block h)
  unfold bytesAt
  apply List.map_congr_left
  intro j hj
  have hj : j < st.bytes.length := by simpa using hj
  have hin : lsSize - total argv ≤ lsSize - total argv + st.off + j ∧
      lsSize - total argv + st.off + j < lsSize := by omega
  have hoff : lsSize - total argv + st.off + j - (lsSize - total argv) = st.off + j := by omega
  rw [copied, if_pos hin, hoff]

theorem ofInt_sub {n p : Nat} (h : p ≤ n) : UInt32.ofInt (n - p) = .ofNat (n - p) := by
  rw [← Int.ofNat_sub h, ← UInt32.toNat_inj, UInt32.ofInt, UInt32.toNat_ofNat', UInt32.toNat_ofNat']
  omega

theorem ofInt_nat (n : Nat) : UInt32.ofInt n = .ofNat n := ofInt_sub (p := 0) (Nat.zero_le n)

/-- The address of what is at `p` in the block. -/
theorem argvOffset_toNat {n p : Nat} (hn : n ≤ 4096) (hp : p < n) :
    (argvOffset n p).toNat = lsSize - n + p := by
  have hsub : (UInt32.ofNat (n - p)).toNat = n - p := by
    rw [UInt32.toNat_ofNat']
    omega
  have hle : UInt32.ofNat (n - p) ≤ 0x40000 := by
    rw [UInt32.le_iff_toNat_le, hsub]
    show n - p ≤ 0x40000
    omega
  unfold argvOffset
  rw [ofInt_sub (Nat.le_of_lt hp), UInt32.toNat_and, UInt32.toNat_sub_of_le _ _ hle, hsub]
  show (0x40000 - (n - p)) &&& (2 ^ 18 - 1) = 0x40000 - n + p
  rw [Nat.and_two_pow_sub_one_eq_mod]
  omega

/-- The table gives the address of each string. -/
theorem offsetAt_copied (hsmall : total argv ≤ 4096) (h : argv[k]? = some s) (ls : Nat → UInt8) :
    offsetAt (total argv) (copied ls (total argv) (blockStores argv)) k =
      lsSize - total argv + ptrAt (tableSize argv) argv k := by
  have hmem : entryStore argv k ∈ blockStores argv := mem_blockStores.mpr (.inr ⟨k, s, h, .inl rfl⟩)
  have hlt := lt_of_getElem? h
  have htable := table_le_total argv
  have hend : (entryStore argv k).off + (entryStore argv k).bytes.length ≤ total argv := by
    unfold entryStore
    simp only [Mapped.length_digits]
    unfold tableSize at htable
    omega
  have hbytes := bytesAt_copied hsmall hmem hend ls
  have hptr : ptrAt (tableSize argv) argv k < total argv := by
    have hle := le_total h
    unfold CString.size at hle
    omega
  have hval := argvOffset_toNat hsmall hptr
  unfold offsetAt be
  have hlen : (entryStore argv k).bytes.length = 4 := Mapped.length_digits 4 _
  rw [hlen] at hbytes
  rw [show lsSize - total argv + 4 * k = lsSize - total argv + (entryStore argv k).off from rfl, hbytes]
  show Mapped.number (digits 4 _) = _
  rw [Mapped.number_digits, hval]
  exact UInt32.toNat_lt _

theorem null_copied (hsmall : total argv ≤ 4096) (ls : Nat → UInt8) :
    offsetAt (total argv) (copied ls (total argv) (blockStores argv)) argv.length = 0 := by
  have hmem : nullStore argv ∈ blockStores argv := mem_blockStores.mpr (.inl rfl)
  have hbytes := bytesAt_copied hsmall hmem (table_le_total argv) ls
  unfold offsetAt be
  exact congrArg Mapped.number hbytes

/-- **The block**, at the end of local store. -/
theorem block_laid (hsmall : total argv ≤ 4096) (ls : Nat → UInt8) :
    Laid argv (total argv) (copied ls (total argv) (blockStores argv)) := by
  have hls := small_le hsmall
  have htable := table_le_total argv
  have hstring {k : Nat} {s : CString} (h : argv[k]? = some s) :
      stringAt (total argv) (copied ls (total argv) (blockStores argv)) k s =
        ⟨lsSize - total argv + ptrAt (tableSize argv) argv k, s.size⟩ := by
    rw [stringAt, offsetAt_copied hsmall h]
  refine ⟨?_, ?_, ?_, ?_, ?_, null_copied hsmall ls, ?_⟩
  · intro k s h
    have hmem : stringStore argv k s ∈ blockStores argv := mem_blockStores.mpr (.inr ⟨k, s, h, .inr rfl⟩)
    have hlen : (stringStore argv k s).bytes.length = s.size := List.length_append
    have hend : (stringStore argv k s).off + (stringStore argv k s).bytes.length ≤ total argv := by
      rw [hlen]
      exact le_total h
    have hbytes := bytesAt_copied hsmall hmem hend ls
    rw [hlen] at hbytes
    rw [offsetAt_copied hsmall h]
    exact hbytes
  · intro k s h
    have hle := le_total h
    rw [offsetAt_copied hsmall h]
    omega
  · intro k s h
    rw [hstring h]
    left
    show lsSize - total argv + tableSize argv ≤ lsSize - total argv + ptrAt (tableSize argv) argv k
    exact Nat.add_le_add_left (tableSize_le argv k) _
  · intro i j s t hi hj hne
    rw [hstring hi, hstring hj]
    rcases Nat.lt_or_gt_of_ne hne with hlt | hlt
    · have hle : ptrAt (tableSize argv) argv i + s.size ≤ _ := ptrAt_lt hi hlt
      left
      show lsSize - total argv + _ + s.size ≤ lsSize - total argv + _
      omega
    · have hle : ptrAt (tableSize argv) argv j + t.size ≤ _ := ptrAt_lt hj hlt
      right
      show lsSize - total argv + _ + t.size ≤ lsSize - total argv + _
      omega
  · show lsSize - total argv + tableSize argv ≤ lsSize
    omega
  · exact Nat.dvd_mul_left 16 _

/-- What is stored is inside of the block. -/
theorem block_inside {st : Store} (h : st ∈ blockStores argv) : st.off + st.bytes.length ≤ total argv := by
  have htable := table_le_total argv
  rcases mem_blockStores.mp h with rfl | ⟨k, s, hk, rfl | rfl⟩
  · exact htable
  · have hlt := lt_of_getElem? hk
    unfold entryStore
    simp only [Mapped.length_digits]
    unfold tableSize at htable
    omega
  · have hlen : (stringStore argv k s).bytes.length = s.size := List.length_append
    rw [hlen]
    exact le_total hk

/-! ## The function -/

variable {env : Env} {posixMemalign : Int → Option UInt64}

/-- The function, with the size that it uses. -/
theorem speCopyArgv_eq (posixMemalign : Int → Option UInt64) (hargc : argv ≠ [])
    (henv : env.speNoArgs = false) : speCopyArgv env argv posixMemalign =
      if toInt32 (total argv) > speArgMax env then ⟨2, .zero, none⟩
      else
        match posixMemalign (toInt32 (total argv)) with
        | none => ⟨3, .zero, none⟩
        | some start =>
          ⟨0, ⟨⟨.ofNat argv.length, 0, 0, 0⟩,
              ⟨.ofInt (0x40000 - toInt32 (total argv)), (start >>> 32).toUInt32, start.toUInt32,
                .ofInt (toInt32 (total argv))⟩, .zero⟩,
            some ⟨start, copyLoop (toInt32 (total argv)) 0 (tableSize argv) argv⟩⟩ := by
  have hguard : ¬(argv.length ≤ 0 ∨ env.speNoArgs = true) := by
    rw [henv]
    intro h
    rcases h with h | h
    · exact hargc (List.length_eq_zero_iff.mp (Nat.le_zero.mp h))
    · cases h
  rw [speCopyArgv, if_neg hguard, nbytesOf_eq]
  rfl

/-- **The block of the arguments**, for every setting, every array and every answer of `posix_memalign`. -/
theorem builds_iff (env : Env) (args : Args) (posixMemalign : Int → Option UInt64) (ls : Nat → UInt8) :
    (env.speNoArgs = false → Builds env args.argv posixMemalign ls) ↔
      (env.speNoArgs = false → Fits env args.argv posixMemalign) := by
  apply forall_congr'
  intro henv
  have heq := speCopyArgv_eq posixMemalign args.pos henv
  constructor
  · intro h hlarge
    by_contra hnot
    rw [not_or] at hnot
    obtain ⟨start, hstart⟩ := Option.ne_none_iff_exists'.mp hnot.2
    have hrc := (h.error hlarge).1
    rw [heq, if_neg hnot.1, hstart] at hrc
    exact hrc rfl
  · intro hfits
    constructor
    · intro hle start hstart
      have hsmall : total args.argv ≤ 4096 := by
        have hmax := speArgMax_le env
        omega
      have hwrap : toInt32 (total args.argv) = total args.argv := toInt32_of_le (by omega) (by omega)
      rw [hwrap, if_neg (not_lt.mpr hle), hstart] at heq
      rw [heq]
      refine ⟨rfl, ?_, _, rfl, fun st => block_inside, block_laid hsmall ls⟩
      have hbase : UInt32.ofInt (0x40000 - total args.argv) = .ofNat (lsSize - total args.argv) :=
        ofInt_sub (small_le hsmall)
      dsimp only
      rw [hbase, ofInt_nat]
    · intro hlarge
      rw [heq]
      by_cases hover : toInt32 (total args.argv) > speArgMax env
      · rw [if_pos hover]
        have herror : (2 : Int) ≠ 0 := by decide
        exact ⟨herror, rfl⟩
      · have hnone := (hfits hlarge).resolve_left hover
        have herror : (3 : Int) ≠ 0 := by decide
        rw [if_neg hover, hnone]
        exact ⟨herror, rfl⟩

/-- `n` empty strings. -/
def emptyStrings (n : Nat) (hpos : 0 < n) (hcount : n + 1 < 2 ^ 31) : Args where
  argv := List.replicate n ⟨[], List.not_mem_nil⟩
  pos h := by
    have hlen := congrArg List.length h
    rw [List.length_replicate] at hlen
    exact Nat.ne_of_gt hpos hlen
  count := by
    rw [List.length_replicate]
    exact hcount

theorem total_emptyStrings (n : Nat) (hpos : 0 < n) (hcount : n + 1 < 2 ^ 31) :
    total (emptyStrings n hpos hcount).argv = (n + 4 * (n + 1) + 15) / 16 * 16 := by
  show ((List.map CString.size (List.replicate n _)).sum + 4 * ((List.replicate n _).length + 1) + 15) / 16 *
    16 = _
  rw [List.map_replicate, List.sum_replicate_nat, List.length_replicate]
  show (n * 1 + 4 * (n + 1) + 15) / 16 * 16 = _
  rw [Nat.mul_one]

/-- Enough empty strings for a total that is 16 as an `int`: a block of this size is built. -/
theorem empty_strings_overflow : ¬∀ (env : Env) (args : Args) (posixMemalign : Int → Option UInt64)
    (ls : Nat → UInt8), env.speNoArgs = false → Builds env args.argv posixMemalign ls := by
  intro h
  have htotal := total_emptyStrings 858993459 (by decide) (by decide)
  generalize emptyStrings 858993459 _ _ = args at htotal
  have hfits := (builds_iff ⟨false, none⟩ args (fun _ => some 0x1000) fun _ => 0).mp (h _ _ _ _) rfl
  unfold Fits at hfits
  rw [htotal] at hfits
  rcases hfits (by decide) with hover | hnone
  · exact absurd hover (by decide)
  · cases hnone

end

end LibSpe2.ElfSpe
