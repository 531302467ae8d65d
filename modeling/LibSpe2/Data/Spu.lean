import LibSpe2.Data.Mapped
import Mathlib.Logic.Function.Basic

/-!
# A few instructions of the SPU

The part of the instruction set that position-independent start-up code is written in. Local store is a
function from addresses to bytes, words are big-endian, and a register is four words.

* `Instr`, `decode` — the instructions and how they are encoded.
* `step`, `steps` — execution; an instruction that is not one of them has no meaning here (`none`).
* `encode` — words as bytes.

Main results:
* `word_encode` — a block of words that was stored reads back.
* `steps_of_decode` — execution by the instruction at the program counter.
-/

namespace Spu

open Function Mapped

variable {m : ℕ → UInt8} {off k : ℕ} {ws : List UInt32}

/-! ## Words -/

/-- The word at an offset. -/
def word (m : ℕ → UInt8) (off : ℕ) : UInt32 := UInt32.ofNat (be m 4 off)

/-- Words as bytes. -/
def encode (ws : List UInt32) : List UInt8 := ws.flatMap fun w => digits 4 w.toNat

/-- A register, by its words. -/
structure Quad where
  w₀ : UInt32
  w₁ : UInt32
  w₂ : UInt32
  w₃ : UInt32
  deriving DecidableEq

def Quad.zero : Quad := ⟨0, 0, 0, 0⟩

/-- The quadword at an offset. -/
def quad (m : ℕ → UInt8) (off : ℕ) : Quad :=
  ⟨word m off, word m (off + 4), word m (off + 8), word m (off + 12)⟩

@[simp] theorem length_encode (ws : List UInt32) : (encode ws).length = 4 * ws.length := by
  induction ws with
  | nil => rfl
  | cons w ws ih =>
    rw [encode, List.flatMap_cons, List.length_append, length_digits, List.length_cons, Nat.mul_succ, Nat.add_comm]
    exact congrArg (· + 4) ih

/-- The bytes of one word of a block. -/
theorem getElem?_encode {i : ℕ} (hi : i < 4) :
    (encode ws)[4 * k + i]? = ws[k]?.bind fun w => (digits 4 w.toNat)[i]? := by
  induction ws generalizing k with
  | nil => rfl
  | cons w ws ih =>
    rw [encode, List.flatMap_cons]
    cases k with
    | zero =>
      rw [List.getElem?_append_left (by rw [length_digits]; omega), Nat.mul_zero, Nat.zero_add]
      rfl
    | succ k =>
      rw [List.getElem?_append_right (by rw [length_digits]; omega), length_digits,
        show 4 * (k + 1) + i - 4 = 4 * k + i by omega, List.getElem?_cons_succ]
      exact ih

theorem word_congr {m' : ℕ → UInt8} (h : ∀ i < 4, m (off + i) = m' (off + i)) : word m off = word m' off :=
  congrArg UInt32.ofNat (be_congr h)

/-- **Words read back**: a block of words that was stored at `off`. -/
theorem word_encode {w : UInt32} (h : ws[k]? = some w) : word (put m off (encode ws)) (off + 4 * k) = w := by
  have hk : k < ws.length := (List.getElem?_eq_some_iff.mp h).1
  have hbytes : bytesAt (put m off (encode ws)) 4 (off + 4 * k) = digits 4 w.toNat := by
    apply List.ext_getElem?
    intro i
    by_cases hi : i < 4
    · have hlt : 4 * k + i < (encode ws).length := by
        rw [length_encode]
        omega
      rw [getElem?_bytesAt hi, Nat.add_assoc, put_inside hlt, ← List.getElem?_eq_getElem hlt,
        getElem?_encode hi, h]
      rfl
    · rw [List.getElem?_eq_none (by rw [length_bytesAt]; omega),
        List.getElem?_eq_none (by rw [length_digits]; omega)]
  rw [word, be, hbytes, number_digits w.toNat_lt]
  exact UInt32.ofNat_toNat

/-- What is stored apart from a word leaves it alone. -/
theorem word_outside (h : ∀ i < 4, off + i < k ∨ k + 4 * ws.length ≤ off + i) :
    word (put m k (encode ws)) off = word m off := by
  apply word_congr
  intro i hi
  apply put_outside
  rw [length_encode]
  exact h i hi

/-! ## Instructions -/

inductive Instr where
  /-- Load a quadword, relative to the program counter. -/
  | lqr (rt : ℕ) (i16 : UInt32)
  /-- Load a sign-extended immediate into all words. -/
  | il (rt : ℕ) (i16 : UInt32)
  /-- No operation. -/
  | lnop
  /-- Branch indirectly and set a link. -/
  | bisl (rt ra : ℕ)
  deriving DecidableEq

/-- The instruction that a word encodes. A `bisl` that changes the enabling of interrupts is not one of them. -/
def decode (w : UInt32) : Option Instr :=
  let rt := (w &&& 0x7f).toNat
  let i16 := (w >>> 7) &&& 0xffff
  if w >>> 23 = 0x067 then some (.lqr rt i16)
  else if w >>> 23 = 0x081 then some (.il rt i16)
  else if w >>> 21 = 0x001 then some .lnop
  else if w >>> 21 = 0x1a9 ∧ (w >>> 14) &&& 0x7f = 0 then some (.bisl rt ((w >>> 7) &&& 0x7f).toNat)
  else none

/-- A 16-bit immediate with its sign repeated. -/
def signExtend (i16 : UInt32) : UInt32 := if i16 < 0x8000 then i16 else i16 ||| 0xffff0000

structure State where
  pc : UInt32
  reg : ℕ → Quad
  ls : ℕ → UInt8

/-- What an instruction does. `lslr` is the register that limits addresses. -/
def exec (lslr : UInt32) (s : State) : Instr → State
  | .lqr rt i16 =>
    let lsa := ((signExtend i16 <<< 2) + s.pc) &&& lslr &&& 0xfffffff0
    { s with pc := (s.pc + 4) &&& lslr, reg := update s.reg rt (quad s.ls lsa.toNat) }
  | .il rt i16 =>
    let t := signExtend i16
    { s with pc := (s.pc + 4) &&& lslr, reg := update s.reg rt ⟨t, t, t, t⟩ }
  | .lnop => { s with pc := (s.pc + 4) &&& lslr }
  | .bisl rt ra =>
    let t := (s.reg ra).w₀ &&& lslr &&& 0xfffffffc
    let u := lslr &&& (s.pc + 4)
    { s with pc := t, reg := update s.reg rt ⟨u, 0, 0, 0⟩ }

def step (lslr : UInt32) (s : State) : Option State := (decode (word s.ls s.pc.toNat)).map (exec lslr s)

/-- `n` instructions. -/
def steps (lslr : UInt32) : ℕ → State → Option State
  | 0, s => some s
  | n + 1, s => (step lslr s).bind (steps lslr n)

/-- One instruction, then the others. -/
theorem steps_of_decode {lslr : UInt32} {n : ℕ} {s : State} {i : Instr}
    (hi : decode (word s.ls s.pc.toNat) = some i) : steps lslr (n + 1) s = steps lslr n (exec lslr s i) := by
  rw [steps, step, hi]
  rfl

/-! ## The instructions one by one -/

section

variable {lslr pc pc' a i16 : UInt32} {n rt ra : ℕ} {reg : ℕ → Quad} {q : Quad}

theorem steps_lqr (hi : decode (word m pc.toNat) = some (.lqr rt i16)) (hpc : (pc + 4) &&& lslr = pc')
    (ha : ((signExtend i16 <<< 2) + pc) &&& lslr &&& 0xfffffff0 = a) (hq : quad m a.toNat = q) :
    steps lslr (n + 1) ⟨pc, reg, m⟩ = steps lslr n ⟨pc', update reg rt q, m⟩ := by
  rw [steps_of_decode (s := ⟨pc, reg, m⟩) hi, ← hpc, ← hq, ← ha]
  rfl

theorem steps_il (hi : decode (word m pc.toNat) = some (.il rt i16)) (hpc : (pc + 4) &&& lslr = pc') :
    steps lslr (n + 1) ⟨pc, reg, m⟩ = steps lslr n ⟨pc', update reg rt
      ⟨signExtend i16, signExtend i16, signExtend i16, signExtend i16⟩, m⟩ := by
  rw [steps_of_decode (s := ⟨pc, reg, m⟩) hi, ← hpc]
  rfl

theorem steps_lnop (hi : decode (word m pc.toNat) = some .lnop) (hpc : (pc + 4) &&& lslr = pc') :
    steps lslr (n + 1) ⟨pc, reg, m⟩ = steps lslr n ⟨pc', reg, m⟩ := by
  rw [steps_of_decode (s := ⟨pc, reg, m⟩) hi, ← hpc]
  rfl

theorem steps_bisl (hi : decode (word m pc.toNat) = some (.bisl rt ra)) :
    steps lslr (n + 1) ⟨pc, reg, m⟩ = steps lslr n
      ⟨(reg ra).w₀ &&& lslr &&& 0xfffffffc, update reg rt ⟨lslr &&& (pc + 4), 0, 0, 0⟩, m⟩ := by
  rw [steps_of_decode (s := ⟨pc, reg, m⟩) hi]
  rfl

end

end Spu
