import LibSpe2.SpeBase.Format
import Mathlib.Algebra.Group.Int.Defs
import Mathlib.Algebra.Group.Nat.Defs

/-!
# Host pointers in SPE words (`spebase/default_libea_handler.c`, `spebase/default_posix1_handler.c`)

An SPE program has a pointer of the host as two words, the halves of a 64-bit number. The handlers make these
from a pointer and the pointer from these, each with an `addr64` of its own.

* `Maker`, `Taker` — the handlers that return a pointer, and those that are given one.
* `Junk` — what is on the stack where a handler has a variable that it does not initialise.
* `RoundTrip` — a pointer that one handler returns is what another one hands to the host.

Main results:
* `toPtr_ofPtr` — the encoding has one pointer for the words of each.
* `roundTrip_iff` — when the round trip works, for each pair of handlers.
-/

namespace LibSpe2.EA

open Format (Build)

/-! ## Words and pointers -/

/-- The first two slots of a quadword. -/
structure Words where
  slot₀ : UInt32
  slot₁ : UInt32
  deriving DecidableEq

/-- A `void *` of the host, and a `size_t`. -/
abbrev Ptr (b : Build) := BitVec (8 * b.wordSize)
abbrev SizeT (b : Build) := BitVec (8 * b.wordSize)

/-- The number in an `addr64` whose words are `w`. -/
def Words.all64 (w : Words) : Nat := w.slot₀.toNat * 2 ^ 32 + w.slot₁.toNat

/-- The words of an `addr64` with the number `a`. -/
def by32 (a : Nat) : Words := ⟨.ofNat (a / 2 ^ 32), .ofNat a⟩

variable {b : Build}

/-- `(void *) (unsigned long) all64`. -/
def toPtr (w : Words) : Ptr b := .ofNat _ w.all64

/-- `arg64_to_size_t`. -/
def arg64ToSizeT (w : Words) : SizeT b := .ofNat _ w.all64

/-- The words for `(unsigned long long) (unsigned long) p`. -/
def ofPtr (p : Ptr b) : Words := by32 p.toNat

/-- `MAP_FAILED`. -/
def mapFailed : Ptr b := .allOnes _

/-- `-1LL`. -/
def allOnes : Words := ⟨0xffffffff, 0xffffffff⟩

/-- `ENOMEM`. -/
def enomem : UInt32 := 12

/-! ## The handlers -/

/-- What a handler asks the host to do. -/
inductive HostCall (b : Build) where
  | malloc (size : SizeT b)
  | calloc (nmemb size : SizeT b)
  | realloc (ptr : Ptr b) (size : SizeT b)
  | free (ptr : Ptr b)
  | mmap (start : Ptr b) (length : SizeT b) (prot flags fd offset : UInt32)
  | munmap (start : Ptr b) (length : SizeT b)
  | mremap (oldAddress : Ptr b) (oldSize newSize : SizeT b) (flags : UInt32)
  deriving DecidableEq

/-- What the host answers, a pointer or an `int`, and `errno` then. -/
structure Answer (b : Build) where
  ptr : Ptr b
  rc : UInt32
  errno : UInt32

/-- `PUT_LS_RC`, with 0 in the third slot. -/
structure Ret where
  words : Words
  errno : UInt32
  deriving DecidableEq

/-- What a handler has asked for, and what it returns. -/
structure Outcome (b : Build) where
  asked : Option (HostCall b)
  ret : Option Ret
  deriving DecidableEq

structure Junk (b : Build) where
  /-- `ptr.by32[1]` in the handler of `realloc`. -/
  ptrLow : UInt32
  /-- `realloc_addr`. -/
  reallocAddr : Ptr b

/-- A word as a `size_t`. -/
def sizeOf32 (w : UInt32) : SizeT b := .ofNat _ w.toNat

def defaultLibeaHandlerMalloc (size : Words) (a : Answer b) : Outcome b :=
  if size.slot₀ = 0 ∨ b.wordSize = 8 then
    ⟨some (.malloc (arg64ToSizeT size)), some ⟨ofPtr a.ptr, a.errno⟩⟩
  else
    ⟨none, some ⟨ofPtr (0 : Ptr b), enomem⟩⟩

def defaultLibeaHandlerCalloc (nmemb size : Words) (a : Answer b) : Outcome b :=
  if nmemb.slot₀ = 0 ∧ size.slot₀ = 0 ∨ b.wordSize = 8 then
    ⟨some (.calloc (arg64ToSizeT nmemb) (arg64ToSizeT size)), some ⟨ofPtr a.ptr, a.errno⟩⟩
  else
    ⟨none, some ⟨ofPtr (0 : Ptr b), enomem⟩⟩

def defaultLibeaHandlerRealloc (arg₀ size : Words) (j : Junk b) (a : Answer b) : Outcome b :=
  -- `by32[0]` is stored to twice, `by32[1]` never
  let ptr : Words := ⟨arg₀.slot₁, j.ptrLow⟩
  if size.slot₀ = 0 ∨ b.wordSize = 8 then
    ⟨some (.realloc (toPtr ptr) (arg64ToSizeT size)), some ⟨ofPtr a.ptr, a.errno⟩⟩
  else
    ⟨none, some ⟨ofPtr j.reallocAddr, enomem⟩⟩

def defaultLibeaHandlerFree (ptr : Words) : Outcome b := ⟨some (.free (toPtr ptr)), none⟩

def defaultPosix1HandlerMmap (start : Words) (length prot flags fd offset : UInt32) (a : Answer b) :
    Outcome b :=
  let addr := if a.ptr = mapFailed then by32 (2 ^ 64 - 1) else ofPtr a.ptr
  ⟨some (.mmap (toPtr start) (sizeOf32 length) prot flags fd offset), some ⟨addr, a.errno⟩⟩

def defaultPosix1HandlerMunmap (start : Words) (length : UInt32) (a : Answer b) : Outcome b :=
  ⟨some (.munmap (toPtr start) (sizeOf32 length)), some ⟨⟨a.rc, 0⟩, a.errno⟩⟩

def defaultPosix1HandlerMremap (oldAddress : Words) (oldSize newSize flags : UInt32) (a : Answer b) :
    Outcome b :=
  ⟨some (.mremap (toPtr oldAddress) (sizeOf32 oldSize) (sizeOf32 newSize) flags),
    some ⟨ofPtr a.ptr, a.errno⟩⟩

/-! ## Pairs of handlers -/

/-- A call of a handler that returns a pointer, with the words of its arguments. -/
inductive Maker where
  | malloc (size : Words)
  | calloc (nmemb size : Words)
  | realloc (ptr size : Words)
  | mmap (start : Words) (length prot flags fd offset : UInt32)
  | mremap (oldAddress : Words) (oldSize newSize flags : UInt32)
  deriving DecidableEq

def Maker.run (j : Junk b) (a : Answer b) : Maker → Outcome b
  | malloc size => defaultLibeaHandlerMalloc size a
  | calloc nmemb size => defaultLibeaHandlerCalloc nmemb size a
  | realloc ptr size => defaultLibeaHandlerRealloc ptr size j a
  | mmap start length prot flags fd offset =>
    defaultPosix1HandlerMmap start length prot flags fd offset a
  | mremap oldAddress oldSize newSize flags => defaultPosix1HandlerMremap oldAddress oldSize newSize flags a

/-- A call of a handler that is given a pointer, with its other arguments. -/
inductive Taker where
  | realloc (size : Words)
  | free
  | munmap (length : UInt32)
  | mremap (oldSize newSize flags : UInt32)
  deriving DecidableEq

def Taker.run (j : Junk b) (ptr : Words) (a : Answer b) : Taker → Outcome b
  | realloc size => defaultLibeaHandlerRealloc ptr size j a
  | free => defaultLibeaHandlerFree ptr
  | munmap length => defaultPosix1HandlerMunmap ptr length a
  | mremap oldSize newSize flags => defaultPosix1HandlerMremap ptr oldSize newSize flags a

/-- `mmap` and `mremap`. -/
def Maker.Maps : Maker → Prop
  | mmap .. | mremap .. => True
  | _ => False

/-- The host has failed to map. -/
def Maker.Failed (m : Maker) (a : Answer b) : Prop := m.Maps ∧ a.ptr = mapFailed

/-- What a handler should do with the pointer `p`: hand it to the host. A `realloc` to a size that is no
`size_t` returns the null pointer and `ENOMEM`. -/
def Taker.Exact (p : Ptr b) (a : Answer b) (o : Outcome b) : Taker → Prop
  | realloc size =>
    if size.all64 < 2 ^ (8 * b.wordSize) then
      o = ⟨some (.realloc p (arg64ToSizeT size)), some ⟨ofPtr a.ptr, a.errno⟩⟩
    else o = ⟨none, some ⟨⟨0, 0⟩, enomem⟩⟩
  | free => o.asked = some (.free p)
  | munmap length => o.asked = some (.munmap p (sizeOf32 length))
  | mremap oldSize newSize flags => o.asked = some (.mremap p (sizeOf32 oldSize) (sizeOf32 newSize) flags)

/-- **The round trip** of the pointer that the host gives the first handler: the second one hands the same to
the host. A host that fails to map is reported by words that no success has. -/
structure RoundTrip (m : Maker) (t : Taker) (j₁ j₂ : Junk b) (a₁ a₂ : Answer b) : Prop where
  exact : (m.run j₁ a₁).asked ≠ none → ¬m.Failed a₁ →
    ∀ r ∈ (m.run j₁ a₁).ret, t.Exact a₁.ptr a₂ (t.run j₂ r.words a₂)
  failure : m.Failed a₁ → ∀ r ∈ (m.run j₁ a₁).ret, r.words = allOnes
  success : m.Maps → ¬m.Failed a₁ → ∀ r ∈ (m.run j₁ a₁).ret, r.words ≠ allOnes

/-! ## The condition -/

/-- The sizes of a call are each a `size_t`. -/
def Maker.Asks (b : Build) : Maker → Prop
  | malloc size | realloc _ size => size.slot₀ = 0 ∨ b.wordSize = 8
  | calloc nmemb size => nmemb.slot₀ = 0 ∧ size.slot₀ = 0 ∨ b.wordSize = 8
  | mmap .. | mremap .. => True

/-- What is on the stack happens to be the lower half of the pointer, which is its upper half too where it
has one; or the null pointer, where `realloc` is not called. -/
def Taker.Spared (p : Ptr b) (j : Junk b) : Taker → Prop
  | realloc size =>
    if size.slot₀ = 0 ∨ b.wordSize = 8 then
      j.ptrLow = (ofPtr p).slot₁ ∧ (b.wordSize = 8 → (ofPtr p).slot₀ = (ofPtr p).slot₁)
    else j.reallocAddr = 0
  | _ => True

/-- **The condition**: the second handler is not `realloc`, or is spared; and the first one is not an `mremap`
that fails with 32-bit pointers. -/
def Spared (m : Maker) (t : Taker) (j : Junk b) (a : Answer b) : Prop :=
  (m.Asks b → ¬m.Failed a → t.Spared a.ptr j) ∧
    (b.wordSize = 4 → (∃ oldAddress oldSize newSize flags, m = .mremap oldAddress oldSize newSize flags) →
      a.ptr ≠ mapFailed)

/-! ## The encoding -/

theorem ptr_lt (p : Ptr b) : p.toNat < 2 ^ 64 := by
  cases b with
  | ppc32 => exact Nat.lt_of_lt_of_le p.isLt (by decide)
  | ppc64 => exact p.isLt

theorem all64_by32 {a : Nat} (h : a < 2 ^ 64) : (by32 a).all64 = a := by
  simp only [Words.all64, by32, UInt32.toNat_ofNat']
  omega

theorem by32_all64 (w : Words) : by32 w.all64 = w := by
  have h₀ := w.slot₀.toNat_lt
  have h₁ := w.slot₁.toNat_lt
  cases w
  simp only [Words.all64, by32, Words.mk.injEq, ← UInt32.toNat_inj, UInt32.toNat_ofNat'] at h₀ h₁ ⊢
  omega

/-- **Encoding and decoding**. -/
theorem toPtr_ofPtr (p : Ptr b) : toPtr (ofPtr p) = p := by
  rw [toPtr, ofPtr, all64_by32 (ptr_lt p), BitVec.ofNat_toNat, BitVec.setWidth_eq]

theorem ofPtr_inj {p q : Ptr b} : ofPtr p = ofPtr q ↔ p = q := by
  refine ⟨fun h => ?_, congrArg ofPtr⟩
  rw [← toPtr_ofPtr p, h, toPtr_ofPtr]

theorem ofPtr_zero : ofPtr (0 : Ptr b) = ⟨0, 0⟩ := by
  cases b <;> rfl

theorem by32_failed : by32 (2 ^ 64 - 1) = allOnes := rfl

/-- A 32-bit pointer is in the second word. -/
theorem slot₀_ppc32 (p : Ptr .ppc32) : (ofPtr p).slot₀ = 0 := by
  have hlt : p.toNat < 2 ^ 32 := p.isLt
  show UInt32.ofNat (p.toNat / 2 ^ 32) = 0
  rw [Nat.div_eq_of_lt hlt]
  rfl

/-- A 32-bit pointer does not depend on the first word. -/
theorem toPtr_ppc32 (w : Words) (p : Ptr .ppc32) : toPtr w = p ↔ w.slot₁ = (ofPtr p).slot₁ := by
  have hlt : p.toNat < 2 ^ 32 := p.isLt
  have h₁ := w.slot₁.toNat_lt
  rw [← BitVec.toNat_inj, ← UInt32.toNat_inj]
  simp only [toPtr, Words.all64, ofPtr, by32, BitVec.toNat_ofNat, UInt32.toNat_ofNat', Build.wordSize]
  omega

/-- A 64-bit pointer is both words. -/
theorem toPtr_ppc64 (w : Words) (p : Ptr .ppc64) : toPtr w = p ↔ w = ofPtr p := by
  constructor
  · intro h
    have hlt : w.all64 < 2 ^ 64 := by
      have h₀ := w.slot₀.toNat_lt
      have h₁ := w.slot₁.toNat_lt
      unfold Words.all64
      omega
    have hmod : w.all64 % 2 ^ (8 * Build.ppc64.wordSize) = w.all64 := Nat.mod_eq_of_lt hlt
    rw [← h, ofPtr, toPtr, BitVec.toNat_ofNat, hmod, by32_all64]
  · intro h
    rw [h, toPtr_ofPtr]

/-- Only a 64-bit `MAP_FAILED` is all ones in both words. -/
theorem ofPtr_eq_allOnes {p : Ptr b} : ofPtr p = allOnes ↔ b.wordSize = 8 ∧ p = mapFailed := by
  cases b with
  | ppc32 =>
    refine iff_of_false (fun h => ?_) fun h => absurd h.1 (by simp [Build.wordSize])
    have hslot := slot₀_ppc32 p
    simp [h, allOnes] at hslot
  | ppc64 =>
    have hfailed : ofPtr (mapFailed : Ptr .ppc64) = allOnes := rfl
    rw [← hfailed, ofPtr_inj]
    exact (and_iff_right rfl).symm

/-- The number fits into a `size_t`. -/
theorem fits_iff (size : Words) : size.all64 < 2 ^ (8 * b.wordSize) ↔ size.slot₀ = 0 ∨ b.wordSize = 8 := by
  have h₀ := size.slot₀.toNat_lt
  have h₁ := size.slot₁.toNat_lt
  cases b with
  | ppc32 =>
    simp only [Words.all64, Build.wordSize, ← UInt32.toNat_inj, UInt32.toNat_zero]
    omega
  | ppc64 =>
    have hlt : size.all64 < 2 ^ 64 := by
      unfold Words.all64
      omega
    exact iff_of_true hlt (.inr rfl)

/-! ## The handlers of a pointer -/

/-- The pointer that `realloc` is called with. -/
theorem realloc_ptr (p : Ptr b) (low : UInt32) : toPtr ⟨(ofPtr p).slot₁, low⟩ = p ↔
    low = (ofPtr p).slot₁ ∧ (b.wordSize = 8 → (ofPtr p).slot₀ = (ofPtr p).slot₁) := by
  cases b with
  | ppc32 =>
    rw [toPtr_ppc32]
    exact (and_iff_left fun h => absurd h (by simp [Build.wordSize])).symm
  | ppc64 =>
    rw [toPtr_ppc64]
    constructor
    · intro h
      have h₀ := congrArg Words.slot₀ h
      have h₁ := congrArg Words.slot₁ h
      exact ⟨h₁, fun _ => h₀.symm⟩
    · intro ⟨hlow, hsame⟩
      rw [hlow]
      exact congrArg (fun w : UInt32 => (⟨w, (ofPtr p).slot₁⟩ : Words)) (hsame rfl).symm

theorem exact_iff (t : Taker) (p : Ptr b) (j : Junk b) (a : Answer b) :
    t.Exact p a (t.run j (ofPtr p) a) ↔ t.Spared p j := by
  cases t with
  | realloc size =>
    unfold Taker.Exact Taker.Spared Taker.run defaultLibeaHandlerRealloc
    simp only [fits_iff]
    by_cases hfits : size.slot₀ = 0 ∨ b.wordSize = 8
    · simp only [if_pos hfits, ← realloc_ptr]
      simp
    · simp only [if_neg hfits]
      simp [← ofPtr_zero (b := b), ofPtr_inj]
  | free => simp [Taker.Exact, Taker.Spared, Taker.run, defaultLibeaHandlerFree, toPtr_ofPtr]
  | munmap length => simp [Taker.Exact, Taker.Spared, Taker.run, defaultPosix1HandlerMunmap, toPtr_ofPtr]
  | mremap oldSize newSize flags =>
    simp [Taker.Exact, Taker.Spared, Taker.run, defaultPosix1HandlerMremap, toPtr_ofPtr]

/-! ## The handlers that return a pointer -/

/-- The host is asked if the sizes allow it. -/
theorem asked_iff (m : Maker) (j : Junk b) (a : Answer b) : (m.run j a).asked ≠ none ↔ m.Asks b := by
  cases m with
  | malloc size =>
    by_cases hsize : size.slot₀ = 0 ∨ b.wordSize = 8 <;>
      simp [Maker.run, Maker.Asks, defaultLibeaHandlerMalloc, hsize]
  | calloc nmemb size =>
    by_cases hsize : nmemb.slot₀ = 0 ∧ size.slot₀ = 0 ∨ b.wordSize = 8 <;>
      simp [Maker.run, Maker.Asks, defaultLibeaHandlerCalloc, hsize]
  | realloc ptr size =>
    by_cases hsize : size.slot₀ = 0 ∨ b.wordSize = 8 <;>
      simp [Maker.run, Maker.Asks, defaultLibeaHandlerRealloc, hsize]
  | mmap => simp [Maker.run, Maker.Asks, defaultPosix1HandlerMmap]
  | mremap => simp [Maker.run, Maker.Asks, defaultPosix1HandlerMremap]

/-- A pointer of the host is returned in its words. -/
theorem ret_eq (m : Maker) (j : Junk b) (a : Answer b) (hasks : m.Asks b) (hok : ¬m.Failed a) :
    (m.run j a).ret = some ⟨ofPtr a.ptr, a.errno⟩ := by
  cases m with
  | malloc size =>
    have hsize : size.slot₀ = 0 ∨ b.wordSize = 8 := hasks
    simp [Maker.run, defaultLibeaHandlerMalloc, hsize]
  | calloc nmemb size =>
    have hsize : nmemb.slot₀ = 0 ∧ size.slot₀ = 0 ∨ b.wordSize = 8 := hasks
    simp [Maker.run, defaultLibeaHandlerCalloc, hsize]
  | realloc ptr size =>
    have hsize : size.slot₀ = 0 ∨ b.wordSize = 8 := hasks
    simp [Maker.run, defaultLibeaHandlerRealloc, hsize]
  | mmap =>
    have hptr : a.ptr ≠ mapFailed := fun h => hok ⟨trivial, h⟩
    simp [Maker.run, defaultPosix1HandlerMmap, hptr]
  | mremap => simp [Maker.run, defaultPosix1HandlerMremap]

/-- A host that fails to map is reported as such, unless `mremap` fails with 32-bit pointers. -/
theorem failure_iff (m : Maker) (j : Junk b) (a : Answer b) :
    (m.Failed a → ∀ r ∈ (m.run j a).ret, r.words = allOnes) ↔
      (b.wordSize = 4 → (∃ oldAddress oldSize newSize flags, m = .mremap oldAddress oldSize newSize flags) →
        a.ptr ≠ mapFailed) := by
  cases m with
  | malloc | calloc | realloc => simp [Maker.Failed, Maker.Maps]
  | mmap =>
    refine iff_of_true (fun hfailed r hr => ?_) (by simp)
    have hret : r = ⟨by32 (2 ^ 64 - 1), a.errno⟩ := by
      simpa [Maker.run, defaultPosix1HandlerMmap, hfailed.2, eq_comm] using hr
    rw [hret, by32_failed]
  | mremap oldAddress oldSize newSize flags =>
    have hret : (∀ r ∈ ((Maker.mremap oldAddress oldSize newSize flags).run j a).ret, r.words = allOnes) ↔
        b.wordSize = 8 ∧ a.ptr = mapFailed := by
      rw [← ofPtr_eq_allOnes]
      simp [Maker.run, defaultPosix1HandlerMremap]
    rw [hret]
    cases b with
    | ppc32 => simp [Maker.Failed, Maker.Maps, Build.wordSize]
    | ppc64 => simp [Maker.Failed, Maker.Maps, Build.wordSize]

/-- **The round trip**, for each pair of handlers. -/
theorem roundTrip_iff (m : Maker) (t : Taker) (j₁ j₂ : Junk b) (a₁ a₂ : Answer b) :
    RoundTrip m t j₁ j₂ a₁ a₂ ↔ Spared m t j₂ a₁ := by
  constructor
  · intro h
    refine ⟨fun hasks hok => ?_, (failure_iff m j₁ a₁).mp h.failure⟩
    apply (exact_iff t a₁.ptr j₂ a₂).mp
    exact h.exact ((asked_iff m j₁ a₁).mpr hasks) hok ⟨ofPtr a₁.ptr, a₁.errno⟩ (ret_eq m j₁ a₁ hasks hok)
  · intro ⟨hspared, hfail⟩
    refine ⟨fun hasked hok r hr => ?_, (failure_iff m j₁ a₁).mpr hfail, fun hmaps hok r hr => ?_⟩
    · have hasks := (asked_iff m j₁ a₁).mp hasked
      rw [ret_eq m j₁ a₁ hasks hok] at hr
      obtain rfl := Option.some.inj hr
      exact (exact_iff t a₁.ptr j₂ a₂).mpr (hspared hasks hok)
    · have hasks : m.Asks b := by
        cases m with
        | mmap | mremap => exact trivial
        | _ => exact hmaps.elim
      rw [ret_eq m j₁ a₁ hasks hok] at hr
      obtain rfl := Option.some.inj hr
      intro hall
      exact hok ⟨hmaps, (ofPtr_eq_allOnes.mp hall).2⟩

/-- A pointer that is given to `realloc` is not the one that the host is asked to reallocate. -/
theorem realloc_strays : ¬∀ (b : Build) (m : Maker) (t : Taker) (j₁ j₂ : Junk b) (a₁ a₂ : Answer b),
    RoundTrip m t j₁ j₂ a₁ a₂ := by
  intro h
  let j : Junk .ppc64 := ⟨0, 0⟩
  let a : Answer .ppc64 := ⟨16, 0, 0⟩
  have hspared := (roundTrip_iff _ _ j j a a).mp (h .ppc64 (.malloc ⟨0, 8⟩) (.realloc ⟨0, 16⟩) j j a a)
  have hasks : Maker.Asks .ppc64 (.malloc ⟨0, 8⟩) := .inr rfl
  have hspare : Taker.Spared a.ptr j (.realloc ⟨0, 16⟩) := hspared.1 hasks fun hfailed => hfailed.1.elim
  have hsize : (0 : UInt32) = 0 ∨ Build.ppc64.wordSize = 8 := .inr rfl
  rw [Taker.Spared, if_pos hsize] at hspare
  have hlow : (0 : UInt32) = (ofPtr a.ptr).slot₁ := hspare.1
  have hslot : (ofPtr a.ptr).slot₁ = 16 := rfl
  rw [hslot] at hlow
  exact absurd hlow (by decide)

end LibSpe2.EA
