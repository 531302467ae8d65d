import LibSpe2.SpeBase.ElfToe

/-!
# The toe and the symbols of an image (`spebase/elf_loader.c`)

`_base_spe_toe_ear` looks at an image that has just been opened: it refuses one whose symbols name
objects of the PPU program, and allocates the shadow of the toe.

* `toeCheckSyms`, `baseSpeToeEar` — the functions.
* `BadSymbol` — a symbol that is not supported, `HasBad` — a symbol table with one.
* `Readable` — what the functions read is inside the image.

Main results:
* `toeEar_run` — what it returns depends on the last symbol table alone.
* `toe_ear_exact` — when it refuses exactly the images that are not supported.
-/

namespace LibSpe2.Elf

open Mapped (Bounds State bytesAt digits bind_of)

variable {b : Bounds} {s : State} {m : ℕ → UInt8} {handle : Handle} {off sh sym : ℕ} {elfImage : ℕ}

/-! ## `elf.h` -/

/-- `Elf32_Sym`. -/
def stName : Field := ⟨4, 0⟩

def symSize : ℕ := 16

def shtSymtab : ℕ := 2
def shtDynsym : ℕ := 11

/-! ## The functions -/

/-- `ENOMEM`. -/
def enomem : ℤ := 12

/-- `"_EAR_"`, without the byte that ends it. -/
def earPrefix : List UInt8 := [0x5f, 0x45, 0x41, 0x52, 0x5f]

/-- A message on `stderr`. -/
inductive Complaint where
  | invalidEarSymbol (name : List UInt8)
  | unexpectedToeSize (size : ℤ)
  deriving DecidableEq

/-- `ret`, what `errno` was set to, if it was, and what was printed. -/
structure Verdict where
  ret : ℤ
  errno : Option ℤ
  stderr : List Complaint
  deriving DecidableEq

/-- `EINVAL` and a message. -/
def Verdict.refuse (v : Verdict) (c : Complaint) : Verdict := ⟨1, some einval, v.stderr ++ [c]⟩

/-- The bytes of a string up to the one that ends it, which is among the next `fuel`. -/
def cstringUpTo : (fuel off : ℕ) → Mapped (List UInt8)
  | 0, _ => Mapped.outside
  | fuel + 1, off => do
    let d ← Mapped.read 1 off
    if d = 0 then pure [] else do
      let ds ← cstringUpTo fuel (off + 1)
      pure (UInt8.ofNat d :: ds)

/-- A string of the image. -/
def cstring (off : ℕ) : Mapped (List UInt8) := fun b => cstringUpTo b.size off b

/-- One round of the loop in `toe_check_syms`. -/
def checkSym (strTable sym : ℕ) (v : Verdict) : Mapped Verdict := do
  let name ← stName.get sym
  if name ≠ 0 then do
    let hasPrefix ← strEq earPrefix (strTable + name)
    if hasPrefix then do
      let isPrefix ← strEq (earPrefix ++ [0]) (strTable + name)
      if isPrefix then pure v else do
        let symName ← cstring (strTable + name)
        pure (v.refuse (.invalidEarSymbol symName))
    else pure v
  else pure v

/-- The number of rounds: one for each `sym` in steps of a symbol below `sym_end`. -/
def symCount (size : ℕ) : ℕ := (size + (symSize - 1)) / symSize

/-- `toe_check_syms`, after `v`. -/
def toeCheckSyms (sh : ℕ) (v : Verdict) : Mapped Verdict := do
  let shdr ← eShoff.get 0
  let symHdr ← shOffset.get sh
  let size ← shSize.get sh
  let link ← shLink.get sh
  let strTable ← shOffset.get (shdr + shdrSize * link)
  Mapped.upTo (pure (symCount size)) (fun i => checkSym strTable (symHdr + symSize * i)) (symCount size + 1) 0
    { v with ret := 0 }

/-- A `long`, which is as wide as a pointer. -/
def long (x : ℤ) : Mapped ℤ := fun b s => some (x.bmod b.space, s)

/-- The first loop of `_base_spe_toe_ear`: the section `i`. -/
def addToe (shdr strTable i : ℕ) (toeSize : ℤ) : Mapped ℤ := do
  let sh := shdr + shdrSize * i
  let name ← shName.get sh
  let isToe ← strEq toeName (strTable + name)
  if isToe then do
    let size ← shSize.get sh
    long (toeSize + size)
  else pure toeSize

/-- Its second loop. -/
def checkSection (shdr i : ℕ) (v : Verdict) : Mapped Verdict := do
  let sh := shdr + shdrSize * i
  let type ← shType.get sh
  if type = shtSymtab ∨ type = shtDynsym then toeCheckSyms sh v else pure v

/-- What is stored in a new shadow: `char *` has 8 or 4 bytes. -/
def newShadow (b : Bounds) (elfImage : ℕ) : List UInt8 :=
  if b.space = 2 ^ 64 then digits 8 elfImage ++ List.replicate 8 0
  else List.replicate 4 0 ++ digits 4 elfImage ++ List.replicate 8 0

/-- The checks of an image with a toe. -/
def checkToe (shdr : ℕ) (toeSize : ℤ) : Mapped Verdict :=
  if toeSize > 0 then do
    let v ← Mapped.upTo (eShnum.get 0) (checkSection shdr) headerLimit 0 ⟨0, none, []⟩
    pure (if v.ret = 0 ∧ toeSize ≠ 16 then v.refuse (.unexpectedToeSize toeSize) else v)
  else pure ⟨0, none, []⟩

/-- The shadow of an image that is accepted. -/
def allocateShadow (malloc : Bool) (handle : Handle) (toeSize : ℤ) (v : Verdict) : Mapped (Verdict × Handle) :=
  if v.ret = 0 ∧ toeSize ≠ 0 then
    if malloc then fun b s => some ((v, { handle with toeShadow := newShadow b handle.elfImage }), s)
    else pure (⟨1, some enomem, v.stderr⟩, { handle with toeShadow := [] })
  else pure (v, handle)

/-- `_base_spe_toe_ear`, and the handle afterwards; `malloc` says that `malloc` succeeds. -/
def baseSpeToeEar (malloc : Bool) (handle : Handle) : Mapped (Verdict × Handle) := do
  let shdr ← eShoff.get 0
  let shstrndx ← eShstrndx.get 0
  let strTable ← shOffset.get (shdr + shdrSize * shstrndx)
  let toeSize ← Mapped.upTo (eShnum.get 0) (addToe shdr strTable) headerLimit 0 0
  let v ← checkToe shdr toeSize
  allocateShadow malloc handle toeSize v

/-! ## What an image is -/

/-- The total size of the `.toe` sections. -/
def toeTotal (b : Bounds) (m : ℕ → UInt8) : ℕ := ((toes b m).map (shSize.val b m)).sum

/-- The total size as a `long`. -/
def toeLong (b : Bounds) (m : ℕ → UInt8) : ℤ := (toeTotal b m : ℤ).bmod b.space

/-- The section is a symbol table. -/
def IsSymbols (b : Bounds) (m : ℕ → UInt8) (sh : ℕ) : Prop :=
  shType.val b m sh = shtSymtab ∨ shType.val b m sh = shtDynsym

instance : DecidablePred (IsSymbols b m) := fun _ => inferInstanceAs (Decidable (_ ∨ _))

/-- The symbol tables. -/
def symbolTables (b : Bounds) (m : ℕ → UInt8) : List ℕ := (sections b m).filter (IsSymbols b m)

/-- The first `n` symbols of a table. -/
def symbolsUpTo (b : Bounds) (m : ℕ → UInt8) (sh n : ℕ) : List ℕ :=
  (List.range n).map fun i => shOffset.val b m sh + symSize * i

/-- The symbols of a table. -/
def symbols (b : Bounds) (m : ℕ → UInt8) (sh : ℕ) : List ℕ := symbolsUpTo b m sh (symCount (shSize.val b m sh))

/-- Where the names of a symbol table start. -/
def symbolNames (b : Bounds) (m : ℕ → UInt8) (sh : ℕ) : ℕ :=
  shOffset.val b m (sectionAt b m (shLink.val b m sh))

/-- The symbol has a name that starts with `_EAR_` and is longer. -/
def BadSymbol (b : Bounds) (m : ℕ → UInt8) (sh sym : ℕ) : Prop :=
  stName.val b m sym ≠ 0 ∧ bytesAt m earPrefix.length (symbolNames b m sh + stName.val b m sym) = earPrefix ∧
    m (symbolNames b m sh + stName.val b m sym + earPrefix.length) ≠ 0

instance : Decidable (BadSymbol b m sh sym) := inferInstanceAs (Decidable (_ ∧ _ ∧ _))

/-- The table has such a symbol. -/
def HasBad (b : Bounds) (m : ℕ → UInt8) (sh : ℕ) : Prop := ∃ sym ∈ symbols b m sh, BadSymbol b m sh sym

instance : DecidablePred (HasBad b m) := fun _ => inferInstanceAs (Decidable (∃ sym ∈ symbols b m _, _))

/-- A string starts at the offset and ends inside the image. -/
def IsString (b : Bounds) (m : ℕ → UInt8) (off : ℕ) : Prop := ∃ k < b.size, off ≤ k ∧ m k = 0

instance : Decidable (IsString b m off) := inferInstanceAs (Decidable (∃ k < b.size, _))

/-- What `_base_spe_toe_ear` reads of an image mapped at `elfImage` is inside the image. -/
structure Readable (elfImage : ℕ) (b : Bounds) (m : ℕ → UInt8) : Prop where
  space : b.space = 2 ^ 32 ∨ b.space = 2 ^ 64
  size_le : b.size ≤ b.space
  address : elfImage < b.space
  header : ehdrSize ≤ b.size
  section_table : eShoff.val b m 0 + shdrSize * eShnum.val b m 0 ≤ b.size
  names_header : sectionAt b m (eShstrndx.val b m 0) + shdrSize ≤ b.size
  names : ∀ sh ∈ sections b m, IsString b m (nameTable b m + shName.val b m sh)
  symbol_table : ∀ sh ∈ symbolTables b m,
    shOffset.val b m sh + symSize * symCount (shSize.val b m sh) ≤ b.size
  symbol_names_header : ∀ sh ∈ symbolTables b m, sectionAt b m (shLink.val b m sh) + shdrSize ≤ b.size
  symbol_names : ∀ sh ∈ symbolTables b m, ∀ sym ∈ symbols b m sh, stName.val b m sym ≠ 0 →
    IsString b m (symbolNames b m sh + stName.val b m sym)

/-! ## The functions on a readable image

Nothing is written, so that every loop is a fold over what it looks at. -/

/-- The bytes of a string, as far as `fuel` reaches. -/
def stringUpTo (m : ℕ → UInt8) : (fuel off : ℕ) → List UInt8
  | 0, _ => []
  | fuel + 1, off => if m off = 0 then [] else m off :: stringUpTo m fuel (off + 1)

/-- The verdict after a symbol. -/
def afterSym (b : Bounds) (m : ℕ → UInt8) (sh : ℕ) (v : Verdict) (sym : ℕ) : Verdict :=
  if BadSymbol b m sh sym then
    v.refuse (.invalidEarSymbol (stringUpTo m b.size (symbolNames b m sh + stName.val b m sym)))
  else v

/-- The verdict after a section. -/
def afterSection (b : Bounds) (m : ℕ → UInt8) (v : Verdict) (sh : ℕ) : Verdict :=
  if IsSymbols b m sh then (symbols b m sh).foldl (afterSym b m sh) { v with ret := 0 } else v

theorem be_one (m : ℕ → UInt8) (off : ℕ) : Mapped.be m 1 off = (m off).toNat := by
  simp [Mapped.be, bytesAt, Mapped.number]

/-- A string that ends inside the image is compared with a literal. -/
theorem strEq_string {cs : List UInt8} (hspace : b.size ≤ b.space) (hz : 0 ∉ cs.dropLast)
    (h : IsString b s.byte off) : strEq cs off b s = some (decide (bytesAt s.byte cs.length off = cs), s) := by
  obtain ⟨k, hk, hoff, hnul⟩ := h
  apply strEq_total hspace
  intro i hi heq
  exact lt_of_le_of_lt (string_stop hz hi hoff hnul heq) hk

theorem cstringUpTo_total (hspace : b.size ≤ b.space) {fuel k : ℕ} (hk : k < b.size) (hoff : off ≤ k)
    (hnul : s.byte k = 0) (hfuel : k < off + fuel) :
    cstringUpTo fuel off b s = some (stringUpTo s.byte fuel off, s) := by
  induction fuel generalizing off with
  | zero => omega
  | succ fuel ih =>
    unfold cstringUpTo stringUpTo
    rw [bind_of (Mapped.read_of hspace Nat.one_pos (by omega)), be_one]
    by_cases hzero : s.byte off = 0
    · rw [if_pos hzero, if_pos (by rw [hzero]; rfl)]
      rfl
    · have hne : ¬ (s.byte off).toNat = 0 := fun h => hzero (UInt8.toNat_inj.mp h)
      have hlt : off < k := lt_of_le_of_ne hoff fun h => hzero (h ▸ hnul)
      rw [if_neg hzero, if_neg hne, bind_of (ih hlt (by omega)), UInt8.ofNat_toNat]
      rfl

theorem cstring_total (hspace : b.size ≤ b.space) (h : IsString b s.byte off) :
    cstring off b s = some (stringUpTo s.byte b.size off, s) := by
  obtain ⟨k, hk, hoff, hnul⟩ := h
  exact cstringUpTo_total hspace hk hoff hnul (by omega)

/-- The name is `_EAR_` and more, or it is not. -/
theorem ear_longer (h : bytesAt m earPrefix.length off = earPrefix) :
    bytesAt m (earPrefix ++ [0]).length off = earPrefix ++ [0] ↔ m (off + earPrefix.length) = 0 := by
  show bytesAt m (earPrefix.length + 1) off = _ ↔ _
  rw [Mapped.bytesAt_concat, h]
  simp

section
variable (hr : Readable elfImage b s.byte)
include hr

theorem Readable.get_header {f : Field} (hf : f.disp + f.width ≤ ehdrSize) (hwidth : 0 < f.width) :
    f.get 0 b s = some (f.val b s.byte 0, s) :=
  Field.get_inside hr.size_le (by have := hr.header; omega) hf hwidth

theorem Readable.get_at {f : Field} {p : ℕ} (hp : p + shdrSize ≤ b.size) (hf : f.disp + f.width ≤ shdrSize)
    (hwidth : 0 < f.width) : f.get p b s = some (f.val b s.byte p, s) :=
  Field.get_inside hr.size_le hp hf hwidth

theorem Readable.section_inside (hsh : sh ∈ sections b s.byte) : sh + shdrSize ≤ b.size := by
  obtain ⟨i, hi, rfl⟩ := List.mem_map.mp hsh
  have hle : shdrSize * (i + 1) ≤ shdrSize * eShnum.val b s.byte 0 :=
    Nat.mul_le_mul_left _ (List.mem_range.mp hi)
  have htable := hr.section_table
  rw [Nat.mul_succ] at hle
  show eShoff.val b s.byte 0 + shdrSize * i + shdrSize ≤ b.size
  omega

theorem Readable.get_section {f : Field} (hsh : sh ∈ sections b s.byte) (hf : f.disp + f.width ≤ shdrSize)
    (hwidth : 0 < f.width) : f.get sh b s = some (f.val b s.byte sh, s) :=
  hr.get_at (hr.section_inside hsh) hf hwidth

theorem Readable.checkSym_total (hsh : sh ∈ symbolTables b s.byte) (hsym : sym ∈ symbols b s.byte sh)
    (v : Verdict) : checkSym (symbolNames b s.byte sh) sym v b s = some (afterSym b s.byte sh v sym, s) := by
  have hget : stName.get sym b s = some (stName.val b s.byte sym, s) := by
    obtain ⟨i, hi, rfl⟩ := List.mem_map.mp hsym
    have hle : symSize * (i + 1) ≤ symSize * symCount (shSize.val b s.byte sh) :=
      Nat.mul_le_mul_left _ (List.mem_range.mp hi)
    have htable := hr.symbol_table sh hsh
    rw [Nat.mul_succ] at hle
    have hin : shOffset.val b s.byte sh + symSize * i + symSize ≤ b.size := by omega
    exact Field.get_inside hr.size_le hin (by decide) (by decide)
  unfold checkSym afterSym
  rw [bind_of hget]
  by_cases hname : stName.val b s.byte sym = 0
  · have hgood : ¬ BadSymbol b s.byte sh sym := fun h => h.1 hname
    rw [if_neg (not_not_intro hname), if_neg hgood]
    rfl
  · have hstring := hr.symbol_names sh hsh sym hsym hname
    generalize hoff : symbolNames b s.byte sh + stName.val b s.byte sym = off at hstring
    have hbad : BadSymbol b s.byte sh sym ↔ bytesAt s.byte earPrefix.length off = earPrefix ∧
        s.byte (off + earPrefix.length) ≠ 0 := by
      unfold BadSymbol
      rw [hoff]
      exact and_iff_right hname
    rw [if_pos hname, bind_of (strEq_string hr.size_le (by decide) hstring)]
    by_cases hpre : bytesAt s.byte earPrefix.length off = earPrefix
    · rw [if_pos (decide_eq_true hpre), bind_of (strEq_string hr.size_le (by decide) hstring)]
      by_cases hend : s.byte (off + earPrefix.length) = 0
      · rw [if_pos (decide_eq_true ((ear_longer hpre).mpr hend)), if_neg fun h => (hbad.mp h).2 hend]
        rfl
      · rw [if_neg (by rw [decide_eq_true_eq, ear_longer hpre]; exact hend),
          bind_of (cstring_total hr.size_le hstring), if_pos (hbad.mpr ⟨hpre, hend⟩)]
        rfl
    · rw [if_neg (by rwa [decide_eq_true_eq]), if_neg fun h => hpre (hbad.mp h).1]
      rfl

theorem Readable.toeCheckSyms_total (hsh : sh ∈ symbolTables b s.byte) (v : Verdict) : toeCheckSyms sh v b s =
    some ((symbols b s.byte sh).foldl (afterSym b s.byte sh) { v with ret := 0 }, s) := by
  have hmem := (List.mem_filter.mp hsh).1
  have hlink : shOffset.get (eShoff.val b s.byte 0 + shdrSize * shLink.val b s.byte sh) b s =
      some (symbolNames b s.byte sh, s) := hr.get_at (hr.symbol_names_header sh hsh) (by decide) (by decide)
  unfold toeCheckSyms
  rw [bind_of (hr.get_header (by decide) (by decide)), bind_of (hr.get_section hmem (by decide) (by decide)),
    bind_of (hr.get_section hmem (by decide) (by decide)), bind_of (hr.get_section hmem (by decide) (by decide)),
    bind_of hlink, Mapped.upTo_foldl (n := symCount (shSize.val b s.byte sh))
      (g := fun i v => afterSym b s.byte sh v (shOffset.val b s.byte sh + symSize * i)) rfl ?_ (Nat.lt_succ_self _)]
  · unfold symbols symbolsUpTo
    rw [List.foldl_map]
  · intro i hi v
    exact hr.checkSym_total hsh (List.mem_map.mpr ⟨i, List.mem_range.mpr hi, rfl⟩) v

theorem Readable.checkSection_total {i : ℕ} (hi : i < eShnum.val b s.byte 0) (v : Verdict) :
    checkSection (eShoff.val b s.byte 0) i v b s = some (afterSection b s.byte v (sectionAt b s.byte i), s) := by
  have hmem := sectionAt_mem hi
  unfold checkSection afterSection
  rw [show eShoff.val b s.byte 0 + shdrSize * i = sectionAt b s.byte i from rfl,
    bind_of (hr.get_section hmem (by decide) (by decide))]
  by_cases hsyms : IsSymbols b s.byte (sectionAt b s.byte i)
  · have htype : _ ∨ _ := hsyms
    rw [if_pos hsyms, if_pos htype]
    exact hr.toeCheckSyms_total (List.mem_filter.mpr ⟨hmem, decide_eq_true hsyms⟩) v
  · have htype : ¬ (_ ∨ _) := hsyms
    rw [if_neg hsyms, if_neg htype]
    rfl

theorem Readable.addToe_total {i : ℕ} (hi : i < eShnum.val b s.byte 0) (size : ℤ) :
    addToe (eShoff.val b s.byte 0) (nameTable b s.byte) i size b s =
      some (if IsToe b s.byte (sectionAt b s.byte i) then
        (size + shSize.val b s.byte (sectionAt b s.byte i)).bmod b.space else size, s) := by
  have hmem := sectionAt_mem hi
  unfold addToe
  rw [show eShoff.val b s.byte 0 + shdrSize * i = sectionAt b s.byte i from rfl,
    bind_of (hr.get_section hmem (by decide) (by decide)),
    bind_of (strEq_string hr.size_le (by decide) (hr.names _ hmem))]
  by_cases htoe : IsToe b s.byte (sectionAt b s.byte i)
  · have hname : _ = toeName := htoe
    rw [if_pos htoe, if_pos (decide_eq_true hname), bind_of (hr.get_section hmem (by decide) (by decide))]
    rfl
  · have hname : ¬ _ = toeName := htoe
    rw [if_neg htoe, if_neg (by rwa [decide_eq_true_eq])]
    rfl

end

/-! ## What the folds come to -/

theorem foldl_afterSym_ret (l : List ℕ) (v : Verdict) : (l.foldl (afterSym b m sh) v).ret =
    if ∃ sym ∈ l, BadSymbol b m sh sym then 1 else v.ret := by
  induction l generalizing v with
  | nil => rfl
  | cons sym l ih =>
    rw [List.foldl_cons, ih]
    by_cases hbad : BadSymbol b m sh sym
    · have hret : (afterSym b m sh v sym).ret = 1 := by
        unfold afterSym
        rw [if_pos hbad]
        rfl
      rw [hret, ite_self, if_pos ⟨sym, List.mem_cons_self .., hbad⟩]
    · have hsame : afterSym b m sh v sym = v := if_neg hbad
      rw [hsame]
      simp only [List.mem_cons, exists_eq_or_imp, hbad, false_or]

/-- The last symbol table has a bad symbol. -/
def LastBad (b : Bounds) (m : ℕ → UInt8) : Prop := ∃ sh, (symbolTables b m).getLast? = some sh ∧ HasBad b m sh

/-- **The last symbol table decides.** -/
theorem foldl_afterSection_ret (l : List ℕ) (v : Verdict) (hv : v.ret = 0) :
    (l.foldl (afterSection b m) v).ret ≠ 0 ↔
      ∃ sh, (l.filter (IsSymbols b m)).getLast? = some sh ∧ HasBad b m sh := by
  induction l using List.reverseRecOn with
  | nil => simp [hv]
  | append_singleton l sh ih =>
    rw [List.foldl_append, List.foldl_cons, List.foldl_nil, List.filter_append]
    generalize l.foldl (afterSection b m) v = w at ih ⊢
    by_cases hsyms : IsSymbols b m sh
    · have hafter : afterSection b m w sh = (symbols b m sh).foldl (afterSym b m sh) { w with ret := 0 } :=
        if_pos hsyms
      rw [hafter, foldl_afterSym_ret]
      simp [hsyms, HasBad]
    · have hafter : afterSection b m w sh = w := if_neg hsyms
      rw [hafter]
      simpa [hsyms] using ih

theorem foldl_addToe (l : List ℕ) (size : ℤ) :
    (l.foldl (fun (size : ℤ) sh => if IsToe b m sh then (size + shSize.val b m sh).bmod b.space else size)
      (size.bmod b.space)) =
      (size + (((l.filter (IsToe b m)).map (shSize.val b m)).sum : ℕ)).bmod b.space := by
  induction l generalizing size with
  | nil => simp
  | cons sh l ih =>
    rw [List.foldl_cons]
    by_cases htoe : IsToe b m sh
    · have hsum : ((sh :: l).filter (IsToe b m)).map (shSize.val b m) =
          shSize.val b m sh :: (l.filter (IsToe b m)).map (shSize.val b m) := by
        rw [List.filter_cons, if_pos (decide_eq_true htoe), List.map_cons]
      rw [if_pos htoe, Int.bmod_add_bmod, ih, hsum, List.sum_cons, Nat.cast_add, Int.add_assoc]
    · rw [if_neg htoe, ih, List.filter_cons, if_neg (by simpa using htoe)]

/-! ## The verdict -/

theorem shnum_lt : eShnum.val b m 0 < headerLimit := Field.val_lt (f := eShnum)

/-- The shadow that belongs to an image: its address, followed by zeros. -/
def imageShadow (elfImage : ℕ) : List UInt8 := digits 8 elfImage ++ List.replicate 8 0

theorem digits_small (n k v : ℕ) (h : v < 256 ^ n) : digits (k + n) v = List.replicate k 0 ++ digits n v := by
  induction n generalizing v with
  | zero =>
    obtain rfl : v = 0 := by simpa using h
    rw [digits, List.append_nil]
    induction k with
    | zero => rfl
    | succ k ih =>
      rw [Nat.add_zero] at ih
      show digits k (0 / 256) ++ [_] = _
      rw [Nat.zero_div, ih, List.replicate_succ']
      rfl
  | succ n ih =>
    rw [pow_succ] at h
    show digits (k + n) (v / 256) ++ [_] = _ ++ (digits n (v / 256) ++ [_])
    rw [ih (v / 256) (by omega), List.append_assoc]

theorem newShadow_eq (hspace : b.space = 2 ^ 32 ∨ b.space = 2 ^ 64) (h : elfImage < b.space) :
    newShadow b elfImage = imageShadow elfImage := by
  unfold newShadow imageShadow
  rcases hspace with h32 | h64
  · rw [if_neg (by omega), digits_small 4 4 elfImage (by rw [h32] at h; exact h)]
  · rw [if_pos h64]

section
variable (hr : Readable elfImage b s.byte)
include hr

/-- The verdict: the `long` that the sizes add up to, and the last symbol table. -/
theorem Readable.checkToe_total : ∃ v, checkToe (eShoff.val b s.byte 0) (toeLong b s.byte) b s = some (v, s) ∧
    (v.ret = 0 ↔ toeLong b s.byte ≤ 0 ∨ toeLong b s.byte = 16 ∧ ¬ LastBad b s.byte) := by
  have hverdict : Mapped.upTo (eShnum.get 0) (checkSection (eShoff.val b s.byte 0)) headerLimit 0 ⟨0, none, []⟩
      b s = some ((sections b s.byte).foldl (afterSection b s.byte) ⟨0, none, []⟩, s) := by
    rw [Mapped.upTo_foldl (hr.get_header (f := eShnum) (by decide) (by decide))
      (fun i hi v => hr.checkSection_total hi v) shnum_lt, sections, sectionsUpTo,
      List.foldl_map]
  have hlast := foldl_afterSection_ret (b := b) (m := s.byte) (sections b s.byte) ⟨0, none, []⟩ rfl
  generalize (sections b s.byte).foldl (afterSection b s.byte) ⟨0, none, []⟩ = v at hverdict hlast
  generalize toeLong b s.byte = toeSize
  unfold checkToe
  by_cases hpos : toeSize > 0
  · rw [if_pos hpos, bind_of hverdict]
    refine ⟨_, rfl, ?_⟩
    by_cases hret : v.ret = 0
    · have hgood : ¬ LastBad b s.byte := fun h => hlast.mpr h hret
      by_cases h16 : toeSize = 16
      · rw [if_neg fun h => h.2 h16]
        exact iff_of_true hret (Or.inr ⟨h16, hgood⟩)
      · rw [if_pos ⟨hret, h16⟩]
        exact iff_of_false one_ne_zero (by omega)
    · have hbad : LastBad b s.byte := hlast.mp hret
      rw [if_neg fun h => hret h.1]
      apply iff_of_false hret
      rintro (h | ⟨-, h⟩)
      · omega
      · exact h hbad
  · rw [if_neg hpos]
    exact ⟨_, rfl, iff_of_true rfl (Or.inl (by omega))⟩

theorem Readable.toeLong_total : Mapped.upTo (eShnum.get 0) (addToe (eShoff.val b s.byte 0) (nameTable b s.byte))
    headerLimit 0 0 b s = some (toeLong b s.byte, s) := by
  have hsum := foldl_addToe (b := b) (m := s.byte) (sections b s.byte) 0
  rw [Int.zero_bmod, Int.zero_add, sections, sectionsUpTo, List.foldl_map] at hsum
  rw [Mapped.upTo_foldl (hr.get_header (f := eShnum) (by decide) (by decide))
    (fun i hi size => hr.addToe_total hi size) shnum_lt, hsum]
  rfl

/-- The verdict decides whether a shadow is allocated. -/
theorem Readable.toeEar_allocates (malloc : Bool) (handle : Handle) : ∃ v,
    baseSpeToeEar malloc handle b s = allocateShadow malloc handle (toeLong b s.byte) v b s ∧
      (v.ret = 0 ↔ toeLong b s.byte ≤ 0 ∨ toeLong b s.byte = 16 ∧ ¬ LastBad b s.byte) := by
  have hnames : shOffset.get (eShoff.val b s.byte 0 + shdrSize * eShstrndx.val b s.byte 0) b s =
      some (nameTable b s.byte, s) := hr.get_at hr.names_header (by decide) (by decide)
  obtain ⟨v, hcheck, hret⟩ := hr.checkToe_total
  refine ⟨v, ?_, hret⟩
  unfold baseSpeToeEar
  rw [bind_of (hr.get_header (by decide) (by decide)), bind_of (hr.get_header (by decide) (by decide)),
    bind_of hnames, bind_of hr.toeLong_total, bind_of hcheck]

/-- **What `_base_spe_toe_ear` does** with a readable image: it returns 0 if the `long` that the sizes add up
to is not positive, or is 16 and the last symbol table has no bad symbol. -/
theorem toeEar_run (hself : handle.elfImage = elfImage) : ∃ v h,
    baseSpeToeEar true handle b s = some ((v, h), s) ∧
      (v.ret = 0 ↔ toeLong b s.byte ≤ 0 ∨ toeLong b s.byte = 16 ∧ ¬ LastBad b s.byte) ∧
      (v.ret ≠ 0 → h = handle) ∧
      (v.ret = 0 → toeLong b s.byte ≠ 0 → h.toeShadow = imageShadow elfImage) := by
  have hshadow : newShadow b handle.elfImage = imageShadow elfImage := by
    rw [hself]
    exact newShadow_eq hr.space hr.address
  obtain ⟨v, hrun, hret⟩ := hr.toeEar_allocates true handle
  rw [hrun]
  unfold allocateShadow
  by_cases hzero : v.ret = 0
  · by_cases hlong : toeLong b s.byte = 0
    · rw [if_neg fun h => h.2 hlong]
      exact ⟨v, handle, rfl, hret, fun _ => rfl, fun _ h => absurd hlong h⟩
    · rw [if_pos ⟨hzero, hlong⟩]
      exact ⟨v, _, rfl, hret, fun h => absurd hzero h, fun _ _ => hshadow⟩
  · rw [if_neg fun h => hzero h.1]
    exact ⟨v, handle, rfl, hret, fun _ => rfl, fun h => absurd h hzero⟩

end

/-- Exactly the supported images are accepted, and only these get a shadow. -/
structure Exact (handle : Handle) (b : Bounds) (s : State) (v : Verdict) (h : Handle) : Prop where
  accepts : v.ret = 0 ↔ toeTotal b s.byte = 0 ∨
    toeTotal b s.byte = 16 ∧ ∀ sh ∈ symbolTables b s.byte, ¬ HasBad b s.byte sh
  refused : v.ret ≠ 0 → h.toeShadow = handle.toeShadow
  shadow : v.ret = 0 → toeTotal b s.byte = 16 → h.toeShadow = imageShadow handle.elfImage

/-- `_base_spe_toe_ear` accepts exactly the supported images. -/
def ToeEarExact (handle : Handle) (b : Bounds) (s : State) : Prop :=
  ∃ v h, baseSpeToeEar true handle b s = some ((v, h), s) ∧ Exact handle b s v h

theorem toeLong_of (hspace : b.space = 2 ^ 32 ∨ b.space = 2 ^ 64) (h : toeTotal b m ≤ 16) :
    toeLong b m = toeTotal b m := by
  unfold toeLong
  apply Int.bmod_eq_of_le_mul_two <;> omega

/-- **Exactly the supported images are accepted**, if and only if the sizes of the `.toe` sections, summed up in a
`long`, do not come to a negative number or to 16 by overflow, and a toe of 16 bytes comes with symbol
tables of which the last one has a bad symbol or none has. -/
theorem toe_ear_exact (hr : Readable handle.elfImage b s.byte) : ToeEarExact handle b s ↔
    (toeLong b s.byte ≤ 0 → toeTotal b s.byte = 0) ∧
      (toeLong b s.byte = 16 → LastBad b s.byte ∨
        toeTotal b s.byte = 16 ∧ ∀ sh ∈ symbolTables b s.byte, ¬ HasBad b s.byte sh) := by
  obtain ⟨v, h, hrun, hret, hrefused, hshadow⟩ := toeEar_run hr (show handle.elfImage = _ from rfl)
  have hsmall := toeLong_of (m := s.byte) hr.space
  have hlast : (∀ sh ∈ symbolTables b s.byte, ¬ HasBad b s.byte sh) → ¬ LastBad b s.byte := by
    rintro hnone ⟨sh, hsh, hbad⟩
    exact hnone sh (List.mem_of_getLast? hsh) hbad
  constructor
  · rintro ⟨v', h', hrun', hexact⟩
    rw [hrun', Option.some.injEq, Prod.mk.injEq, Prod.mk.injEq] at hrun
    obtain ⟨⟨rfl, rfl⟩, -⟩ := hrun
    constructor
    · intro hle
      rcases hexact.accepts.mp (hret.mpr (Or.inl hle)) with hzero | ⟨h16, -⟩
      · exact hzero
      · have := hsmall (by omega)
        omega
    · intro h16
      by_cases hbad : LastBad b s.byte
      · exact Or.inl hbad
      · rcases hexact.accepts.mp (hret.mpr (Or.inr ⟨h16, hbad⟩)) with hzero | hboth
        · have := hsmall (by omega)
          omega
        · exact Or.inr hboth
  · rintro ⟨hneg, h16⟩
    refine ⟨v, h, hrun, ?_, fun h => by rw [hrefused h], ?_⟩
    · rw [hret]
      constructor
      · rintro (hle | ⟨heq, hgood⟩)
        · exact Or.inl (hneg hle)
        · rcases h16 heq with hbad | hboth
          · exact absurd hbad hgood
          · exact Or.inr hboth
      · rintro (hzero | ⟨heq, hnone⟩)
        · exact Or.inl (by have := hsmall (by omega); omega)
        · exact Or.inr ⟨by have := hsmall (by omega); omega, hlast hnone⟩
    · intro hzero heq
      have := hsmall (by omega)
      exact hshadow hzero (by omega)

/-- An image with a toe of 16 bytes and two symbol tables: the first has a symbol `_EAR_x`, the second one
is named by `second`. -/
def earImage (second : List UInt8) : List UInt8 :=
  let word := Mapped.digits 4
  ehdrBytes 0 0 52 0 5 4 ++
    (shdrBytes 0 0 0 0 0 0 0 ++ shdrBytes 1 1 0 0 16 0 0 ++ shdrBytes 0 shtSymtab 0 252 16 4 0 ++
      shdrBytes 0 shtDynsym 0 268 16 4 0 ++ shdrBytes 0 3 0 284 20 0 0) ++
    (word 6 ++ List.replicate 12 0) ++ (word 13 ++ List.replicate 12 0) ++
    ((0 :: toeName) ++ (earPrefix ++ [0x78, 0]) ++ second)

/-- The image at 0x10000, with no shadow yet. -/
def earHandle : Handle := ⟨0x10000, []⟩

instance : Decidable (Readable elfImage b m) := decidable_of_iff
    ((b.space = 2 ^ 32 ∨ b.space = 2 ^ 64) ∧ b.size ≤ b.space ∧ elfImage < b.space ∧ ehdrSize ≤ b.size ∧
      eShoff.val b m 0 + shdrSize * eShnum.val b m 0 ≤ b.size ∧
      sectionAt b m (eShstrndx.val b m 0) + shdrSize ≤ b.size ∧
      (∀ sh ∈ sections b m, IsString b m (nameTable b m + shName.val b m sh)) ∧
      (∀ sh ∈ symbolTables b m, shOffset.val b m sh + symSize * symCount (shSize.val b m sh) ≤ b.size) ∧
      (∀ sh ∈ symbolTables b m, sectionAt b m (shLink.val b m sh) + shdrSize ≤ b.size) ∧
      ∀ sh ∈ symbolTables b m, ∀ sym ∈ symbols b m sh, stName.val b m sym ≠ 0 →
        IsString b m (symbolNames b m sh + stName.val b m sym))
    ⟨fun ⟨h₁, h₂, h₃, h₄, h₅, h₆, h₇, h₈, h₉, h₁₀⟩ => ⟨h₁, h₂, h₃, h₄, h₅, h₆, h₇, h₈, h₉, h₁₀⟩,
      fun h => ⟨h.space, h.size_le, h.address, h.header, h.section_table, h.names_header, h.names, h.symbol_table,
        h.symbol_names_header, h.symbol_names⟩⟩

instance : Decidable (LastBad b m) := decidable_of_iff
    (((symbolTables b m).getLast?.any fun sh => decide (HasBad b m sh)) = true) (by
      unfold LastBad
      cases (symbolTables b m).getLast? <;> simp)

/-- Two unsupported symbols: the image is refused. -/
theorem toe_ear_exact_both : ToeEarExact earHandle (bounds (earImage (earPrefix ++ [0x79, 0])))
    (mapped (earImage (earPrefix ++ [0x79, 0]))) :=
  (toe_ear_exact (by decide +kernel)).mpr ⟨by decide +kernel, by decide +kernel⟩

/-- A supported symbol in the second table: the image is accepted. -/
theorem toe_ear_accepts : ¬ ∀ (handle : Handle) (b : Bounds) (s : State), Readable handle.elfImage b s.byte →
    ToeEarExact handle b s := by
  intro h
  have hr : Readable earHandle.elfImage (bounds (earImage [0x66, 0])) (mapped (earImage [0x66, 0])).byte := by
    decide +kernel
  obtain ⟨v, h', hrun, hexact⟩ := h earHandle (bounds (earImage [0x66, 0])) (mapped (earImage [0x66, 0])) hr
  obtain ⟨w, h'', hrun', hret, -⟩ := toeEar_run hr (show earHandle.elfImage = _ from rfl)
  rw [hrun', Option.some.injEq, Prod.mk.injEq, Prod.mk.injEq] at hrun
  obtain ⟨⟨rfl, rfl⟩, -⟩ := hrun
  have hzero := hret.mpr (Or.inr ⟨by decide +kernel, by decide +kernel⟩)
  exact absurd (hexact.accepts.mp hzero) (by decide +kernel)

end LibSpe2.Elf
