import LibSpe2.Constants
import LibSpe2.Data.Mapped

/-!
# The ELF loader (`spebase/elf_loader.c`)

The loader works on a mapped SPE ELF image. Its functions follow the pointers that the headers in the
image make, and nothing but `check_spe_elf` looks at the values; a pointer into the image is the offset
from `elf_image`, modulo the size of the address space. Local store is the device that is written.

* `checkSpeElf`, `baseSpeVerifySpeElfImage`, `baseSpeParseIsolatedElf` — the checks of headers.
* `applyRelocations` — patches the image.
* `copyToLdBuffer`, `overlay`, `loadSegment` — one segment.
* `baseSpeLoadSpeElf` — the section walk and the segment loop.
-/

namespace LibSpe2.Elf

/-! ## `elf.h` -/

/-- A big-endian member of a structure: how many bytes it has and where they are. -/
structure Field where
  width : ℕ
  disp : ℕ

/-- The member of the structure at `p`. -/
def Field.get (f : Field) (p : ℕ) : Mapped ℕ := Mapped.read f.width (p + f.disp)

/-- Its value in an image. -/
def Field.val (f : Field) (b : Mapped.Bounds) (m : ℕ → UInt8) (p : ℕ) : ℕ :=
  Mapped.be m f.width ((p + f.disp) % b.space)

/-- `Elf32_Ehdr`. -/
def eType : Field := ⟨2, 16⟩
def eMachine : Field := ⟨2, 18⟩
def eEntry : Field := ⟨4, 24⟩
def ePhoff : Field := ⟨4, 28⟩
def eShoff : Field := ⟨4, 32⟩
def ePhentsize : Field := ⟨2, 42⟩
def ePhnum : Field := ⟨2, 44⟩
def eShnum : Field := ⟨2, 48⟩
def eShstrndx : Field := ⟨2, 50⟩

/-- `Elf32_Phdr`. -/
def pType : Field := ⟨4, 0⟩
def pOffset : Field := ⟨4, 4⟩
def pVaddr : Field := ⟨4, 8⟩
def pFilesz : Field := ⟨4, 16⟩
def pMemsz : Field := ⟨4, 20⟩

/-- `Elf32_Shdr`. -/
def shName : Field := ⟨4, 0⟩
def shType : Field := ⟨4, 4⟩
def shAddr : Field := ⟨4, 12⟩
def shOffset : Field := ⟨4, 16⟩
def shSize : Field := ⟨4, 20⟩
def shLink : Field := ⟨4, 24⟩
def shInfo : Field := ⟨4, 28⟩

/-- `Elf32_Rela`. -/
def rOffset : Field := ⟨4, 0⟩
def rInfo : Field := ⟨4, 4⟩
def rAddend : Field := ⟨4, 8⟩

/-- `sizeof` of the structures. -/
def ehdrSize : ℕ := 52
def phdrSize : ℕ := 32
def shdrSize : ℕ := 40
def relaSize : ℕ := 12

def eiPad : ℕ := 9
def etExec : ℕ := 2
def ptLoad : ℕ := 1
def shtRela : ℕ := 4
def rSpuPpu32 : ℕ := 15
def rSpuPpu64 : ℕ := 16

/-- An `Elf32_Sword`. -/
def sword (x : ℕ) : ℤ := if x < 2 ^ 31 then x else (x : ℤ) - 2 ^ 32

/-! ## The loader's own data -/

/-- `EINVAL`. -/
def einval : ℤ := 22

/-- `spe_program_handle_t`: the address of the image and the bytes at `toe_shadow`, none if it is
`NULL`. -/
structure Handle where
  elfImage : ℕ
  toeShadow : List UInt8

/-- `spe_ld_info`. -/
structure SpeLdInfo where
  entry : ℕ
  deriving DecidableEq

/-- `toe_addr` and `toe_size`. -/
structure Toe where
  addr : ℕ
  size : ℕ
  deriving DecidableEq

/-- `".toe"`, with the byte that ends it. -/
def toeName : List UInt8 := [0x2e, 0x74, 0x6f, 0x65, 0]

/-- `strcmp` and `strncmp` with a literal: the string is read up to the first byte that differs. -/
def strEq : List UInt8 → ℕ → Mapped Bool
  | [], _ => pure true
  | c :: cs, off => do
    let d ← Mapped.read 1 off
    if d = c.toNat then strEq cs (off + 1) else pure false

/-! ## Checks of headers -/

/-- `expected`. -/
def expected : List UInt8 := [0x7f, 0x45, 0x4c, 0x46, 1, 2, 1, 0, 0]

/-- `check_spe_elf`. -/
def checkSpeElf : Mapped ℤ := do
  let ident ← Mapped.bytes eiPad 0
  if ident ≠ expected then pure (-einval) else do
    let machine ← eMachine.get 0
    if machine ≠ 0x17 then pure (-einval) else do
      let type ← eType.get 0
      if type ≠ etExec then pure (-einval) else pure 0

/-- `_base_spe_verify_spe_elf_image`. -/
def baseSpeVerifySpeElfImage : Mapped ℤ := checkSpeElf

/-- `_base_spe_parse_isolated_elf`: the result, and what it stores to `addr` and `size`. -/
def baseSpeParseIsolatedElf (handle : Handle) : Mapped (ℤ × Option (ℕ × ℕ)) := do
  if handle.elfImage = 0 then pure (-einval, none) else do
    let phentsize ← ePhentsize.get 0
    if phentsize ≠ phdrSize then pure (-einval, none) else do
      let phnum ← ePhnum.get 0
      if phnum ≠ 1 then pure (-einval, none) else do
        let phdr ← ePhoff.get 0
        let type ← pType.get phdr
        if type ≠ ptLoad then pure (-einval, none) else do
          let memsz ← pMemsz.get phdr
          if memsz = 0 then pure (-einval, none) else do
            let offset ← pOffset.get phdr
            let addr ← Mapped.wrap (handle.elfImage + offset)
            pure (0, some (addr, memsz))

/-! ## Relocations -/

/-- `*loc = v`, unless it is there already. -/
def poke (width loc v : ℕ) : Mapped Unit := do
  let old ← Mapped.read width loc
  Mapped.whenever (old ≠ v) (Mapped.write width loc v)

/-- One round of the loop in `apply_relocations`. -/
def relocate (handle : Handle) (relocBase : ℤ) (r : ℕ) : Mapped Unit := do
  let info ← rInfo.get r
  if info = rSpuPpu32 then do
    let loc ← Mapped.wrap (relocBase + (← rOffset.get r))
    let v ← Mapped.wrap (handle.elfImage + sword (← rAddend.get r))
    poke 4 loc (v % 2 ^ 32)
  else if info = rSpuPpu64 then do
    let loc ← Mapped.wrap (relocBase + (← rOffset.get r))
    let v ← Mapped.wrap (handle.elfImage + sword (← rAddend.get r))
    poke 8 loc v
  else pure ()

/-- The number of rounds: one for each `r` in steps of an entry below `r_end`. -/
def relaCount (size : ℕ) : ℕ := (size + (relaSize - 1)) / relaSize

/-- `apply_relocations`. -/
def applyRelocations (handle : Handle) (rh sh : ℕ) : Mapped Unit := do
  let offset ← shOffset.get sh
  let addr ← shAddr.get sh
  let r ← shOffset.get rh
  let size ← shSize.get rh
  Mapped.upTo (pure (relaCount size))
    (fun j _ => relocate handle ((offset : ℤ) - addr) (r + relaSize * j)) (relaCount size + 1) 0 ()

/-! ## Segments -/

/-- `overlay`. -/
def overlay (ph : ℕ) : (prevPh : Option ℕ) → Mapped Bool
  | none => pure false
  | some prevPh => do
    let vaddr ← pVaddr.get ph
    let prevVaddr ← pVaddr.get prevPh
    if vaddr ≥ prevVaddr then do
      let prevMemsz ← pMemsz.get prevPh
      pure (decide (vaddr < (prevVaddr + prevMemsz) % 2 ^ 32))
    else pure false

/-- `memcpy` of `n` bytes of the image. -/
def copyImage (dst n off : ℕ) : Mapped Unit := do
  let bs ← Mapped.bytes n off
  Mapped.emit dst bs

/-- `memcpy` of `n` bytes of the shadow. -/
def copyShadow (handle : Handle) (dst n : ℕ) : Mapped Unit :=
  if n ≤ handle.toeShadow.length then Mapped.emit dst (handle.toeShadow.take n) else Mapped.outside

/-- `copy_to_ld_buffer`. -/
def copyToLdBuffer (handle : Handle) (ph : ℕ) (toe : Toe) : Mapped Unit := do
  let vaddr ← pVaddr.get ph
  let filesz ← pFilesz.get ph
  let offset ← pOffset.get ph
  if vaddr = toe.addr then do
    Mapped.whenever (toe.size ≠ filesz ∧ filesz ≠ 0) (copyImage vaddr filesz offset)
    copyShadow handle vaddr toe.size
  else Mapped.whenever (filesz ≠ 0) (copyImage vaddr filesz offset)

/-- The padding of a segment with zeros. -/
def padSegment (ph : ℕ) : Mapped Unit := do
  let filesz ← pFilesz.get ph
  let memsz ← pMemsz.get ph
  let vaddr ← pVaddr.get ph
  Mapped.whenever (filesz < memsz)
    (Mapped.emit (vaddr + filesz) (List.replicate (memsz - filesz) 0))

/-! ## `_base_spe_load_spe_elf` -/

/-- `apply_relocations` to the section that the relocation section `sh` names. -/
def relocateSection (handle : Handle) (shdr sh : ℕ) : Mapped Unit := do
  let info ← shInfo.get sh
  applyRelocations handle sh (shdr + shdrSize * info)

/-- The section `sh` in the section walk. -/
def visitSection (handle : Handle) (shdr strTable i : ℕ) (toe : Toe) : Mapped Toe := do
  let sh := shdr + shdrSize * i
  let type ← shType.get sh
  Mapped.whenever (type = shtRela) (relocateSection handle shdr sh)
  let name ← shName.get sh
  let isToe ← strEq toeName (strTable + name)
  if isToe then do
    let size ← shSize.get sh
    let total ← Mapped.wrap (toe.size + size)
    let addr ← shAddr.get sh
    pure ⟨if toe.addr = 0 ∨ toe.addr > addr then addr else toe.addr, total⟩
  else pure toe

/-- The segment `ph` in the segment loop, whose state is `prev_ph` and `num_load_seg`. -/
def loadSegment (handle : Handle) (phdr : ℕ) (toe : Toe) (i : ℕ) (st : Option ℕ × ℕ) :
    Mapped (Option ℕ × ℕ) := do
  let ph := phdr + phdrSize * i
  let type ← pType.get ph
  if type = ptLoad then do
    let isOverlay ← overlay ph st.1
    if isOverlay then pure st else do
      padSegment ph
      copyToLdBuffer handle ph toe
      pure (st.1, st.2 + 1)
  else pure st

/-- The numbers of headers have 16 bits. -/
def headerLimit : ℕ := 2 ^ 16

/-- The section walk: the image is relocated and the toe is found. -/
def sectionWalk (handle : Handle) : Mapped Toe := do
  let shdr ← eShoff.get 0
  let shstrndx ← eShstrndx.get 0
  let strTable ← shOffset.get (shdr + shdrSize * shstrndx)
  Mapped.upTo (eShnum.get 0) (visitSection handle shdr strTable) headerLimit 0 ⟨0, 0⟩

/-- The segment loop: the number of segments that were loaded. -/
def segmentLoop (handle : Handle) (phdr : ℕ) (toe : Toe) : Mapped ℕ := do
  let st ← Mapped.upTo (ePhnum.get 0) (loadSegment handle phdr toe) headerLimit 0 (none, 0)
  pure st.2

/-- `_base_spe_load_spe_elf`. -/
def baseSpeLoadSpeElf (handle : Handle) (ldInfo : SpeLdInfo) : Mapped (ℤ × SpeLdInfo) := do
  let ret ← checkSpeElf
  if ret ≠ 0 then pure (ret, ldInfo) else do
    let phdr ← ePhoff.get 0
    let toe ← sectionWalk handle
    let numLoadSeg ← segmentLoop handle phdr toe
    if numLoadSeg = 0 then pure (-einval, ldInfo) else do
      let entry ← eEntry.get 0
      pure (0, ⟨entry⟩)

/-! ## Writing images

Headers as bytes; what the loader does not read is zero. -/

def ehdrBytes (entry phoff shoff phnum shnum shstrndx : ℕ) : List UInt8 :=
  let word := Mapped.digits 4
  let half := Mapped.digits 2
  expected ++ List.replicate 7 0 ++ half etExec ++ half 0x17 ++ word 1 ++ word entry ++ word phoff ++
    word shoff ++ word 0 ++ half ehdrSize ++ half phdrSize ++ half phnum ++ half shdrSize ++ half shnum ++
    half shstrndx

def phdrBytes (type offset vaddr filesz memsz : ℕ) : List UInt8 :=
  let word := Mapped.digits 4
  word type ++ word offset ++ word vaddr ++ word 0 ++ word filesz ++ word memsz ++ word 0 ++ word 0

def shdrBytes (name type addr offset size link info : ℕ) : List UInt8 :=
  let word := Mapped.digits 4
  word name ++ word type ++ word 0 ++ word addr ++ word offset ++ word size ++ word link ++ word info ++
    word 0 ++ word 0

/-- An image that has just been mapped, and local store before anything is written. -/
def mapped (image : List UInt8) : Mapped.State := ⟨fun off => image.getD off 0, []⟩

/-- The bounds on a 64-bit host. -/
def bounds (image : List UInt8) : Mapped.Bounds := ⟨image.length, 2 ^ 64, lsSize⟩

end LibSpe2.Elf
