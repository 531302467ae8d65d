import LibSpe2.SpeBase.ElfSegments

/-!
# Well-formed images and their relocation

What the loader trusts an image to be, and what its section walk does to such an image. The walk
patches the image that it reads; it goes by the headers and tables that were mapped as long as no
relocation target lies in them.

* `Reloc`, `relocs` — the patches, in the order of the walk, and `relocated`, the patched image.
* `WellFormed` — headers, tables, names, segments and targets are inside the image, segments inside
  local store and apart from each other, targets apart from what the walk reads.

Main results:
* `sectionWalk_total` — on a well-formed image the walk finds the toe and leaves the relocated image.
-/

namespace LibSpe2.Elf

open Mapped (Bounds State bytesAt digits put bind_of)

variable {b : Bounds} {s t u : State} {m : ℕ → UInt8} {handle : Handle} {toe : Toe} {f : Field}
  {p o n : ℕ}

/-! ## Relocations -/

/-- `width` bytes at the offset `loc` are to hold `value`. -/
structure Reloc where
  loc : ℕ
  width : ℕ
  value : ℕ

/-- The image with one relocation applied. -/
def patch (m : ℕ → UInt8) (r : Reloc) : ℕ → UInt8 := put m r.loc (digits r.width r.value)

/-- What the entry `r` of a relocation table asks for, if it is one of the two kinds without a symbol
that are handled. -/
def relocAt (elfImage : ℕ) (b : Bounds) (m : ℕ → UInt8) (relocBase : ℤ) (r : ℕ) : List Reloc :=
  let loc := ((relocBase + rOffset.val b m r) % b.space).toNat
  let v := ((elfImage + sword (rAddend.val b m r)) % b.space).toNat
  if rInfo.val b m r = rSpuPpu32 then [⟨loc, 4, v % 2 ^ 32⟩]
  else if rInfo.val b m r = rSpuPpu64 then [⟨loc, 8, v⟩]
  else []

/-- The relocations of the first `n` entries of the table of the section `rh`, for the section `sh`. -/
def relocsUpTo (elfImage : ℕ) (b : Bounds) (m : ℕ → UInt8) (rh sh n : ℕ) : List Reloc :=
  (List.range n).flatMap fun j => relocAt elfImage b m
    ((shOffset.val b m sh : ℤ) - shAddr.val b m sh) (shOffset.val b m rh + relaSize * j)

/-- The section header with index `i`. -/
def sectionAt (b : Bounds) (m : ℕ → UInt8) (i : ℕ) : ℕ := eShoff.val b m 0 + shdrSize * i

/-- The relocations that the section `sh` holds. -/
def relocsOf (elfImage : ℕ) (b : Bounds) (m : ℕ → UInt8) (sh : ℕ) : List Reloc :=
  if shType.val b m sh = shtRela then
    relocsUpTo elfImage b m sh (sectionAt b m (shInfo.val b m sh)) (relaCount (shSize.val b m sh))
  else []

/-- The first `n` section headers. -/
def sectionsUpTo (b : Bounds) (m : ℕ → UInt8) (n : ℕ) : List ℕ := (List.range n).map (sectionAt b m)

/-- The section headers. -/
def sections (b : Bounds) (m : ℕ → UInt8) : List ℕ := sectionsUpTo b m (eShnum.val b m 0)

/-- All relocations. -/
def relocs (elfImage : ℕ) (b : Bounds) (m : ℕ → UInt8) : List Reloc :=
  (sections b m).flatMap (relocsOf elfImage b m)

/-- The relocated image. -/
def relocated (elfImage : ℕ) (b : Bounds) (m : ℕ → UInt8) : ℕ → UInt8 :=
  (relocs elfImage b m).foldl patch m

/-! ## The toe -/

/-- Where the section-name table starts. -/
def nameTable (b : Bounds) (m : ℕ → UInt8) : ℕ := shOffset.val b m (sectionAt b m (eShstrndx.val b m 0))

def nameTableSize (b : Bounds) (m : ℕ → UInt8) : ℕ :=
  shSize.val b m (sectionAt b m (eShstrndx.val b m 0))

/-- The section is named `.toe`. -/
def IsToe (b : Bounds) (m : ℕ → UInt8) (sh : ℕ) : Prop :=
  bytesAt m toeName.length (nameTable b m + shName.val b m sh) = toeName

instance : DecidablePred (IsToe b m) := fun _ => inferInstanceAs (Decidable (_ = _))

/-- `toe_addr` after a section at `addr`. -/
def toeAddr (old addr : ℕ) : ℕ := if old = 0 ∨ old > addr then addr else old

/-- `toe_addr` and `toe_size` after the section `sh`. -/
def toeAfter (b : Bounds) (m : ℕ → UInt8) (toe : Toe) (sh : ℕ) : Toe :=
  if IsToe b m sh then
    ⟨toeAddr toe.addr (shAddr.val b m sh), ((toe.size + shSize.val b m sh : ℤ) % b.space).toNat⟩
  else toe

/-- The toe of an image. -/
def toeOf (b : Bounds) (m : ℕ → UInt8) : Toe := (sections b m).foldl (toeAfter b m) ⟨0, 0⟩

/-! ## Well-formed images -/

/-- The `PT_LOAD` headers. -/
def segments (b : Bounds) (m : ℕ → UInt8) : List ℕ :=
  loadHeaders b m (ePhoff.val b m 0) (ePhnum.val b m 0)

/-- Two ranges, each an offset and a length, are apart. -/
def Apart (r q : ℕ × ℕ) : Prop := r.1 + r.2 ≤ q.1 ∨ q.1 + q.2 ≤ r.1

instance (r q : ℕ × ℕ) : Decidable (Apart r q) := inferInstanceAs (Decidable (_ ∨ _))

def Reloc.range (r : Reloc) : ℕ × ℕ := (r.loc, r.width)

/-- The local store of a segment. -/
def segmentRange (b : Bounds) (m : ℕ → UInt8) (ph : ℕ) : ℕ × ℕ := (pVaddr.val b m ph, pMemsz.val b m ph)

/-- The headers and tables that the loader goes by: the ELF header, the program and section headers,
the section names and the relocation tables. -/
def tables (b : Bounds) (m : ℕ → UInt8) : List (ℕ × ℕ) :=
  (0, ehdrSize) :: (ePhoff.val b m 0, phdrSize * ePhnum.val b m 0) ::
    (eShoff.val b m 0, shdrSize * eShnum.val b m 0) :: (nameTable b m, nameTableSize b m) ::
    ((sections b m).filter fun sh => shType.val b m sh = shtRela).map
      fun sh => (shOffset.val b m sh, relaSize * relaCount (shSize.val b m sh))

/-- A well-formed SPE ELF image, mapped at `elfImage`. -/
structure WellFormed (elfImage : ℕ) (b : Bounds) (m : ℕ → UInt8) : Prop where
  /-- Pointers have 32 or 64 bits, and the image and local store are in the address space. -/
  space : b.space = 2 ^ 32 ∨ b.space = 2 ^ 64
  size_le : b.size ≤ b.space
  room : b.room = lsSize
  /-- `check_spe_elf` accepts the image. -/
  ident : bytesAt m eiPad 0 = expected
  machine : eMachine.val b m 0 = 0x17
  exec : eType.val b m 0 = etExec
  /-- Headers, tables and names are inside the image. -/
  inside : ∀ r ∈ tables b m, r.1 + r.2 ≤ b.size
  names_header : sectionAt b m (eShstrndx.val b m 0) + shdrSize ≤ b.size
  names : ∀ sh ∈ sections b m, ∃ k < nameTableSize b m,
    shName.val b m sh ≤ k ∧ m (nameTable b m + k) = 0
  relocated_section : ∀ sh ∈ sections b m, shType.val b m sh = shtRela →
    shInfo.val b m sh < eShnum.val b m 0
  /-- Relocation targets are inside the image and apart from each other and from the tables. -/
  targets : ∀ r ∈ relocs elfImage b m, r.loc + r.width ≤ b.size
  targets_apart : (relocs elfImage b m).Pairwise fun r q => Apart r.range q.range
  tables_apart : ∀ r ∈ relocs elfImage b m, ∀ q ∈ tables b m, Apart r.range q
  /-- Segments are inside the image and local store and apart from each other, and there is one. -/
  contents : ∀ ph ∈ segments b m, pOffset.val b m ph + pFilesz.val b m ph ≤ b.size
  filesz_le : ∀ ph ∈ segments b m, pFilesz.val b m ph ≤ pMemsz.val b m ph
  in_ls : ∀ ph ∈ segments b m, pVaddr.val b m ph + pMemsz.val b m ph ≤ lsSize
  segments_apart : (segments b m).Pairwise fun p q => Apart (segmentRange b m p) (segmentRange b m q)
  segments_ne : segments b m ≠ []

instance {elfImage : ℕ} : Decidable (WellFormed elfImage b m) := decidable_of_iff
    ((b.space = 2 ^ 32 ∨ b.space = 2 ^ 64) ∧ b.size ≤ b.space ∧ b.room = lsSize ∧
      (bytesAt m eiPad 0 = expected ∧ eMachine.val b m 0 = 0x17 ∧ eType.val b m 0 = etExec) ∧
      ((∀ r ∈ tables b m, r.1 + r.2 ≤ b.size) ∧ sectionAt b m (eShstrndx.val b m 0) + shdrSize ≤ b.size ∧
        (∀ sh ∈ sections b m, ∃ k < nameTableSize b m,
          shName.val b m sh ≤ k ∧ m (nameTable b m + k) = 0) ∧
        ∀ sh ∈ sections b m, shType.val b m sh = shtRela → shInfo.val b m sh < eShnum.val b m 0) ∧
      ((∀ r ∈ relocs elfImage b m, r.loc + r.width ≤ b.size) ∧
        (relocs elfImage b m).Pairwise (fun r q => Apart r.range q.range) ∧
        ∀ r ∈ relocs elfImage b m, ∀ q ∈ tables b m, Apart r.range q) ∧
      (∀ ph ∈ segments b m, pOffset.val b m ph + pFilesz.val b m ph ≤ b.size) ∧
      (∀ ph ∈ segments b m, pFilesz.val b m ph ≤ pMemsz.val b m ph) ∧
      (∀ ph ∈ segments b m, pVaddr.val b m ph + pMemsz.val b m ph ≤ lsSize) ∧
      (segments b m).Pairwise (fun p q => Apart (segmentRange b m p) (segmentRange b m q)) ∧
      segments b m ≠ [])
    ⟨fun ⟨h₁, h₂, h₃, ⟨h₄, h₅, h₆⟩, ⟨h₇, h₈, h₉, h₁₀⟩, ⟨h₁₁, h₁₂, h₁₃⟩, h₁₄, h₁₅, h₁₆, h₁₇, h₁₈⟩ =>
        ⟨h₁, h₂, h₃, h₄, h₅, h₆, h₇, h₈, h₉, h₁₀, h₁₁, h₁₂, h₁₃, h₁₄, h₁₅, h₁₆, h₁₇, h₁₈⟩,
      fun h => ⟨h.space, h.size_le, h.room, ⟨h.ident, h.machine, h.exec⟩,
        ⟨h.inside, h.names_header, h.names, h.relocated_section⟩,
        ⟨h.targets, h.targets_apart, h.tables_apart⟩, h.contents, h.filesz_le, h.in_ls, h.segments_apart,
        h.segments_ne⟩⟩

/-- What the section walk trusts an image to be. -/
structure Walkable (elfImage : ℕ) (b : Bounds) (m : ℕ → UInt8) : Prop where
  size_le : b.size ≤ b.space
  inside : ∀ r ∈ tables b m, r.1 + r.2 ≤ b.size
  names_header : sectionAt b m (eShstrndx.val b m 0) + shdrSize ≤ b.size
  names : ∀ sh ∈ sections b m, ∃ k < nameTableSize b m,
    shName.val b m sh ≤ k ∧ m (nameTable b m + k) = 0
  relocated_section : ∀ sh ∈ sections b m, shType.val b m sh = shtRela →
    shInfo.val b m sh < eShnum.val b m 0
  targets : ∀ r ∈ relocs elfImage b m, r.loc + r.width ≤ b.size
  tables_apart : ∀ r ∈ relocs elfImage b m, ∀ q ∈ tables b m, Apart r.range q

theorem WellFormed.walkable {elfImage : ℕ} (h : WellFormed elfImage b m) : Walkable elfImage b m :=
  ⟨h.size_le, h.inside, h.names_header, h.names, h.relocated_section, h.targets, h.tables_apart⟩

/-! ## Tables that no relocation touches -/

/-- The images hold the same bytes in the ranges. -/
def Agrees (ranges : List (ℕ × ℕ)) (m u : ℕ → UInt8) : Prop := ∀ r ∈ ranges, ∀ k < r.2, u (r.1 + k) = m (r.1 + k)

variable {ranges : List (ℕ × ℕ)} {v : ℕ → UInt8} {rs : List Reloc}

theorem patch_agrees {r : Reloc} (h : Agrees ranges m v) (hr : ∀ q ∈ ranges, Apart r.range q) :
    Agrees ranges m (patch v r) := by
  intro q hq k hk
  have hapart : r.loc + r.width ≤ q.1 ∨ q.1 + q.2 ≤ r.loc := hr q hq
  rw [← h q hq k hk, patch]
  apply Mapped.put_outside
  rw [Mapped.length_digits]
  omega

theorem foldl_patch_agrees (h : Agrees ranges m v) (hrs : ∀ r ∈ rs, ∀ q ∈ ranges, Apart r.range q) :
    Agrees ranges m (rs.foldl patch v) := by
  induction rs generalizing v with
  | nil => exact h
  | cons r rs ih =>
    rw [List.foldl_cons]
    apply ih (patch_agrees h (hrs r (List.mem_cons_self ..)))
    exact fun q hq => hrs q (List.mem_cons_of_mem r hq)

/-- A member of a structure in one of the ranges. -/
theorem Field.val_of (hspace : b.size ≤ b.space) (h : Agrees ranges m v) (hmem : (o, n) ∈ ranges)
    (hin : o + n ≤ b.size) (hlo : o ≤ p) (hhi : p + f.disp + f.width ≤ o + n) (hwidth : 0 < f.width) :
    f.val b v p = f.val b m p := by
  apply Mapped.be_congr
  intro k hk
  have hmod : (p + f.disp) % b.space = p + f.disp := Nat.mod_eq_of_lt (by omega)
  have hk' := h (o, n) hmem (p + f.disp - o + k) (show p + f.disp - o + k < n by omega)
  have hoff : o + (p + f.disp - o + k) = p + f.disp + k := by omega
  rw [hmod, ← hoff]
  exact hk'

theorem Field.get_of (hspace : b.size ≤ b.space) (h : Agrees ranges m s.byte) (hmem : (o, n) ∈ ranges)
    (hin : o + n ≤ b.size) (hlo : o ≤ p) (hhi : p + f.disp + f.width ≤ o + n) (hwidth : 0 < f.width) :
    f.get p b s = some (f.val b m p, s) := by
  rw [Field.get_some]
  have hmod : (p + f.disp) % b.space = p + f.disp := Nat.mod_eq_of_lt (by omega)
  rw [Field.val_of hspace h hmem hin hlo hhi hwidth, hmod]
  exact ⟨by omega, rfl⟩

/-- A member of a structure that is inside the image. -/
theorem Field.get_inside (hspace : b.size ≤ b.space) (hin : p + n ≤ b.size) (hf : f.disp + f.width ≤ n)
    (hwidth : 0 < f.width) : f.get p b s = some (f.val b s.byte p, s) :=
  Field.get_of hspace (fun _ _ _ _ => rfl) (List.mem_singleton_self (p, n)) hin le_rfl (by omega) hwidth

/-! ## The section walk -/

theorem poke_total {width loc v : ℕ} (hspace : b.size ≤ b.space) (hwidth : 0 < width)
    (hin : loc + width ≤ b.size) :
    poke width loc v b s = some ((), { s with byte := put s.byte loc (digits width v) }) := by
  unfold poke
  rw [bind_of (Mapped.read_of hspace hwidth hin)]
  by_cases hold : Mapped.be s.byte width loc = v
  · -- the bytes are there already
    rw [Mapped.whenever_neg (not_not_intro hold), ← hold, Mapped.digits_be, Mapped.put_bytesAt]
    rfl
  · rw [Mapped.whenever_pos hold]
    exact Mapped.write_of hspace hwidth hin

theorem relocate_total (handle : Handle) {relocBase : ℤ} {r : ℕ} (hspace : b.size ≤ b.space)
    (h : Agrees ranges m s.byte) (hmem : (o, n) ∈ ranges) (hin : o + n ≤ b.size) (hlo : o ≤ r)
    (hhi : r + relaSize ≤ o + n)
    (htargets : ∀ q ∈ relocAt handle.elfImage b m relocBase r, q.loc + q.width ≤ b.size) :
    relocate handle relocBase r b s =
      some ((), { s with byte := (relocAt handle.elfImage b m relocBase r).foldl patch s.byte }) := by
  have hget : ∀ f : Field, f.disp + f.width ≤ relaSize → 0 < f.width → f.get r b s = some (f.val b m r, s) :=
    fun f hf hwidth => Field.get_of hspace h hmem hin hlo (by omega) hwidth
  unfold relocate
  rw [bind_of (hget rInfo (by decide) (by decide))]
  unfold relocAt at htargets ⊢
  by_cases h32 : rInfo.val b m r = rSpuPpu32
  · rw [if_pos h32] at htargets ⊢
    rw [if_pos h32, bind_of (hget rOffset (by decide) (by decide)), bind_of (Mapped.wrap_some.mpr rfl),
      bind_of (hget rAddend (by decide) (by decide)), bind_of (Mapped.wrap_some.mpr rfl)]
    exact poke_total hspace (by decide) (htargets _ (List.mem_singleton_self _))
  · rw [if_neg h32] at htargets ⊢
    rw [if_neg h32]
    by_cases h64 : rInfo.val b m r = rSpuPpu64
    · rw [if_pos h64] at htargets ⊢
      rw [if_pos h64, bind_of (hget rOffset (by decide) (by decide)), bind_of (Mapped.wrap_some.mpr rfl),
        bind_of (hget rAddend (by decide) (by decide)), bind_of (Mapped.wrap_some.mpr rfl)]
      exact poke_total hspace (by decide) (htargets _ (List.mem_singleton_self _))
    · rw [if_neg h64, if_neg h64]
      rfl

/-- A string is compared with a literal if every byte that is reached is inside the image. -/
theorem strEq_total (hspace : b.size ≤ b.space) (cs : List UInt8) (off : ℕ)
    (hstop : ∀ i < cs.length, bytesAt s.byte i off = cs.take i → off + i < b.size) :
    strEq cs off b s = some (decide (bytesAt s.byte cs.length off = cs), s) := by
  induction cs generalizing off with
  | nil => rfl
  | cons c cs ih =>
    have hfirst : off + 1 ≤ b.size := hstop 0 (Nat.succ_pos _) rfl
    have hbyte : Mapped.be s.byte 1 off = (s.byte off).toNat := by simp [Mapped.be, bytesAt, Mapped.number]
    unfold strEq
    rw [bind_of (Mapped.read_of hspace Nat.one_pos hfirst), hbyte, List.length_cons, Mapped.bytesAt_succ]
    by_cases h : s.byte off = c
    · rw [if_pos (congrArg UInt8.toNat h), ih (off + 1)]
      · simp only [List.cons.injEq, h, true_and]
      · intro i hi heq
        have := hstop (i + 1) (Nat.succ_lt_succ hi) (by rw [Mapped.bytesAt_succ, List.take_succ_cons, h, heq])
        omega
    · have hne : ¬ (s.byte off).toNat = c.toNat := fun heq => h (UInt8.toNat_inj.mp heq)
      have hlist : ¬ s.byte off :: bytesAt s.byte cs.length (off + 1) = c :: cs := fun heq => h (List.cons.inj heq).1
      rw [if_neg hne, decide_eq_false hlist]
      rfl

/-- The comparison with a literal ends at the byte that ends the string. -/
theorem string_stop {cs : List UInt8} {k off i : ℕ} (hz : 0 ∉ cs.dropLast) (hi : i < cs.length) (hk : off ≤ k)
    (hnul : v k = 0) (heq : bytesAt v i off = cs.take i) : off + i ≤ k := by
  by_contra hlt
  have hget := congrArg (fun l => l[k - off]?) heq
  have hpos : off + (k - off) = k := by omega
  simp only [Mapped.getElem?_bytesAt (show k - off < i by omega), hpos, hnul] at hget
  rw [List.getElem?_take_of_lt (by omega)] at hget
  apply hz
  rw [List.dropLast_eq_take]
  apply List.mem_of_getElem? (i := k - off)
  rw [List.getElem?_take_of_lt (by omega), ← hget]

/-- The comparison with `".toe"` ends at the byte that ends the name. -/
theorem toeName_stop {k off i : ℕ} (hi : i < toeName.length) (hk : off ≤ k) (hnul : v k = 0)
    (heq : bytesAt v i off = toeName.take i) : off + i ≤ k :=
  string_stop (by decide) hi hk hnul heq

/-- Whether a name is `".toe"` shows in its bytes up to the one that ends it. -/
theorem toeName_of_agree {k off : ℕ} (hk : off ≤ k) (hnul : m k = 0) (h : ∀ j, off ≤ j → j ≤ k → v j = m j)
    (heq : bytesAt m toeName.length off = toeName) : bytesAt v toeName.length off = toeName := by
  have hlen : toeName.length = 5 := rfl
  have htake : bytesAt m 4 off = toeName.take 4 := by
    rw [← heq, bytesAt, bytesAt, ← List.map_take, List.take_range]
    rfl
  have hle : off + 4 ≤ k := toeName_stop (by decide) hk hnul htake
  refine (Mapped.bytesAt_congr ?_).trans heq
  intro i hi
  exact h (off + i) (Nat.le_add_right off i) (by omega)

/-- Relocations leave the tables as they were mapped. -/
theorem Walkable.agrees {elfImage : ℕ} (hwf : Walkable elfImage b m)
    (hrs : ∀ r ∈ rs, r ∈ relocs elfImage b m) : Agrees (tables b m) m (rs.foldl patch m) :=
  foldl_patch_agrees (fun _ _ _ _ => rfl) fun r hr => hwf.tables_apart r (hrs r hr)

theorem ehdr_mem : (0, ehdrSize) ∈ tables b m := List.mem_cons_self ..

theorem phdrs_mem : (ePhoff.val b m 0, phdrSize * ePhnum.val b m 0) ∈ tables b m :=
  List.mem_cons_of_mem _ (List.mem_cons_self ..)

theorem shdrs_mem : (eShoff.val b m 0, shdrSize * eShnum.val b m 0) ∈ tables b m :=
  List.mem_cons_of_mem _ (List.mem_cons_of_mem _ (List.mem_cons_self ..))

theorem names_mem : (nameTable b m, nameTableSize b m) ∈ tables b m :=
  List.mem_cons_of_mem _ (List.mem_cons_of_mem _ (List.mem_cons_of_mem _ (List.mem_cons_self ..)))

theorem relas_mem {sh : ℕ} (hsh : sh ∈ sections b m) (htype : shType.val b m sh = shtRela) :
    (shOffset.val b m sh, relaSize * relaCount (shSize.val b m sh)) ∈ tables b m := by
  unfold tables
  apply List.mem_cons_of_mem
  apply List.mem_cons_of_mem
  apply List.mem_cons_of_mem
  apply List.mem_cons_of_mem
  exact List.mem_map.mpr ⟨sh, List.mem_filter.mpr ⟨hsh, decide_eq_true htype⟩, rfl⟩

theorem sectionAt_mem {i : ℕ} (hi : i < eShnum.val b m 0) : sectionAt b m i ∈ sections b m :=
  List.mem_map.mpr ⟨i, List.mem_range.mpr hi, rfl⟩

/-- A member of the header of a section, while the tables are as they were mapped. -/
theorem Walkable.get_section {elfImage i : ℕ} (hwf : Walkable elfImage b m) (h : Agrees (tables b m) m s.byte)
    (hi : i < eShnum.val b m 0) (hf : f.disp + f.width ≤ shdrSize) (hwidth : 0 < f.width) :
    f.get (sectionAt b m i) b s = some (f.val b m (sectionAt b m i), s) := by
  have hle : shdrSize * (i + 1) ≤ shdrSize * eShnum.val b m 0 := Nat.mul_le_mul_left _ hi
  rw [Nat.mul_succ] at hle
  apply Field.get_of hwf.size_le h shdrs_mem (hwf.inside _ shdrs_mem) (Nat.le_add_right ..) _ hwidth
  omega

/-- A member of the ELF header, while the tables are as they were mapped. -/
theorem Walkable.get_header {elfImage : ℕ} (hwf : Walkable elfImage b m) (h : Agrees (tables b m) m s.byte)
    (hf : f.disp + f.width ≤ ehdrSize) (hwidth : 0 < f.width) : f.get 0 b s = some (f.val b m 0, s) :=
  Field.get_of hwf.size_le h ehdr_mem (hwf.inside _ ehdr_mem) (Nat.zero_le _) (by omega) hwidth

theorem relocsUpTo_succ (elfImage rh sh n : ℕ) : relocsUpTo elfImage b m rh sh (n + 1) =
    relocsUpTo elfImage b m rh sh n ++ relocAt elfImage b m
      ((shOffset.val b m sh : ℤ) - shAddr.val b m sh) (shOffset.val b m rh + relaSize * n) := by
  rw [relocsUpTo, List.range_succ, List.flatMap_append, List.flatMap_singleton]
  rfl

theorem relocsUpTo_subset {elfImage rh sh j n : ℕ} {r : Reloc} (hj : j ≤ n)
    (hr : r ∈ relocsUpTo elfImage b m rh sh j) : r ∈ relocsUpTo elfImage b m rh sh n := by
  obtain ⟨i, hi, hri⟩ := List.mem_flatMap.mp hr
  exact List.mem_flatMap.mpr ⟨i, List.mem_range.mpr (lt_of_lt_of_le (List.mem_range.mp hi) hj), hri⟩

theorem relocsOf_subset {elfImage i : ℕ} {r : Reloc} (hi : i < eShnum.val b m 0)
    (hr : r ∈ relocsOf elfImage b m (sectionAt b m i)) : r ∈ relocs elfImage b m :=
  List.mem_flatMap.mpr ⟨sectionAt b m i, sectionAt_mem hi, hr⟩

/-- The entries of the table of a relocation section are applied. -/
theorem relocateSection_total {i : ℕ} (hwf : Walkable handle.elfImage b m) (hi : i < eShnum.val b m 0)
    (htype : shType.val b m (sectionAt b m i) = shtRela) (hrs : ∀ r ∈ rs, r ∈ relocs handle.elfImage b m)
    (hs : s.byte = rs.foldl patch m) :
    relocateSection handle (eShoff.val b m 0) (sectionAt b m i) b s = some ((),
      { s with byte := (relocsOf handle.elfImage b m (sectionAt b m i)).foldl patch s.byte }) := by
  have hmem := sectionAt_mem hi
  have hinfo := hwf.relocated_section _ hmem htype
  have hagree : Agrees (tables b m) m s.byte := hs ▸ hwf.agrees hrs
  have hself : ∀ f : Field, f.disp + f.width ≤ shdrSize → 0 < f.width →
      f.get (sectionAt b m i) b s = some (f.val b m (sectionAt b m i), s) :=
    fun f hf hwidth => hwf.get_section hagree hi hf hwidth
  unfold relocateSection applyRelocations
  rw [bind_of (hself shInfo (by decide) (by decide))]
  -- the section that is patched
  generalize hsh : eShoff.val b m 0 + shdrSize * shInfo.val b m (sectionAt b m i) = sh
  have hother : ∀ f : Field, f.disp + f.width ≤ shdrSize → 0 < f.width →
      f.get sh b s = some (f.val b m sh, s) :=
    fun f hf hwidth => hsh ▸ hwf.get_section hagree hinfo hf hwidth
  rw [bind_of (hother shOffset (by decide) (by decide)), bind_of (hother shAddr (by decide) (by decide)),
    bind_of (hself shOffset (by decide) (by decide)), bind_of (hself shSize (by decide) (by decide))]
  have hof : relocsOf handle.elfImage b m (sectionAt b m i) = relocsUpTo handle.elfImage b m (sectionAt b m i) sh
      (relaCount (shSize.val b m (sectionAt b m i))) := by
    rw [relocsOf, if_pos htype, ← hsh]
    rfl
  generalize hcount : relaCount (shSize.val b m (sectionAt b m i)) = count at hof ⊢
  have hrange : (shOffset.val b m (sectionAt b m i), relaSize * count) ∈ tables b m := hcount ▸ relas_mem hmem htype
  have hsub : ∀ j ≤ count, ∀ r ∈ relocsUpTo handle.elfImage b m (sectionAt b m i) sh j,
      r ∈ relocs handle.elfImage b m :=
    fun j hj r hr => relocsOf_subset hi (hof ▸ relocsUpTo_subset hj hr)
  let I : ℕ → Unit → State → Prop := fun j _ u =>
    u = { s with byte := (relocsUpTo handle.elfImage b m (sectionAt b m i) sh j).foldl patch s.byte }
  have hbody : ∀ j x u, I j x u → j < count → ∃ y v,
      relocate handle ((shOffset.val b m sh : ℤ) - shAddr.val b m sh)
        (shOffset.val b m (sectionAt b m i) + relaSize * j) b u = some (y, v) ∧ I (j + 1) y v := by
    intro j x u hI hj
    have hle : relaSize * (j + 1) ≤ relaSize * count := Nat.mul_le_mul_left _ hj
    rw [Nat.mul_succ] at hle
    have hu : Agrees (tables b m) m u.byte := by
      rw [hI]
      show Agrees _ m (List.foldl patch s.byte _)
      rw [hs, ← List.foldl_append]
      apply hwf.agrees
      intro r hr
      rcases List.mem_append.mp hr with hr | hr
      · exact hrs r hr
      · exact hsub j hj.le r hr
    have htargets : ∀ q ∈ relocAt handle.elfImage b m ((shOffset.val b m sh : ℤ) - shAddr.val b m sh)
        (shOffset.val b m (sectionAt b m i) + relaSize * j), q.loc + q.width ≤ b.size := by
      intro q hq
      apply hwf.targets q
      apply hsub (j + 1) hj
      rw [relocsUpTo_succ]
      exact List.mem_append_right _ hq
    have hrun := relocate_total handle hwf.size_le hu hrange (hwf.inside _ hrange)
      (Nat.le_add_right _ (relaSize * j)) (by omega) htargets
    refine ⟨(), _, hrun, ?_⟩
    show _ = _
    rw [relocsUpTo_succ, List.foldl_append, hI]
  have hbound : ∀ j x u, I j x u → (pure count : Mapped ℕ) b u = some (count, u) := fun _ _ _ _ => rfl
  obtain ⟨y, v, hrun, hI⟩ := Mapped.upTo_total hbound hbody
    (count + 1) 0 () s (Nat.zero_le _) (by omega) rfl
  rw [hrun, hI, hof]

/-- What the walk has done after the first `i` sections. -/
structure Walked (elfImage : ℕ) (b : Bounds) (m : ℕ → UInt8) (s : State) (i : ℕ) (toe : Toe) (t : State) :
    Prop where
  image : t.byte = ((sectionsUpTo b m i).flatMap (relocsOf elfImage b m)).foldl patch m
  toe : toe = (sectionsUpTo b m i).foldl (toeAfter b m) ⟨0, 0⟩
  written : t.written = s.written

theorem sectionsUpTo_succ (n : ℕ) : sectionsUpTo b m (n + 1) = sectionsUpTo b m n ++ [sectionAt b m n] := by
  rw [sectionsUpTo, List.range_succ, List.map_append]
  rfl

theorem sectionsUpTo_subset {n sh : ℕ} (hn : n ≤ eShnum.val b m 0) (hsh : sh ∈ sectionsUpTo b m n) :
    sh ∈ sections b m := by
  obtain ⟨i, hi, rfl⟩ := List.mem_map.mp hsh
  exact sectionAt_mem (lt_of_lt_of_le (List.mem_range.mp hi) hn)

/-- The walk compares names as they were mapped. -/
theorem isToe_total {i : ℕ} {elfImage : ℕ} (hwf : Walkable elfImage b m) (h : Agrees (tables b m) m s.byte)
    (hi : i < eShnum.val b m 0) :
    strEq toeName (nameTable b m + shName.val b m (sectionAt b m i)) b s =
      some (decide (IsToe b m (sectionAt b m i)), s) := by
  obtain ⟨k, hk, hname, hnul⟩ := hwf.names _ (sectionAt_mem hi)
  have htable := hwf.inside _ (names_mem (b := b) (m := m))
  generalize hoff : nameTable b m + shName.val b m (sectionAt b m i) = off
  have hbyte : ∀ j, off ≤ j → j ≤ nameTable b m + k → s.byte j = m j := by
    intro j hlo hhi
    have hj := h _ names_mem (j - nameTable b m) (show j - nameTable b m < nameTableSize b m by omega)
    have hsub : nameTable b m + (j - nameTable b m) = j := by omega
    rwa [hsub] at hj
  have hend : off ≤ nameTable b m + k := by omega
  rw [strEq_total hwf.size_le]
  · have hiff : bytesAt s.byte toeName.length off = toeName ↔ IsToe b m (sectionAt b m i) := by
      rw [IsToe, hoff]
      constructor
      · exact toeName_of_agree hend ((hbyte _ hend le_rfl).trans hnul) fun j hlo hhi => (hbyte j hlo hhi).symm
      · exact toeName_of_agree hend hnul hbyte
    rw [decide_eq_decide.mpr hiff]
  · intro j hj heq
    have hle := toeName_stop hj hend ((hbyte _ hend le_rfl).trans hnul) heq
    exact lt_of_le_of_lt hle (lt_of_lt_of_le (Nat.add_lt_add_left hk _) htable)

theorem visitSection_total {i : ℕ} (hwf : Walkable handle.elfImage b m) (hi : i < eShnum.val b m 0)
    (hI : Walked handle.elfImage b m s i toe t) :
    ∃ toe' t', visitSection handle (eShoff.val b m 0) (nameTable b m) i toe b t = some (toe', t') ∧
      Walked handle.elfImage b m s (i + 1) toe' t' := by
  have hrs : ∀ n ≤ eShnum.val b m 0, ∀ r ∈ (sectionsUpTo b m n).flatMap (relocsOf handle.elfImage b m),
      r ∈ relocs handle.elfImage b m := by
    intro n hn r hr
    obtain ⟨sh, hsh, hr⟩ := List.mem_flatMap.mp hr
    exact List.mem_flatMap.mpr ⟨sh, sectionsUpTo_subset hn hsh, hr⟩
  have hagree : Agrees (tables b m) m t.byte := hI.image ▸ hwf.agrees (hrs i hi.le)
  -- the image after the relocations of the section
  let t₁ : State := { t with byte := (relocsOf handle.elfImage b m (sectionAt b m i)).foldl patch t.byte }
  have hbyte : t₁.byte = ((sectionsUpTo b m (i + 1)).flatMap (relocsOf handle.elfImage b m)).foldl patch m := by
    show List.foldl patch t.byte _ = _
    rw [sectionsUpTo_succ, List.flatMap_append, List.flatMap_singleton, List.foldl_append, hI.image]
  have hagree₁ : Agrees (tables b m) m t₁.byte := hbyte ▸ hwf.agrees (hrs (i + 1) hi)
  have hrelocate : Mapped.whenever (shType.val b m (sectionAt b m i) = shtRela)
      (relocateSection handle (eShoff.val b m 0) (sectionAt b m i)) b t = some ((), t₁) := by
    by_cases htype : shType.val b m (sectionAt b m i) = shtRela
    · rw [Mapped.whenever_pos htype]
      exact relocateSection_total hwf hi htype (hrs i hi.le) hI.image
    · rw [Mapped.whenever_neg htype]
      have hnil : relocsOf handle.elfImage b m (sectionAt b m i) = [] := if_neg htype
      show some ((), t) = some ((), { t with byte := List.foldl patch t.byte _ })
      rw [hnil]
      rfl
  have hget : ∀ f : Field, f.disp + f.width ≤ shdrSize → 0 < f.width →
      f.get (sectionAt b m i) b t₁ = some (f.val b m (sectionAt b m i), t₁) :=
    fun f hf hwidth => hwf.get_section hagree₁ hi hf hwidth
  have hrun : visitSection handle (eShoff.val b m 0) (nameTable b m) i toe b t =
      some (toeAfter b m toe (sectionAt b m i), t₁) := by
    unfold visitSection
    rw [show eShoff.val b m 0 + shdrSize * i = sectionAt b m i from rfl]
    rw [bind_of (hwf.get_section hagree hi (f := shType) (by decide) (by decide)), bind_of hrelocate,
      bind_of (hget shName (by decide) (by decide)), bind_of (isToe_total hwf hagree₁ hi)]
    unfold toeAfter
    by_cases htoe : IsToe b m (sectionAt b m i)
    · rw [if_pos (decide_eq_true htoe), if_pos htoe, bind_of (hget shSize (by decide) (by decide)),
        bind_of (Mapped.wrap_some.mpr rfl), bind_of (hget shAddr (by decide) (by decide))]
      rfl
    · rw [if_neg (by simpa using htoe), if_neg htoe]
      rfl
  refine ⟨_, t₁, hrun, hbyte, ?_, hI.written⟩
  rw [sectionsUpTo_succ, List.foldl_append, ← hI.toe]
  rfl

/-- **The section walk** finds the toe and leaves the relocated image. -/
theorem sectionWalk_total (hwf : Walkable handle.elfImage b s.byte) :
    sectionWalk handle b s =
      some (toeOf b s.byte, { s with byte := relocated handle.elfImage b s.byte }) := by
  have hsame : Agrees (tables b s.byte) s.byte s.byte := fun _ _ _ _ => rfl
  have hget : ∀ f : Field, f.disp + f.width ≤ ehdrSize → 0 < f.width → f.get 0 b s = some (f.val b s.byte 0, s) :=
    fun f hf hwidth => hwf.get_header hsame hf hwidth
  have hnames : shOffset.get (eShoff.val b s.byte 0 + shdrSize * eShstrndx.val b s.byte 0) b s =
      some (nameTable b s.byte, s) := Field.get_inside hwf.size_le hwf.names_header (by decide) (by decide)
  unfold sectionWalk
  rw [bind_of (hget eShoff (by decide) (by decide)), bind_of (hget eShstrndx (by decide) (by decide)),
    bind_of hnames]
  have hlimit : eShnum.val b s.byte 0 < headerLimit := Field.val_lt (f := eShnum)
  let I : ℕ → Toe → State → Prop := fun i toe t =>
    Walked handle.elfImage b s.byte s i toe t ∧ i ≤ eShnum.val b s.byte 0
  have hbound : ∀ i toe t, I i toe t → eShnum.get 0 b t = some (eShnum.val b s.byte 0, t) := by
    intro i toe t hI
    have hagree : Agrees (tables b s.byte) s.byte t.byte := by
      rw [hI.1.image]
      apply hwf.agrees
      intro r hr
      obtain ⟨sh, hsh, hr⟩ := List.mem_flatMap.mp hr
      exact List.mem_flatMap.mpr ⟨sh, sectionsUpTo_subset hI.2 hsh, hr⟩
    exact hwf.get_header hagree (by decide) (by decide)
  have hbody : ∀ i toe t, I i toe t → i < eShnum.val b s.byte 0 → ∃ toe' t',
      visitSection handle (eShoff.val b s.byte 0) (nameTable b s.byte) i toe b t = some (toe', t') ∧
        I (i + 1) toe' t' := by
    intro i toe t hI hi
    obtain ⟨toe', t', hrun, hI'⟩ := visitSection_total hwf hi hI.1
    exact ⟨toe', t', hrun, hI', hi⟩
  obtain ⟨toe, t, hrun, hI, -⟩ := Mapped.upTo_total hbound hbody headerLimit 0 ⟨0, 0⟩ s (Nat.zero_le _) (by omega)
    ⟨⟨rfl, rfl, rfl⟩, Nat.zero_le _⟩
  rw [hrun, hI.toe]
  have ht : t = { s with byte := relocated handle.elfImage b s.byte } := by
    cases t with
    | mk byte written =>
      have himage : byte = _ := hI.image
      have hwritten : written = s.written := hI.written
      rw [himage, hwritten]
      rfl
  rw [ht]
  rfl

end LibSpe2.Elf
