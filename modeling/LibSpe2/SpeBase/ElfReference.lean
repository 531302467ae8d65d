import LibSpe2.SpeBase.ElfToe

/-!
# What loading an ELF image means

The reference against which the loader is compared: the relocated image, described by what its
relocation entries say and not by the order in which they are applied, and local store, described
byte by byte.

* `IsRelocated` — every target holds its value, and every other byte is as it was mapped.
* `ToeForm` — there is no `.toe` section, or one at the start of a segment.
* `Loaded` — local store after a load.

Main result:
* `load_reference` — a load of a well-formed image returns 0 with the entry of the image, and image and local
  store are as the reference says.
-/

namespace LibSpe2.Elf

open Mapped (Bounds State bytesAt digits content)

variable {b : Bounds} {s t : State} {m : ℕ → UInt8} {handle : Handle} {ph elfImage : ℕ} {ldInfo : SpeLdInfo}
  {rs : List Reloc}

/-! ## The relocated image -/

/-- The offset is in the target of the relocation. -/
def Reloc.Hits (r : Reloc) (off : ℕ) : Prop := r.loc ≤ off ∧ off < r.loc + r.width

/-- `u` is the image `m` with the relocations `rs`. -/
structure IsRelocated (rs : List Reloc) (m u : ℕ → UInt8) : Prop where
  target : ∀ r ∈ rs, bytesAt u r.width r.loc = digits r.width r.value
  other : ∀ off, (∀ r ∈ rs, ¬ r.Hits off) → u off = m off

theorem patch_other {r : Reloc} {off : ℕ} (h : ¬ r.Hits off) : patch m r off = m off := by
  apply Mapped.put_outside
  rw [Mapped.length_digits]
  have hout : ¬ (r.loc ≤ off ∧ off < r.loc + r.width) := h
  omega

theorem patch_target (m : ℕ → UInt8) (r : Reloc) : bytesAt (patch m r) r.width r.loc = digits r.width r.value := by
  apply List.ext_getElem?
  intro i
  by_cases hi : i < r.width
  · have hlen : i < (digits r.width r.value).length := by rwa [Mapped.length_digits]
    rw [Mapped.getElem?_bytesAt hi, List.getElem?_eq_getElem hlen, patch, Mapped.put_inside hlen]
  · rw [List.getElem?_eq_none (by rw [Mapped.length_bytesAt]; omega),
      List.getElem?_eq_none (by rw [Mapped.length_digits]; omega)]

theorem foldl_patch_other {off : ℕ} (h : ∀ r ∈ rs, ¬ r.Hits off) : rs.foldl patch m off = m off := by
  induction rs generalizing m with
  | nil => rfl
  | cons r rs ih =>
    rw [List.foldl_cons, ih fun q hq => h q (List.mem_cons_of_mem r hq), patch_other (h r (List.mem_cons_self ..))]

/-- Relocations that are apart from each other may be applied in any order. -/
theorem isRelocated_foldl (h : rs.Pairwise fun r q => Apart r.range q.range) :
    IsRelocated rs m (rs.foldl patch m) where
  target := by
    induction rs generalizing m with
    | nil => exact nofun
    | cons r rs ih =>
      rw [List.pairwise_cons] at h
      intro q hq
      rw [List.foldl_cons]
      rcases List.mem_cons.mp hq with rfl | hq
      · rw [← patch_target m q]
        apply Mapped.bytesAt_congr
        intro i hi
        apply foldl_patch_other
        rintro r hr ⟨hlo, hhi⟩
        have hapart : q.loc + q.width ≤ r.loc ∨ r.loc + r.width ≤ q.loc := h.1 r hr
        omega
      · exact ih h.2 q hq
  other _ hoff := foldl_patch_other hoff

/-! ## Local store -/

/-- There is no `.toe` section, or one of 16 bytes at the start of a segment; then there is a shadow. -/
def ToeForm (handle : Handle) (b : Bounds) (m : ℕ → UInt8) : Prop :=
  toes b m = [] ∨ ∃ sh, toes b m = [sh] ∧ shSize.val b m sh = 16 ∧ handle.toeShadow.length = 16 ∧
    ∃ ph ∈ segments b m, shAddr.val b m sh = pVaddr.val b m ph ∧ 16 ≤ pMemsz.val b m ph

/-- The address is in the `.toe` section `sh`. -/
def InToe (b : Bounds) (m : ℕ → UInt8) (sh a : ℕ) : Prop :=
  shAddr.val b m sh ≤ a ∧ a < shAddr.val b m sh + shSize.val b m sh

/-- Local store `ls` after a load of the image `m`, relocated to `u`, with local store `prev` before it. -/
structure Loaded (handle : Handle) (b : Bounds) (m u prev ls : ℕ → UInt8) : Prop where
  toe : ∀ sh ∈ toes b m, ∀ a, InToe b m sh a → ls a = handle.toeShadow.getD (a - shAddr.val b m sh) 0
  image : ∀ ph ∈ segments b m, ∀ k < pFilesz.val b m ph,
    (∀ sh ∈ toes b m, ¬ InToe b m sh (pVaddr.val b m ph + k)) →
      ls (pVaddr.val b m ph + k) = u (pOffset.val b m ph + k)
  zero : ∀ ph ∈ segments b m, ∀ k, pFilesz.val b m ph ≤ k → k < pMemsz.val b m ph →
    (∀ sh ∈ toes b m, ¬ InToe b m sh (pVaddr.val b m ph + k)) → ls (pVaddr.val b m ph + k) = 0
  outside : ∀ a, (∀ ph ∈ segments b m, ¬ InSegment b m ph a) → ls a = prev a

/-- The toe that the walk finds is the `.toe` section, if there is one. -/
theorem ToeForm.has_iff (hwf : WellFormed handle.elfImage b m) (h : ToeForm handle b m) (a : ℕ) :
    (toeOf b m).Has a ↔ ∃ sh ∈ toes b m, InToe b m sh a := by
  have haddr := toeOf_addr (b := b) (m := m)
  have hsize := toeOf_size (m := m) hwf.space_pos
  rcases h with hnil | ⟨sh, hone, h16, -⟩
  · rw [hnil] at hsize ⊢
    have hzero : (toeOf b m).size = 0 := hsize.trans (Nat.zero_mod _)
    simp only [List.not_mem_nil, false_and, exists_false, iff_false]
    rintro ⟨hlo, hhi⟩
    omega
  · rw [hone, List.map_singleton] at haddr hsize
    have haddr' : (toeOf b m).addr = shAddr.val b m sh := haddr
    rw [List.sum_singleton, h16, hwf.toe_mod] at hsize
    unfold Toe.Has InToe
    rw [haddr', hsize, hone]
    simp only [List.mem_singleton, exists_eq_left, h16]

theorem ToeForm.fits (hwf : WellFormed handle.elfImage b m) (h : ToeForm handle b m) : ToeFits handle b m := by
  intro ph hph hvaddr
  have hls := hwf.in_ls ph hph
  have haddr := toeOf_addr (b := b) (m := m)
  have hsize := toeOf_size (m := m) hwf.space_pos
  rcases h with hnil | ⟨sh, hone, h16, hshadow, q, hq, hstart, hlen⟩
  · rw [hnil] at hsize
    have hzero : (toeOf b m).size = 0 := hsize.trans (Nat.zero_mod _)
    exact ⟨by omega, by omega⟩
  · rw [hone, List.map_singleton] at haddr hsize
    have haddr' : (toeOf b m).addr = shAddr.val b m sh := haddr
    rw [List.sum_singleton, h16, hwf.toe_mod] at hsize
    have hq' := hwf.in_ls q hq
    exact ⟨by omega, by omega⟩

/-- An address in the toe is in the segment that starts at the toe. -/
theorem ToeForm.start (hwf : WellFormed handle.elfImage b m) (h : ToeForm handle b m) {a : ℕ}
    (ha : (toeOf b m).Has a) : ∃ ph ∈ segments b m, pVaddr.val b m ph = (toeOf b m).addr ∧ InSegment b m ph a := by
  have haddr := toeOf_addr (b := b) (m := m)
  obtain ⟨sh', hmem, hlo, hhi⟩ := (h.has_iff hwf a).mp ha
  rcases h with hnil | ⟨sh, hone, h16, -, ph, hph, hstart, hlen⟩
  · rw [hnil] at hmem
    cases hmem
  · rw [hone] at hmem haddr
    obtain rfl := List.mem_singleton.mp hmem
    have haddr' : (toeOf b m).addr = shAddr.val b m sh' := haddr
    exact ⟨ph, hph, by omega, by omega, by omega⟩

/-- **Local store after a load** is what the reference says. -/
theorem loaded_content (hwf : WellFormed handle.elfImage b m) (htoe : ToeForm handle b m) (prev : ℕ → UInt8) :
    Loaded handle b m (relocated handle.elfImage b m) prev (content prev ((segments b m).flatMap
      (segmentWrites handle b (relocated handle.elfImage b m) (toeOf b m)))) := by
  have hfits := htoe.fits hwf
  have hhas := htoe.has_iff hwf
  refine ⟨?_, ?_, ?_, ?_⟩
  · intro sh hsh a ha
    have htoeHas := (hhas a).mpr ⟨sh, hsh, ha⟩
    obtain ⟨ph, hph, hstart, hin⟩ := htoe.start hwf htoeHas
    have hother : ∀ q ∈ segments b m, InSegment b m q a → pVaddr.val b m q = (toeOf b m).addr := by
      intro q hq hq'
      rw [← hwf.segment_unique hph hq hin hq', hstart]
    have haddr : (toeOf b m).addr = shAddr.val b m sh := by
      rcases htoe with hnil | ⟨sh', hone, -⟩
      · rw [hnil] at hsh
        cases hsh
      · rw [hone] at hsh
        obtain rfl := List.mem_singleton.mp hsh
        rw [toeOf_addr, hone]
        rfl
    rw [hwf.content_toe hfits prev hph hstart htoeHas hother, haddr]
  · intro ph hph k hk hout
    have hle := hwf.filesz_le ph hph
    have hnot : ¬ (toeOf b m).Has (pVaddr.val b m ph + k) := fun h => by
      obtain ⟨sh, hsh, hin⟩ := (hhas _).mp h
      exact hout sh hsh hin
    rw [hwf.content_segment hfits prev hph ⟨by omega, by omega⟩ fun _ _ h => hnot h.2, hwf.segmentByte_eq hph,
      if_pos hk]
  · intro ph hph k hk hk' hout
    have hnot : ¬ (toeOf b m).Has (pVaddr.val b m ph + k) := fun h => by
      obtain ⟨sh, hsh, hin⟩ := (hhas _).mp h
      exact hout sh hsh hin
    rw [hwf.content_segment hfits prev hph ⟨by omega, by omega⟩ fun _ _ h => hnot h.2, hwf.segmentByte_eq hph,
      if_neg (by omega)]
  · intro a hout
    apply hwf.content_outside hfits prev hout
    rintro q - ⟨-, h⟩
    obtain ⟨ph, hph, -, hin⟩ := htoe.start hwf h
    exact hout ph hph hin

/-- **The loader equals its reference**: a load of a well-formed image returns 0 with the entry of the image;
the image is relocated, and local store holds its segments and the toe. -/
theorem load_reference (hwf : WellFormed handle.elfImage b s.byte) (htoe : ToeForm handle b s.byte) :
    ∃ t, baseSpeLoadSpeElf handle ldInfo b s = some ((0, ⟨eEntry.val b s.byte 0⟩), t) ∧
      IsRelocated (relocs handle.elfImage b s.byte) s.byte t.byte ∧
      ∀ prev : ℕ → UInt8, Loaded handle b s.byte t.byte (content prev s.written) (content prev t.written) := by
  obtain ⟨t, hload, himage, hwritten⟩ := load_wellFormed ldInfo hwf (htoe.fits hwf)
  refine ⟨t, hload, ?_, fun prev => ?_⟩
  · rw [himage]
    exact isRelocated_foldl hwf.targets_apart
  · rw [himage, hwritten, Mapped.content_append]
    exact loaded_content hwf htoe _

/-- Two segments: the `.toe` section with four bytes behind it, and a section `._ea` with two relocations. -/
def fullImage : List UInt8 :=
  let word := Mapped.digits 4
  ehdrBytes 0x104 52 116 2 5 4 ++ (phdrBytes ptLoad 346 0x100 20 32 ++ phdrBytes ptLoad 366 0x200 16 16) ++
    (shdrBytes 0 0 0 0 0 0 0 ++ shdrBytes 1 1 0x100 346 16 0 0 ++ shdrBytes 0 1 0x200 366 16 0 0 ++
      shdrBytes 0 shtRela 0 322 24 0 2 ++ shdrBytes 0 3 0 316 6 0 0) ++
    (0 :: toeName) ++
    (word 0x200 ++ word rSpuPpu32 ++ word 0x10 ++ word 0x204 ++ word rSpuPpu64 ++ word 0xffffffff) ++
    List.replicate 20 7 ++ List.replicate 16 8

/-- The handle of an image at 0x10000 and its toe on a 64-bit host. -/
def fullHandle : Handle := ⟨0x10000, Mapped.digits 8 0x10000 ++ List.replicate 8 0⟩

theorem load_reference_full : ∃ t, baseSpeLoadSpeElf fullHandle ⟨0⟩ (bounds fullImage) (mapped fullImage) =
      some ((0, ⟨eEntry.val (bounds fullImage) (mapped fullImage).byte 0⟩), t) ∧
    IsRelocated (relocs fullHandle.elfImage (bounds fullImage) (mapped fullImage).byte)
      (mapped fullImage).byte t.byte ∧
    ∀ prev : ℕ → UInt8, Loaded fullHandle (bounds fullImage) (mapped fullImage).byte t.byte
      (content prev []) (content prev t.written) :=
  load_reference (b := bounds fullImage) (s := mapped fullImage) (by decide +kernel)
    (Or.inr ⟨156, by decide +kernel, by decide +kernel, by decide +kernel, 52, by decide +kernel⟩)

end LibSpe2.Elf
