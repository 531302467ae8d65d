import LibSpe2.SpeBase.ElfRelocate
import Mathlib.Data.List.GetD
import Mathlib.Data.List.Pairwise

/-!
# Loading well-formed images

A load of a well-formed image returns 0 and leaves in local store what the relocated image has for each
segment, with the shadow of the toe over it where a segment starts at the toe that was found.

* `segmentByte` — what a segment has for one of its bytes.

Main results:
* `load_wellFormed` — the load returns 0, and what it writes.
* `content_segmentWrites` — what one segment leaves in local store.
-/

namespace LibSpe2.Elf

open Mapped (Bounds State block bytesAt content put bind_of)

variable {b : Bounds} {s t u : State} {m : ℕ → UInt8} {handle : Handle} {toe : Toe} {f : Field}
  {ph phdr : ℕ} {ldInfo : SpeLdInfo}

/-! ## The loop returns -/

/-- The loader can place the segment. -/
structure Placeable (handle : Handle) (b : Bounds) (m : ℕ → UInt8) (toe : Toe) (ph : ℕ) : Prop where
  contents : pOffset.val b m ph + pFilesz.val b m ph ≤ b.size
  filesz_le : pFilesz.val b m ph ≤ pMemsz.val b m ph
  in_ls : pVaddr.val b m ph + pMemsz.val b m ph ≤ b.room
  shadow : pVaddr.val b m ph = toe.addr →
    toe.size ≤ handle.toeShadow.length ∧ pVaddr.val b m ph + toe.size ≤ b.room

/-- What the loader copies for the segment is inside the image, and what it writes inside local store. -/
structure Fits (handle : Handle) (b : Bounds) (m : ℕ → UInt8) (toe : Toe) (ph : ℕ) : Prop where
  contents : pOffset.val b m ph + pFilesz.val b m ph ≤ b.size
  copied : pVaddr.val b m ph + pFilesz.val b m ph ≤ b.room
  padded : pVaddr.val b m ph + pMemsz.val b m ph ≤ b.room
  shadow : pVaddr.val b m ph = toe.addr →
    toe.size ≤ handle.toeShadow.length ∧ pVaddr.val b m ph + toe.size ≤ b.room

theorem Placeable.fits (h : Placeable handle b m toe ph) : Fits handle b m toe ph where
  contents := h.contents
  copied := le_trans (Nat.add_le_add_left h.filesz_le _) h.in_ls
  padded := h.in_ls
  shadow := h.shadow

/-- The members of a program header can be fetched. -/
def HeaderInside (b : Bounds) (ph : ℕ) : Prop := ph + phdrSize ≤ b.size

theorem HeaderInside.get (hspace : b.size ≤ b.space) (h : HeaderInside b ph)
    (hf : f.disp + f.width ≤ phdrSize) (hwidth : 0 < f.width) : f.get ph b s = some (f.val b s.byte ph, s) :=
  Field.get_inside hspace h hf hwidth

theorem emit_total {dst : ℕ} {bs : List UInt8} (hroom : b.room < b.space) (h : dst + bs.length ≤ b.room) :
    Mapped.emit dst bs b s = some ((), { s with written := s.written ++ block dst bs }) := by
  have hmod : dst % b.space = dst := Nat.mod_eq_of_lt (by omega)
  rw [Mapped.emit_some, hmod]
  exact ⟨Or.inr h, rfl⟩

theorem copyImage_total {dst n off : ℕ} (hspace : b.size ≤ b.space) (hroom : b.room < b.space) (hn : n ≠ 0)
    (hin : off + n ≤ b.size) (hls : dst + n ≤ b.room) :
    ∃ u, copyImage dst n off b s = some ((), u) ∧ u.byte = s.byte := by
  unfold copyImage
  rw [bind_of (Mapped.bytes_of hspace (by omega) hin), emit_total hroom (by rwa [Mapped.length_bytesAt])]
  exact ⟨_, rfl, rfl⟩

theorem padSegment_total (hspace : b.size ≤ b.space) (hroom : b.room < b.space) (hph : HeaderInside b ph)
    (h : Fits handle b s.byte toe ph) : ∃ u, padSegment ph b s = some ((), u) ∧ u.byte = s.byte := by
  unfold padSegment
  rw [bind_of (hph.get hspace (f := pFilesz) (by decide) (by decide)),
    bind_of (hph.get hspace (f := pMemsz) (by decide) (by decide)),
    bind_of (hph.get hspace (f := pVaddr) (by decide) (by decide))]
  by_cases hlt : pFilesz.val b s.byte ph < pMemsz.val b s.byte ph
  · have hls := h.padded
    rw [Mapped.whenever_pos hlt, emit_total hroom (by rw [List.length_replicate]; omega)]
    exact ⟨_, rfl, rfl⟩
  · rw [Mapped.whenever_neg hlt]
    exact ⟨s, rfl, rfl⟩

theorem copyToLdBuffer_total (hspace : b.size ≤ b.space) (hroom : b.room < b.space) (hph : HeaderInside b ph)
    (h : Fits handle b s.byte toe ph) :
    ∃ u, copyToLdBuffer handle ph toe b s = some ((), u) ∧ u.byte = s.byte := by
  have hcopy : ∀ c : Prop, [Decidable c] → (c → pFilesz.val b s.byte ph ≠ 0) → ∃ u, Mapped.whenever c
      (copyImage (pVaddr.val b s.byte ph) (pFilesz.val b s.byte ph) (pOffset.val b s.byte ph)) b s =
        some ((), u) ∧ u.byte = s.byte := by
    intro c _ hc
    by_cases h' : c
    · rw [Mapped.whenever_pos h']
      exact copyImage_total hspace hroom (hc h') h.contents h.copied
    · rw [Mapped.whenever_neg h']
      exact ⟨s, rfl, rfl⟩
  unfold copyToLdBuffer
  rw [bind_of (hph.get hspace (f := pVaddr) (by decide) (by decide)),
    bind_of (hph.get hspace (f := pFilesz) (by decide) (by decide)),
    bind_of (hph.get hspace (f := pOffset) (by decide) (by decide))]
  by_cases hvaddr : pVaddr.val b s.byte ph = toe.addr
  · obtain ⟨hshadow, hfits⟩ := h.shadow hvaddr
    obtain ⟨u, hu, hbyte⟩ := hcopy (toe.size ≠ pFilesz.val b s.byte ph ∧ pFilesz.val b s.byte ph ≠ 0) And.right
    rw [if_pos hvaddr, bind_of hu, copyShadow, if_pos hshadow,
      emit_total hroom (by rw [List.length_take]; omega)]
    exact ⟨_, rfl, hbyte⟩
  · rw [if_neg hvaddr]
    exact hcopy _ id

theorem loadSegment_total {i n : ℕ} (hspace : b.size ≤ b.space) (hroom : b.room < b.space)
    (hph : HeaderInside b (phdr + phdrSize * i))
    (h : pType.val b s.byte (phdr + phdrSize * i) = ptLoad →
      Fits handle b s.byte toe (phdr + phdrSize * i)) :
    ∃ k u, loadSegment handle phdr toe i (none, n) b s = some ((none, k), u) ∧ u.byte = s.byte := by
  unfold loadSegment
  rw [bind_of (hph.get hspace (f := pType) (by decide) (by decide))]
  by_cases hload : pType.val b s.byte (phdr + phdrSize * i) = ptLoad
  · obtain ⟨v, hpad, hv⟩ := padSegment_total hspace hroom hph (h hload)
    obtain ⟨w, hcopy, hw⟩ := copyToLdBuffer_total (s := v) hspace hroom hph (hv ▸ h hload)
    rw [if_pos hload, bind_of (show overlay _ none b s = some (false, s) from rfl)]
    simp only [Bool.false_eq_true, if_false]
    rw [bind_of hpad, bind_of hcopy]
    exact ⟨n + 1, w, rfl, hw.trans hv⟩
  · rw [if_neg hload]
    exact ⟨n, s, rfl, rfl⟩

/-- The segment loop returns if the program headers are inside the image and each segment fits. -/
theorem segmentLoop_total (hspace : b.size ≤ b.space) (hroom : b.room < b.space)
    (hheader : ehdrSize ≤ b.size) (htable : phdr + phdrSize * ePhnum.val b s.byte 0 ≤ b.size)
    (h : ∀ ph ∈ loadHeaders b s.byte phdr (ePhnum.val b s.byte 0), Fits handle b s.byte toe ph) :
    ∃ n t, segmentLoop handle phdr toe b s = some (n, t) := by
  have hlimit : ePhnum.val b s.byte 0 < headerLimit := Field.val_lt (f := ePhnum)
  let I : ℕ → Option ℕ × ℕ → State → Prop := fun _ st t => st.1 = none ∧ t.byte = s.byte
  have hbound : ∀ i st t, I i st t → ePhnum.get 0 b t = some (ePhnum.val b s.byte 0, t) := by
    intro i st t hI
    rw [← hI.2]
    exact Field.get_inside hspace (p := 0) (n := ehdrSize) (by omega) (by decide) (by decide)
  have hbody : ∀ i st t, I i st t → i < ePhnum.val b s.byte 0 → ∃ st' t',
      loadSegment handle phdr toe i st b t = some (st', t') ∧ I (i + 1) st' t' := by
    intro i st t hI hi
    have hle : phdrSize * (i + 1) ≤ phdrSize * ePhnum.val b s.byte 0 := Nat.mul_le_mul_left _ hi
    rw [Nat.mul_succ] at hle
    have hph : HeaderInside b (phdr + phdrSize * i) := by
      show _ ≤ _
      omega
    obtain ⟨prev, n⟩ := st
    obtain rfl : prev = none := hI.1
    obtain ⟨k, u, hrun, hu⟩ := loadSegment_total (s := t) (n := n) hspace hroom hph (by
      intro hload
      rw [hI.2] at hload ⊢
      exact h _ (List.mem_filter.mpr
        ⟨List.mem_map.mpr ⟨i, List.mem_range.mpr hi, rfl⟩, decide_eq_true hload⟩))
    exact ⟨_, u, hrun, rfl, hu.trans hI.2⟩
  obtain ⟨st, t, hrun, -⟩ := Mapped.upTo_total hbound hbody headerLimit 0 (none, 0) s (Nat.zero_le _) (by omega)
    ⟨rfl, rfl⟩
  unfold segmentLoop
  rw [bind_of hrun]
  exact ⟨st.2, t, rfl⟩

/-! ## Headers of a relocated image -/

section
variable {elfImage : ℕ} (hwf : WellFormed elfImage b m)
include hwf

theorem WellFormed.room_lt : b.room < b.space := by
  rw [hwf.room]
  rcases hwf.space with h | h <;> rw [h] <;> decide

theorem WellFormed.space_pos : 0 < b.space := Nat.zero_lt_of_lt hwf.room_lt

/-- The size of a toe is no number that wraps. -/
theorem WellFormed.toe_mod : 16 % b.space = 16 := by
  have hlt := hwf.room_lt
  rw [hwf.room] at hlt
  exact Nat.mod_eq_of_lt (lt_trans (by decide) hlt)

end

section
variable {elfImage : ℕ} (hwf : Walkable elfImage b m)
include hwf

theorem Walkable.agrees_relocated : Agrees (tables b m) m (relocated elfImage b m) :=
  hwf.agrees fun _ hr => hr

theorem Walkable.header_val (hf : f.disp + f.width ≤ ehdrSize) (hwidth : 0 < f.width) :
    f.val b (relocated elfImage b m) 0 = f.val b m 0 :=
  Field.val_of hwf.size_le hwf.agrees_relocated ehdr_mem (hwf.inside _ ehdr_mem) le_rfl (by omega) hwidth

theorem Walkable.segment_val {i : ℕ} (hi : i < ePhnum.val b m 0) (hf : f.disp + f.width ≤ phdrSize)
    (hwidth : 0 < f.width) : f.val b (relocated elfImage b m) (ePhoff.val b m 0 + phdrSize * i) =
      f.val b m (ePhoff.val b m 0 + phdrSize * i) := by
  have hle : phdrSize * (i + 1) ≤ phdrSize * ePhnum.val b m 0 := Nat.mul_le_mul_left _ hi
  rw [Nat.mul_succ] at hle
  exact Field.val_of hwf.size_le hwf.agrees_relocated phdrs_mem (hwf.inside _ phdrs_mem) (Nat.le_add_right ..)
    (by omega) hwidth

theorem Walkable.segments_val (hph : ph ∈ segments b m) (hf : f.disp + f.width ≤ phdrSize)
    (hwidth : 0 < f.width) : f.val b (relocated elfImage b m) ph = f.val b m ph := by
  obtain ⟨hph, -⟩ := List.mem_filter.mp hph
  obtain ⟨i, hi, rfl⟩ := List.mem_map.mp hph
  exact hwf.segment_val (List.mem_range.mp hi) hf hwidth

theorem Walkable.segments_relocated :
    loadHeaders b (relocated elfImage b m) (ePhoff.val b m 0) (ePhnum.val b m 0) = segments b m := by
  apply List.filter_congr
  intro ph hph
  obtain ⟨i, hi, rfl⟩ := List.mem_map.mp hph
  rw [hwf.segment_val (f := pType) (List.mem_range.mp hi) (by decide) (by decide)]

end

/-! ## The load -/

/-- `check_spe_elf` accepts the image. -/
def Accepted (b : Bounds) (m : ℕ → UInt8) : Prop :=
  bytesAt m eiPad 0 = expected ∧ eMachine.val b m 0 = 0x17 ∧ eType.val b m 0 = etExec

instance : Decidable (Accepted b m) := inferInstanceAs (Decidable (_ ∧ _ ∧ _))

theorem WellFormed.accepted {elfImage : ℕ} (hwf : WellFormed elfImage b m) : Accepted b m :=
  ⟨hwf.ident, hwf.machine, hwf.exec⟩

theorem checkSpeElf_total (hspace : b.size ≤ b.space) (hheader : ehdrSize ≤ b.size) :
    checkSpeElf b s = some (if Accepted b s.byte then 0 else -einval, s) := by
  have hget : ∀ f : Field, f.disp + f.width ≤ ehdrSize → 0 < f.width → f.get 0 b s = some (f.val b s.byte 0, s) :=
    fun f hf hwidth => Field.get_inside hspace (p := 0) (by omega) hf hwidth
  unfold checkSpeElf
  rw [bind_of (Mapped.bytes_of hspace (by decide) (le_trans (by decide) hheader))]
  by_cases hident : bytesAt s.byte eiPad 0 = expected
  · rw [if_neg (not_not_intro hident), bind_of (hget eMachine (by decide) (by decide))]
    by_cases hmachine : eMachine.val b s.byte 0 = 0x17
    · rw [if_neg (not_not_intro hmachine), bind_of (hget eType (by decide) (by decide))]
      by_cases htype : eType.val b s.byte 0 = etExec
      · have hacc : Accepted b s.byte := ⟨hident, hmachine, htype⟩
        rw [if_neg (not_not_intro htype), if_pos hacc]
        rfl
      · have hacc : ¬ Accepted b s.byte := fun h => htype h.2.2
        rw [if_pos htype, if_neg hacc]
        rfl
    · have hacc : ¬ Accepted b s.byte := fun h => hmachine h.2.1
      rw [if_pos hmachine, if_neg hacc]
      rfl
  · have hacc : ¬ Accepted b s.byte := fun h => hident h.1
    rw [if_pos hident, if_neg hacc]
    rfl

/-- The toe can be placed where a segment starts at it. -/
def ToeFits (handle : Handle) (b : Bounds) (m : ℕ → UInt8) : Prop :=
  ∀ ph ∈ segments b m, pVaddr.val b m ph = (toeOf b m).addr →
    (toeOf b m).size ≤ handle.toeShadow.length ∧ (toeOf b m).addr + (toeOf b m).size ≤ lsSize

theorem WellFormed.placeable (hwf : WellFormed handle.elfImage b m) (htoe : ToeFits handle b m)
    (hph : ph ∈ segments b m) : Placeable handle b (relocated handle.elfImage b m) (toeOf b m) ph := by
  have hval : ∀ f : Field, f.disp + f.width ≤ phdrSize → 0 < f.width →
      f.val b (relocated handle.elfImage b m) ph = f.val b m ph :=
    fun f hf hwidth => hwf.walkable.segments_val hph hf hwidth
  have hvaddr := hval pVaddr (by decide) (by decide)
  have hfilesz := hval pFilesz (by decide) (by decide)
  have hmemsz := hval pMemsz (by decide) (by decide)
  have hoffset := hval pOffset (by decide) (by decide)
  refine ⟨?_, ?_, ?_, ?_⟩
  · rw [hoffset, hfilesz]
    exact hwf.contents ph hph
  · rw [hfilesz, hmemsz]
    exact hwf.filesz_le ph hph
  · rw [hvaddr, hmemsz, hwf.room]
    exact hwf.in_ls ph hph
  · intro h
    rw [h, hwf.room]
    exact htoe ph hph (hvaddr ▸ h)

/-- A load of an image whose segments fit: it fails if there are none. -/
theorem load_fits (ldInfo : SpeLdInfo) (hwalk : Walkable handle.elfImage b s.byte) (hroom : b.room < b.space)
    (hacc : Accepted b s.byte) (hfits : ∀ ph ∈ segments b s.byte,
      Fits handle b (relocated handle.elfImage b s.byte) (toeOf b s.byte) ph) :
    ∃ t, baseSpeLoadSpeElf handle ldInfo b s =
        some (if segments b s.byte = [] then (-einval, ldInfo) else (0, ⟨eEntry.val b s.byte 0⟩), t) ∧
      t.byte = relocated handle.elfImage b s.byte ∧
      t.written = s.written ++ (segments b s.byte).flatMap
        (segmentWrites handle b (relocated handle.elfImage b s.byte) (toeOf b s.byte)) := by
  have hsame : Agrees (tables b s.byte) s.byte s.byte := fun _ _ _ _ => rfl
  have hsections := sectionWalk_total hwalk
  generalize hm : relocated handle.elfImage b s.byte = m at hfits hsections ⊢
  generalize toeOf b s.byte = toe at hfits hsections ⊢
  have hphnum : ePhnum.val b m 0 = ePhnum.val b s.byte 0 := hm ▸ hwalk.header_val (by decide) (by decide)
  have hsegments : loadHeaders b m (ePhoff.val b s.byte 0) (ePhnum.val b m 0) = segments b s.byte := by
    rw [hphnum, ← hm]
    exact hwalk.segments_relocated
  have htable : ePhoff.val b s.byte 0 + phdrSize * ePhnum.val b m 0 ≤ b.size := by
    rw [hphnum]
    exact hwalk.inside _ phdrs_mem
  have hheader : ehdrSize ≤ b.size := by
    have h := hwalk.inside _ (ehdr_mem (b := b) (m := s.byte))
    omega
  obtain ⟨n, t, hloop⟩ := segmentLoop_total (s := { s with byte := m }) hwalk.size_le hroom hheader htable
    (hsegments.symm ▸ hfits)
  have hlooped := segmentLoop_run hloop
  have hcount : n = (segments b s.byte).length := hsegments ▸ hlooped.count
  have hwritten := hlooped.written
  rw [hsegments] at hwritten
  refine ⟨t, ?_, hlooped.image, hwritten⟩
  unfold baseSpeLoadSpeElf
  rw [bind_of (checkSpeElf_total hwalk.size_le hheader), if_pos hacc, if_neg (not_not_intro rfl),
    bind_of (hwalk.get_header hsame (f := ePhoff) (by decide) (by decide)), bind_of hsections, bind_of hloop]
  by_cases hnil : segments b s.byte = []
  · rw [if_pos hnil, if_pos (by rw [hcount, hnil]; rfl)]
    rfl
  · have hn : n ≠ 0 := hcount ▸ fun h => hnil (List.length_eq_zero_iff.mp h)
    have hentry : eEntry.get 0 b t = some (eEntry.val b s.byte 0, t) := by
      apply hwalk.get_header _ (by decide) (by decide)
      rw [hlooped.image, ← hm]
      exact hwalk.agrees_relocated
    rw [if_neg hnil, if_neg hn, bind_of hentry]
    rfl

/-- **A load of a well-formed image** returns 0, leaves the image relocated, and has written what the
relocated image holds for each segment. -/
theorem load_wellFormed (ldInfo : SpeLdInfo) (hwf : WellFormed handle.elfImage b s.byte)
    (htoe : ToeFits handle b s.byte) :
    ∃ t, baseSpeLoadSpeElf handle ldInfo b s = some ((0, ⟨eEntry.val b s.byte 0⟩), t) ∧
      t.byte = relocated handle.elfImage b s.byte ∧
      t.written = s.written ++ (segments b s.byte).flatMap
        (segmentWrites handle b (relocated handle.elfImage b s.byte) (toeOf b s.byte)) := by
  have hload := load_fits ldInfo hwf.walkable hwf.room_lt hwf.accepted fun ph hph => (hwf.placeable htoe hph).fits
  rwa [if_neg hwf.segments_ne] at hload

/-! ## What a segment leaves in local store -/

/-- The address is in the local store of the segment. -/
def InSegment (b : Bounds) (m : ℕ → UInt8) (ph a : ℕ) : Prop :=
  pVaddr.val b m ph ≤ a ∧ a < pVaddr.val b m ph + pMemsz.val b m ph

/-- The address is in the toe. -/
def Toe.Has (toe : Toe) (a : ℕ) : Prop := toe.addr ≤ a ∧ a < toe.addr + toe.size

instance (a : ℕ) : Decidable (InSegment b m ph a) := inferInstanceAs (Decidable (_ ∧ _))
instance (a : ℕ) : Decidable (toe.Has a) := inferInstanceAs (Decidable (_ ∧ _))

/-- What a segment of the image has at an address: a byte of the image, or a zero behind them. -/
def segmentByte (b : Bounds) (m : ℕ → UInt8) (ph a : ℕ) : UInt8 :=
  if a - pVaddr.val b m ph < pFilesz.val b m ph then m (pOffset.val b m ph + (a - pVaddr.val b m ph)) else 0

section
variable (hspace : b.size ≤ b.space) (hroom : b.room < b.space) (h : Placeable handle b m toe ph)
  (prev : ℕ → UInt8) (a : ℕ)
include h hroom

theorem content_padding : content prev (padding b m ph) a =
    if pVaddr.val b m ph + pFilesz.val b m ph ≤ a ∧ a < pVaddr.val b m ph + pMemsz.val b m ph then 0
    else prev a := by
  have hls := h.in_ls
  unfold padding
  by_cases hlt : pFilesz.val b m ph < pMemsz.val b m ph
  · have hmod : (pVaddr.val b m ph + pFilesz.val b m ph) % b.space = pVaddr.val b m ph + pFilesz.val b m ph :=
      Nat.mod_eq_of_lt (by omega)
    rw [if_pos hlt, hmod, Mapped.content_block, Mapped.put_eq_ite, List.length_replicate]
    have hend : pVaddr.val b m ph + pFilesz.val b m ph + (pMemsz.val b m ph - pFilesz.val b m ph) =
      pVaddr.val b m ph + pMemsz.val b m ph := by omega
    rw [hend]
    split
    next hin => exact List.getD_replicate 0 (by omega)
    next => rfl
  · rw [if_neg hlt, if_neg (by omega)]
    rfl

include hspace in
theorem content_base (hne : pFilesz.val b m ph ≠ 0) : content prev (base b m ph) a =
    if pVaddr.val b m ph ≤ a ∧ a < pVaddr.val b m ph + pFilesz.val b m ph then
      m (pOffset.val b m ph + (a - pVaddr.val b m ph)) else prev a := by
  have hls := h.in_ls
  have hle := h.filesz_le
  have hin := h.contents
  have hvaddr : pVaddr.val b m ph % b.space = pVaddr.val b m ph := Nat.mod_eq_of_lt (by omega)
  have hoffset : pOffset.val b m ph % b.space = pOffset.val b m ph := Nat.mod_eq_of_lt (by omega)
  rw [base, hvaddr, hoffset, Mapped.content_block, Mapped.put_eq_ite, Mapped.length_bytesAt]
  split
  next hin =>
    rw [List.getD_eq_getElem?_getD, Mapped.getElem?_bytesAt (by omega)]
    rfl
  next => rfl

theorem content_shadow (hvaddr : pVaddr.val b m ph = toe.addr) :
    content prev (block (pVaddr.val b m ph % b.space) (handle.toeShadow.take toe.size)) a =
      if toe.Has a then handle.toeShadow.getD (a - toe.addr) 0 else prev a := by
  obtain ⟨hshadow, hfits⟩ := h.shadow hvaddr
  have hls := h.in_ls
  have hmod : pVaddr.val b m ph % b.space = toe.addr := by
    rw [← hvaddr]
    exact Nat.mod_eq_of_lt (by omega)
  rw [hmod, Mapped.content_block, Mapped.put_eq_ite, List.length_take, Nat.min_eq_left hshadow]
  show (if toe.Has a then _ else _) = _
  split
  next hin =>
    have hlt : a - toe.addr < toe.size := by
      obtain ⟨h₁, h₂⟩ := hin
      omega
    rw [List.getD_eq_getElem?_getD, List.getElem?_take_of_lt hlt, List.getD_eq_getElem?_getD]
  next => rfl

include hspace in
/-- **What a segment leaves in local store**: the shadow in the toe, if the segment starts there, its own
bytes elsewhere, and nothing outside. -/
theorem content_segmentWrites : content prev (segmentWrites handle b m toe ph) a =
    if pVaddr.val b m ph = toe.addr ∧ toe.Has a then handle.toeShadow.getD (a - toe.addr) 0
    else if InSegment b m ph a then segmentByte b m ph a else prev a := by
  have hle := h.filesz_le
  -- the bytes of the image and the zeros behind them are the bytes of the segment
  have hparts : (if pVaddr.val b m ph ≤ a ∧ a < pVaddr.val b m ph + pFilesz.val b m ph then
      m (pOffset.val b m ph + (a - pVaddr.val b m ph)) else content prev (padding b m ph) a) =
        if InSegment b m ph a then segmentByte b m ph a else prev a := by
    rw [content_padding hroom h]
    unfold segmentByte
    by_cases hseg : InSegment b m ph a
    · obtain ⟨hlo, hhi⟩ := id hseg
      rw [if_pos hseg]
      by_cases hfile : pVaddr.val b m ph ≤ a ∧ a < pVaddr.val b m ph + pFilesz.val b m ph
      · have hlt : a - pVaddr.val b m ph < pFilesz.val b m ph := by omega
        rw [if_pos hfile, if_pos hlt]
      · have hge : ¬ a - pVaddr.val b m ph < pFilesz.val b m ph := by omega
        have hpad : pVaddr.val b m ph + pFilesz.val b m ph ≤ a ∧ a < pVaddr.val b m ph + pMemsz.val b m ph := by
          omega
        rw [if_neg hfile, if_neg hge, if_pos hpad]
    · have hout : ¬ (pVaddr.val b m ph ≤ a ∧ a < pVaddr.val b m ph + pMemsz.val b m ph) := hseg
      have hfile : ¬ (pVaddr.val b m ph ≤ a ∧ a < pVaddr.val b m ph + pFilesz.val b m ph) := by omega
      have hpad : ¬ (pVaddr.val b m ph + pFilesz.val b m ph ≤ a ∧
        a < pVaddr.val b m ph + pMemsz.val b m ph) := by omega
      rw [if_neg hseg, if_neg hfile, if_neg hpad]
  have hbase : content (content prev (padding b m ph))
      (if pFilesz.val b m ph ≠ 0 then base b m ph else []) a =
        if InSegment b m ph a then segmentByte b m ph a else prev a := by
    rw [← hparts]
    split
    next hne => exact content_base hspace hroom h _ a hne
    next hne =>
      rw [if_neg (by omega)]
      rfl
  rw [segmentWrites, Mapped.content_append, placed]
  by_cases hvaddr : pVaddr.val b m ph = toe.addr
  · rw [if_pos hvaddr, Mapped.content_append, content_shadow hroom h _ a hvaddr]
    by_cases htoe : toe.Has a
    · rw [if_pos htoe, if_pos (And.intro hvaddr htoe)]
    · have hneg : ¬ (pVaddr.val b m ph = toe.addr ∧ toe.Has a) := fun h => htoe h.2
      rw [if_neg htoe, if_neg hneg]
      by_cases hsize : toe.size = pFilesz.val b m ph
      · -- the toe is all that the segment has in the image
        have hcond : ¬ (toe.size ≠ pFilesz.val b m ph ∧ pFilesz.val b m ph ≠ 0) := fun h => h.1 hsize
        have hout : ¬ (toe.addr ≤ a ∧ a < toe.addr + toe.size) := htoe
        have hfile : ¬ (pVaddr.val b m ph ≤ a ∧ a < pVaddr.val b m ph + pFilesz.val b m ph) := by omega
        rw [if_neg hcond, ← hparts, if_neg hfile]
        rfl
      · have hcond : toe.size ≠ pFilesz.val b m ph ∧ pFilesz.val b m ph ≠ 0 ↔ pFilesz.val b m ph ≠ 0 :=
          and_iff_right hsize
        rw [if_congr hcond rfl rfl]
        exact hbase
  · have hneg : ¬ (pVaddr.val b m ph = toe.addr ∧ toe.Has a) := fun h => hvaddr h.1
    rw [if_neg hvaddr, if_neg hneg]
    exact hbase

end

/-! ## What a load leaves in local store -/

section
variable {a : ℕ}

theorem WellFormed.inSegment {elfImage : ℕ} (hwf : WellFormed elfImage b m) (hph : ph ∈ segments b m) :
    InSegment b (relocated elfImage b m) ph a ↔ InSegment b m ph a := by
  unfold InSegment
  rw [hwf.walkable.segments_val (f := pVaddr) hph (by decide) (by decide),
    hwf.walkable.segments_val (f := pMemsz) hph (by decide) (by decide)]

/-- The bytes of a segment, by the header that was mapped. -/
theorem WellFormed.segmentByte_eq {elfImage k : ℕ} (hwf : WellFormed elfImage b m) (hph : ph ∈ segments b m) :
    segmentByte b (relocated elfImage b m) ph (pVaddr.val b m ph + k) =
      if k < pFilesz.val b m ph then relocated elfImage b m (pOffset.val b m ph + k) else 0 := by
  unfold segmentByte
  rw [hwf.walkable.segments_val (f := pVaddr) hph (by decide) (by decide),
    hwf.walkable.segments_val (f := pFilesz) hph (by decide) (by decide),
    hwf.walkable.segments_val (f := pOffset) hph (by decide) (by decide), Nat.add_sub_cancel_left]

/-- An address is in one segment at most. -/
theorem WellFormed.segment_unique {elfImage q : ℕ} (hwf : WellFormed elfImage b m) (hph : ph ∈ segments b m)
    (hq : q ∈ segments b m) (h : InSegment b m ph a) (h' : InSegment b m q a) : ph = q := by
  by_contra hne
  have hsymm : Std.Symm fun p q => Apart (segmentRange b m p) (segmentRange b m q) := ⟨fun _ _ => Or.symm⟩
  have hapart : pVaddr.val b m ph + pMemsz.val b m ph ≤ pVaddr.val b m q ∨
      pVaddr.val b m q + pMemsz.val b m q ≤ pVaddr.val b m ph :=
    hwf.segments_apart.forall hph hq hne
  obtain ⟨h₁, h₂⟩ := h
  obtain ⟨h₃, h₄⟩ := h'
  omega

variable (hwf : WellFormed handle.elfImage b m) (htoe : ToeFits handle b m) (prev : ℕ → UInt8)
include hwf htoe

theorem WellFormed.content_one (hph : ph ∈ segments b m) (p : ℕ → UInt8) : content p
    (segmentWrites handle b (relocated handle.elfImage b m) (toeOf b m) ph) a =
      if pVaddr.val b m ph = (toeOf b m).addr ∧ (toeOf b m).Has a then
        handle.toeShadow.getD (a - (toeOf b m).addr) 0
      else if InSegment b m ph a then segmentByte b (relocated handle.elfImage b m) ph a else p a := by
  rw [content_segmentWrites hwf.size_le hwf.room_lt (hwf.placeable htoe hph),
    hwf.walkable.segments_val (f := pVaddr) hph (by decide) (by decide)]
  exact if_congr Iff.rfl rfl (if_congr (hwf.inSegment hph) rfl rfl)

/-- The toe holds the shadow, if it starts a segment and lies in no other. -/
theorem WellFormed.content_toe (hph : ph ∈ segments b m) (hstart : pVaddr.val b m ph = (toeOf b m).addr)
    (ha : (toeOf b m).Has a)
    (hother : ∀ q ∈ segments b m, InSegment b m q a → pVaddr.val b m q = (toeOf b m).addr) :
    content prev ((segments b m).flatMap
      (segmentWrites handle b (relocated handle.elfImage b m) (toeOf b m))) a =
        handle.toeShadow.getD (a - (toeOf b m).addr) 0 := by
  apply Mapped.content_flatMap
  · intro q hq p
    rw [hwf.content_one htoe hq p]
    by_cases hvaddr : pVaddr.val b m q = (toeOf b m).addr
    · rw [if_pos (And.intro hvaddr ha)]
      exact Or.inl rfl
    · have hout : ¬ InSegment b m q a := fun h => hvaddr (hother q hq h)
      have hneg : ¬ (pVaddr.val b m q = (toeOf b m).addr ∧ (toeOf b m).Has a) := fun h => hvaddr h.1
      rw [if_neg hneg, if_neg hout]
      exact Or.inr rfl
  · right
    refine ⟨ph, hph, fun p => ?_⟩
    rw [hwf.content_one htoe hph p, if_pos (And.intro hstart ha)]

/-- Outside of a toe that starts a segment, a segment holds what the image has for it. -/
theorem WellFormed.content_segment (hph : ph ∈ segments b m) (hin : InSegment b m ph a)
    (ha : ∀ q ∈ segments b m, ¬ (pVaddr.val b m q = (toeOf b m).addr ∧ (toeOf b m).Has a)) :
    content prev ((segments b m).flatMap
      (segmentWrites handle b (relocated handle.elfImage b m) (toeOf b m))) a =
        segmentByte b (relocated handle.elfImage b m) ph a := by
  apply Mapped.content_flatMap
  · intro q hq p
    rw [hwf.content_one htoe hq p, if_neg (ha q hq)]
    by_cases hq' : InSegment b m q a
    · obtain rfl := hwf.segment_unique hph hq hin hq'
      rw [if_pos hin]
      exact Or.inl rfl
    · rw [if_neg hq']
      exact Or.inr rfl
  · right
    refine ⟨ph, hph, fun p => ?_⟩
    rw [hwf.content_one htoe hph p, if_neg (ha ph hph), if_pos hin]

/-- Outside of all segments, and of a toe that starts one, nothing changes. -/
theorem WellFormed.content_outside (hout : ∀ ph ∈ segments b m, ¬ InSegment b m ph a)
    (ha : ∀ q ∈ segments b m, ¬ (pVaddr.val b m q = (toeOf b m).addr ∧ (toeOf b m).Has a)) :
    content prev ((segments b m).flatMap
      (segmentWrites handle b (relocated handle.elfImage b m) (toeOf b m))) a = prev a := by
  apply Mapped.content_flatMap
  · intro q hq p
    rw [hwf.content_one htoe hq p, if_neg (ha q hq), if_neg (hout q hq)]
    exact Or.inr rfl
  · exact Or.inl rfl

end

end LibSpe2.Elf
