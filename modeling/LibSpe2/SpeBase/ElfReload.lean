import LibSpe2.SpeBase.ElfReference

/-!
# Loading an image again

A load leaves the image relocated, and the next load of the same handle starts from there. It comes to
the same relocations, since no target lies in what they are computed from, and applying them a second
time changes nothing.

* `Reloadable` — everything that the section walk reads is inside the image, and no relocation target
  lies in it.

Main results:
* `Reloadable.relocated` — the relocated image is as the walk trusts it to be, with the same relocations.
* `load_repeatable` — every load after the first leaves the image as it is and writes the same.
-/

namespace LibSpe2.Elf

open Mapped (Bounds State Appends digits bytesAt bind_of bind_some pure_some)

variable {b : Bounds} {s t : State} {m v : ℕ → UInt8} {handle : Handle} {toe : Toe} {f : Field}
  {ph phdr elfImage : ℕ} {ldInfo info : SpeLdInfo} {rs : List Reloc} {off : ℕ}

/-! ## Relocations a second time -/

/-- What a relocation leaves in its target does not depend on what was there. -/
theorem patch_hit {r : Reloc} (h : r.Hits off) : patch m r off = patch v r off := by
  obtain ⟨hlo, hhi⟩ := h
  obtain ⟨i, rfl⟩ := Nat.exists_eq_add_of_le hlo
  have hi : i < (digits r.width r.value).length := by
    rw [Mapped.length_digits]
    omega
  rw [patch, patch, Mapped.put_inside hi, Mapped.put_inside hi]

theorem foldl_patch_hit {r : Reloc} (hr : r ∈ rs) (h : r.Hits off) :
    rs.foldl patch m off = rs.foldl patch v off := by
  induction rs using List.reverseRecOn with
  | nil => cases hr
  | append_singleton rs q ih =>
    rw [List.foldl_append, List.foldl_append]
    show patch _ q off = patch _ q off
    by_cases hq : q.Hits off
    · exact patch_hit hq
    · rw [patch_other hq, patch_other hq]
      rcases List.mem_append.mp hr with hr | hr
      · exact ih hr
      · exact absurd (List.mem_singleton.mp hr ▸ h) hq

/-- Relocations that have been applied change nothing. -/
theorem foldl_patch_again (rs : List Reloc) (m : ℕ → UInt8) :
    rs.foldl patch (rs.foldl patch m) = rs.foldl patch m := by
  funext off
  by_cases h : ∃ r ∈ rs, r.Hits off
  · obtain ⟨r, hr, hoff⟩ := h
    exact foldl_patch_hit hr hoff
  · exact foldl_patch_other fun r hr hoff => h ⟨r, hr, hoff⟩

/-! ## What the walk reads -/

/-- The header of the section-name table, and the tables. -/
def walked (b : Bounds) (m : ℕ → UInt8) : List (ℕ × ℕ) :=
  (sectionAt b m (eShstrndx.val b m 0), shdrSize) :: tables b m

/-- What the section walk reads is inside the image, and no relocation target lies in it. -/
structure Reloadable (elfImage : ℕ) (b : Bounds) (m : ℕ → UInt8) : Prop extends Walkable elfImage b m where
  header_apart : ∀ r ∈ relocs elfImage b m,
    Apart r.range (sectionAt b m (eShstrndx.val b m 0), shdrSize)

section
variable (hwf : Walkable elfImage b m) (hv : Agrees (walked b m) m v)
include hwf hv

theorem Walkable.header_same (hf : f.disp + f.width ≤ ehdrSize) (hwidth : 0 < f.width) :
    f.val b v 0 = f.val b m 0 :=
  Field.val_of hwf.size_le hv (List.mem_cons_of_mem _ ehdr_mem) (hwf.inside _ ehdr_mem) le_rfl (by omega) hwidth

theorem Walkable.sectionAt_same (i : ℕ) : sectionAt b v i = sectionAt b m i := by
  unfold sectionAt
  rw [hwf.header_same hv (f := eShoff) (by decide) (by decide)]

theorem Walkable.sections_same : sections b v = sections b m := by
  unfold sections sectionsUpTo
  rw [hwf.header_same hv (f := eShnum) (by decide) (by decide)]
  exact List.map_congr_left fun i _ => hwf.sectionAt_same hv i

theorem Walkable.section_same {sh : ℕ} (hsh : sh ∈ sections b m) (hf : f.disp + f.width ≤ shdrSize)
    (hwidth : 0 < f.width) : f.val b v sh = f.val b m sh := by
  obtain ⟨i, hi, rfl⟩ := List.mem_map.mp hsh
  have hle : shdrSize * (i + 1) ≤ shdrSize * eShnum.val b m 0 := Nat.mul_le_mul_left _ (List.mem_range.mp hi)
  rw [Nat.mul_succ] at hle
  apply Field.val_of hwf.size_le hv (List.mem_cons_of_mem _ shdrs_mem) (hwf.inside _ shdrs_mem)
    (Nat.le_add_right ..) _ hwidth
  omega

theorem Walkable.names_same (hf : f.disp + f.width ≤ shdrSize) (hwidth : 0 < f.width) :
    f.val b v (sectionAt b v (eShstrndx.val b v 0)) = f.val b m (sectionAt b m (eShstrndx.val b m 0)) := by
  rw [hwf.sectionAt_same hv, hwf.header_same hv (f := eShstrndx) (by decide) (by decide)]
  exact Field.val_of hwf.size_le hv (List.mem_cons_self ..) hwf.names_header le_rfl (by omega) hwidth

theorem Walkable.nameTable_same : nameTable b v = nameTable b m :=
  hwf.names_same hv (by decide) (by decide)

theorem Walkable.nameTableSize_same : nameTableSize b v = nameTableSize b m :=
  hwf.names_same hv (by decide) (by decide)

theorem Walkable.relas_same : ((sections b v).filter fun sh => shType.val b v sh = shtRela) =
    (sections b m).filter fun sh => shType.val b m sh = shtRela := by
  rw [hwf.sections_same hv]
  apply List.filter_congr
  intro sh hsh
  rw [hwf.section_same hv hsh (f := shType) (by decide) (by decide)]

theorem Walkable.tables_same : tables b v = tables b m := by
  unfold tables
  rw [hwf.header_same hv (f := ePhoff) (by decide) (by decide),
    hwf.header_same hv (f := ePhnum) (by decide) (by decide),
    hwf.header_same hv (f := eShoff) (by decide) (by decide),
    hwf.header_same hv (f := eShnum) (by decide) (by decide), hwf.nameTable_same hv, hwf.nameTableSize_same hv,
    hwf.relas_same hv]
  congr 4
  apply List.map_congr_left
  intro sh hsh
  have hsh := (List.mem_filter.mp hsh).1
  rw [hwf.section_same hv hsh (f := shOffset) (by decide) (by decide),
    hwf.section_same hv hsh (f := shSize) (by decide) (by decide)]

/-- The entries of a relocation table. -/
theorem Walkable.relocsOf_same {sh : ℕ} (hsh : sh ∈ sections b m) :
    relocsOf elfImage b v sh = relocsOf elfImage b m sh := by
  unfold relocsOf
  rw [hwf.section_same hv hsh (f := shType) (by decide) (by decide)]
  by_cases htype : shType.val b m sh = shtRela
  · rw [if_pos htype, if_pos htype, hwf.section_same hv hsh (f := shInfo) (by decide) (by decide),
      hwf.section_same hv hsh (f := shSize) (by decide) (by decide), hwf.sectionAt_same hv]
    have hother := sectionAt_mem (hwf.relocated_section sh hsh htype)
    generalize sectionAt b m (shInfo.val b m sh) = other at hother ⊢
    unfold relocsUpTo
    rw [hwf.section_same hv hother (f := shOffset) (by decide) (by decide),
      hwf.section_same hv hother (f := shAddr) (by decide) (by decide),
      hwf.section_same hv hsh (f := shOffset) (by decide) (by decide)]
    apply List.flatMap_congr
    intro j hj
    have hle : relaSize * (j + 1) ≤ relaSize * relaCount (shSize.val b m sh) :=
      Nat.mul_le_mul_left _ (List.mem_range.mp hj)
    rw [Nat.mul_succ] at hle
    have hentry : ∀ f : Field, f.disp + f.width ≤ relaSize → 0 < f.width →
        f.val b v (shOffset.val b m sh + relaSize * j) = f.val b m (shOffset.val b m sh + relaSize * j) := by
      intro f hf hwidth
      exact Field.val_of hwf.size_le hv (List.mem_cons_of_mem _ (relas_mem hsh htype))
        (hwf.inside _ (relas_mem hsh htype)) (Nat.le_add_right ..) (by omega) hwidth
    unfold relocAt
    rw [hentry rOffset (by decide) (by decide), hentry rInfo (by decide) (by decide),
      hentry rAddend (by decide) (by decide)]
  · rw [if_neg htype, if_neg htype]

theorem Walkable.relocs_same : relocs elfImage b v = relocs elfImage b m := by
  unfold relocs
  rw [hwf.sections_same hv]
  exact List.flatMap_congr fun sh hsh => hwf.relocsOf_same hv hsh

omit hwf in
/-- A byte of the section-name table. -/
theorem nameByte_same {k : ℕ} (hk : k < nameTableSize b m) :
    v (nameTable b m + k) = m (nameTable b m + k) :=
  hv _ (List.mem_cons_of_mem _ names_mem) k hk

theorem Walkable.isToe_same {sh : ℕ} (hsh : sh ∈ sections b m) : IsToe b v sh ↔ IsToe b m sh := by
  obtain ⟨k, hk, hname, hnul⟩ := hwf.names sh hsh
  unfold IsToe
  rw [hwf.nameTable_same hv, hwf.section_same hv hsh (f := shName) (by decide) (by decide)]
  generalize hoff : nameTable b m + shName.val b m sh = off
  have hend : off ≤ nameTable b m + k := by omega
  have hbyte : ∀ j, off ≤ j → j ≤ nameTable b m + k → v j = m j := by
    intro j hlo hhi
    have hsub : nameTable b m + (j - nameTable b m) = j := by omega
    rw [← hsub]
    exact nameByte_same hv (by omega)
  constructor
  · exact toeName_of_agree hend ((nameByte_same hv hk).trans hnul) fun j hlo hhi => (hbyte j hlo hhi).symm
  · exact toeName_of_agree hend hnul hbyte

theorem Walkable.toeOf_same : toeOf b v = toeOf b m := by
  unfold toeOf
  rw [hwf.sections_same hv]
  apply List.foldl_ext
  intro toe sh hsh
  unfold toeAfter
  rw [if_congr (hwf.isToe_same hv hsh) rfl rfl, hwf.section_same hv hsh (f := shAddr) (by decide) (by decide),
    hwf.section_same hv hsh (f := shSize) (by decide) (by decide)]

/-- An image that agrees in what the walk reads is one that the walk can go through. -/
theorem Walkable.same : Walkable elfImage b v where
  size_le := hwf.size_le
  inside := hwf.tables_same hv ▸ hwf.inside
  names_header := by
    rw [hwf.sectionAt_same hv, hwf.header_same hv (f := eShstrndx) (by decide) (by decide)]
    exact hwf.names_header
  names := by
    intro sh hsh
    rw [hwf.sections_same hv] at hsh
    obtain ⟨k, hk, hname, hnul⟩ := hwf.names sh hsh
    refine ⟨k, ?_, ?_, ?_⟩
    · rwa [hwf.nameTableSize_same hv]
    · rwa [hwf.section_same hv hsh (f := shName) (by decide) (by decide)]
    · rw [hwf.nameTable_same hv, nameByte_same hv hk, hnul]
  relocated_section := by
    intro sh hsh
    rw [hwf.sections_same hv] at hsh
    rw [hwf.section_same hv hsh (f := shType) (by decide) (by decide),
      hwf.section_same hv hsh (f := shInfo) (by decide) (by decide),
      hwf.header_same hv (f := eShnum) (by decide) (by decide)]
    exact hwf.relocated_section sh hsh
  targets := hwf.relocs_same hv ▸ hwf.targets
  tables_apart := by
    rw [hwf.relocs_same hv, hwf.tables_same hv]
    exact hwf.tables_apart

end

theorem Reloadable.agrees (hwf : Reloadable elfImage b m) : Agrees (walked b m) m (relocated elfImage b m) := by
  apply foldl_patch_agrees fun _ _ _ _ => rfl
  intro r hr q hq
  rcases List.mem_cons.mp hq with rfl | hq
  · exact hwf.header_apart r hr
  · exact hwf.tables_apart r hr q hq

/-- Relocating an image again changes nothing. -/
theorem Reloadable.relocated_again (hwf : Reloadable elfImage b m) :
    relocated elfImage b (relocated elfImage b m) = relocated elfImage b m := by
  show (relocs elfImage b (relocated elfImage b m)).foldl patch _ = _
  rw [hwf.relocs_same hwf.agrees]
  exact foldl_patch_again _ m

/-- **The section walk of a relocated image** finds the same toe and leaves the image as it is. -/
theorem Reloadable.walk_again (hwf : Reloadable handle.elfImage b m)
    (hs : s.byte = relocated handle.elfImage b m) : sectionWalk handle b s = some (toeOf b m, s) := by
  have hagree := hwf.agrees
  have hwalk : Walkable handle.elfImage b s.byte := hs ▸ hwf.toWalkable.same hagree
  rw [sectionWalk_total hwalk, hs, hwf.toeOf_same hagree, hwf.relocated_again, ← hs]

/-! ## The segment loop does not look at local store -/

theorem Field.appends_get {p : ℕ} : Appends (f.get p) := Mapped.appends_read

theorem copyImage_appends (dst n off : ℕ) : Appends (copyImage dst n off) :=
  Mapped.appends_bytes.bind fun _ => Mapped.appends_emit

theorem copyShadow_appends (dst n : ℕ) : Appends (copyShadow handle dst n) :=
  Mapped.appends_ite Mapped.appends_emit Mapped.appends_outside

theorem copyToLdBuffer_appends : Appends (copyToLdBuffer handle ph toe) := by
  apply Field.appends_get.bind
  intro vaddr
  apply Field.appends_get.bind
  intro filesz
  apply Field.appends_get.bind
  intro offset
  apply Mapped.appends_ite
  · apply (Mapped.appends_whenever (copyImage_appends _ _ _)).bind
    intro _
    exact copyShadow_appends _ _
  · exact Mapped.appends_whenever (copyImage_appends _ _ _)

theorem padSegment_appends : Appends (padSegment ph) := by
  apply Field.appends_get.bind
  intro filesz
  apply Field.appends_get.bind
  intro memsz
  apply Field.appends_get.bind
  intro vaddr
  exact Mapped.appends_whenever Mapped.appends_emit

theorem overlay_appends (prevPh : Option ℕ) : Appends (overlay ph prevPh) := by
  cases prevPh with
  | none => exact Mapped.appends_pure
  | some prevPh =>
    apply Field.appends_get.bind
    intro vaddr
    apply Field.appends_get.bind
    intro prevVaddr
    apply Mapped.appends_ite _ Mapped.appends_pure
    exact Field.appends_get.bind fun prevMemsz => Mapped.appends_pure

theorem loadSegment_appends (i : ℕ) (st : Option ℕ × ℕ) : Appends (loadSegment handle phdr toe i st) := by
  apply Field.appends_get.bind
  intro type
  apply Mapped.appends_ite _ Mapped.appends_pure
  apply (overlay_appends _).bind
  intro isOverlay
  apply Mapped.appends_ite Mapped.appends_pure
  apply padSegment_appends.bind
  intro _
  apply copyToLdBuffer_appends.bind
  intro _
  exact Mapped.appends_pure

theorem segmentLoop_appends : Appends (segmentLoop handle phdr toe) := by
  apply (Mapped.appends_upTo Field.appends_get loadSegment_appends _ _ _).bind
  intro st
  exact Mapped.appends_pure

/-! ## The load -/

/-- What `check_spe_elf` goes by. -/
theorem checkSpeElf_same {r : ℤ} (h : checkSpeElf b s = some (r, s)) (hspace : b.size ≤ b.space)
    (hin : ehdrSize ≤ b.size) (hsame : Agrees [(0, ehdrSize)] s.byte t.byte) :
    checkSpeElf b t = some (r, t) := by
  have hident : bytesAt t.byte eiPad 0 = bytesAt s.byte eiPad 0 := by
    apply Mapped.bytesAt_congr
    intro i hi
    exact hsame _ (List.mem_singleton_self _) i (lt_trans hi (by decide))
  have hget : ∀ u : State, Agrees [(0, ehdrSize)] s.byte u.byte → ∀ f : Field, f.disp + f.width ≤ ehdrSize →
      0 < f.width → f.get 0 b u = some (f.val b s.byte 0, u) := by
    intro u hu f hf hwidth
    exact Field.get_of hspace hu (List.mem_singleton_self _) (by omega) le_rfl (by omega) hwidth
  have hrefl : Agrees [(0, ehdrSize)] s.byte s.byte := fun _ _ _ _ => rfl
  have hbytes : ∀ u : State, Mapped.bytes eiPad 0 b u = some (bytesAt u.byte eiPad 0, u) :=
    fun u => Mapped.bytes_of hspace (by decide) (le_trans (by decide) hin)
  unfold checkSpeElf at h ⊢
  rw [bind_of (hbytes s)] at h
  rw [bind_of (hbytes t), hident]
  by_cases h₁ : bytesAt s.byte eiPad 0 = expected
  · rw [if_neg (not_not_intro h₁), bind_of (hget s hrefl eMachine (by decide) (by decide))] at h
    rw [if_neg (not_not_intro h₁), bind_of (hget t hsame eMachine (by decide) (by decide))]
    by_cases h₂ : eMachine.val b s.byte 0 = 0x17
    · rw [if_neg (not_not_intro h₂), bind_of (hget s hrefl eType (by decide) (by decide))] at h
      rw [if_neg (not_not_intro h₂), bind_of (hget t hsame eType (by decide) (by decide))]
      by_cases h₃ : eType.val b s.byte 0 = etExec
      · rw [if_neg (not_not_intro h₃)] at h ⊢
        rw [(Prod.mk.inj (pure_some.mp h)).1]
        rfl
      · rw [if_pos h₃] at h ⊢
        rw [(Prod.mk.inj (pure_some.mp h)).1]
        rfl
    · rw [if_pos h₂] at h ⊢
      rw [(Prod.mk.inj (pure_some.mp h)).1]
      rfl
  · rw [if_pos h₁] at h ⊢
    rw [(Prod.mk.inj (pure_some.mp h)).1]
    rfl

theorem load_checked (hload : baseSpeLoadSpeElf handle ldInfo b s = some ((0, info), t)) :
    checkSpeElf b s = some (0, s) := by
  unfold baseSpeLoadSpeElf at hload
  rw [bind_some] at hload
  obtain ⟨ret, s₁, hcheck, hload⟩ := hload
  obtain rfl : s₁ = s := checkSpeElf_keeps (g := id) b s ret s₁ hcheck
  by_cases hret : ret = 0
  · rw [hcheck, hret]
  · rw [if_pos hret, pure_some, Prod.mk.injEq, Prod.mk.injEq] at hload
    exact absurd hload.1.1.symm hret

/-- **Loading is repeatable**: after a load of a handle, a load of the same handle into any local store
returns the same, leaves the image as it is, and writes the same bytes at the same addresses. -/
theorem load_repeatable (hwf : Reloadable handle.elfImage b s.byte)
    (hload : baseSpeLoadSpeElf handle ldInfo b s = some ((0, info), t)) :
    ∃ ws, t.written = s.written ++ ws ∧ ∀ (ldInfo' : SpeLdInfo) (u : State), u.byte = t.byte →
      baseSpeLoadSpeElf handle ldInfo' b u = some ((0, info), ⟨u.byte, u.written ++ ws⟩) := by
  have hwalk := hwf.toWalkable
  obtain ⟨toe, u₀, n, hfirst, hloop, hn, hinfo⟩ := load_parts hload
  rw [sectionWalk_total hwalk, Option.some.injEq, Prod.mk.injEq] at hfirst
  obtain ⟨rfl, rfl⟩ := hfirst
  have himage : t.byte = relocated handle.elfImage b s.byte := (segmentLoop_run hloop).image
  obtain ⟨ws, hws, hagain⟩ := segmentLoop_appends b _ _ n t hloop
  refine ⟨ws, hws, fun ldInfo' u hu => ?_⟩
  have hrelocated : u.byte = relocated handle.elfImage b s.byte := hu.trans himage
  have htables : Agrees (tables b s.byte) s.byte u.byte :=
    hrelocated ▸ fun r hr => hwf.agrees r (List.mem_cons_of_mem _ hr)
  have hheader : Agrees [(0, ehdrSize)] s.byte u.byte := by
    intro r hr
    obtain rfl := List.mem_singleton.mp hr
    exact htables _ ehdr_mem
  have hcheck := checkSpeElf_same (load_checked hload) hwf.size_le
    (by simpa using hwf.inside _ ehdr_mem) hheader
  have hentry : eEntry.val b t.byte 0 = eEntry.val b s.byte 0 := by
    rw [himage]
    exact hwalk.header_same hwf.agrees (by decide) (by decide)
  have hsegments := hagain u.written
  rw [show relocated handle.elfImage b s.byte = u.byte from hrelocated.symm, ← hu] at hsegments
  have hlast : eEntry.get 0 b ⟨u.byte, u.written ++ ws⟩ = some (eEntry.val b s.byte 0, ⟨u.byte, u.written ++ ws⟩) :=
    hwalk.get_header htables (by decide) (by decide)
  unfold baseSpeLoadSpeElf
  rw [bind_of hcheck, if_neg (not_not_intro rfl), bind_of (hwalk.get_header htables (by decide) (by decide)),
    bind_of (hwf.walk_again hrelocated), bind_of hsegments, if_neg hn, bind_of hlast, hinfo, hentry]
  rfl

/-- The image with a toe and two relocations. -/
theorem load_repeatable_full : ∃ info t ws,
    baseSpeLoadSpeElf fullHandle ⟨0⟩ (bounds fullImage) (mapped fullImage) = some ((0, info), t) ∧
      t.written = (mapped fullImage).written ++ ws ∧ ∀ (ldInfo' : SpeLdInfo) (u : State), u.byte = t.byte →
        baseSpeLoadSpeElf fullHandle ldInfo' (bounds fullImage) u =
          some ((0, info), ⟨u.byte, u.written ++ ws⟩) := by
  have hwf : WellFormed fullHandle.elfImage (bounds fullImage) (mapped fullImage).byte := by decide +kernel
  have hapart : ∀ r ∈ relocs fullHandle.elfImage (bounds fullImage) (mapped fullImage).byte, Apart r.range
      (sectionAt (bounds fullImage) (mapped fullImage).byte (eShstrndx.val (bounds fullImage)
        (mapped fullImage).byte 0), shdrSize) := by decide +kernel
  have htoe : ToeForm fullHandle (bounds fullImage) (mapped fullImage).byte :=
    Or.inr ⟨156, by decide +kernel, by decide +kernel, by decide +kernel, 52, by decide +kernel⟩
  obtain ⟨t, hload, -⟩ := load_wellFormed ⟨0⟩ hwf (htoe.fits hwf)
  obtain ⟨ws, hws, hagain⟩ := load_repeatable ⟨hwf.walkable, hapart⟩ hload
  exact ⟨_, t, ws, hload, hws, hagain⟩

end LibSpe2.Elf
