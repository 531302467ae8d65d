import LibSpe2.SpeBase.ElfPlacement
import Mathlib.Data.List.Induction

/-!
# Where the toe is placed

The section walk collects the `.toe` sections, keeping the lowest address with 0 for none, and
`copy_to_ld_buffer` puts the shadow over a segment that starts at the address that was found.

* `ToeSections` — the `.toe` sections of an image make up 16 bytes.
* `ToePlaced` — after a load these 16 bytes hold the shadow, and the rest of their segment what the
  image holds.

Main results:
* `toe_placement` — the toe is placed if and only if it starts its segment, and is not at address 0 unless
  the last `.toe` section is.
* `toe_misplaced` — a toe in the middle of a segment.
-/

namespace LibSpe2.Elf

open Mapped (Bounds State content)

variable {b : Bounds} {s t : State} {m : ℕ → UInt8} {handle : Handle} {toe : Toe} {ph lo elfImage : ℕ}
  {ldInfo : SpeLdInfo} {l : List ℕ}

/-! ## The lowest address -/

theorem toeAddr_or (old addr : ℕ) : toeAddr old addr = addr ∨ old ≠ 0 ∧ old ≤ addr ∧ toeAddr old addr = old := by
  unfold toeAddr
  split
  next h => exact Or.inl rfl
  next h => exact Or.inr ⟨by omega, by omega, rfl⟩

theorem toeAddr_le_left {old addr : ℕ} (h : old ≠ 0) : toeAddr old addr ≤ old := by
  unfold toeAddr
  split
  next hcond => omega
  next => exact le_rfl

theorem toeAddr_le_right (old addr : ℕ) : toeAddr old addr ≤ addr := by
  unfold toeAddr
  split
  next => exact le_rfl
  next hcond => omega

theorem foldl_toeAddr_mem (hne : l.foldl toeAddr 0 ≠ 0) : l.foldl toeAddr 0 ∈ l := by
  induction l using List.reverseRecOn with
  | nil => exact absurd rfl hne
  | append_singleton l addr ih =>
    rw [List.foldl_append, List.foldl_cons, List.foldl_nil, List.mem_append, List.mem_singleton]
    rcases toeAddr_or (l.foldl toeAddr 0) addr with h | ⟨hold, -, h⟩
    · exact Or.inr h
    · rw [h]
      exact Or.inl (ih hold)

/-- The address that is kept is 0 if and only if there is none, or the last one is 0. -/
theorem foldl_toeAddr_eq_zero : l.foldl toeAddr 0 = 0 ↔ l = [] ∨ l.getLast? = some 0 := by
  induction l using List.reverseRecOn with
  | nil => exact iff_of_true rfl (Or.inl rfl)
  | append_singleton l addr ih =>
    rw [List.foldl_append, List.foldl_cons, List.foldl_nil, List.getLast?_append]
    simp only [List.append_eq_nil_iff, List.cons_ne_self, and_false, false_or]
    rcases toeAddr_or (l.foldl toeAddr 0) addr with h | ⟨hold, hle, h⟩
    · rw [h]
      simp
    · rw [h]
      constructor
      · intro hzero
        exact absurd hzero hold
      · intro hlast
        have : addr = 0 := by simpa using hlast
        omega

theorem foldl_toeAddr_le (hzero : 0 ∉ l) : ∀ addr ∈ l, l.foldl toeAddr 0 ≤ addr := by
  induction l using List.reverseRecOn with
  | nil => exact nofun
  | append_singleton l last ih =>
    intro addr haddr
    have hl : 0 ∉ l := fun h => hzero (List.mem_append_left _ h)
    rw [List.foldl_append, List.foldl_cons, List.foldl_nil]
    rcases List.mem_append.mp haddr with h | h
    · have hle := ih hl addr h
      have hne : l.foldl toeAddr 0 ≠ 0 := by
        rw [Ne, foldl_toeAddr_eq_zero, not_or]
        exact ⟨List.ne_nil_of_mem h, fun hlast => hl (List.mem_of_getLast? hlast)⟩
      exact (toeAddr_le_left hne).trans hle
    · obtain rfl := List.mem_singleton.mp h
      exact toeAddr_le_right _ _

/-- **The lowest address is found** if it is not 0, or comes last. -/
theorem foldl_toeAddr_eq (hmem : lo ∈ l) (hlo : ∀ addr ∈ l, lo ≤ addr) :
    l.foldl toeAddr 0 = lo ↔ lo ≠ 0 ∨ l.getLast? = some 0 := by
  by_cases hzero : lo = 0
  · rw [hzero, foldl_toeAddr_eq_zero]
    simp [List.ne_nil_of_mem hmem]
  · have hnot : 0 ∉ l := fun h => by
      have := hlo 0 h
      omega
    have hle := foldl_toeAddr_le hnot lo hmem
    have hne : l.foldl toeAddr 0 ≠ 0 := by
      rw [Ne, foldl_toeAddr_eq_zero, not_or]
      exact ⟨List.ne_nil_of_mem hmem, fun hlast => hnot (List.mem_of_getLast? hlast)⟩
    have hge := hlo _ (foldl_toeAddr_mem hne)
    exact iff_of_true (by omega) (Or.inl hzero)

/-! ## The `.toe` sections -/

/-- The `.toe` sections. -/
def toes (b : Bounds) (m : ℕ → UInt8) : List ℕ := (sections b m).filter (IsToe b m)

/-- The `.toe` sections have 16 bytes in total and lie in the 16 bytes from the lowest address `lo` on. -/
structure ToeSections (b : Bounds) (m : ℕ → UInt8) (lo : ℕ) : Prop where
  total : ((toes b m).map (shSize.val b m)).sum = 16
  lowest : lo ∈ (toes b m).map (shAddr.val b m)
  inside : ∀ sh ∈ toes b m, lo ≤ shAddr.val b m sh ∧ shAddr.val b m sh + shSize.val b m sh ≤ lo + 16

theorem toeOf_addr : (toeOf b m).addr = ((toes b m).map (shAddr.val b m)).foldl toeAddr 0 := by
  unfold toeOf toes
  generalize sections b m = shs
  suffices h : ∀ toe : Toe, (shs.foldl (toeAfter b m) toe).addr =
      ((shs.filter (IsToe b m)).map (shAddr.val b m)).foldl toeAddr toe.addr from h ⟨0, 0⟩
  induction shs with
  | nil => exact fun _ => rfl
  | cons sh shs ih =>
    intro toe
    rw [List.foldl_cons, ih, toeAfter]
    by_cases h : IsToe b m sh
    · rw [if_pos h, List.filter_cons, if_pos (decide_eq_true h), List.map_cons, List.foldl_cons]
    · rw [if_neg h, List.filter_cons, if_neg (by simpa using h)]

theorem toeOf_size (hspace : 0 < b.space) :
    (toeOf b m).size = ((toes b m).map (shSize.val b m)).sum % b.space := by
  unfold toeOf toes
  generalize sections b m = shs
  suffices hsum : ∀ toe : Toe, toe.size < b.space → (shs.foldl (toeAfter b m) toe).size =
      (toe.size + ((shs.filter (IsToe b m)).map (shSize.val b m)).sum) % b.space by
    rw [hsum ⟨0, 0⟩ hspace, Nat.zero_add]
  induction shs with
  | nil =>
    intro toe htoe
    exact (Nat.mod_eq_of_lt htoe).symm
  | cons sh shs ih =>
    intro toe htoe
    rw [List.foldl_cons]
    by_cases h : IsToe b m sh
    · have hsize : (toeAfter b m toe sh).size = (toe.size + shSize.val b m sh) % b.space := by
        rw [toeAfter, if_pos h]
        show ((toe.size + shSize.val b m sh : ℤ) % b.space).toNat = _
        rw [← Nat.cast_add, ← Int.natCast_mod, Int.toNat_natCast]
      rw [ih _ (hsize ▸ Nat.mod_lt _ hspace), hsize, List.filter_cons, if_pos (decide_eq_true h),
        List.map_cons, List.sum_cons, Nat.mod_add_mod, Nat.add_assoc]
    · rw [toeAfter, if_neg h, ih toe htoe, List.filter_cons, if_neg (by simpa using h)]

/-- The lowest address is found if it is not 0 or the last `.toe` section is there. -/
def LowestFound (b : Bounds) (m : ℕ → UInt8) (lo : ℕ) : Prop :=
  lo ≠ 0 ∨ ((toes b m).map (shAddr.val b m)).getLast? = some 0

instance : Decidable (LowestFound b m lo) := inferInstanceAs (Decidable (_ ∨ _))

theorem ToeSections.addr_eq (h : ToeSections b m lo) : (toeOf b m).addr = lo ↔ LowestFound b m lo := by
  rw [toeOf_addr]
  apply foldl_toeAddr_eq h.lowest
  intro addr haddr
  obtain ⟨sh, hsh, rfl⟩ := List.mem_map.mp haddr
  exact (h.inside sh hsh).1

theorem ToeSections.addr_bounds (h : ToeSections b m lo) :
    lo ≤ (toeOf b m).addr ∧ (toeOf b m).addr ≤ lo + 16 := by
  rw [toeOf_addr]
  by_cases hzero : ((toes b m).map (shAddr.val b m)).foldl toeAddr 0 = 0
  · -- 0 is one of the addresses
    rw [hzero]
    rcases foldl_toeAddr_eq_zero.mp hzero with hnil | hlast
    · have hmem := h.lowest
      rw [hnil] at hmem
      cases hmem
    · obtain ⟨sh, hsh, haddr⟩ := List.mem_map.mp (List.mem_of_getLast? hlast)
      have := h.inside sh hsh
      omega
  · obtain ⟨sh, hsh, haddr⟩ := List.mem_map.mp (foldl_toeAddr_mem hzero)
    have := h.inside sh hsh
    omega

/-! ## The toe in local store -/

/-- A load returns 0 and leaves the shadow at `lo`, and what the image holds in the rest of the segment `ph`. -/
def Shadowed (handle : Handle) (ldInfo : SpeLdInfo) (b : Bounds) (s : State) (lo ph : ℕ) : Prop :=
  ∃ info t, baseSpeLoadSpeElf handle ldInfo b s = some ((0, info), t) ∧ ∀ prev : ℕ → UInt8,
    (∀ k < 16, content prev t.written (lo + k) = handle.toeShadow.getD k 0) ∧
      ∀ a, InSegment b s.byte ph a → ¬ (lo ≤ a ∧ a < lo + 16) →
        content prev t.written a = segmentByte b t.byte ph a

/-- The toe is placed, whatever the 16 bytes of the shadow are. -/
def ToePlaced (elfImage : ℕ) (ldInfo : SpeLdInfo) (b : Bounds) (s : State) (lo ph : ℕ) : Prop :=
  ∀ shadow : List UInt8, shadow.length = 16 → Shadowed ⟨elfImage, shadow⟩ ldInfo b s lo ph

section
variable (hwf : WellFormed elfImage b s.byte) (htoe : ToeSections b s.byte lo) (hph : ph ∈ segments b s.byte)
  (hin : pVaddr.val b s.byte ph ≤ lo ∧ lo + 16 ≤ pVaddr.val b s.byte ph + pMemsz.val b s.byte ph)
  {shadow : List UInt8} (hshadow : shadow.length = 16)
include hwf htoe

theorem ToeSections.size_eq : (toeOf b s.byte).size = 16 := by
  rw [toeOf_size hwf.space_pos, htoe.total, hwf.toe_mod]

include hph hin hshadow

theorem ToeSections.fits : ToeFits ⟨elfImage, shadow⟩ b s.byte := by
  intro q hq hvaddr
  have hls := hwf.in_ls ph hph
  have hbounds := htoe.addr_bounds
  have hsize := htoe.size_eq hwf
  have haddr : lo ≠ 0 → (toeOf b s.byte).addr = lo := fun h => htoe.addr_eq.mpr (Or.inl h)
  have hlsSize : lsSize = 0x40000 := rfl
  refine ⟨hsize.trans_le hshadow.ge, ?_⟩
  by_cases hzero : lo = 0
  · omega
  · have := haddr hzero
    omega

/-- The toe is placed if it starts its segment and was found. -/
theorem toe_placed (hstart : lo = pVaddr.val b s.byte ph) (hfound : (toeOf b s.byte).addr = lo) :
    Shadowed ⟨elfImage, shadow⟩ ldInfo b s lo ph := by
  have hfits : ToeFits ⟨elfImage, shadow⟩ b s.byte := htoe.fits hwf hph hin hshadow
  have hsize := htoe.size_eq hwf
  have hwf' : WellFormed (Handle.mk elfImage shadow).elfImage b s.byte := hwf
  obtain ⟨t, hload, himage, hwritten⟩ := load_wellFormed ldInfo hwf' hfits
  refine ⟨_, t, hload, fun prev => ⟨?_, ?_⟩⟩
  · intro k hk
    have hhas : (toeOf b s.byte).Has (lo + k) := ⟨by omega, by omega⟩
    have hself : InSegment b s.byte ph (lo + k) := ⟨by omega, by omega⟩
    have hother : ∀ q ∈ segments b s.byte, InSegment b s.byte q (lo + k) →
        pVaddr.val b s.byte q = (toeOf b s.byte).addr := by
      intro q hq hq'
      obtain rfl := hwf.segment_unique hph hq hself hq'
      rw [← hstart, hfound]
    have hvaddr : pVaddr.val b s.byte ph = (toeOf b s.byte).addr := by rw [← hstart, hfound]
    rw [hwritten, Mapped.content_append,
      hwf'.content_toe hfits _ hph hvaddr hhas hother, hfound,
      Nat.add_sub_cancel_left]
  · intro a ha hout
    rw [hwritten, himage, Mapped.content_append]
    apply hwf'.content_segment hfits _ hph ha
    intro q hq hq'
    obtain ⟨h₁, h₂⟩ := hq'.2
    exact hout ⟨by omega, by omega⟩

/-- The first byte of a shadow that is placed. -/
theorem shadowed_first (h : Shadowed ⟨elfImage, shadow⟩ ldInfo b s lo ph) (prev : ℕ → UInt8) :
    content (content prev s.written) ((segments b s.byte).flatMap
      (segmentWrites ⟨elfImage, shadow⟩ b (relocated elfImage b s.byte) (toeOf b s.byte))) lo =
        shadow.getD 0 0 := by
  have hwf' : WellFormed (Handle.mk elfImage shadow).elfImage b s.byte := hwf
  obtain ⟨info, t, hload, hcontent⟩ := h
  obtain ⟨t', hload', -, hwritten⟩ := load_wellFormed ldInfo hwf' (htoe.fits hwf hph hin hshadow)
  obtain rfl : t = t' := (Prod.mk.inj (Option.some.inj (hload.symm.trans hload'))).2
  rw [← Mapped.content_append, ← hwritten]
  exact (hcontent prev).1 0 (by decide)

omit hshadow

/-- A toe that is not where it was found, or does not start its segment, is not written to: whatever the shadow
is, the same byte is at its address. -/
theorem toe_missed (hnot : ¬ (lo = pVaddr.val b s.byte ph ∧ (toeOf b s.byte).addr = lo))
    {shadow shadow' : List UInt8} (hlen : shadow.length = 16) (hlen' : shadow'.length = 16) (prev : ℕ → UInt8) :
    content prev ((segments b s.byte).flatMap
        (segmentWrites ⟨elfImage, shadow⟩ b (relocated elfImage b s.byte) (toeOf b s.byte))) lo =
      content prev ((segments b s.byte).flatMap
        (segmentWrites ⟨elfImage, shadow'⟩ b (relocated elfImage b s.byte) (toeOf b s.byte))) lo := by
  have hwf₁ : WellFormed (Handle.mk elfImage shadow).elfImage b s.byte := hwf
  have hwf₂ : WellFormed (Handle.mk elfImage shadow').elfImage b s.byte := hwf
  apply Mapped.content_flatMap_congr _ prev rfl
  intro q hq p p' hp
  have hneg : ¬ (pVaddr.val b s.byte q = (toeOf b s.byte).addr ∧ (toeOf b s.byte).Has lo) := by
    rintro ⟨hvaddr, hle, -⟩
    have hge := htoe.addr_bounds.1
    have haddr : (toeOf b s.byte).addr = lo := le_antisymm hle hge
    -- a segment that starts at the toe is the one that the toe is in
    have hne : q ≠ ph := fun h => hnot ⟨by rw [← h, hvaddr, haddr], haddr⟩
    have hsymm : Std.Symm fun p q => Apart (segmentRange b s.byte p) (segmentRange b s.byte q) :=
      ⟨fun _ _ => Or.symm⟩
    have hapart : pVaddr.val b s.byte q + pMemsz.val b s.byte q ≤ pVaddr.val b s.byte ph ∨
        pVaddr.val b s.byte ph + pMemsz.val b s.byte ph ≤ pVaddr.val b s.byte q :=
      hwf.segments_apart.forall hq hph hne
    by_cases hstart : lo = pVaddr.val b s.byte ph
    · exact hnot ⟨hstart, haddr⟩
    · omega
  rw [hwf₁.content_one (htoe.fits hwf hph hin hlen) hq, hwf₂.content_one (htoe.fits hwf hph hin hlen') hq,
    if_neg hneg, if_neg hneg, hp]

/-- **The toe is placed** if and only if the lowest `.toe` address starts its segment and is found: it is not 0, or
the last `.toe` section is there. -/
theorem toe_placement : ToePlaced elfImage ldInfo b s lo ph ↔
    lo = pVaddr.val b s.byte ph ∧ LowestFound b s.byte lo := by
  rw [← htoe.addr_eq]
  constructor
  · intro hplaced
    by_contra hnot
    -- two shadows that differ in their first byte
    have hzeros := shadowed_first hwf htoe hph hin List.length_replicate (hplaced (List.replicate 16 0) rfl)
      fun _ => 0
    have hones := shadowed_first hwf htoe hph hin List.length_replicate (hplaced (List.replicate 16 1) rfl)
      fun _ => 0
    rw [toe_missed hwf htoe hph hin hnot List.length_replicate (List.length_replicate (a := 1)), hones] at hzeros
    exact absurd hzeros (by decide)
  · intro h shadow hshadow
    exact toe_placed hwf htoe hph hin hshadow h.1 h.2

end

instance : Decidable (ToeSections b m lo) := decidable_of_iff
    (((toes b m).map (shSize.val b m)).sum = 16 ∧ lo ∈ (toes b m).map (shAddr.val b m) ∧
      ∀ sh ∈ toes b m, lo ≤ shAddr.val b m sh ∧ shAddr.val b m sh + shSize.val b m sh ≤ lo + 16)
    ⟨fun ⟨h₁, h₂, h₃⟩ => ⟨h₁, h₂, h₃⟩, fun h => ⟨h.total, h.lowest, h.inside⟩⟩

/-- A segment of 20 bytes at 0x100, with a `.toe` section of 16 bytes at `addr`. -/
def toeImage (addr : ℕ) : List UInt8 :=
  ehdrBytes 0x100 52 84 1 3 2 ++ phdrBytes ptLoad 210 0x100 20 20 ++
    (shdrBytes 0 0 0 0 0 0 0 ++ shdrBytes 1 1 addr (210 + (addr - 0x100)) 16 0 0 ++ shdrBytes 0 3 0 204 6 0 0) ++
    (0 :: toeName) ++ List.replicate 20 7

theorem toe_placement_start :
    ToePlaced 0x10000 ⟨0⟩ (bounds (toeImage 0x100)) (mapped (toeImage 0x100)) 0x100 52 :=
  (toe_placement (b := bounds (toeImage 0x100)) (s := mapped (toeImage 0x100)) (by decide +kernel)
    (by decide +kernel) (by decide +kernel) (by decide +kernel)).mpr (by decide +kernel)

/-- A toe four bytes behind the start of its segment holds what the image has there. -/
theorem toe_misplaced : ¬ ∀ (elfImage : ℕ) (ldInfo : SpeLdInfo) (b : Bounds) (s : State) (lo ph : ℕ),
    WellFormed elfImage b s.byte → ToeSections b s.byte lo → ph ∈ segments b s.byte →
      pVaddr.val b s.byte ph ≤ lo ∧ lo + 16 ≤ pVaddr.val b s.byte ph + pMemsz.val b s.byte ph →
        ToePlaced elfImage ldInfo b s lo ph := by
  intro hall
  have hplaced := hall 0x10000 ⟨0⟩ (bounds (toeImage 0x104)) (mapped (toeImage 0x104)) 0x104 52 (by decide +kernel)
    (by decide +kernel) (by decide +kernel) (by decide +kernel)
  obtain ⟨info, t, hload, hcontent⟩ := hplaced (List.replicate 16 1) rfl
  have hrun : ∃ r ∈ baseSpeLoadSpeElf ⟨0x10000, List.replicate 16 1⟩ ⟨0⟩ (bounds (toeImage 0x104))
      (mapped (toeImage 0x104)), content (fun _ => 0) r.2.written 0x104 = 7 := by
    decide +kernel
  obtain ⟨r, hr, hbyte⟩ := hrun
  obtain rfl := Option.some.inj (hload.symm.trans hr)
  exact absurd (((hcontent fun _ => 0).1 0 (by decide)).symm.trans hbyte) (by decide)

end LibSpe2.Elf
