import LibSpe2.SpeBase.ElfSegments
import Mathlib.Data.List.Chain
import Mathlib.Tactic.ByContra

/-!
# Overlays

At `overlay` the loader says which segments it does not load: those that start inside the segment
before. What it writes is compared with what the other segments hold.

* `Overlays` — the rule.
* `roots` — the segments that are to be loaded under it.
* `HasBytes` — the loader has something to write for a segment.

Main results:
* `overlay_segments` — the loader writes what the root segments hold and nothing else if and only if no
  segment with bytes is an overlay.
* `overlay_loaded` — an overlay is loaded over the bytes of its root.
-/

namespace LibSpe2.Elf

open Mapped (Bounds State Keeps block bytesAt digits bind_some pure_some)

variable {b : Bounds} {s t : State} {m : ℕ → UInt8} {handle : Handle} {toe : Toe} {ph prev : ℕ}
  {phs : List ℕ} {ldInfo info : SpeLdInfo}

/-! ## The rule -/

/-- The segment starts inside the segment `prev`. -/
def Overlays (b : Bounds) (m : ℕ → UInt8) (prev ph : ℕ) : Prop :=
  pVaddr.val b m prev ≤ pVaddr.val b m ph ∧ pVaddr.val b m ph < pVaddr.val b m prev + pMemsz.val b m prev

instance : Decidable (Overlays b m prev ph) := inferInstanceAs (Decidable (_ ∧ _))

/-- The loader has a byte to write for the segment: one of the image, a zero behind them, or one of the
toe. -/
def HasBytes (b : Bounds) (m : ℕ → UInt8) (toe : Toe) (ph : ℕ) : Prop :=
  pFilesz.val b m ph ≠ 0 ∨ pMemsz.val b m ph ≠ 0 ∨ pVaddr.val b m ph = toe.addr ∧ toe.size ≠ 0

instance : Decidable (HasBytes b m toe ph) := inferInstanceAs (Decidable (_ ∨ _ ∨ _))

/-- The segments behind `prev` that are no overlays. -/
def rootsAfter (b : Bounds) (m : ℕ → UInt8) : (prev : ℕ) → List ℕ → List ℕ
  | _, [] => []
  | prev, ph :: phs =>
    if Overlays b m prev ph then rootsAfter b m ph phs else ph :: rootsAfter b m ph phs

/-- The segments that are no overlays. -/
def roots (b : Bounds) (m : ℕ → UInt8) : List ℕ → List ℕ
  | [] => []
  | ph :: phs => ph :: rootsAfter b m ph phs

/-! ## Leaving out what has no bytes -/

section
variable {α : Type} {W : ℕ → List α}

theorem length_rootsAfter_le (prev : ℕ) (phs : List ℕ) :
    ((rootsAfter b m prev phs).flatMap W).length ≤ (phs.flatMap W).length := by
  induction phs generalizing prev with
  | nil => exact Nat.le_refl _
  | cons ph phs ih =>
    have := ih ph
    unfold rootsAfter
    split
    · rw [List.flatMap_cons, List.length_append]
      omega
    · rw [List.flatMap_cons, List.flatMap_cons, List.length_append, List.length_append]
      omega

/-- The overlays can be left out if and only if none of them has anything. -/
theorem flatMap_rootsAfter (prev : ℕ) (phs : List ℕ) :
    phs.flatMap W = (rootsAfter b m prev phs).flatMap W ↔
      (prev :: phs).IsChain fun prev ph => ¬ (Overlays b m prev ph ∧ W ph ≠ []) := by
  induction phs generalizing prev with
  | nil => exact iff_of_true rfl (List.isChain_singleton _)
  | cons ph phs ih =>
    rw [List.isChain_cons_cons, ← ih ph, rootsAfter, List.flatMap_cons]
    by_cases hover : Overlays b m prev ph
    · rw [if_pos hover]
      constructor
      · intro h
        have hle := length_rootsAfter_le (b := b) (m := m) (W := W) ph phs
        rw [← h, List.length_append] at hle
        have hnil : W ph = [] := List.eq_nil_of_length_eq_zero (by omega)
        rw [hnil, List.nil_append] at h
        exact ⟨fun hbytes => hbytes.2 hnil, h⟩
      · intro h
        have hnil : W ph = [] := by
          by_contra hne
          exact h.1 ⟨hover, hne⟩
        rw [hnil, List.nil_append]
        exact h.2
    · rw [if_neg hover, List.flatMap_cons, List.append_cancel_left_eq]
      exact ⟨fun h => ⟨fun hbytes => hover hbytes.1, h⟩, fun h => h.2⟩

theorem flatMap_roots (phs : List ℕ) : phs.flatMap W = (roots b m phs).flatMap W ↔
    phs.IsChain fun prev ph => ¬ (Overlays b m prev ph ∧ W ph ≠ []) := by
  cases phs with
  | nil => exact iff_of_true rfl List.isChain_nil
  | cons ph phs =>
    rw [roots, List.flatMap_cons, List.flatMap_cons, List.append_cancel_left_eq]
    exact flatMap_rootsAfter ph phs

end

theorem block_eq_nil {dst : ℕ} {bs : List UInt8} : block dst bs = [] ↔ bs = [] := by
  rw [← List.length_eq_zero_iff, Mapped.length_block, List.length_eq_zero_iff]

theorem base_eq_nil : base b m ph = [] ↔ pFilesz.val b m ph = 0 := by
  rw [base, block_eq_nil, ← List.length_eq_zero_iff, Mapped.length_bytesAt]

theorem padding_eq_nil : padding b m ph = [] ↔ pMemsz.val b m ph ≤ pFilesz.val b m ph := by
  unfold padding
  split
  next hlt =>
    rw [block_eq_nil, List.replicate_eq_nil_iff]
    omega
  next hge => exact iff_of_true rfl (by omega)

theorem placed_eq_nil (hshadow : pVaddr.val b m ph = toe.addr → toe.size ≤ handle.toeShadow.length) :
    placed handle b m toe ph = [] ↔
      pFilesz.val b m ph = 0 ∧ (pVaddr.val b m ph = toe.addr → toe.size = 0) := by
  unfold placed
  by_cases hvaddr : pVaddr.val b m ph = toe.addr
  · have hle := hshadow hvaddr
    have htake : handle.toeShadow.take toe.size = [] ↔ toe.size = 0 := by
      rw [← List.length_eq_zero_iff, List.length_take, Nat.min_eq_left hle]
    rw [if_pos hvaddr, List.append_eq_nil_iff, block_eq_nil, htake]
    split
    next hcopy =>
      rw [base_eq_nil]
      exact ⟨fun h => ⟨h.1, fun _ => h.2⟩, fun h => ⟨h.1, h.2 hvaddr⟩⟩
    next hcopy =>
      -- the segment is the toe, or has nothing in the image
      constructor
      · intro h
        exact ⟨by by_contra hne; exact hcopy ⟨by omega, hne⟩, fun _ => h.2⟩
      · intro h
        exact ⟨rfl, h.2 hvaddr⟩
  · rw [if_neg hvaddr]
    split
    next hcopy =>
      rw [base_eq_nil]
      exact ⟨fun h => ⟨h, fun h => absurd h hvaddr⟩, fun h => h.1⟩
    next hcopy => exact iff_of_true rfl ⟨not_not.mp hcopy, fun h => absurd h hvaddr⟩

/-- A segment is written if and only if it has bytes. -/
theorem segmentWrites_ne_nil
    (hshadow : pVaddr.val b m ph = toe.addr → toe.size ≤ handle.toeShadow.length) :
    segmentWrites handle b m toe ph ≠ [] ↔ HasBytes b m toe ph := by
  rw [segmentWrites, Ne, List.append_eq_nil_iff, padding_eq_nil, placed_eq_nil hshadow, HasBytes]
  by_cases hvaddr : pVaddr.val b m ph = toe.addr
  · simp only [hvaddr, true_imp_iff, true_and]
    omega
  · simp only [hvaddr, false_imp_iff, false_and, and_true, or_false]
    omega

/-- A load has written what the root segments hold, and nothing else. -/
def OverlaysLeftOut (handle : Handle) (b : Bounds) (s t : State) : Prop :=
  t.written = s.written ++
    (roots b t.byte (loadedHeaders b s t)).flatMap (segmentWrites handle b t.byte (foundToe handle b s))

instance : Decidable (OverlaysLeftOut handle b s t) := inferInstanceAs (Decidable (_ = _))

/-- No segment that has bytes starts inside the segment before it. -/
def OverlayFree (handle : Handle) (b : Bounds) (s t : State) : Prop :=
  (loadedHeaders b s t).IsChain fun prev ph =>
    ¬ (Overlays b t.byte prev ph ∧ HasBytes b t.byte (foundToe handle b s) ph)

instance : Decidable (OverlayFree handle b s t) := inferInstanceAs (Decidable (List.IsChain _ _))

/-- **Overlays are not left out**: a load writes what the root segments hold and nothing else if and only if
no segment that has bytes is an overlay. -/
theorem overlay_segments (hload : baseSpeLoadSpeElf handle ldInfo b s = some ((0, info), t)) :
    OverlaysLeftOut handle b s t ↔ OverlayFree handle b s t := by
  obtain ⟨hwritten, hshadow⟩ := load_written hload
  rw [OverlaysLeftOut, hwritten, List.append_cancel_left_eq, flatMap_roots (b := b) (m := t.byte)]
  apply List.IsChain.iff_of_mem_imp
  intro prev ph _ hph
  rw [segmentWrites_ne_nil (hshadow ph hph)]

/-! ## Two images -/

/-- Two segments that are apart. -/
def apartImage : List UInt8 :=
  ehdrBytes 0x100 52 0 2 0 0 ++ phdrBytes ptLoad 116 0x100 2 4 ++ phdrBytes ptLoad 118 0x200 1 1 ++ [1, 2, 9]

theorem overlay_segments_apart : ∃ (info : SpeLdInfo) (t : State),
    baseSpeLoadSpeElf ⟨0, []⟩ ⟨0⟩ (bounds apartImage) (mapped apartImage) = some ((0, info), t) ∧
      OverlaysLeftOut ⟨0, []⟩ (bounds apartImage) (mapped apartImage) t := by
  obtain ⟨info, t, hload, hfree⟩ := exists_load ⟨0, []⟩ ⟨0⟩ (bounds apartImage) (mapped apartImage)
    (fun r => OverlayFree ⟨0, []⟩ (bounds apartImage) (mapped apartImage) r.2) (by decide +kernel)
  exact ⟨info, t, hload, (overlay_segments hload).mpr hfree⟩

/-- A segment that starts inside the one before it. -/
def overlayImage : List UInt8 :=
  ehdrBytes 0x100 52 0 2 0 0 ++ phdrBytes ptLoad 116 0x100 2 4 ++ phdrBytes ptLoad 118 0x101 1 1 ++ [1, 2, 9]

/-- The byte 9 of the overlay is written over the 2 of its root. -/
theorem overlay_loaded : ¬ ∀ (handle : Handle) (ldInfo info : SpeLdInfo) (b : Bounds) (s t : State),
    baseSpeLoadSpeElf handle ldInfo b s = some ((0, info), t) → OverlaysLeftOut handle b s t := by
  intro hall
  obtain ⟨info, t, hload, hnot, -⟩ := exists_load ⟨0, []⟩ ⟨0⟩ (bounds overlayImage) (mapped overlayImage)
    (fun r => ¬ OverlaysLeftOut ⟨0, []⟩ (bounds overlayImage) (mapped overlayImage) r.2 ∧
      r.2.written = [(0x102, 0), (0x103, 0), (0x100, 1), (0x101, 2), (0x101, 9)]) (by decide +kernel)
  exact hnot (hall _ _ info _ _ t hload)

end LibSpe2.Elf
