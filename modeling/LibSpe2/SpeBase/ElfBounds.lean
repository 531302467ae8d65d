import LibSpe2.SpeBase.ElfReference
import LibSpe2.SpeBase.ElfToeEar

/-!
# Images that are opened, and how far they reach (`spebase/image.c`)

No function of the loader knows how long the image is: each goes where the headers point. So they stay
inside the image, and inside local store, as far as the headers do.

* `baseSpeImageOpen` — what `_base_spe_image_open` does with a file that it has mapped.
* `Inside` — the functions fail or stay inside, from the first look at an image to its load.
* `Bounded` — how far the headers of an image may reach.

Main results:
* `load_total` — a load of an image that has been opened stays inside.
* `image_inside` — the functions stay inside an image that is bounded.
-/

namespace LibSpe2.Elf

open Mapped (Bounds State block bytesAt bind_of)

variable {b : Bounds} {s t : State} {m : ℕ → UInt8} {handle : Handle} {toe : Toe} {ph elfImage : ℕ}
  {ldInfo : SpeLdInfo}

/-! ## Opening an image -/

/-- `_base_spe_image_open`, for a file mapped at `elfImage`: the handle, or none for `NULL`. -/
def baseSpeImageOpen (malloc : Bool) (elfImage : ℕ) : Mapped (Option Handle) := do
  let ret ← baseSpeVerifySpeElfImage
  if ret ≠ 0 then pure none else do
    let toe ← baseSpeToeEar malloc ⟨elfImage, []⟩
    pure (if toe.1.ret ≠ 0 then none else some toe.2)

/-! ## What stays inside -/

/-- Where an image is mapped: pointers have 32 or 64 bits, and the device is local store. -/
structure OnHost (elfImage : ℕ) (b : Bounds) : Prop where
  space : b.space = 2 ^ 32 ∨ b.space = 2 ^ 64
  mapped : elfImage + b.size ≤ b.space
  room : b.room = lsSize

/-- Each function fails or does what it does inside the image, up to the range that is handed out; a load
writes inside local store. -/
structure Inside (elfImage : ℕ) (b : Bounds) (s : State) : Prop where
  verify : ∃ ret, baseSpeVerifySpeElfImage b s = some (ret, s)
  isolated : ∃ ret out, baseSpeParseIsolatedElf ⟨elfImage, []⟩ b s = some ((ret, out), s) ∧
    ∀ segment ∈ out, elfImage ≤ segment.1 ∧ segment.1 + segment.2 ≤ elfImage + b.size
  opened : ∀ malloc, ∃ o, baseSpeImageOpen malloc elfImage b s = some (o, s) ∧
    ∀ handle ∈ o, ∀ ldInfo, ∃ r t, baseSpeLoadSpeElf handle ldInfo b s = some (r, t) ∧
      ∀ w ∈ t.written, w ∈ s.written ∨ w.1 < lsSize

/-! ## How far the headers reach -/

/-- What `_base_spe_parse_isolated_elf` looks at, and the range that it hands out. -/
structure IsolatedBounded (b : Bounds) (m : ℕ → UInt8) : Prop where
  phdr : ePhentsize.val b m 0 = phdrSize → ePhnum.val b m 0 = 1 → ePhoff.val b m 0 + phdrSize ≤ b.size
  segment : ePhentsize.val b m 0 = phdrSize → ePhnum.val b m 0 = 1 →
    pType.val b m (ePhoff.val b m 0) = ptLoad →
    pOffset.val b m (ePhoff.val b m 0) + pMemsz.val b m (ePhoff.val b m 0) ≤ b.size

/-- What `_base_spe_toe_ear` and `_base_spe_load_spe_elf` look at, and what they patch and write. -/
structure Loadable (elfImage : ℕ) (b : Bounds) (m : ℕ → UInt8) : Prop where
  readable : Readable elfImage b m
  walkable : Walkable elfImage b m
  /-- The size of the toe is no negative number. -/
  toe_lt : toeTotal b m < 2 ^ 31
  contents : ∀ ph ∈ segments b m, pOffset.val b m ph + pFilesz.val b m ph ≤ b.size
  copied : ∀ ph ∈ segments b m, pVaddr.val b m ph + pFilesz.val b m ph ≤ lsSize
  padded : ∀ ph ∈ segments b m, pVaddr.val b m ph + pMemsz.val b m ph ≤ lsSize
  /-- The toe is in local store, where a segment starts at it. -/
  toe : ∀ ph ∈ segments b m, pVaddr.val b m ph = (toeOf b m).addr →
    pVaddr.val b m ph + toeTotal b m ≤ lsSize

/-- The headers do not reach over the end of the image or of local store. -/
structure Bounded (elfImage : ℕ) (b : Bounds) (m : ℕ → UInt8) : Prop where
  header : ehdrSize ≤ b.size
  isolated : IsolatedBounded b m
  loadable : Accepted b m → Loadable elfImage b m

theorem OnHost.size_le (h : OnHost elfImage b) : b.size ≤ b.space :=
  le_trans (Nat.le_add_left _ _) h.mapped

theorem OnHost.room_lt (h : OnHost elfImage b) : b.room < b.space := by
  rw [h.room]
  rcases h.space with h | h <;> rw [h] <;> decide

/-! ## The isolated segment -/

theorem parseIsolatedElf_total (host : OnHost elfImage b) (hheader : ehdrSize ≤ b.size)
    (h : IsolatedBounded b s.byte) : ∃ ret out,
      baseSpeParseIsolatedElf ⟨elfImage, []⟩ b s = some ((ret, out), s) ∧
        ∀ segment ∈ out, elfImage ≤ segment.1 ∧ segment.1 + segment.2 ≤ elfImage + b.size := by
  have hget : ∀ f : Field, f.disp + f.width ≤ ehdrSize → 0 < f.width → f.get 0 b s = some (f.val b s.byte 0, s) :=
    fun f hf hwidth => Field.get_inside host.size_le (p := 0) (by omega) hf hwidth
  unfold baseSpeParseIsolatedElf
  by_cases hnull : elfImage = 0
  · rw [if_pos hnull]
    exact ⟨_, none, rfl, nofun⟩
  rw [if_neg hnull, bind_of (hget ePhentsize (by decide) (by decide))]
  by_cases hentsize : ePhentsize.val b s.byte 0 = phdrSize
  swap
  · rw [if_pos hentsize]
    exact ⟨_, none, rfl, nofun⟩
  rw [if_neg (not_not_intro hentsize), bind_of (hget ePhnum (by decide) (by decide))]
  by_cases hnum : ePhnum.val b s.byte 0 = 1
  swap
  · rw [if_pos hnum]
    exact ⟨_, none, rfl, nofun⟩
  have hphdr : HeaderInside b (ePhoff.val b s.byte 0) := h.phdr hentsize hnum
  rw [if_neg (not_not_intro hnum), bind_of (hget ePhoff (by decide) (by decide)),
    bind_of (hphdr.get host.size_le (f := pType) (by decide) (by decide))]
  by_cases htype : pType.val b s.byte (ePhoff.val b s.byte 0) = ptLoad
  swap
  · rw [if_pos htype]
    exact ⟨_, none, rfl, nofun⟩
  rw [if_neg (not_not_intro htype), bind_of (hphdr.get host.size_le (f := pMemsz) (by decide) (by decide))]
  by_cases hmemsz : pMemsz.val b s.byte (ePhoff.val b s.byte 0) = 0
  · rw [if_pos hmemsz]
    exact ⟨_, none, rfl, nofun⟩
  have hsegment := h.segment hentsize hnum htype
  have hmapped := host.mapped
  rw [if_neg hmemsz, bind_of (hphdr.get host.size_le (f := pOffset) (by decide) (by decide)),
    bind_of (Mapped.wrap_some.mpr rfl)]
  refine ⟨_, _, rfl, ?_⟩
  rintro segment (_ | _)
  have haddr : (((elfImage : ℤ) + pOffset.val b s.byte (ePhoff.val b s.byte 0)) % b.space).toNat =
      elfImage + pOffset.val b s.byte (ePhoff.val b s.byte 0) := by
    rw [Int.emod_eq_of_lt (by omega) (by omega)]
    omega
  rw [haddr]
  omega

/-! ## The load -/

theorem mem_block_mod {dst : ℕ} {bs : List UInt8} {w : ℕ × UInt8} (hroom : b.room < b.space)
    (hls : dst + bs.length ≤ b.room) (hw : w ∈ block (dst % b.space) bs) : w.1 < b.room := by
  have hmod : dst % b.space = dst := Nat.mod_eq_of_lt (by omega)
  rw [hmod] at hw
  have := (Mapped.mem_block hw).2
  omega

/-- The writes for a segment that fits are inside local store. -/
theorem Fits.writes_lt (hroom : b.room < b.space) (h : Fits handle b m toe ph) {w : ℕ × UInt8}
    (hw : w ∈ segmentWrites handle b m toe ph) : w.1 < b.room := by
  have hbase : ∀ w ∈ base b m ph, w.1 < b.room := by
    intro w hw
    refine mem_block_mod hroom ?_ hw
    rw [Mapped.length_bytesAt]
    exact h.copied
  unfold segmentWrites at hw
  rcases List.mem_append.mp hw with hw | hw
  · unfold padding at hw
    split at hw
    next hlt =>
      refine mem_block_mod hroom ?_ hw
      have hls := h.padded
      rw [List.length_replicate]
      omega
    next => cases hw
  · unfold placed at hw
    split at hw
    next hvaddr =>
      rcases List.mem_append.mp hw with hw | hw
      · split at hw
        next => exact hbase w hw
        next => cases hw
      · obtain ⟨hlen, hls⟩ := h.shadow hvaddr
        refine mem_block_mod hroom ?_ hw
        rw [List.length_take]
        omega
    next =>
      split at hw
      next => exact hbase w hw
      next => cases hw

theorem OnHost.toeOf_size (host : OnHost elfImage b) (h : toeTotal b m < 2 ^ 31) : (toeOf b m).size = toeTotal b m := by
  have hroom := host.room_lt
  have hspace := host.space
  rw [Elf.toeOf_size (by omega)]
  exact Nat.mod_eq_of_lt (by show toeTotal b m < b.space; omega)

/-- The segments of an image fit, if there is a shadow for the toe. -/
theorem Loadable.fits (host : OnHost elfImage b) (h : Loadable elfImage b m)
    (hshadow : toeTotal b m ≤ handle.toeShadow.length) (hph : ph ∈ segments b m) :
    Fits handle b (relocated elfImage b m) (toeOf b m) ph := by
  have hval : ∀ f : Field, f.disp + f.width ≤ phdrSize → 0 < f.width →
      f.val b (relocated elfImage b m) ph = f.val b m ph :=
    fun f hf hwidth => h.walkable.segments_val hph hf hwidth
  have hvaddr := hval pVaddr (by decide) (by decide)
  have hfilesz := hval pFilesz (by decide) (by decide)
  have hsize := host.toeOf_size h.toe_lt
  refine ⟨?_, ?_, ?_, ?_⟩
  · rw [hval pOffset (by decide) (by decide), hfilesz]
    exact h.contents ph hph
  · rw [hvaddr, hfilesz, host.room]
    exact h.copied ph hph
  · rw [hvaddr, hval pMemsz (by decide) (by decide), host.room]
    exact h.padded ph hph
  · rw [hvaddr, hsize, host.room]
    exact fun hstart => ⟨hshadow, h.toe ph hph hstart⟩

/-- A load stays inside the image and local store. -/
theorem load_total (host : OnHost handle.elfImage b) (hacc : Accepted b s.byte)
    (h : Loadable handle.elfImage b s.byte) (hshadow : toeTotal b s.byte ≤ handle.toeShadow.length) :
    ∃ r t, baseSpeLoadSpeElf handle ldInfo b s = some (r, t) ∧
      ∀ w ∈ t.written, w ∈ s.written ∨ w.1 < lsSize := by
  have hfits : ∀ ph ∈ segments b s.byte,
      Fits handle b (relocated handle.elfImage b s.byte) (toeOf b s.byte) ph :=
    fun ph hph => h.fits host hshadow hph
  obtain ⟨t, hrun, -, hwritten⟩ := load_fits ldInfo h.walkable host.room_lt hacc hfits
  refine ⟨_, t, hrun, fun w hw => ?_⟩
  rw [hwritten] at hw
  rcases List.mem_append.mp hw with hw | hw
  · exact Or.inl hw
  · obtain ⟨ph, hph, hw⟩ := List.mem_flatMap.mp hw
    exact Or.inr (host.room ▸ (hfits ph hph).writes_lt host.room_lt hw)

/-! ## From the first look to the load -/

/-- An image that `_base_spe_toe_ear` accepts has a shadow for its toe. -/
theorem toeEar_total (host : OnHost elfImage b) (h : Loadable elfImage b s.byte) (malloc : Bool) : ∃ v handle,
    baseSpeToeEar malloc ⟨elfImage, []⟩ b s = some ((v, handle), s) ∧
      (v.ret = 0 → handle.elfImage = elfImage ∧ toeTotal b s.byte ≤ handle.toeShadow.length) := by
  obtain ⟨v, hrun, hret⟩ := h.readable.toeEar_allocates malloc ⟨elfImage, []⟩
  have hlong : toeLong b s.byte = toeTotal b s.byte := by
    have hlt := h.toe_lt
    have hspace := host.space
    unfold toeLong
    apply Int.bmod_eq_of_le_mul_two <;> omega
  rw [hrun]
  unfold allocateShadow
  by_cases hzero : v.ret = 0
  · by_cases hnone : toeLong b s.byte = 0
    · rw [if_neg fun h => h.2 hnone]
      exact ⟨v, _, rfl, fun _ => ⟨rfl, by omega⟩⟩
    · rw [if_pos ⟨hzero, hnone⟩]
      cases malloc with
      | false => exact ⟨_, _, rfl, fun h => absurd h one_ne_zero⟩
      | true =>
        have h16 : toeLong b s.byte = 16 := by
          rcases hret.mp hzero with hle | ⟨h16, -⟩
          · omega
          · exact h16
        refine ⟨v, _, rfl, fun _ => ⟨rfl, ?_⟩⟩
        have hshadow : newShadow b elfImage = imageShadow elfImage :=
          newShadow_eq h.readable.space h.readable.address
        show _ ≤ (newShadow b elfImage).length
        rw [hshadow, imageShadow, List.length_append, Mapped.length_digits, List.length_replicate]
        omega
  · rw [if_neg fun h => hzero h.1]
    exact ⟨v, _, rfl, fun h => absurd h hzero⟩

/-- An image that is opened is one that a load may go by. -/
theorem imageOpen_total (host : OnHost elfImage b) (h : Bounded elfImage b s.byte) (malloc : Bool) :
    ∃ o, baseSpeImageOpen malloc elfImage b s = some (o, s) ∧ ∀ handle ∈ o,
      handle.elfImage = elfImage ∧ Accepted b s.byte ∧ toeTotal b s.byte ≤ handle.toeShadow.length := by
  unfold baseSpeImageOpen baseSpeVerifySpeElfImage
  rw [bind_of (checkSpeElf_total host.size_le h.header)]
  by_cases hacc : Accepted b s.byte
  · obtain ⟨v, handle, hrun, hshadow⟩ := toeEar_total host (h.loadable hacc) malloc
    rw [if_pos hacc, if_neg (not_not_intro rfl), bind_of hrun]
    refine ⟨_, rfl, ?_⟩
    by_cases hret : v.ret = 0
    · rw [if_neg (not_not_intro hret)]
      rintro handle' (_ | _)
      exact ⟨(hshadow hret).1, hacc, (hshadow hret).2⟩
    · rw [if_pos hret]
      exact nofun
  · rw [if_neg hacc]
    exact ⟨none, rfl, nofun⟩

/-- **The functions stay inside an image that is bounded**, on every path from the first look at it to its
load, and a load writes inside local store. -/
theorem image_inside (host : OnHost elfImage b) (h : Bounded elfImage b s.byte) : Inside elfImage b s where
  verify := ⟨_, checkSpeElf_total host.size_le h.header⟩
  isolated := parseIsolatedElf_total host h.header h.isolated
  opened malloc := by
    obtain ⟨o, hrun, hopen⟩ := imageOpen_total host h malloc
    refine ⟨o, hrun, fun handle hhandle ldInfo => ?_⟩
    obtain ⟨rfl, hacc, hshadow⟩ := hopen handle hhandle
    exact load_total host hacc (h.loadable hacc) hshadow

/-- The image with two segments and a toe is bounded. -/
theorem image_inside_full : Inside 0x10000 (bounds fullImage) (mapped fullImage) :=
  have hwalk : Walkable 0x10000 (bounds fullImage) (mapped fullImage).byte :=
    WellFormed.walkable (by decide +kernel)
  image_inside ⟨Or.inr rfl, by decide +kernel, rfl⟩
    ⟨by decide +kernel, ⟨by decide +kernel, by decide +kernel⟩, fun _ => ⟨by decide +kernel, hwalk,
      by decide +kernel, by decide +kernel, by decide +kernel, by decide +kernel, by decide +kernel⟩⟩

/-- One segment, a byte of zero behind the end of local store. -/
def strayImage : List UInt8 :=
  ehdrBytes 0 52 84 1 1 0 ++ phdrBytes ptLoad 0 lsSize 0 1 ++ shdrBytes 0 0 0 0 0 0 0

/-- The image is opened, and its load writes behind the end of local store. -/
theorem image_strays : ¬ ∀ (elfImage : ℕ) (b : Bounds) (s : State), OnHost elfImage b → Inside elfImage b s := by
  intro h
  have host : OnHost 0x10000 (bounds strayImage) := ⟨Or.inr rfl, by decide +kernel, rfl⟩
  obtain ⟨o, hrun, hload⟩ := (h 0x10000 (bounds strayImage) (mapped strayImage) host).opened true
  have hopen : ((baseSpeImageOpen true 0x10000 (bounds strayImage) (mapped strayImage)).bind Prod.fst).isSome ∧
      ((baseSpeImageOpen true 0x10000 (bounds strayImage) (mapped strayImage)).bind Prod.fst).all (fun handle =>
        (baseSpeLoadSpeElf handle ⟨0⟩ (bounds strayImage) (mapped strayImage)).isNone) := by
    decide +kernel
  rw [hrun] at hopen
  obtain ⟨hsome, hnone⟩ := hopen
  cases o with
  | none => cases hsome
  | some handle =>
    obtain ⟨r, t, hreturns, -⟩ := hload handle rfl ⟨0⟩
    simp [hreturns] at hnone

end LibSpe2.Elf
