import LibSpe2.SpeBase.ElfLoader

/-!
# What the ELF loader writes

A run of the loader that returns writes to local store what its `PT_LOAD` segments hold, one segment
after the other. `prev_ph` keeps the value `NULL` that it starts with, so that `overlay` never finds
an overlay.

* `padding`, `placed` — what one segment writes, by the values in its header.
* `loadHeaders` — the `PT_LOAD` headers of a table.
* `foundToe`, `loadedHeaders` — the toe and the headers that a load goes by.

Main results:
* `segmentLoop_run` — the loop loads every `PT_LOAD` segment.
* `load_written` — what a load writes.
-/

namespace LibSpe2.Elf

open Mapped (Bounds State Keeps block bytesAt bind_some pure_some)

variable {b : Bounds} {s t : State} {m : ℕ → UInt8} {handle : Handle} {toe : Toe} {ph phdr p : ℕ}
  {f : Field} {ldInfo info : SpeLdInfo}

theorem Field.get_some {r : ℕ × State} : f.get p b s = some r ↔
    (p + f.disp) % b.space + f.width ≤ b.size ∧ r = (f.val b s.byte p, s) := Mapped.read_some

theorem Field.keeps_get {γ : Type} {g : State → γ} : Keeps g (f.get p) := Mapped.keeps_read

theorem Field.val_lt : f.val b m p < 256 ^ f.width := Mapped.be_lt ..

/-! ## One segment -/

/-- The zeros behind the bytes of a segment that the image has. -/
def padding (b : Bounds) (m : ℕ → UInt8) (ph : ℕ) : List (ℕ × UInt8) :=
  if pFilesz.val b m ph < pMemsz.val b m ph then
    block ((pVaddr.val b m ph + pFilesz.val b m ph) % b.space)
      (List.replicate (pMemsz.val b m ph - pFilesz.val b m ph) 0)
  else []

/-- The bytes of a segment that the image has. -/
def base (b : Bounds) (m : ℕ → UInt8) (ph : ℕ) : List (ℕ × UInt8) :=
  block (pVaddr.val b m ph % b.space) (bytesAt m (pFilesz.val b m ph) (pOffset.val b m ph % b.space))

/-- What `copy_to_ld_buffer` writes: the shadow of the toe replaces what the image has. -/
def placed (handle : Handle) (b : Bounds) (m : ℕ → UInt8) (toe : Toe) (ph : ℕ) : List (ℕ × UInt8) :=
  if pVaddr.val b m ph = toe.addr then
    (if toe.size ≠ pFilesz.val b m ph ∧ pFilesz.val b m ph ≠ 0 then base b m ph else []) ++
      block (pVaddr.val b m ph % b.space) (handle.toeShadow.take toe.size)
  else if pFilesz.val b m ph ≠ 0 then base b m ph else []

/-- What the loader writes for the segment `ph`. -/
def segmentWrites (handle : Handle) (b : Bounds) (m : ℕ → UInt8) (toe : Toe) (ph : ℕ) :
    List (ℕ × UInt8) := padding b m ph ++ placed handle b m toe ph

theorem padSegment_run {u : Unit} (h : padSegment ph b s = some (u, t)) :
    t = { s with written := s.written ++ padding b s.byte ph } := by
  unfold padSegment at h
  simp only [bind_some, Field.get_some] at h
  obtain ⟨_, _, ⟨-, rfl, rfl⟩, _, _, ⟨-, rfl, rfl⟩, _, _, ⟨-, rfl, rfl⟩, h⟩ := h
  unfold padding
  split
  next hlt =>
    rw [Mapped.whenever_pos hlt, Mapped.emit_some] at h
    exact congrArg Prod.snd h.2
  next hge =>
    rw [Mapped.whenever_neg hge, pure_some] at h
    rw [List.append_nil]
    exact congrArg Prod.snd h

theorem copyImage_run {dst n off : ℕ} {u : Unit} (h : copyImage dst n off b s = some (u, t)) :
    t = { s with written := s.written ++ block (dst % b.space) (bytesAt s.byte n (off % b.space)) } := by
  unfold copyImage at h
  simp only [bind_some, Mapped.bytes_some] at h
  obtain ⟨_, _, ⟨-, rfl, rfl⟩, h⟩ := h
  rw [Mapped.emit_some] at h
  exact congrArg Prod.snd h.2

theorem copyShadow_run {dst n : ℕ} {u : Unit} (h : copyShadow handle dst n b s = some (u, t)) :
    n ≤ handle.toeShadow.length ∧
      t = { s with written := s.written ++ block (dst % b.space) (handle.toeShadow.take n) } := by
  unfold copyShadow at h
  split at h
  next hle =>
    rw [Mapped.emit_some] at h
    exact ⟨hle, congrArg Prod.snd h.2⟩
  next => cases h

/-- A segment at the toe is copied only if the shadow has the bytes of the toe. -/
theorem copyToLdBuffer_run {u : Unit} (h : copyToLdBuffer handle ph toe b s = some (u, t)) :
    (pVaddr.val b s.byte ph = toe.addr → toe.size ≤ handle.toeShadow.length) ∧
      t = { s with written := s.written ++ placed handle b s.byte toe ph } := by
  unfold copyToLdBuffer at h
  simp only [bind_some, Field.get_some] at h
  obtain ⟨_, _, ⟨-, rfl, rfl⟩, _, _, ⟨-, rfl, rfl⟩, _, _, ⟨-, rfl, rfl⟩, h⟩ := h
  unfold placed
  by_cases hvaddr : pVaddr.val b s.byte ph = toe.addr
  · rw [if_pos hvaddr, bind_some] at h
    obtain ⟨_, s', hbase, h⟩ := h
    obtain ⟨hle, rfl⟩ := copyShadow_run h
    refine ⟨fun _ => hle, ?_⟩
    rw [if_pos hvaddr, ← List.append_assoc]
    split
    next hcopy =>
      rw [Mapped.whenever_pos hcopy] at hbase
      rw [copyImage_run hbase]
      rfl
    next hcopy =>
      rw [Mapped.whenever_neg hcopy, pure_some] at hbase
      have hs : s' = s := congrArg Prod.snd hbase
      rw [hs, List.append_nil]
  · refine ⟨fun h => absurd h hvaddr, ?_⟩
    rw [if_neg hvaddr] at h ⊢
    split
    next hcopy =>
      rw [Mapped.whenever_pos hcopy] at h
      exact copyImage_run h
    next hcopy =>
      rw [Mapped.whenever_neg hcopy, pure_some] at h
      have ht : t = s := congrArg Prod.snd h
      rw [ht, List.append_nil]

/-! ## All segments -/

/-- The program headers with type `PT_LOAD` among the first `n` of the table at `phdr`. -/
def loadHeaders (b : Bounds) (m : ℕ → UInt8) (phdr n : ℕ) : List ℕ :=
  ((List.range n).map fun i => phdr + phdrSize * i).filter fun ph => pType.val b m ph = ptLoad

theorem loadHeaders_succ (b : Bounds) (m : ℕ → UInt8) (phdr i : ℕ) :
    loadHeaders b m phdr (i + 1) = loadHeaders b m phdr i ++
      if pType.val b m (phdr + phdrSize * i) = ptLoad then [phdr + phdrSize * i] else [] := by
  unfold loadHeaders
  rw [List.range_succ, List.map_append, List.filter_append, List.map_singleton, List.filter_singleton]
  simp

/-- What the loop has done after the first `i` program headers of the image `m`. -/
structure Looped (handle : Handle) (toe : Toe) (phdr : ℕ) (b : Bounds) (s : State) (i : ℕ)
    (st : Option ℕ × ℕ) (t : State) : Prop where
  prev : st.1 = none
  count : st.2 = (loadHeaders b s.byte phdr i).length
  image : t.byte = s.byte
  written : t.written =
    s.written ++ (loadHeaders b s.byte phdr i).flatMap (segmentWrites handle b s.byte toe)
  shadow : ∀ ph ∈ loadHeaders b s.byte phdr i,
    pVaddr.val b s.byte ph = toe.addr → toe.size ≤ handle.toeShadow.length

theorem loadSegment_run {st st' : Option ℕ × ℕ} {i : ℕ} {s₀ : State}
    (hI : Looped handle toe phdr b s₀ i st s)
    (h : loadSegment handle phdr toe i st b s = some (st', t)) :
    Looped handle toe phdr b s₀ (i + 1) st' t := by
  unfold loadSegment at h
  rw [bind_some] at h
  obtain ⟨type, _, htype, h⟩ := h
  rw [Field.get_some, hI.image, Prod.mk.injEq] at htype
  obtain ⟨-, rfl, rfl⟩ := htype
  by_cases hload : pType.val b s₀.byte (phdr + phdrSize * i) = ptLoad
  · -- `prev_ph` is still `NULL`, so that the segment is loaded
    rw [if_pos hload, hI.prev, bind_some] at h
    obtain ⟨_, _, hover, h⟩ := h
    obtain ⟨rfl, rfl⟩ : _ = false ∧ _ = _ := Prod.mk.inj (pure_some.mp hover)
    simp only [Bool.false_eq_true, if_false, bind_some] at h
    obtain ⟨_, s₁, hpad, _, s₂, hcopy, h⟩ := h
    obtain rfl := padSegment_run hpad
    obtain ⟨hle, rfl⟩ := copyToLdBuffer_run hcopy
    obtain ⟨rfl, rfl⟩ := Prod.mk.inj (pure_some.mp h)
    have hsucc := loadHeaders_succ b s₀.byte phdr i
    rw [if_pos hload] at hsucc
    refine ⟨rfl, ?_, hI.image, ?_, ?_⟩
    · rw [hsucc, List.length_append, ← hI.count]
      rfl
    · rw [hsucc, List.flatMap_append, List.flatMap_singleton, ← List.append_assoc, ← hI.written]
      simp only [hI.image, segmentWrites, List.append_assoc]
    · intro ph hph hvaddr
      rw [hsucc, List.mem_append, List.mem_singleton] at hph
      rcases hph with hph | rfl
      · exact hI.shadow ph hph hvaddr
      · exact hle (by simpa only [hI.image] using hvaddr)
  · rw [if_neg hload] at h
    obtain ⟨rfl, rfl⟩ := Prod.mk.inj (pure_some.mp h)
    have hsucc := loadHeaders_succ b s₀.byte phdr i
    rw [if_neg hload, List.append_nil] at hsucc
    refine ⟨hI.prev, ?_, hI.image, ?_, ?_⟩
    · rw [hsucc, hI.count]
    · rw [hsucc, hI.written]
    · rw [hsucc]
      exact hI.shadow

/-- The segment loop loads every `PT_LOAD` segment. -/
theorem segmentLoop_run {n : ℕ} (h : segmentLoop handle phdr toe b s = some (n, t)) :
    Looped handle toe phdr b s (ePhnum.val b s.byte 0) (none, n) t := by
  unfold segmentLoop at h
  rw [bind_some] at h
  obtain ⟨st, u, hrun, h⟩ := h
  obtain ⟨rfl, rfl⟩ := Prod.mk.inj (pure_some.mp h)
  -- the number of program headers does not change in the loop
  let I : ℕ → Option ℕ × ℕ → State → Prop := fun i st u =>
    Looped handle toe phdr b s i st u ∧ i ≤ ePhnum.val b s.byte 0
  have hbound : ∀ u n v, ePhnum.get 0 b u = some (n, v) → v = u ∧ n ≤ headerLimit - 1 := by
    intro u n v h
    rw [Field.get_some, Prod.mk.injEq] at h
    have hlt : ePhnum.val b u.byte 0 < 2 ^ 16 := Field.val_lt
    exact ⟨h.2.2, by rw [h.2.1]; exact Nat.le_sub_one_of_lt hlt⟩
  have hbody : ∀ i st u st' u' n, I i st u → ePhnum.get 0 b u = some (n, u) → i < n →
      loadSegment handle phdr toe i st b u = some (st', u') → I (i + 1) st' u' := by
    intro i st u st' u' n hI hn hlt hbody
    rw [Field.get_some, Prod.mk.injEq, hI.1.image] at hn
    exact ⟨loadSegment_run hI.1 hbody, by omega⟩
  have hinit : I 0 (none, 0) s := ⟨⟨rfl, rfl, rfl, (List.append_nil _).symm, nofun⟩, Nat.zero_le _⟩
  obtain ⟨j, n, ⟨hI, hj⟩, hn, hle⟩ := Mapped.upTo_run hbound hbody headerLimit 0 (none, 0) st s t
    (by decide) (by decide) hinit hrun
  rw [Field.get_some, Prod.mk.injEq, hI.image] at hn
  obtain rfl : j = ePhnum.val b s.byte 0 := by omega
  have hprev := hI.prev
  rwa [← hprev]

/-! ## The section walk writes nothing to local store -/

section
variable {γ : Type} {g : State → γ}

theorem checkSpeElf_keeps : Keeps g checkSpeElf := by
  apply Mapped.keeps_bytes.bind
  intro ident
  apply Mapped.keeps_ite Mapped.keeps_pure
  apply Field.keeps_get.bind
  intro machine
  apply Mapped.keeps_ite Mapped.keeps_pure
  apply Field.keeps_get.bind
  intro type
  exact Mapped.keeps_ite Mapped.keeps_pure Mapped.keeps_pure

theorem strEq_keeps (cs : List UInt8) (off : ℕ) : Keeps g (strEq cs off) := by
  induction cs generalizing off with
  | nil => exact Mapped.keeps_pure
  | cons c cs ih =>
    apply Mapped.keeps_read.bind
    intro d
    exact Mapped.keeps_ite (ih _) Mapped.keeps_pure

end

theorem poke_keeps (width loc v : ℕ) : Keeps State.written (poke width loc v) :=
  Mapped.keeps_read.bind fun _ => Mapped.keeps_whenever Mapped.keeps_write

theorem relocate_keeps (relocBase : ℤ) (r : ℕ) : Keeps State.written (relocate handle relocBase r) := by
  apply Field.keeps_get.bind
  intro info
  apply Mapped.keeps_ite
  · apply Field.keeps_get.bind
    intro offset
    apply Mapped.keeps_wrap.bind
    intro loc
    apply Field.keeps_get.bind
    intro addend
    exact Mapped.keeps_wrap.bind fun v => poke_keeps _ _ _
  · apply Mapped.keeps_ite _ Mapped.keeps_pure
    apply Field.keeps_get.bind
    intro offset
    apply Mapped.keeps_wrap.bind
    intro loc
    apply Field.keeps_get.bind
    intro addend
    exact Mapped.keeps_wrap.bind fun v => poke_keeps _ _ _

theorem applyRelocations_keeps (rh sh : ℕ) : Keeps State.written (applyRelocations handle rh sh) := by
  apply Field.keeps_get.bind
  intro offset
  apply Field.keeps_get.bind
  intro addr
  apply Field.keeps_get.bind
  intro r
  apply Field.keeps_get.bind
  intro size
  exact Mapped.keeps_upTo Mapped.keeps_pure (fun _ _ => relocate_keeps _ _) _ _ _

theorem visitSection_keeps (shdr strTable i : ℕ) (toe : Toe) :
    Keeps State.written (visitSection handle shdr strTable i toe) := by
  apply Field.keeps_get.bind
  intro type
  apply (Mapped.keeps_whenever (Field.keeps_get.bind fun info => applyRelocations_keeps _ _)).bind
  intro _
  apply Field.keeps_get.bind
  intro name
  apply (strEq_keeps _ _).bind
  intro isToe
  apply Mapped.keeps_ite _ Mapped.keeps_pure
  apply Field.keeps_get.bind
  intro size
  apply Mapped.keeps_wrap.bind
  intro total
  exact Field.keeps_get.bind fun addr => Mapped.keeps_pure

theorem sectionWalk_keeps : Keeps State.written (sectionWalk handle) := by
  apply Field.keeps_get.bind
  intro shdr
  apply Field.keeps_get.bind
  intro shstrndx
  apply Field.keeps_get.bind
  intro strTable
  exact Mapped.keeps_upTo Field.keeps_get (fun i toe => visitSection_keeps _ _ i toe) _ _ _

/-! ## A load -/

/-- The toe that the section walk finds. -/
def foundToe (handle : Handle) (b : Bounds) (s : State) : Toe :=
  ((sectionWalk handle b s).map Prod.fst).getD ⟨0, 0⟩

/-- The `PT_LOAD` headers that a load has gone through: the place of the table is fetched before the
relocations, the table itself after them. -/
def loadedHeaders (b : Bounds) (s t : State) : List ℕ :=
  loadHeaders b t.byte (ePhoff.val b s.byte 0) (ePhnum.val b t.byte 0)

/-- The parts of a load that returns 0. -/
theorem load_parts (hload : baseSpeLoadSpeElf handle ldInfo b s = some ((0, info), t)) :
    ∃ toe u n, sectionWalk handle b s = some (toe, u) ∧
      segmentLoop handle (ePhoff.val b s.byte 0) toe b u = some (n, t) ∧ n ≠ 0 ∧
      info = ⟨eEntry.val b t.byte 0⟩ := by
  unfold baseSpeLoadSpeElf at hload
  rw [bind_some] at hload
  obtain ⟨ret, s₁, hcheck, hload⟩ := hload
  by_cases hret : ret = 0
  · obtain rfl : s₁ = s := checkSpeElf_keeps (g := id) b s ret s₁ hcheck
    rw [if_neg (not_not_intro hret)] at hload
    obtain ⟨phdr, s₂, hphdr, hload⟩ := bind_some.mp hload
    obtain ⟨-, hphdr⟩ := Field.get_some.mp hphdr
    obtain ⟨rfl, rfl⟩ := Prod.mk.inj hphdr
    obtain ⟨toe, u, hwalk, hload⟩ := bind_some.mp hload
    obtain ⟨n, v, hloop, hload⟩ := bind_some.mp hload
    by_cases hn : n = 0
    · rw [if_pos hn, pure_some, Prod.mk.injEq, Prod.mk.injEq] at hload
      exact absurd hload.1.1 (by decide)
    · rw [if_neg hn, bind_some] at hload
      obtain ⟨entry, w, hentry, hload⟩ := hload
      obtain ⟨-, hentry⟩ := Field.get_some.mp hentry
      obtain ⟨rfl, rfl⟩ := Prod.mk.inj hentry
      rw [pure_some, Prod.mk.injEq, Prod.mk.injEq] at hload
      obtain ⟨⟨-, rfl⟩, rfl⟩ := hload
      exact ⟨toe, u, n, hwalk, hloop, hn, rfl⟩
  · rw [if_pos hret, pure_some, Prod.mk.injEq, Prod.mk.injEq] at hload
    exact absurd hload.1.1.symm hret

/-- A load that returns 0, found by running it. -/
theorem exists_load (handle : Handle) (ldInfo : SpeLdInfo) (b : Bounds) (s : State)
    (P : SpeLdInfo × State → Prop)
    (h : ∃ r ∈ baseSpeLoadSpeElf handle ldInfo b s, r.1.1 = 0 ∧ P (r.1.2, r.2)) :
    ∃ info t, baseSpeLoadSpeElf handle ldInfo b s = some ((0, info), t) ∧ P (info, t) := by
  obtain ⟨⟨⟨ret, info⟩, t⟩, hrun, hret, hP⟩ := h
  obtain rfl : ret = 0 := hret
  exact ⟨info, t, hrun, hP⟩

/-- **What a load has written**: all its segments, one after the other. -/
theorem load_written (hload : baseSpeLoadSpeElf handle ldInfo b s = some ((0, info), t)) :
    t.written = s.written ++
        (loadedHeaders b s t).flatMap (segmentWrites handle b t.byte (foundToe handle b s)) ∧
      ∀ ph ∈ loadedHeaders b s t, pVaddr.val b t.byte ph = (foundToe handle b s).addr →
        (foundToe handle b s).size ≤ handle.toeShadow.length := by
  obtain ⟨toe, u, n, hwalk, hloop, -⟩ := load_parts hload
  have htoe : foundToe handle b s = toe := by
    unfold foundToe
    rw [hwalk]
    rfl
  have hlooped := segmentLoop_run hloop
  rw [htoe, loadedHeaders, hlooped.image, ← sectionWalk_keeps b s toe u hwalk]
  exact ⟨hlooped.written, hlooped.shadow⟩

end LibSpe2.Elf
