import LibSpe2.SpeBase.Dma

/-!
# The behaviours of a tag status read

With `SPE_MAP_PS` a read samples `Prxy_TagStatus` until it may return, and what it returns is a sample. The
MFC may give any sequence `σ` of samples.

* `First`, `ReturnsFirst` — a call returns the first sample of a kind, and it returns where there is one.
* `Samples` — a loop that samples until it has one of a kind; `locked` is what surrounds it in the code.

Main result:
* `tag_status_behaviors` — `SPE_TAG_ALL` and `SPE_TAG_IMMEDIATE` return the first sample of their kind;
  `SPE_TAG_ANY` is the loop of `SPE_TAG_ALL`, and right only where the first nonzero sample is the whole mask.
-/

namespace LibSpe2.Dma

open Conc (Prog)

/-! ## Samples -/

variable {P : UInt32 → Prop} {σ : Nat → UInt32} {tr tr₁ tr₂ : List (Sigma Ans)}

/-- The MFC answers the trace with the samples of `σ`, one after the other. -/
def Gives (σ : Nat → UInt32) (tr : List (Sigma Ans)) : Prop :=
  ∃ n, sampled tr = (List.range n).map σ

/-- The sample `n` is the first one in `P`. -/
structure First (P : UInt32 → Prop) (σ : Nat → UInt32) (n : Nat) : Prop where
  holds : P (σ n)
  before : ∀ m < n, ¬ P (σ m)

theorem First.forall_map {n : Nat} (h : First P σ n) : ∀ v ∈ (List.range n).map σ, ¬ P v := by
  intro v hv
  obtain ⟨m, hm, rfl⟩ := List.mem_map.mp hv
  exact h.before m (List.mem_range.mp hm)

/-- The samples up to one in `P` end with the first one. -/
theorem first_of_reads {k : Nat} {vs : List UInt32} {s : UInt32} (h : vs ++ [s] = (List.range k).map σ)
    (hs : P s) (hvs : ∀ v ∈ vs, ¬ P v) : ∃ n, First P σ n ∧ s = σ n := by
  cases k with
  | zero => exact absurd h (by simp)
  | succ n =>
    rw [List.range_succ, List.map_append] at h
    obtain ⟨rfl, hlast⟩ := List.append_inj' h rfl
    obtain rfl : s = σ n := List.head_eq_of_cons_eq hlast
    refine ⟨n, ⟨hs, fun m hm => ?_⟩, rfl⟩
    exact hvs _ (List.mem_map_of_mem (List.mem_range.mpr hm))

/-- Samples outside of `P` are those before the first one in `P`. -/
theorem First.length_le {n k : Nat} (h : First P σ n) {vs ws : List UInt32}
    (hreads : vs ++ ws = (List.range k).map σ) (hvs : ∀ v ∈ vs, ¬ P v) : vs.length ≤ n := by
  by_contra hlt
  have hlt : n < vs.length := Nat.lt_of_not_le hlt
  have hget : vs[n] = σ n := by
    have hall : n < (vs ++ ws).length := by
      rw [List.length_append]
      omega
    have hleft : (vs ++ ws)[n] = vs[n] := List.getElem_append_left hlt
    rw [← hleft]
    simp only [hreads, List.getElem_map, List.getElem_range]
  exact hvs _ (List.getElem_mem hlt) (hget ▸ h.holds)

/-! ## Sampling until there is one of a kind -/

/-- The program samples, some commands a sample, until it has one in `P`. -/
structure Samples (p : Code UInt32) (P : UInt32 → Prop) : Prop where
  ends : ∀ tr s, p.Ends tr s → ∃ vs, sampled tr = vs ++ [s] ∧ P s ∧ ∀ v ∈ vs, ¬ P v
  exists_ends : ∀ vs s, P s → (∀ v ∈ vs, ¬ P v) → ∃ tr, p.Ends tr s ∧ sampled tr = vs ++ [s]
  starts : ∀ tr, p.Starts tr → ∃ vs ws, sampled tr = vs ++ ws ∧ (∀ v ∈ vs, ¬ P v) ∧
    tr.length ≤ 3 * vs.length + 3

theorem sample_ends {mask s : UInt32} (h : (sampleTagStatus mask).Ends tr s) :
    sampled tr = [s] ∧ tr.length = 3 := by
  obtain ⟨status, _, rfl, h₁⟩ := h.perform
  obtain ⟨active, _, rfl, h₂⟩ := h₁.perform
  obtain ⟨_, _, rfl, h₃⟩ := h₂.perform
  obtain ⟨rfl, rfl⟩ := Prog.ends_ret.mp h₃
  exact ⟨rfl, rfl⟩

theorem sample_exists (mask s : UInt32) : ∃ tr, (sampleTagStatus mask).Ends tr s ∧ sampled tr = [s] :=
  ⟨[⟨.readTagStatus mask, s⟩, ⟨.loadActive, (0 : UInt32)⟩, ⟨.storeActive (0 ^^^ s), ()⟩],
    .cmd (.cmd (.cmd .ret)), rfl⟩

theorem sample_within (mask : UInt32) : (sampleTagStatus mask).Within 3 :=
  .cmd fun _ => .cmd fun _ => .cmd fun _ => Prog.within_ret _

/-- One sample, whatever it is. -/
theorem samples_one (mask : UInt32) : Samples (sampleTagStatus mask) fun _ => True where
  ends tr s h := by
    obtain ⟨hsampled, -⟩ := sample_ends h
    exact ⟨[], hsampled, trivial, fun _ hv => absurd hv List.not_mem_nil⟩
  exists_ends vs s _ hvs := by
    obtain rfl : vs = [] := List.eq_nil_iff_forall_not_mem.mpr fun v hv => hvs v hv trivial
    exact sample_exists mask s
  starts tr h := by
    refine ⟨[], sampled tr, rfl, fun _ hv => absurd hv List.not_mem_nil, ?_⟩
    exact sample_within mask tr h

/-- One round of `do .. while (*tag_status ^ mask)`. -/
def sampleRound (mask : UInt32) : Code (Unit ⊕ UInt32) := do
  let status ← sampleTagStatus mask
  return if status ^^^ mask ≠ 0 then .inl () else .inr status

theorem sampleRound_ends {mask : UInt32} {x : Unit ⊕ UInt32} (h : (sampleRound mask).Ends tr x) :
    ∃ s, sampled tr = [s] ∧ tr.length = 3 ∧ x = if s ^^^ mask ≠ 0 then .inl () else .inr s := by
  obtain ⟨tr₁, _, s, rfl, hsample, hret⟩ := Prog.ends_bind.mp h
  obtain ⟨rfl, rfl⟩ := Prog.ends_ret.mp hret
  rw [List.append_nil]
  obtain ⟨hsampled, hlength⟩ := sample_ends hsample
  exact ⟨s, hsampled, hlength, rfl⟩

theorem sampleRound_exists (mask s : UInt32) : ∃ tr, sampled tr = [s] ∧
    (sampleRound mask).Ends tr (if s ^^^ mask ≠ 0 then .inl () else .inr s) := by
  obtain ⟨tr, hends, hsampled⟩ := sample_exists mask s
  exact ⟨tr, hsampled, Prog.ends_bind.mpr ⟨tr, [], s, (List.append_nil tr).symm, hends, .ret⟩⟩

theorem sampleRound_again {mask : UInt32} (h : (sampleRound mask).Ends tr (.inl ())) :
    ∃ s, sampled tr = [s] ∧ s ≠ mask ∧ tr.length = 3 := by
  obtain ⟨s, hsampled, hlength, hx⟩ := sampleRound_ends h
  refine ⟨s, hsampled, fun hs => ?_, hlength⟩
  rw [if_neg (not_not.mpr (UInt32.xor_eq_zero_iff.mpr hs))] at hx
  cases hx

theorem sampleRound_leave {mask t : UInt32} (h : (sampleRound mask).Ends tr (.inr t)) :
    sampled tr = [t] ∧ t = mask ∧ tr.length = 3 := by
  obtain ⟨s, hsampled, hlength, hx⟩ := sampleRound_ends h
  by_cases hs : s = mask
  · rw [if_neg (not_not.mpr (UInt32.xor_eq_zero_iff.mpr hs))] at hx
    obtain rfl := Sum.inr.inj hx
    exact ⟨hsampled, hs, hlength⟩
  · rw [if_pos fun hxor => hs (UInt32.xor_eq_zero_iff.mp hxor)] at hx
    cases hx

/-- The samples of a loop that goes on. -/
structure Waiting (mask : UInt32) (tr : List (Sigma Ans)) : Prop where
  none : ∀ v ∈ sampled tr, v ≠ mask
  length : tr.length = 3 * (sampled tr).length

theorem Waiting.again {mask : UInt32} (h : Waiting mask tr₁) (hround : (sampleRound mask).Ends tr₂ (.inl ())) :
    Waiting mask (tr₁ ++ tr₂) := by
  obtain ⟨s, hsampled, hs, hlength⟩ := sampleRound_again hround
  constructor
  · rw [sampled_append, hsampled]
    exact List.forall_mem_append.mpr ⟨h.none, List.forall_mem_singleton.mpr hs⟩
  · rw [sampled_append, hsampled, List.length_append, List.length_append, hlength, h.length]
    simp
    omega

theorem samples_loop (mask : UInt32) :
    Samples (Prog.repeats (fun _ => sampleRound mask) ()) fun s => s = mask where
  ends tr s h := by
    refine Prog.Ends.repeats_rule (J := fun _ tr => Waiting mask tr)
      (Q := fun tr s => ∃ vs, sampled tr = vs ++ [s] ∧ s = mask ∧ ∀ v ∈ vs, ¬ v = mask) h
      (show Waiting mask [] from ⟨fun _ hv => absurd hv List.not_mem_nil, rfl⟩) ?_ ?_
    · intro _ tr₀ tr₁ _ hJ hround
      exact hJ.again hround
    · intro _ tr₀ tr₁ s hJ hround
      obtain ⟨hsampled, hs, -⟩ := sampleRound_leave hround
      refine ⟨sampled tr₀, ?_, hs, hJ.none⟩
      rw [sampled_append, hsampled]
  exists_ends vs s hs hvs := by
    induction vs with
    | nil =>
      obtain ⟨tr, hsampled, hround⟩ := sampleRound_exists mask s
      rw [if_neg (not_not.mpr (UInt32.xor_eq_zero_iff.mpr hs))] at hround
      exact ⟨tr ++ [], .leave hround .ret, by rw [List.append_nil, hsampled]; rfl⟩
    | cons v vs ih =>
      obtain ⟨hv, hvs⟩ := List.forall_mem_cons.mp hvs
      obtain ⟨tr₁, hsampled₁, hround⟩ := sampleRound_exists mask v
      rw [if_pos fun hxor => hv (UInt32.xor_eq_zero_iff.mp hxor)] at hround
      obtain ⟨tr₂, hends, hsampled₂⟩ := ih hvs
      refine ⟨tr₁ ++ tr₂, .again hround hends, ?_⟩
      rw [sampled_append, hsampled₁, hsampled₂]
      rfl
  starts tr h := by
    obtain ⟨_, tr₁, tr₂, htr, hJ, hlast⟩ := h.repeats_rule (J := fun _ tr => Waiting mask tr)
      (show Waiting mask [] from ⟨fun _ hv => absurd hv List.not_mem_nil, rfl⟩)
      fun _ tr₀ tr₁ _ hJ hround => hJ.again hround
    obtain rfl : tr = tr₁ ++ tr₂ := htr
    have hlength : tr₂.length ≤ 3 := by
      rcases hlast with hinside | ⟨s, hleave⟩
      · rcases Prog.starts_bind hinside with hsample | ⟨tr₁', tr₂', s, rfl, hsample, hret⟩
        · exact sample_within mask tr₂ hsample
        · obtain rfl := Prog.starts_ret.mp hret
          rw [List.append_nil]
          exact Nat.le_of_eq (sample_ends hsample).2
      · exact Nat.le_of_eq (sampleRound_leave hleave).2.2
    refine ⟨sampled tr₁, sampled tr₂, sampled_append .., hJ.none, ?_⟩
    rw [List.length_append, hJ.length]
    omega

/-! ## Calls -/

/-- What `spe_read_tag_status_block` and `spe_read_tag_status_noblock` do around their samples. -/
def locked (mask : UInt32) (samples : Code UInt32) : Code (Int × Option UInt32) := do
  perform .lock
  perform (.writeQueryMask mask)
  let status ← samples
  perform (.noteReported status)
  perform .unlock
  return (0, some status)

theorem locked_eq {mask : UInt32} {p : Code UInt32} : locked mask p =
    .cmd .lock fun _ => .cmd (.writeQueryMask mask) fun _ => p.bind fun status =>
      .cmd (.noteReported status) fun _ => .cmd .unlock fun _ => .ret (0, some status) := rfl

theorem report_within (status : UInt32) : Prog.Within 2 (do
    perform (.noteReported status)
    perform .unlock
    return ((0 : Int), some status)) :=
  .cmd fun _ => .cmd fun _ => Prog.within_ret _

/-- The call returns the first sample in `P`, and it returns if there is one. -/
structure ReturnsFirst (p : Code (Int × Option UInt32)) (P : UInt32 → Prop) (σ : Nat → UInt32) : Prop where
  sound : ∀ tr r, p.Ends tr r → Gives σ tr → ∃ n, First P σ n ∧ r = (0, some (σ n))
  complete : ∀ n, First P σ n → ∃ tr, p.Ends tr (0, some (σ n)) ∧ Gives σ tr
  bounded : ∀ n, First P σ n → ∃ N, ∀ tr, p.Starts tr → Gives σ tr → tr.length ≤ N

theorem Samples.returnsFirst {p : Code UInt32} (h : Samples p P) (mask : UInt32) (σ : Nat → UInt32) :
    ReturnsFirst (locked mask p) P σ where
  sound tr r hends hreads := by
    obtain ⟨_, _, rfl, h₁⟩ := hends.perform
    obtain ⟨_, _, rfl, h₂⟩ := h₁.perform
    obtain ⟨tr₁, _, s, rfl, hsamples, h₃⟩ := Prog.ends_bind.mp h₂
    obtain ⟨_, _, rfl, h₄⟩ := h₃.perform
    obtain ⟨_, _, rfl, h₅⟩ := h₄.perform
    obtain ⟨rfl, rfl⟩ := Prog.ends_ret.mp h₅
    obtain ⟨vs, hsampled, hs, hvs⟩ := h.ends tr₁ s hsamples
    obtain ⟨k, hk⟩ := hreads
    have hall : vs ++ [s] = (List.range k).map σ := by
      rw [← hk, ← hsampled]
      show sampled tr₁ = sampled ([⟨.lock, ()⟩, ⟨.writeQueryMask mask, ()⟩] ++ (tr₁ ++ _))
      rw [sampled_append, sampled_append]
      exact (List.append_nil _).symm
    obtain ⟨n, hfirst, rfl⟩ := first_of_reads hall hs hvs
    exact ⟨n, hfirst, rfl⟩
  complete n hfirst := by
    obtain ⟨tr, hends, hsampled⟩ := h.exists_ends _ _ hfirst.holds hfirst.forall_map
    refine ⟨⟨.lock, ()⟩ :: ⟨.writeQueryMask mask, ()⟩ ::
      (tr ++ [⟨.noteReported (σ n), ()⟩, ⟨.unlock, ()⟩]), ?_, n + 1, ?_⟩
    · rw [locked_eq]
      exact .cmd (.cmd (Prog.ends_bind.mpr ⟨_, _, _, rfl, hends, .cmd (.cmd .ret)⟩))
    · show sampled ([⟨.lock, ()⟩, ⟨.writeQueryMask mask, ()⟩] ++ (tr ++ _)) = _
      rw [sampled_append, sampled_append, hsampled, List.range_succ, List.map_append]
      exact List.append_nil _
  bounded n hfirst := by
    refine ⟨3 * n + 7, fun tr hstarts ⟨k, hk⟩ => ?_⟩
    rcases hstarts.perform with rfl | ⟨_, tr, rfl, h₁⟩
    · exact Nat.zero_le _
    rcases h₁.perform with rfl | ⟨_, tr, rfl, h₂⟩
    · show 1 ≤ _
      omega
    have hsplit : ∃ tr₁ tr₂, tr = tr₁ ++ tr₂ ∧ p.Starts tr₁ ∧ tr₂.length ≤ 2 := by
      rcases Prog.starts_bind h₂ with hsamples | ⟨tr₁, tr₂, s, rfl, hsamples, htail⟩
      · exact ⟨tr, [], (List.append_nil tr).symm, hsamples, Nat.zero_le _⟩
      · exact ⟨tr₁, tr₂, rfl, hsamples.starts, report_within s tr₂ htail⟩
    obtain ⟨tr₁, tr₂, rfl, hsamples, hlength⟩ := hsplit
    obtain ⟨vs, ws, hsampled, hvs, hle⟩ := h.starts tr₁ hsamples
    have hall : vs ++ (ws ++ sampled tr₂) = (List.range k).map σ := by
      rw [← hk, ← List.append_assoc, ← hsampled, ← sampled_append]
      rfl
    have hvs := hfirst.length_le hall hvs
    show (tr₁ ++ tr₂).length + 1 + 1 ≤ _
    rw [List.length_append]
    omega

variable {spe : Context} {mask : UInt32}

theorem readBlock_eq (h : spe.mapPs) : speReadTagStatusBlock spe mask =
    locked mask (Prog.repeats (fun _ => sampleRound mask) ()) := if_pos h

theorem readNoblock_eq (h : spe.mapPs) :
    speReadTagStatusNoblock spe mask = locked mask (sampleTagStatus mask) := if_pos h

/-- A read through the registers, by what it does. -/
theorem tagStatusRead_eq (h : spe.mapPs) (hmask : mask ≠ 0) (behavior : UInt32) :
    baseSpeMfcioTagStatusRead spe mask behavior true =
      if behavior = speTagAll ∨ behavior = speTagAny then
        locked mask (Prog.repeats (fun _ => sampleRound mask) ())
      else if behavior = speTagImmediate then locked mask (sampleTagStatus mask)
      else do
        perform (.setErrno .EINVAL)
        return (-1, none) := by
  have heffective : effectiveMask spe mask = .ret mask := by
    unfold effectiveMask
    rw [if_pos hmask, if_pos h]
    rfl
  unfold baseSpeMfcioTagStatusRead speMfcioTagStatusReadAll
  rw [heffective, Prog.bind_eq, Prog.ret_bind, if_neg (by decide), if_pos h, readBlock_eq h,
    readNoblock_eq h]
  by_cases hall : behavior = speTagAll
  · rw [if_pos hall, if_pos (.inl hall)]
  rw [if_neg hall]
  by_cases hany : behavior = speTagAny
  · rw [if_pos hany, if_pos (.inr hany)]
  · rw [if_neg hany, if_neg (not_or.mpr ⟨hall, hany⟩)]

/-- **The behaviours of a tag status read**, for every mask and every sequence of samples: `SPE_TAG_ALL`
returns the first one that is the mask, `SPE_TAG_IMMEDIATE` the first one, and `SPE_TAG_ANY` the first that
is not zero exactly if that is the whole mask. -/
theorem tag_status_behaviors (hps : spe.mapPs) (hmask : mask ≠ 0) (σ : Nat → UInt32) :
    ReturnsFirst (baseSpeMfcioTagStatusRead spe mask speTagAll true) (fun s => s = mask) σ ∧
    ReturnsFirst (baseSpeMfcioTagStatusRead spe mask speTagImmediate true) (fun _ => True) σ ∧
    (ReturnsFirst (baseSpeMfcioTagStatusRead spe mask speTagAny true) (fun s => s ≠ 0) σ ↔
      ∀ n, First (fun s => s ≠ 0) σ n → σ n = mask) := by
  rw [tagStatusRead_eq hps hmask, tagStatusRead_eq hps hmask, tagStatusRead_eq hps hmask,
    if_pos (.inl rfl), if_neg (by decide), if_pos rfl, if_pos (.inr rfl)]
  have hloop := (samples_loop mask).returnsFirst mask σ
  refine ⟨hloop, (samples_one mask).returnsFirst mask σ, ?_⟩
  constructor
  · intro h n hfirst
    obtain ⟨tr, hends, hreads⟩ := h.complete n hfirst
    obtain ⟨m, hm, hret⟩ := hloop.sound tr _ hends hreads
    have hret : σ n = σ m := Option.some.inj (congrArg Prod.snd hret)
    rw [hret]
    exact hm.holds
  · intro h
    -- the first nonzero sample and the first one that is the mask are the same
    have hsame n : First (fun s => s ≠ 0) σ n ↔ First (fun s => s = mask) σ n := by
      constructor
      · intro hn
        refine ⟨h n hn, fun m hm hmask' => hn.before m hm ?_⟩
        rw [hmask']
        exact hmask
      · intro hn
        have hzero : ∀ m, m < n → ¬ σ m ≠ 0 := by
          intro m
          induction m using Nat.strongRecOn with
          | ind m ih =>
            intro hm hne
            exact hn.before m hm (h m ⟨hne, fun k hk => ih k hk (Nat.lt_trans hk hm)⟩)
        exact ⟨fun hz => hmask (hn.holds.symm.trans hz), hzero⟩
    constructor
    · intro tr r hends hreads
      obtain ⟨n, hn, hret⟩ := hloop.sound tr r hends hreads
      exact ⟨n, (hsame n).mpr hn, hret⟩
    · intro n hn
      exact hloop.complete n ((hsame n).mp hn)
    · intro n hn
      exact hloop.bounded n ((hsame n).mp hn)

theorem tag_status_behaviors_mapped :
    ReturnsFirst (baseSpeMfcioTagStatusRead ⟨speMapPs, true⟩ 3 speTagAll true) (fun s => s = 3) (fun _ => 1) ∧
    ReturnsFirst (baseSpeMfcioTagStatusRead ⟨speMapPs, true⟩ 3 speTagImmediate true) (fun _ => True)
      (fun _ => 1) ∧
    (ReturnsFirst (baseSpeMfcioTagStatusRead ⟨speMapPs, true⟩ 3 speTagAny true) (fun s => s ≠ 0) (fun _ => 1) ↔
      ∀ n, First (fun s => s ≠ 0) (fun _ => 1) n → (1 : UInt32) = 3) :=
  tag_status_behaviors (by decide) (by decide) fun _ => 1

/-- Tag 0 of the mask 3 completes and tag 1 does not: `SPE_TAG_ANY` does not return. -/
theorem any_waits_for_all : ¬ ∀ (spe : Context) (mask : UInt32) (σ : Nat → UInt32), spe.mapPs → mask ≠ 0 →
    (∀ n, σ n &&& mask = σ n) →
    ReturnsFirst (baseSpeMfcioTagStatusRead spe mask speTagAny true) (fun s => s ≠ 0) σ := by
  intro h
  have hany := h ⟨speMapPs, true⟩ 3 (fun _ => 1) (by decide) (by decide) fun _ => by decide
  have hfirst : First (fun s => s ≠ 0) (fun _ => 1) 0 :=
    ⟨by decide, fun m hm => absurd hm (Nat.not_lt_zero m)⟩
  obtain ⟨tr, hends, n, hn⟩ := hany.complete 0 hfirst
  rw [tagStatusRead_eq (by decide) (by decide), if_pos (.inr rfl)] at hends
  obtain ⟨m, hm, -⟩ := ((samples_loop 3).returnsFirst 3 fun _ => 1).sound tr _ hends ⟨n, hn⟩
  exact absurd hm.holds (by decide)

end LibSpe2.Dma
