import LibSpe2.Context.Released
import LibSpe2.Data.Words

/-!
# What a created context guarantees

The mappings and the signal-notification files of a context that `_base_spe_context_create` returns, and
the accesses to its problem state in whatever is done with it later.

* `Guaranteed` — what a caller may rely on.
* `Granted` — the kernel's answers for which he can: two of them are not looked at.

Main results:
* `baseCreate_guarantees` — the guarantee holds exactly for these answers.
* `mssync_missing` — a context whose `mssync` area could not be mapped.
-/

namespace LibSpe2.Ctx

open Conc Function

variable {spe : Spe} {s s' s₁ : Proc} {flags : UInt32}

/-! ## The flags -/

/-- `SPE_ISOLATE` asks for the problem state as well. -/
theorem contextFlags_mapPs :
    contextFlags flags &&& speMapPs ≠ 0 ↔ flags &&& (speMapPs ||| speIsolate) ≠ 0 := by
  rw [Words.and_or_ne_zero]
  unfold contextFlags
  split
  · next h =>
    refine ⟨fun _ => .inr h, fun _ => ?_⟩
    rw [flags_or_and]
    exact fun h => absurd (UInt32.or_eq_zero_iff.mp h).2 (by decide)
  · next h => exact ⟨.inl, fun h' => h'.resolve_right h⟩

theorem contextFlags_of_disjoint {bit : UInt32} (h : speMapPs &&& bit = 0) :
    contextFlags flags &&& bit = flags &&& bit := by
  unfold contextFlags
  split
  · rw [flags_or_and, h]
    exact UInt32.or_zero
  · rfl

/-! ## The areas -/

/-- The size of an area. -/
def PsArea.size : PsArea → Nat
  | .mssync => mssSize
  | .mfcCommand => mfcSize
  | .control => cntlSize
  | .sigNotify1 | .sigNotify2 => signalSize

/-- All of `[addr, addr + size)` lies in a mapping that the process has. -/
def Proc.Covers (s : Proc) (addr size : Nat) : Prop :=
  ∃ base size', .map base size' ∈ s.live ∧ base ≤ addr ∧ addr + size ≤ base + size'

/-- The base address of an area is that of a mapped one. -/
def Proc.Mapped (s : Proc) (x : PsArea) : Prop :=
  ∃ addr, s.base.area x = some addr ∧ s.Covers addr x.size

/-- An area outside a `psmap` mapping has a mapping of its own. -/
theorem area_mem_psMaps {b : BasePriv} {x : PsArea} {addr : Nat} (hps : b.psmapMmapBase = none)
    (h : b.area x = some addr) : .map addr x.size ∈ b.psMaps := by
  unfold BasePriv.psMaps
  rw [hps]
  cases x <;>
  · simp only [BasePriv.area] at h
    simp [h, heldMap, PsArea.size]

theorem offset_size (x : PsArea) : x.offset + x.size ≤ psmapSize := by cases x <;> decide

/-- A base address that is not `MAP_FAILED` is that of a mapped area. -/
theorem mapped_of_area {x : PsArea} (hlive : s.base.psMaps ≤ s.live)
    (hplaced : ∀ base, s.base.psmapMmapBase = some base → ∀ x, s.base.area x = some (base + x.offset))
    (h : s.base.area x ≠ none) : s.Mapped x := by
  obtain ⟨addr, haddr⟩ := Option.ne_none_iff_exists'.mp h
  refine ⟨addr, haddr, ?_⟩
  cases hps : s.base.psmapMmapBase with
  | none => exact ⟨addr, x.size, Multiset.mem_of_le hlive (area_mem_psMaps hps haddr), le_rfl, le_rfl⟩
  | some base =>
    have hmem : .map base psmapSize ∈ s.base.psMaps := by
      unfold BasePriv.psMaps
      rw [hps]
      exact Multiset.mem_singleton_self _
    have haddr' : addr = base + x.offset := by
      rw [hplaced base hps x] at haddr
      exact (Option.some.inj haddr).symm
    have hsize := offset_size x
    exact ⟨base, psmapSize, Multiset.mem_of_le hlive hmem, by omega, by omega⟩

/-- What the base record holds is held by the process. -/
theorem Created.base_le {fl : UInt32} (h : Created spe fl s s') : s'.base.owned ≤ s'.live := by
  rw [h.live, Proc.owned, add_assoc, ← add_assoc, add_comm _ s'.base.owned, add_assoc]
  exact Multiset.le_add_right _ _

/-! ## The guarantee -/

/-- The history begins here. -/
def Proc.begin (s : Proc) : Proc := { s with wild := [], mapped := [], written := [], refused := [] }

/-- What the caller of `_base_spe_context_create` may rely on. -/
structure Guaranteed (spe : Spe) (flags : UInt32) (s' : Proc) : Prop where
  mem : ∃ base, s'.base.memMmapBase = some base ∧ .map base lsSize ∈ s'.live
  areas : flags &&& (speMapPs ||| speIsolate) ≠ 0 → ∀ x, s'.Mapped x
  /-- No later call goes through an area that is not mapped. -/
  later : ∀ tr₁ s₁, (attachEvents spe flags).Ends tr₁ true → machine.play () tr₁ s' = some s₁ →
    ∀ calls tr₂ s₂, (ops spe calls).Starts tr₂ → machine.play () tr₂ s₁ = some s₂ → s₂.wild = []
  signal1 : flags &&& speCfgSignotify1Or ≠ 0 → ("signal1_type", [one]) ∈ s'.written
  signal2 : flags &&& speCfgSignotify2Or ≠ 0 → ("signal2_type", [one]) ∈ s'.written

/-- Of the answers that are not looked at: one of `psmap` and `mss` could be mapped, where areas are asked
for, and the writes to the type files took their byte. -/
structure Granted (flags : UInt32) (s' : Proc) : Prop where
  mssync : flags &&& (speMapPs ||| speIsolate) ≠ 0 → "psmap" ∈ s'.mapped ∨ "mss" ∈ s'.mapped
  signal1 : flags &&& speCfgSignotify1Or ≠ 0 → "signal1_type" ∉ s'.refused
  signal2 : flags &&& speCfgSignotify2Or ≠ 0 → "signal2_type" ∉ s'.refused

/-- A context whose areas are all mapped makes no access to one that is not. -/
theorem Created.later (hc : Created spe (contextFlags flags) s s') (hwild : s'.wild = [])
    (hareas : contextFlags flags &&& speMapPs ≠ 0 → ∀ x, s'.base.area x ≠ none)
    {tr₁ tr₂ : List (Sigma Ans)} {s₁ s₂ : Proc} {calls : List Op}
    (h₁ : (attachEvents spe flags).Ends tr₁ true) (hs₁ : machine.play () tr₁ s' = some s₁)
    (h₂ : (ops spe calls).Starts tr₂) (hs₂ : machine.play () tr₂ s₁ = some s₂) : s₂.wild = [] := by
  have hcalm : (s.lifeOf flags True).watch.Calm s' := ⟨hc.faults, fun _ => hwild⟩
  have hmapped : True → s'.wild = [] ∧ _ := fun _ => ⟨hwild, hareas⟩
  rcases (post_attachEvents hc hmapped hcalm).1 tr₁ true s₁ h₁ hs₁ with ⟨h, -⟩ | ⟨-, hinv⟩
  · cases h
  · exact ((keeps_ops.post hinv hinv.calm).2 tr₂ s₂ h₂ hs₂).2 trivial

/-- **What a created context guarantees**, it guarantees for these answers and for no others. -/
theorem baseCreate_guarantees {gctx : Option String} {affSpe : Option Fd} {tr : List (Sigma Ans)}
    (hp : (baseSpeContextCreate spe flags gctx affSpe).Ends tr true)
    (hs : machine.play () tr s.begin = some s') : Guaranteed spe flags s' ↔ Granted flags s' := by
  rcases (post_baseCreate s.begin.calm).1 tr true s' hp hs with ⟨h, -⟩ | ⟨-, hc⟩
  · cases h
  obtain ⟨a, b₀, hmapped, hwritten, hrefused, hm⟩ := hc.made
  have hmapped : s'.mapped = a.names := hmapped.trans (List.append_nil _)
  have hwritten : s'.written = a.written := hwritten.trans (List.append_nil _)
  have hrefused : s'.refused = a.refused := hrefused.trans (List.append_nil _)
  have hsignal {bit : UInt32} (hbit : speMapPs &&& bit = 0) (h : flags &&& bit ≠ 0) :
      contextFlags flags &&& bit ≠ 0 := by
    rwa [contextFlags_of_disjoint hbit]
  have hsignal1 (h : flags &&& speCfgSignotify1Or ≠ 0) :
      ("signal1_type", [one]) ∈ s'.written ↔ "signal1_type" ∉ s'.refused := by
    rw [hwritten, hrefused]
    exact hm.signal1 (hsignal (by decide) h)
  have hsignal2 (h : flags &&& speCfgSignotify2Or ≠ 0) :
      ("signal2_type", [one]) ∈ s'.written ↔ "signal2_type" ∉ s'.refused := by
    rw [hwritten, hrefused]
    exact hm.signal2 (hsignal (by decide) h)
  constructor
  · intro hg
    refine ⟨fun h => ?_, fun h => (hsignal1 h).mp (hg.signal1 h),
      fun h => (hsignal2 h).mp (hg.signal2 h)⟩
    obtain ⟨addr, haddr, -⟩ := hg.areas h .mssync
    rw [hmapped]
    apply (hm.mssync (contextFlags_mapPs.mpr h)).mp
    rw [haddr]
    exact Option.some_ne_none addr
  · intro hg
    have hbases (h : contextFlags flags &&& speMapPs ≠ 0) (x : PsArea) : s'.base.area x ≠ none := by
      by_cases hx : x = .mssync
      · rw [hx, hm.mssync h, ← hmapped]
        exact hg.mssync (contextFlags_mapPs.mp h)
      · exact hm.others h x hx
    have hle : s'.base.psMaps ≤ s'.live := (Multiset.le_add_left ..).trans hc.base_le
    constructor
    · obtain ⟨base, hbase⟩ := Option.ne_none_iff_exists'.mp hm.mem
      refine ⟨base, hbase, Multiset.mem_of_le hc.base_le ?_⟩
      simp [BasePriv.owned, hbase, heldMap]
    · intro h x
      have h := contextFlags_mapPs.mpr h
      exact mapped_of_area hle (hm.placed h) (hbases h x)
    · intro tr₁ s₁ h₁ hs₁ calls tr₂ s₂ h₂ hs₂
      exact hc.later hc.wild hbases h₁ hs₁ h₂ hs₂
    · exact fun h => (hsignal1 h).mpr (hg.signal1 h)
    · exact fun h => (hsignal2 h).mpr (hg.signal2 h)

/-- Everything is granted. -/
theorem baseCreate_guarantees_obliging : ∃ tr s',
    (baseSpeContextCreate 0 (speMapPs ||| speCfgSignotify1Or) none none).Ends tr true ∧
      machine.play () tr Proc.empty.begin = some s' ∧
      Guaranteed 0 (speMapPs ||| speCfgSignotify1Or) s' := by
  have hrun : ((machine.run () obliging 0
      (baseSpeContextCreate 0 (speMapPs ||| speCfgSignotify1Or) none none) Proc.empty.begin).any
        fun x => x.2.1 && ("psmap" ∈ x.2.2.mapped ∧ x.2.2.refused = [])) = true := by decide
  obtain ⟨tr, created, s', hp, hs, h⟩ := exists_run
    (P := fun created (s' : Proc) => created && ("psmap" ∈ s'.mapped ∧ s'.refused = [])) hrun
  obtain ⟨rfl, h⟩ := (Bool.and_eq_true _ _).mp h
  obtain ⟨hmapped, hrefused⟩ := of_decide_eq_true h
  refine ⟨tr, s', hp, hs, (baseCreate_guarantees hp hs).mpr ?_⟩
  constructor
  · exact fun _ => .inl hmapped
  · intro _
    simp [hrefused]
  · intro _
    simp [hrefused]

/-! ## Answers that are not looked at -/

/-- A kernel that opens none of the files `closed` and takes no byte for the files `full`. -/
def grudging (closed full : List String) (c : Cmd) (s : Proc) : Ans c :=
  match c with
  | .openat dir filename mode =>
    if filename ∈ closed then .error Errno.EIO else obliging (.openat dir filename mode) s
  | .write fd bytes => if s.files fd ∈ full then .ok 0 else obliging (.write fd bytes) s
  | c => obliging c s

/-- A context is created without an area, through which its first call then goes, and one without the
mode of signal notification that was asked for. -/
theorem mssync_missing :
    (∃ tr s', (baseSpeContextCreate 0 speMapPs none none).Ends tr true ∧
      machine.play () tr Proc.empty.begin = some s' ∧ ¬ Guaranteed 0 speMapPs s') ∧
    (∃ tr s', (life 0 (.create speMapPs none) [.mssyncStart]).Ends tr true ∧
      machine.play () tr Proc.empty.begin = some s' ∧ s'.wild = [.mssync]) ∧
    ∃ tr s', (baseSpeContextCreate 0 speCfgSignotify1Or none none).Ends tr true ∧
      machine.play () tr Proc.empty.begin = some s' ∧ ¬ Guaranteed 0 speCfgSignotify1Or s' := by
  have hcreate : ((machine.run () (grudging ["psmap", "mss"] []) 0
      (baseSpeContextCreate 0 speMapPs none none) Proc.empty.begin).any
        fun x => x.2.1 && x.2.2.base.mssyncMmapBase = none) = true := by decide
  have hlife : ((machine.run () (grudging ["psmap", "mss"] []) 0
      (life 0 (.create speMapPs none) [.mssyncStart]) Proc.empty.begin).any
        fun x => x.2.1 && x.2.2.wild = [.mssync]) = true := by decide
  have hsignal : ((machine.run () (grudging [] ["signal1_type"]) 0
      (baseSpeContextCreate 0 speCfgSignotify1Or none none) Proc.empty.begin).any
        fun x => x.2.1 && x.2.2.written = []) = true := by decide
  refine ⟨?_, ?_, ?_⟩
  · obtain ⟨tr, created, s', hp, hs, h⟩ := exists_run
      (P := fun created (s' : Proc) => created && s'.base.mssyncMmapBase = none) hcreate
    obtain ⟨rfl, h⟩ := (Bool.and_eq_true _ _).mp h
    refine ⟨tr, s', hp, hs, fun hg => ?_⟩
    obtain ⟨addr, haddr, -⟩ := hg.areas (by decide) .mssync
    rw [show s'.base.area .mssync = none from of_decide_eq_true h] at haddr
    cases haddr
  · obtain ⟨tr, created, s', hp, hs, h⟩ := exists_run
      (P := fun created (s' : Proc) => created && s'.wild = [.mssync]) hlife
    obtain ⟨rfl, h⟩ := (Bool.and_eq_true _ _).mp h
    exact ⟨tr, s', hp, hs, of_decide_eq_true h⟩
  · obtain ⟨tr, created, s', hp, hs, h⟩ := exists_run
      (P := fun created (s' : Proc) => created && s'.written = []) hsignal
    obtain ⟨rfl, h⟩ := (Bool.and_eq_true _ _).mp h
    refine ⟨tr, s', hp, hs, fun hg => ?_⟩
    have hmem := hg.signal1 (by decide)
    rw [show s'.written = [] from of_decide_eq_true h] at hmem
    simp at hmem

end LibSpe2.Ctx
