import LibSpe2.Context.Freed

/-!
# Creating a context

What `_base_spe_context_create` does to the process: nothing, if it fails, and otherwise what `Made`
says.

* `Adds`, `Grows` — what mappings and writes add to the process.
* `post_mapContext` — the mappings and the signal-notification files, or nothing.
* `post_baseCreate` — the whole function.
-/

namespace LibSpe2.Ctx

open Conc Function

variable {l : Life} {w : Watch} {spe : Spe} {s s' s₀ s₁ s₂ : Proc} {α β : Type}

/-! ## What is added -/

/-- New mappings, the files they are of, and what was written or refused. -/
structure Adds where
  maps : Multiset Resource
  names : List String
  written : List (String × List UInt8)
  refused : List String

namespace Adds

def none : Adds := ⟨0, [], [], []⟩

/-- First `a`, then `b`. -/
def andThen (a b : Adds) : Adds :=
  ⟨b.maps + a.maps, b.names ++ a.names, b.written ++ a.written, b.refused ++ a.refused⟩

/-- An attempt to map a file. -/
def mapping (r : Option Nat) (size : Nat) (filename : String) : Adds :=
  ⟨heldMap r size, if r = .none then [] else [filename], [], []⟩

/-- A write to a file. -/
def write (all : Bool) (filename : String) (bytes : List UInt8) : Adds :=
  if all then ⟨0, [], [(filename, bytes)], []⟩ else ⟨0, [], [], [filename]⟩

end Adds

/-- `s'` is `s` with `a` added to what the process holds and has done, and `b` for a base record. -/
structure Grows (s s' : Proc) (a : Adds) (b : BasePriv) : Prop where
  live : s'.live = a.maps + s.live
  mapped : s'.mapped = a.names ++ s.mapped
  written : s'.written = a.written ++ s.written
  refused : s'.refused = a.refused ++ s.refused
  base : s'.base = b
  mem : s'.mem = s.mem
  eventPrivate : s'.eventPrivate = s.eventPrivate
  faults : s'.faults = s.faults
  wild : s'.wild = s.wild

theorem Grows.none : Grows s s .none s.base := by
  constructor <;> first | rfl | exact (zero_add _).symm

theorem Grows.andThen {a₁ a₂ : Adds} {b₁ b₂ : BasePriv} (h₁ : Grows s s₁ a₁ b₁)
    (h₂ : Grows s₁ s₂ a₂ b₂) : Grows s s₂ (a₁.andThen a₂) b₂ where
  live := by rw [h₂.live, h₁.live, Adds.andThen, add_assoc]
  mapped := by rw [h₂.mapped, h₁.mapped, Adds.andThen, List.append_assoc]
  written := by rw [h₂.written, h₁.written, Adds.andThen, List.append_assoc]
  refused := by rw [h₂.refused, h₁.refused, Adds.andThen, List.append_assoc]
  base := h₂.base
  mem := h₂.mem.trans h₁.mem
  eventPrivate := h₂.eventPrivate.trans h₁.eventPrivate
  faults := h₂.faults.trans h₁.faults
  wild := h₂.wild.trans h₁.wild

/-- A context whose base record accounts for the new mappings holds them. -/
theorem Holds.grows {a : Adds} {b : BasePriv} (hs : Holds l spe s) (h : Grows s s' a b)
    (hb : b.owned = s.base.owned + a.maps) : Holds l spe s' where
  live := by
    unfold Proc.owned Proc.pipeFds
    rw [h.live, hs.live, Proc.owned, Proc.pipeFds, slotFds_congr fun d _ => by rw [h.mem], h.mem,
      h.base, hb]
    abel
  faults := h.faults.trans hs.faults
  slots d := by rw [h.mem]; exact hs.slots d
  ends he i := by rw [h.mem]; exact hs.ends he i

/-! ## Mapping -/

/-- The process after `mapfileat`. -/
def Proc.addMapping (s : Proc) (r : Option Nat) (size : Nat) (filename : String) : Proc :=
  match r with
  | none => s
  | some base => { s.acquire (.map base size) with mapped := filename :: s.mapped }

theorem addMapping_release {r : Option Nat} {size : Nat} {filename : String} {fd : Fd} :
    ((s.acquire (.fd fd)).addMapping r size filename).release (.fd fd) =
      s.addMapping r size filename := by
  cases r with
  | none => exact release_acquire
  | some base =>
    rw [Proc.release, if_pos (by simp [Proc.addMapping, Proc.acquire])]
    simp [Proc.addMapping, Proc.acquire, Multiset.cons_swap (Resource.map base size)]

theorem post_mapfileat {dir : Fd} {filename : String} {size : Nat} :
    CtxPost w (mapfileat dir filename size) s fun r s' =>
      ∃ files, s' = { s with files := files }.addMapping r size filename := by
  refine post_openat.bind ?_
  rintro (e | fd) s₁ h₁
  · obtain rfl := h₁
    apply post_step (c := .setErrno efault) trivial
    intro _ s₂ h₂
    obtain rfl := Option.some.inj h₂
    exact .ret ⟨s₁.files, rfl⟩
  obtain rfl := h₁
  apply post_step (c := .mmap fd size) trivial
  intro r s₂ h₂
  have hmap : s₂ = ((s.setFile fd filename).acquire (.fd fd)).addMapping r size filename := by
    cases r with
    | none => exact (Option.some.inj h₂).symm
    | some base =>
      obtain ⟨-, rfl⟩ := of_guard h₂
      simp [Proc.addMapping, Proc.acquire, Proc.setFile]
  have hlive : Resource.fd fd ∈ s₂.live := by
    rw [hmap]
    cases r <;> simp [Proc.addMapping, Proc.acquire]
  apply post_release (c := .close fd) (fun _ _ he => (Option.some.inj he).symm) hlive
  intro _
  rw [hmap, addMapping_release]
  exact .ret ⟨_, rfl⟩

theorem post_modifyBase {f : BasePriv → BasePriv} :
    CtxPost w (modifyBase f) s fun _ s' => s' = { s with base := f s.base } := by
  apply post_step (c := .base) trivial
  intro b s h
  obtain ⟨rfl, rfl⟩ := of_guard h
  apply post_perform (c := .setBase _) trivial
  intro _ s' h
  exact (Option.some.inj h).symm

/-- A file is mapped, or not, and the result stored. -/
theorem post_mapStore {dir : Fd} {filename : String} {size : Nat}
    {set : Option Nat → BasePriv → BasePriv} {f : Option Nat → Code α} {Q : α → Proc → Prop}
    (h : ∀ r s₁, Grows s s₁ (.mapping r size filename) (set r s.base) →
      CtxPost w (f r) s₁ Q) :
    CtxPost w ((mapfileat dir filename size).bind fun r =>
      (modifyBase (set r)).bind fun _ => f r) s Q := by
  refine post_mapfileat.bind ?_
  rintro r _ ⟨files, rfl⟩
  refine post_modifyBase.bind ?_
  rintro _ _ rfl
  apply h
  cases r with
  | none => constructor <;> first | rfl | exact (zero_add _).symm
  | some base => constructor <;> rfl

theorem mem_names {r : Option Nat} {size : Nat} {filename x : String} :
    x ∈ (Adds.mapping r size filename).names ↔ r ≠ none ∧ x = filename := by
  unfold Adds.mapping
  by_cases hr : r = none <;> simp [hr]

theorem mem_names_andThen {a₁ a₂ : Adds} {x : String} :
    x ∈ (a₁.andThen a₂).names ↔ x ∈ a₂.names ∨ x ∈ a₁.names := List.mem_append

/-- Where an area lies in the `psmap` mapping. -/
def PsArea.offset : PsArea → Nat
  | .mssync => mssyncOffset
  | .mfcCommand => mfcOffset
  | .control => cntlOffset
  | .sigNotify1 => signal1Offset
  | .sigNotify2 => signal2Offset

/-- What mapping the problem state leads to: `b` instead of `b₀` for a base record. -/
structure PsMapped (ok : Bool) (a : Adds) (b₀ b : BasePriv) : Prop where
  maps : b.psMaps = a.maps
  fdSpeDir : b.fdSpeDir = b₀.fdSpeDir
  flags : b.flags = b₀.flags
  mem : b.memMmapBase = b₀.memMmapBase
  others : ok = true → ∀ x, x ≠ .mssync → b.area x ≠ none
  mssync : b.area .mssync ≠ none ↔ "psmap" ∈ a.names ∨ "mss" ∈ a.names
  placed : ∀ base, b.psmapMmapBase = some base → ∀ x, b.area x = some (base + x.offset)
  written : a.written = []
  refused : a.refused = []

theorem post_mapRegions {dir : Fd} (hps : s.base.psmapMmapBase = none) :
    CtxPost w (mapRegions dir) s fun ok s' =>
      ∃ a b, Grows s s' a b ∧ PsMapped ok a s.base b := by
  refine post_mapStore fun mfc s₁ h₁ => ?_
  refine post_mapStore fun mssync s₂ h₂ => ?_
  refine post_mapStore fun cntl s₃ h₃ => ?_
  refine post_mapStore fun signal1 s₄ h₄ => ?_
  refine post_mapStore fun signal2 s₅ h₅ => .ret ?_
  refine ⟨_, _, (((h₁.andThen h₂).andThen h₃).andThen h₄).andThen h₅, ?_⟩
  rw [h₄.base, h₃.base, h₂.base, h₁.base]
  constructor
  · simp only [BasePriv.psMaps, hps, Adds.andThen, Adds.mapping]
    abel
  · rfl
  · rfl
  · rfl
  · intro hok x hx
    simp only [Bool.and_eq_true, Option.isSome_iff_ne_none] at hok
    obtain ⟨⟨⟨hmfc, hcntl⟩, hsignal1⟩, hsignal2⟩ := hok
    cases x with
    | mssync => exact absurd rfl hx
    | mfcCommand => exact hmfc
    | control => exact hcntl
    | sigNotify1 => exact hsignal1
    | sigNotify2 => exact hsignal2
  · simp only [mem_names_andThen, mem_names, BasePriv.area]
    simp
  · intro base hbase
    rw [show s.base.psmapMmapBase = some base from hbase] at hps
    cases hps
  · rfl
  · rfl

theorem post_mapProblemState {dir : Fd} :
    CtxPost w (mapProblemState dir) s fun ok s' =>
      ∃ a b, Grows s s' a b ∧ PsMapped ok a s.base b := by
  refine post_mapStore fun psmap s₁ h₁ => ?_
  cases psmap with
  | none =>
    refine (post_mapRegions (by rw [h₁.base])).mono ?_
    rintro ok s' ⟨a, b, h, hb⟩
    refine ⟨_, _, h₁.andThen h, ?_⟩
    rw [h₁.base] at hb
    constructor
    · exact hb.maps.trans (add_zero _).symm
    · exact hb.fdSpeDir
    · exact hb.flags
    · exact hb.mem
    · exact hb.others
    · simpa [Adds.andThen, Adds.mapping] using hb.mssync
    · exact hb.placed
    · simpa [Adds.andThen, Adds.mapping] using hb.written
    · simpa [Adds.andThen, Adds.mapping] using hb.refused
  | some base =>
    refine post_modifyBase.bind ?_
    rintro _ _ rfl
    refine .ret ⟨_, _, { h₁ with base := rfl }, ?_⟩
    rw [h₁.base]
    constructor
    · rfl
    · rfl
    · rfl
    · rfl
    · intro _ x _
      cases x <;> exact Option.some_ne_none _
    · refine ⟨fun _ => .inl (mem_names.mpr ⟨Option.some_ne_none _, rfl⟩), fun _ => ?_⟩
      exact Option.some_ne_none _
    · intro base' hbase x
      obtain rfl := Option.some.inj hbase
      cases x <;> rfl
    · rfl
    · rfl

/-! ## The signal-notification files -/

/-- What `setsignotify` adds, where it is asked for. -/
inductive Signalled (asked : Prop) (filename : String) : Adds → Prop
  | skipped (h : ¬ asked) : Signalled asked filename .none
  | wrote (h : asked) (all : Bool) : Signalled asked filename (.write all filename [one])

theorem post_setsignotify {dir : Fd} {filename : String} :
    CtxPost w (setsignotify dir filename) s fun rc s' =>
      rc = -1 ∧ s' = s ∨
      rc = 0 ∧ ∃ all, Grows s s' (.write all filename [one]) s.base := by
  refine post_openat.bind ?_
  rintro (e | fd) s₁ h₁
  · obtain rfl := h₁
    exact .ret (.inl ⟨rfl, rfl⟩)
  obtain rfl := h₁
  refine post_writeClose fun r => .ret (.inr ⟨rfl, ?_⟩)
  have hfile : (s.setFile fd filename).files fd = filename := update_self ..
  unfold Proc.noteWrite
  rw [hfile]
  split
  · refine ⟨true, ?_⟩
    constructor <;> first | rfl | exact (zero_add _).symm
  · refine ⟨false, ?_⟩
    constructor <;> first | rfl | exact (zero_add _).symm

theorem post_setsignotifyIf {flags bit : UInt32} {dir : Fd} {filename : String} :
    CtxPost w (setsignotifyIf flags bit dir filename) s fun ok s' =>
      ok = false ∧ s' = s ∨
      ok = true ∧ ∃ a, Grows s s' a s.base ∧ Signalled (flags &&& bit ≠ 0) filename a := by
  unfold setsignotifyIf
  split
  · next h =>
    refine post_setsignotify.bind ?_
    rintro rc s' (⟨rfl, hs'⟩ | ⟨rfl, all, hs'⟩)
    · exact .ret (.inl ⟨rfl, hs'⟩)
    · exact .ret (.inr ⟨rfl, _, hs', .wrote h all⟩)
  · next h => exact .ret (.inr ⟨rfl, _, .none, .skipped h⟩)

/-! ## A whole context -/

/-- What a context with these flags has got: `b` instead of `b₀` for a base record. -/
structure Made (fl : UInt32) (a : Adds) (b₀ b : BasePriv) : Prop where
  owned : b.owned = b₀.owned + a.maps
  flags : b.flags = b₀.flags
  mem : b.memMmapBase ≠ none
  others : fl &&& speMapPs ≠ 0 → ∀ x, x ≠ .mssync → b.area x ≠ none
  mssync : fl &&& speMapPs ≠ 0 →
    (b.area .mssync ≠ none ↔ "psmap" ∈ a.names ∨ "mss" ∈ a.names)
  placed : fl &&& speMapPs ≠ 0 → ∀ base, b.psmapMmapBase = some base →
    ∀ x, b.area x = some (base + x.offset)
  signal1 : fl &&& speCfgSignotify1Or ≠ 0 →
    (("signal1_type", [one]) ∈ a.written ↔ "signal1_type" ∉ a.refused)
  signal2 : fl &&& speCfgSignotify2Or ≠ 0 →
    (("signal2_type", [one]) ∈ a.written ↔ "signal2_type" ∉ a.refused)

theorem Made.of_parts {flags : UInt32} {mem : Option Nat} {a a₁ a₂ : Adds} {b₀ b : BasePriv}
    (hmaps : b₀.psMaps = 0) (hnone : b₀.memMmapBase = none) (hmem : mem ≠ none)
    (hps : flags &&& speMapPs ≠ 0 ∧ PsMapped true a { b₀ with memMmapBase := mem } b ∨
      ¬ flags &&& speMapPs ≠ 0 ∧ a = .none ∧ b = { b₀ with memMmapBase := mem })
    (h₁ : Signalled (flags &&& speCfgSignotify1Or ≠ 0) "signal1_type" a₁)
    (h₂ : Signalled (flags &&& speCfgSignotify2Or ≠ 0) "signal2_type" a₂) :
    Made flags ((((Adds.mapping mem lsSize "mem").andThen a).andThen a₁).andThen a₂) b₀ b := by
  -- the signals add no mappings
  have hsignal {asked : Prop} {filename : String} {a : Adds} (h : Signalled asked filename a) :
      a.maps = 0 ∧ a.names = [] := by
    cases h with
    | skipped => exact ⟨rfl, rfl⟩
    | wrote h all => cases all <;> exact ⟨rfl, rfl⟩
  have hquiet : a.written = [] ∧ a.refused = [] := by
    rcases hps with ⟨-, hps⟩ | ⟨-, rfl, -⟩
    · exact ⟨hps.written, hps.refused⟩
    · exact ⟨rfl, rfl⟩
  have hwritten : ((((Adds.mapping mem lsSize "mem").andThen a).andThen a₁).andThen a₂).written =
      a₂.written ++ a₁.written := by
    simp [Adds.andThen, Adds.mapping, hquiet.1]
  have hrefused : ((((Adds.mapping mem lsSize "mem").andThen a).andThen a₁).andThen a₂).refused =
      a₂.refused ++ a₁.refused := by
    simp [Adds.andThen, Adds.mapping, hquiet.2]
  constructor
  · simp only [Adds.andThen, hsignal h₁, hsignal h₂, BasePriv.owned, hmaps, hnone, heldMap_none,
      Adds.mapping]
    rcases hps with ⟨-, hps⟩ | ⟨-, rfl, rfl⟩
    · rw [hps.maps, hps.fdSpeDir, hps.mem]
      abel
    · show _ + _ + b₀.psMaps = _
      rw [hmaps]
      simp only [Adds.none]
      abel
  · rcases hps with ⟨-, hps⟩ | ⟨-, -, rfl⟩
    · exact hps.flags
    · rfl
  · rcases hps with ⟨-, hps⟩ | ⟨-, -, rfl⟩
    · exact hps.mem ▸ hmem
    · exact hmem
  · intro hfl
    exact (hps.resolve_right fun h => h.1 hfl).2.others rfl
  · intro hfl
    rw [(hps.resolve_right fun h => h.1 hfl).2.mssync]
    simp only [mem_names_andThen, mem_names, hsignal h₁, hsignal h₂]
    simp
  · intro hfl
    exact (hps.resolve_right fun h => h.1 hfl).2.placed
  · intro hfl
    rw [hwritten, hrefused]
    cases h₁ with
    | skipped h => exact absurd hfl h
    | wrote _ all₁ =>
      cases h₂ with
      | skipped => cases all₁ <;> simp [Adds.write, Adds.none]
      | wrote _ all₂ => cases all₁ <;> cases all₂ <;> simp [Adds.write]
  · intro hfl
    rw [hwritten, hrefused]
    cases h₂ with
    | skipped h => exact absurd hfl h
    | wrote _ all₂ =>
      cases h₁ with
      | skipped => cases all₂ <;> simp [Adds.write, Adds.none]
      | wrote _ all₁ => cases all₁ <;> cases all₂ <;> simp [Adds.write]

/-- The problem state is mapped if that is asked for. -/
theorem post_mapProblemStateIf {flags : UInt32} {dir : Fd} :
    CtxPost w (mapProblemStateIf flags dir) s fun ok s' =>
      ∃ a b, Grows s s' a b ∧ (flags &&& speMapPs ≠ 0 ∧ PsMapped ok a s.base b ∨
        ¬ flags &&& speMapPs ≠ 0 ∧ ok = true ∧ a = .none ∧ b = s.base) := by
  unfold mapProblemStateIf
  split
  · next h =>
    refine post_mapProblemState.mono ?_
    rintro ok s' ⟨a, b, hs', hb⟩
    exact ⟨a, b, hs', .inl ⟨h, hb⟩⟩
  · next h => exact .ret ⟨_, _, .none, .inr ⟨h, rfl, rfl, rfl⟩⟩

/-- A creation: it has failed and nothing is left, or `Made` describes the context. -/
def Outcome (l : Life) (spe : Spe) (flags : UInt32) (s : Proc) (created : Bool) (s' : Proc) : Prop :=
  created = false ∧ s'.live = l.others ∧ s'.faults = l.faults ∨
  created = true ∧ Holds l spe s' ∧ ∃ a b, Grows s s' a b ∧ Made flags a s.base b

theorem post_mapContext {flags : UInt32} {dir : Fd} (hs : Holds l spe s) (he : l.event = false)
    (hmaps : s.base.psMaps = 0) (hnone : s.base.memMmapBase = none) :
    CtxPost w (mapContext spe flags dir) s (Outcome l spe flags s) := by
  have habandon {s₁ : Proc} {e : Int} (hs₁ : Holds l spe s₁) :
      CtxPost w (abandon spe e) s₁ (Outcome l spe flags s) :=
    (hs₁.abandon he).mono fun _ _ h => .inl h
  refine post_mapStore fun mem s₁ h₁ => ?_
  have hs₁ : Holds l spe s₁ := by
    refine hs.grows h₁ ?_
    simp only [BasePriv.owned, hnone, heldMap_none, Adds.mapping]
    show _ + s.base.psMaps = _
    abel
  split
  · exact habandon hs₁
  next hmem =>
  refine post_mapProblemStateIf.bind ?_
  rintro ok s₂ ⟨a, b, h₂, hb⟩
  rw [h₁.base] at hb
  have hs₂ : Holds l spe s₂ := by
    refine hs₁.grows h₂ ?_
    rw [h₁.base]
    rcases hb with ⟨-, hb⟩ | ⟨-, -, rfl, rfl⟩
    · rw [BasePriv.owned, hb.maps, hb.fdSpeDir, hb.mem, BasePriv.owned]
      show _ = _ + s.base.psMaps + _
      rw [hmaps, add_zero]
    · exact (add_zero _).symm
  split
  · exact habandon hs₂
  next hok =>
  have hok : ok = true := by simpa using hok
  refine post_setsignotifyIf.bind ?_
  rintro ok₁ s₃ (⟨rfl, rfl⟩ | ⟨rfl, a₁, h₃, hsig₁⟩)
  · exact habandon hs₂
  have hadd {asked : Prop} {filename : String} {a : Adds} {b : BasePriv}
      (h : Signalled asked filename a) : b.owned = b.owned + a.maps := by
    cases h with
    | skipped => exact (add_zero _).symm
    | wrote _ all => cases all <;> exact (add_zero _).symm
  have hs₃ : Holds l spe s₃ := hs₂.grows h₃ (hadd hsig₁)
  refine post_setsignotifyIf.bind ?_
  rintro ok₂ s₄ (⟨rfl, rfl⟩ | ⟨rfl, a₂, h₄, hsig₂⟩)
  · exact habandon hs₃
  have hs₄ : Holds l spe s₄ := hs₃.grows h₄ (hadd hsig₂)
  refine .ret (.inr ⟨rfl, hs₄, _, _, ((h₁.andThen h₂).andThen h₃).andThen h₄, ?_⟩)
  rw [h₃.base, h₂.base]
  refine Made.of_parts hmaps hnone hmem ?_ hsig₁ hsig₂
  rcases hb with ⟨hfl, hb⟩ | ⟨hfl, -, ha, hb⟩
  · exact .inl ⟨hfl, hok ▸ hb⟩
  · exact .inr ⟨hfl, ha, hb⟩

/-! ## The whole function -/

/-- The members after the "sane defaults". -/
structure Blank (spe : Spe) (s : Proc) : Prop where
  fdSpeDir : s.base.fdSpeDir = -1
  mem : s.base.memMmapBase = none
  psMaps : s.base.psMaps = 0
  slots : ∀ d, s.mem (.speFdsArray spe d) = -1

theorem Blank.owned (h : Blank spe s) : s.owned spe false = 0 := by
  have hslots (ds : List FdName) : s.slotFds spe ds = 0 := by
    induction ds with
    | nil => rfl
    | cons d ds ih => rw [slotFds_cons, h.slots, ih, heldFd_neg_one, add_zero]
  unfold Proc.owned BasePriv.owned
  rw [h.fdSpeDir, h.mem, h.psMaps, hslots]
  rfl

theorem post_initFds {ds : List FdName} :
    CtxPost w (initFds spe ds) s fun _ s' => ∃ mem, s' = { s with mem := mem } ∧
      (∀ d ∈ ds, mem (.speFdsArray spe d) = -1) ∧
      ∀ d, s.mem (.speFdsArray spe d) = -1 → mem (.speFdsArray spe d) = -1 := by
  induction ds generalizing s with
  | nil => exact .ret ⟨s.mem, rfl, by simp, fun _ h => h⟩
  | cons d ds ih =>
    apply post_step (c := .store _ _) trivial
    intro _ s₁ h₁
    obtain rfl := Option.some.inj h₁
    refine ih.mono ?_
    rintro _ s' ⟨mem, rfl, hds, hkeep⟩
    refine ⟨mem, rfl, ?_, fun d' hd' => hkeep d' ?_⟩
    · refine List.forall_mem_cons.mpr ⟨hkeep d setMem_self, hds⟩
    · by_cases hne : d' = d
      · subst hne
        exact setMem_self
      · rw [setMem_of_ne fun h => hne (by injection h)]
        exact hd'

theorem post_initPriv :
    CtxPost w (initPriv spe) s fun _ s' =>
      Blank spe s' ∧ ∃ mem b, s' = { s with mem := mem, base := b } := by
  refine post_modifyBase.bind ?_
  rintro _ _ rfl
  refine post_initFds.mono ?_
  rintro _ s' ⟨mem, rfl, hds, -⟩
  exact ⟨⟨rfl, rfl, rfl, fun d => hds d (mem_fdNames d)⟩, mem, _, rfl⟩

/-- What is fixed for a context without an event record that is created in `s`. -/
def Proc.life (s : Proc) (flags : UInt32) : Life where
  flags := flags
  event := false
  others := s.live
  faults := s.faults
  mapped := False

/-- A context has been created in `s`, with these flags. -/
structure Created (spe : Spe) (fl : UInt32) (s s' : Proc) : Prop extends
    Holds (s.life fl) spe s' where
  eventPrivate : s'.eventPrivate = false
  flags : s'.base.flags = fl
  wild : s'.wild = s.wild
  made : ∃ a b₀, s'.mapped = a.names ++ s.mapped ∧ s'.written = a.written ++ s.written ∧
    s'.refused = a.refused ++ s.refused ∧ Made fl a b₀ s'.base

theorem post_loaderMissing {flags : UInt32} :
    CtxPost w (loaderMissing flags) s fun _ s' => s' = s := by
  unfold loaderMissing
  split
  · apply post_step (c := .emulatedLoaderPresent) trivial
    intro there s₁ h
    exact .ret (Option.some.inj h).symm
  · exact .ret rfl

/-- The directory of the context is known. -/
theorem Blank.holds {dir : Fd} {flags : UInt32} (hb : Blank spe s) (hdir : 0 ≤ dir)
    (hlive : s.live = s₀.live) (hfaults : s.faults = s₀.faults) :
    Holds (s₀.life flags) spe
      { s.acquire (.fd dir) with base := { s.base with fdSpeDir := dir, flags := flags } } where
  live := by
    have howned := hb.owned
    unfold Proc.owned BasePriv.owned at howned
    rw [hb.fdSpeDir, hb.mem, heldFd_neg_one, zero_add] at howned
    show .fd dir ::ₘ s.live = s₀.live + (heldFd dir + heldMap s.base.memMmapBase lsSize +
      s.base.psMaps + s.slotFds spe fdNames + 0)
    rw [hlive, heldFd_of_nonneg hdir, hb.mem, ← Multiset.singleton_add]
    simp only [heldMap_none, Bool.false_eq_true, ↓reduceIte, zero_add, add_zero] at howned ⊢
    rw [add_assoc, howned]
    abel
  faults := hfaults
  slots d := .inl (hb.slots d)
  ends he := absurd he Bool.false_ne_true

/-- **Creation**: a failure leaves nothing behind. -/
theorem post_baseCreate {flags : UInt32} {gctx : Option String} {affSpe : Option Fd} :
    CtxPost w (baseSpeContextCreate spe flags gctx affSpe) s fun created s' =>
      created = false ∧ s'.live = s.live ∧ s'.faults = s.faults ∨
      created = true ∧ Created spe (contextFlags flags) s s' := by
  refine post_loaderMissing.bind ?_
  rintro missing s rfl
  split
  · apply post_step (c := .setErrno einval) trivial
    intro _ s₁ h
    obtain rfl := Option.some.inj h
    exact .ret (.inl ⟨rfl, rfl, rfl⟩)
  apply post_step (c := .malloc) trivial
  intro addr s₁ h
  obtain rfl := Option.some.inj h
  cases addr with
  | none => exact .ret (.inl ⟨rfl, rfl, rfl⟩)
  | some addr =>
  apply post_step (c := .setEventPrivate false) trivial
  intro _ s₁ h
  obtain rfl := Option.some.inj h
  apply post_step (c := .malloc) trivial
  intro priv s₂ h
  obtain rfl := Option.some.inj h
  cases priv with
  | none => exact .ret (.inl ⟨rfl, rfl, rfl⟩)
  | some priv =>
  refine post_initPriv.bind ?_
  rintro _ s₃ ⟨hblank, mem, b, hs₃⟩
  apply post_step (c := .getpid) trivial
  intro pid s₄ h
  obtain rfl := Option.some.inj h
  apply post_step (c := .spuCreate ..) trivial
  rintro (e | dir) s₅ h
  · obtain rfl := Option.some.inj h
    have hs : Holds (s.life flags) spe s₃ := by
      refine ⟨?_, ?_, fun d => .inl (hblank.slots d), fun he => absurd he Bool.false_ne_true⟩
      · rw [show (s.life flags).event = false from rfl, hblank.owned, hs₃]
        exact (add_zero _).symm
      · rw [hs₃]
        rfl
    exact (hs.abandon rfl).mono fun _ _ h => .inl h
  · obtain ⟨hfree, rfl⟩ := of_guard h
    refine post_modifyBase.bind ?_
    rintro _ _ rfl
    refine post_modifyBase.bind ?_
    rintro _ _ rfl
    have hs : Holds (s.life (contextFlags flags)) spe _ :=
      hblank.holds hfree.1 (by rw [hs₃]) (by rw [hs₃])
    refine (post_mapContext hs rfl hblank.psMaps hblank.mem).mono ?_
    rintro created s' (⟨hc, hl, hf⟩ | ⟨hc, hs', a, b', hg, hm⟩)
    · exact .inl ⟨hc, hl, hf⟩
    · rw [← hg.base] at hm
      refine .inr ⟨hc, hs', ?_, ?_, ?_, a, _, ?_, ?_, ?_, hm⟩
      · rw [hg.eventPrivate, hs₃]
        rfl
      · rw [hm.flags]
      · rw [hg.wild, hs₃]
        rfl
      · rw [hg.mapped, hs₃]
        rfl
      · rw [hg.written, hs₃]
        rfl
      · rw [hg.refused, hs₃]
        rfl

end LibSpe2.Ctx
