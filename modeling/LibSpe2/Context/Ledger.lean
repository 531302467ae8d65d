import LibSpe2.Context.Ops
import Mathlib.Tactic.Abel

/-!
# What a context holds

The ledger of a context: everything that its records say it has acquired, and the invariant that the
process holds exactly this, next to what it held before.

* `Proc.owned` — the ledger.
* `Life`, `Sound` — what is fixed for the whole life of a context, and the invariant.
* `Sound.same` — what does not touch the ledger keeps it; the descriptor cache and the pipe do touch it
  (`keeps_openIfClosed`, `keeps_closeIfOpen`, `keeps_pipeAcquire`, `keeps_pipeRelease`).
-/

namespace LibSpe2.Ctx

open Conc Function

/-! ## The ledger -/

/-- A descriptor that a member of a record holds; a negative number is none. -/
def heldFd (fd : Fd) : Multiset Resource := if 0 ≤ fd then {.fd fd} else 0

/-- A mapping that a member of a record holds. -/
def heldMap (base : Option Nat) (size : Nat) : Multiset Resource :=
  match base with
  | none => 0
  | some base => {.map base size}

@[simp] theorem heldFd_neg_one : heldFd (-1) = 0 := rfl

theorem heldFd_of_nonneg {fd : Fd} (h : 0 ≤ fd) : heldFd fd = {.fd fd} := if_pos h

@[simp] theorem heldMap_none (size : Nat) : heldMap none size = 0 := rfl

/-- The mappings of the problem state: the bases inside the `psmap` mapping are none of their own. -/
def BasePriv.psMaps (b : BasePriv) : Multiset Resource :=
  match b.psmapMmapBase with
  | some base => {.map base psmapSize}
  | none => heldMap b.mfcMmapBase mfcSize + heldMap b.mssyncMmapBase mssSize +
      heldMap b.cntlMmapBase cntlSize + heldMap b.signal1MmapBase signalSize +
      heldMap b.signal2MmapBase signalSize

def BasePriv.owned (b : BasePriv) : Multiset Resource :=
  heldFd b.fdSpeDir + heldMap b.memMmapBase lsSize + b.psMaps

/-- The descriptors of some slots. -/
def Proc.slotFds (s : Proc) (spe : Spe) (ds : List FdName) : Multiset Resource :=
  (ds.map fun d => heldFd (s.mem (.speFdsArray spe d))).sum

def Proc.pipeFds (s : Proc) (spe : Spe) : Multiset Resource :=
  heldFd (s.mem (.stopEventPipe spe 0)) + heldFd (s.mem (.stopEventPipe spe 1))

/-- All that the records of the context say it holds; `event` says that it has an event record. -/
def Proc.owned (s : Proc) (spe : Spe) (event : Bool) : Multiset Resource :=
  s.base.owned + s.slotFds spe fdNames + if event then s.pipeFds spe else 0

/-! ## One slot -/

theorem mem_fdNames (d : FdName) : d ∈ fdNames := by cases d <;> decide

theorem nodup_fdNames : fdNames.Nodup := by decide

theorem slotFds_cons (s : Proc) (spe : Spe) (d : FdName) (ds : List FdName) :
    s.slotFds spe (d :: ds) = heldFd (s.mem (.speFdsArray spe d)) + s.slotFds spe ds := by
  rw [Proc.slotFds, List.map_cons, List.sum_cons]
  rfl

theorem slotFds_congr {s s' : Proc} {spe : Spe} {ds : List FdName}
    (h : ∀ d ∈ ds, s'.mem (.speFdsArray spe d) = s.mem (.speFdsArray spe d)) :
    s'.slotFds spe ds = s.slotFds spe ds := by
  unfold Proc.slotFds
  rw [List.map_congr_left fun d hd => by rw [h d hd]]

theorem mem_slotFds {s : Proc} {spe : Spe} {d : FdName} {ds : List FdName} (hd : d ∈ ds)
    (hfd : 0 ≤ s.mem (.speFdsArray spe d)) :
    .fd (s.mem (.speFdsArray spe d)) ∈ s.slotFds spe ds := by
  induction ds with
  | nil => simp at hd
  | cons e ds ih =>
    rw [slotFds_cons, Multiset.mem_add]
    rcases List.mem_cons.mp hd with rfl | hd
    · exact .inl (by simp [heldFd_of_nonneg hfd])
    · exact .inr (ih hd)

/-- A slot that changes: what it held is exchanged for what it holds. -/
theorem slotFds_update {s s' : Proc} {spe : Spe} {d : FdName} {ds : List FdName} (hn : ds.Nodup)
    (hd : d ∈ ds)
    (h : ∀ d', d' ≠ d → s'.mem (.speFdsArray spe d') = s.mem (.speFdsArray spe d')) :
    s'.slotFds spe ds + heldFd (s.mem (.speFdsArray spe d)) =
      s.slotFds spe ds + heldFd (s'.mem (.speFdsArray spe d)) := by
  induction ds with
  | nil => simp at hd
  | cons e ds ih =>
    rw [slotFds_cons, slotFds_cons]
    obtain ⟨he, hn⟩ := List.nodup_cons.mp hn
    by_cases hed : d = e
    · subst hed
      have hds : s'.slotFds spe ds = s.slotFds spe ds :=
        slotFds_congr fun d' hd' => h d' (ne_of_mem_of_not_mem hd' he)
      rw [hds]
      abel
    · rw [h e (Ne.symm hed), add_assoc, ih hn ((List.mem_cons.mp hd).resolve_left hed), add_assoc]

/-! ## The invariant -/

/-- What is fixed for the life of a context: its flags, whether it has an event record, what the
process held before and the faults so far. `mapped` says that all areas asked for have been mapped. -/
structure Life where
  flags : UInt32
  event : Bool
  others : Multiset Resource
  faults : List Resource
  mapped : Prop

/-- What is watched at every moment. -/
structure Watch where
  faults : List Resource
  mapped : Prop

/-- There has been no other fault and, if all areas are mapped, no wild access. -/
def Watch.Calm (w : Watch) (s : Proc) : Prop := s.faults = w.faults ∧ (w.mapped → s.wild = [])

def Life.watch (l : Life) : Watch := ⟨l.faults, l.mapped⟩

/-- What a program leads to, with the process calm at every moment. -/
abbrev CtxPost {α : Type} (w : Watch) (p : Code α) (s : Proc) (Q : α → Proc → Prop) : Prop :=
  Post machine () w.Calm p s Q

/-- The ledger is what the process holds. -/
structure Holds (l : Life) (spe : Spe) (s : Proc) : Prop where
  live : s.live = l.others + s.owned spe l.event
  faults : s.faults = l.faults
  slots : ∀ d, s.mem (.speFdsArray spe d) = -1 ∨ 0 ≤ s.mem (.speFdsArray spe d)
  ends : l.event = true → ∀ i, s.mem (.stopEventPipe spe i) = -1 ∨ 0 ≤ s.mem (.stopEventPipe spe i)

/-- The pipe is closed unless somebody is counted. -/
def Counted (l : Life) (spe : Spe) (s : Proc) : Prop :=
  l.event = true → s.mem (.stopEventHandlerCount spe) ≤ 0 → ∀ i, s.mem (.stopEventPipe spe i) = -1

/-- The invariant of a context, but for the count of its pipe. -/
structure Sound (l : Life) (spe : Spe) (s : Proc) : Prop extends Holds l spe s where
  flags : s.base.flags = l.flags
  event : s.eventPrivate = l.event
  hasEvent : l.flags &&& speEventsEnable ≠ 0 → l.event = true
  isolate : l.flags &&& speIsolate ≠ 0 → l.flags &&& speMapPs ≠ 0
  areas : l.mapped → s.wild = [] ∧ (l.flags &&& speMapPs ≠ 0 → ∀ a, s.base.area a ≠ none)

/-- The two states agree in all that the invariant is about. -/
structure Same (spe : Spe) (s s' : Proc) : Prop where
  live : s'.live = s.live
  faults : s'.faults = s.faults
  wild : s'.wild = s.wild
  event : s'.eventPrivate = s.eventPrivate
  flags : s'.base.flags = s.base.flags
  owned : s'.base.owned = s.base.owned
  area : s'.base.area = s.base.area
  slots : ∀ d, s'.mem (.speFdsArray spe d) = s.mem (.speFdsArray spe d)
  ends : ∀ i, s'.mem (.stopEventPipe spe i) = s.mem (.stopEventPipe spe i)
  count : s'.mem (.stopEventHandlerCount spe) = s.mem (.stopEventHandlerCount spe)

variable {l : Life} {spe : Spe} {s s' : Proc}

theorem Same.rfl : Same spe s s := by constructor <;> intros <;> rfl

theorem Same.owned_eq (h : Same spe s s') (event : Bool) : s'.owned spe event = s.owned spe event := by
  unfold Proc.owned Proc.pipeFds
  rw [h.owned, slotFds_congr fun d _ => h.slots d, h.ends 0, h.ends 1]

theorem Holds.same (hs : Holds l spe s) (h : Same spe s s') : Holds l spe s' where
  live := by rw [h.live, hs.live, h.owned_eq]
  faults := h.faults.trans hs.faults
  slots d := by rw [h.slots]; exact hs.slots d
  ends he i := by rw [h.ends]; exact hs.ends he i

theorem Counted.same (hs : Counted l spe s) (h : Same spe s s') : Counted l spe s' := by
  intro he hc i
  rw [h.ends]
  exact hs he (h.count ▸ hc) i

theorem Sound.same (hs : Sound l spe s) (h : Same spe s s') : Sound l spe s' where
  toHolds := hs.toHolds.same h
  flags := h.flags.trans hs.flags
  event := h.event.trans hs.event
  hasEvent := hs.hasEvent
  isolate := hs.isolate
  areas hl := by
    rw [h.wild, h.area]
    exact hs.areas hl

/-! ## Members outside the ledger -/

/-- A member that says nothing about what is held. -/
def Loc.Plain (spe : Spe) : Loc → Prop
  | .speFdsArray spe' _ | .stopEventPipe spe' _ | .stopEventHandlerCount spe' => spe' ≠ spe
  | _ => True

@[simp] theorem setMem_self {l : Loc} {v : Int} : (s.setMem l v).mem l = v := update_self ..

theorem setMem_of_ne {l l' : Loc} {v : Int} (h : l' ≠ l) : (s.setMem l v).mem l' = s.mem l' :=
  update_of_ne h ..

theorem same_setMem {l : Loc} {v : Int} (h : Loc.Plain spe l) : Same spe s (s.setMem l v) where
  live := rfl
  faults := rfl
  wild := rfl
  event := rfl
  flags := rfl
  owned := rfl
  area := rfl
  slots d := setMem_of_ne (by rintro rfl; exact h rfl)
  ends i := setMem_of_ne (by rintro rfl; exact h rfl)
  count := setMem_of_ne (by rintro rfl; exact h rfl)

theorem same_noteWrite {fd : Fd} {bytes : List UInt8} {r : Except Errno Nat} :
    Same spe s (s.noteWrite fd bytes r) := by
  unfold Proc.noteWrite
  split <;> constructor <;> intros <;> rfl

theorem same_noteAccess {a : PsArea} (h : s.base.area a ≠ none) : Same spe s (s.noteAccess a) := by
  rw [Proc.noteAccess, if_neg h]
  exact .rfl

/-- Where no area is promised, an access is not held against anybody. -/
theorem Sound.noteAccess {a : PsArea} (hs : Sound l spe s) (h : l.flags &&& speMapPs ≠ 0) :
    Sound l spe (s.noteAccess a) := by
  by_cases ha : s.base.area a = none
  · have hw : ¬ l.mapped := fun hl => (hs.areas hl).2 h a ha
    rw [Proc.noteAccess, if_pos ha]
    exact { hs with toHolds := ⟨hs.live, hs.faults, hs.slots, hs.ends⟩
                    areas := fun hl => absurd hl hw }
  · exact hs.same (same_noteAccess ha)

theorem counted_noteAccess {a : PsArea} (hs : Counted l spe s) : Counted l spe (s.noteAccess a) := by
  unfold Proc.noteAccess
  split <;> exact hs

/-! ## Releasing -/

@[simp] theorem release_mem {r : Resource} : (s.release r).mem = s.mem := by
  unfold Proc.release
  split <;> rfl

@[simp] theorem release_base {r : Resource} : (s.release r).base = s.base := by
  unfold Proc.release
  split <;> rfl

@[simp] theorem release_eventPrivate {r : Resource} : (s.release r).eventPrivate = s.eventPrivate := by
  unfold Proc.release
  split <;> rfl

@[simp] theorem release_wild {r : Resource} : (s.release r).wild = s.wild := by
  unfold Proc.release
  split <;> rfl

@[simp] theorem release_mapped {r : Resource} : (s.release r).mapped = s.mapped := by
  unfold Proc.release
  split <;> rfl

@[simp] theorem release_written {r : Resource} : (s.release r).written = s.written := by
  unfold Proc.release
  split <;> rfl

@[simp] theorem release_refused {r : Resource} : (s.release r).refused = s.refused := by
  unfold Proc.release
  split <;> rfl

/-- What the process holds is released without a fault. -/
theorem release_live {r : Resource} {rest : Multiset Resource} (h : s.live = {r} + rest) :
    (s.release r).live = rest ∧ (s.release r).faults = s.faults := by
  have hr : r ∈ s.live := by simp [h]
  rw [Proc.release, if_pos hr]
  exact ⟨by simp [h], rfl⟩

/-! ## Commands that are harmless at every moment -/

/-- Commands that release nothing and do not touch the problem state. -/
def Cmd.Tame : Cmd → Prop
  | .munmap _ _ | .close _ | .access _ => False
  | _ => True

theorem calm_congr {w : Watch} (hf : s'.faults = s.faults) (hw : s'.wild = s.wild) (h : w.Calm s) :
    w.Calm s' := ⟨hf.trans h.1, fun hm => hw.trans (h.2 hm)⟩

theorem calm_tame {w : Watch} {c : Cmd} {r : Ans c} (hc : c.Tame) (hs : w.Calm s)
    (h : exec () c r s = some s') : w.Calm s' := by
  cases c with
  | munmap => exact hc.elim
  | close => exact hc.elim
  | access => exact hc.elim
  | spuCreate =>
    cases r with
    | error e => exact Option.some.inj h ▸ hs
    | ok fd => exact (of_guard h).2 ▸ hs
  | openat =>
    cases r with
    | error e => exact Option.some.inj h ▸ hs
    | ok fd => exact (of_guard h).2 ▸ hs
  | mmap =>
    cases r with
    | none => exact Option.some.inj h ▸ hs
    | some base => exact (of_guard h).2 ▸ hs
  | pipe =>
    rcases r with e | ⟨r, w⟩
    · exact Option.some.inj h ▸ hs
    · exact (of_guard h).2 ▸ hs
  | write fd bytes =>
    obtain rfl := Option.some.inj h
    unfold Proc.noteWrite
    split <;> exact hs
  | load => exact (of_guard h).2 ▸ hs
  | base => exact (of_guard h).2 ▸ hs
  | eventPrivate => exact (of_guard h).2 ▸ hs
  | _ => exact Option.some.inj h ▸ hs

section

variable {w : Watch} {c : Cmd} {α : Type}

/-- A harmless command, then the rest. -/
theorem post_step {k : Ans c → Code α} {Q : α → Proc → Prop} (hc : c.Tame)
    (h : ∀ r s₁, exec () c r s = some s₁ → CtxPost w (k r) s₁ Q) :
    CtxPost w ((perform c).bind k) s Q :=
  Post.cmd (fun _ _ hs he => calm_tame hc hs he) h

/-- A harmless command on its own. -/
theorem post_perform {Q : Ans c → Proc → Prop} (hc : c.Tame)
    (h : ∀ r s', exec () c r s = some s' → Q r s') : CtxPost w (perform c) s Q :=
  Post.cmd (fun _ _ hs he => calm_tame hc hs he) fun r s' he => .ret (h r s' he)

/-- A command that releases something that is held. -/
theorem post_release {k : Ans c → Code α} {r : Resource} {Q : α → Proc → Prop}
    (hc : ∀ a s₁, exec () c a s = some s₁ → s₁ = s.release r) (hr : r ∈ s.live)
    (h : ∀ a, CtxPost w (k a) (s.release r) Q) : CtxPost w ((perform c).bind k) s Q := by
  refine Post.cmd (fun a s₁ hs he => ?_) fun a s₁ he => hc a s₁ he ▸ h a
  rw [hc a s₁ he]
  exact calm_congr (by rw [Proc.release, if_pos hr]) release_wild hs

end

/-! ## The slots and the ends of the pipe -/

/-- A slot that was empty gets a new descriptor. -/
theorem Holds.fill {d : FdName} {fd : Fd} {files : Fd → String} (hs : Holds l spe s)
    (hd : s.mem (.speFdsArray spe d) = -1) (hfd : 0 ≤ fd) :
    Holds l spe ({ s.acquire (.fd fd) with files := files }.setMem (.speFdsArray spe d) fd) := by
  set s' := { s.acquire (.fd fd) with files := files }.setMem (.speFdsArray spe d) fd with hs'
  have hself : s'.mem (.speFdsArray spe d) = fd := setMem_self
  have hother (d' : FdName) (hne : d' ≠ d) :
      s'.mem (.speFdsArray spe d') = s.mem (.speFdsArray spe d') :=
    setMem_of_ne fun h => hne (by injection h)
  have hslots := slotFds_update nodup_fdNames (mem_fdNames d) hother
  rw [hself, hd, heldFd_neg_one, add_zero, heldFd_of_nonneg hfd] at hslots
  refine ⟨?_, hs.faults, fun d' => ?_, hs.ends⟩
  · show .fd fd ::ₘ s.live = l.others + (s.base.owned + s'.slotFds spe fdNames + _)
    rw [hs.live, hslots, ← Multiset.singleton_add]
    unfold Proc.owned
    show _ = l.others + (s.base.owned + _ + if l.event then s.pipeFds spe else 0)
    abel
  · by_cases hne : d' = d
    · subst hne
      exact .inr (hself ▸ hfd)
    · rw [hother d' hne]
      exact hs.slots d'

/-- What a slot holds is held by the process. -/
theorem Holds.slot_live {d : FdName} (hs : Holds l spe s)
    (hd : s.mem (.speFdsArray spe d) ≠ -1) : .fd (s.mem (.speFdsArray spe d)) ∈ s.live := by
  have hmem := mem_slotFds (mem_fdNames d) ((hs.slots d).resolve_left hd)
  rw [hs.live, Proc.owned]
  simp [hmem]

/-- A slot is emptied and what it held is released. -/
theorem Holds.clear {d : FdName} (hs : Holds l spe s) (hd : s.mem (.speFdsArray spe d) ≠ -1) :
    Holds l spe ((s.release (.fd (s.mem (.speFdsArray spe d)))).setMem (.speFdsArray spe d) (-1)) := by
  set fd := s.mem (.speFdsArray spe d)
  set s' := (s.release (.fd fd)).setMem (.speFdsArray spe d) (-1) with hs'
  have hfd : 0 ≤ fd := (hs.slots d).resolve_left hd
  have hself : s'.mem (.speFdsArray spe d) = -1 := setMem_self
  have hother (d' : FdName) (hne : d' ≠ d) :
      s'.mem (.speFdsArray spe d') = s.mem (.speFdsArray spe d') := by
    rw [hs', setMem_of_ne (fun h => hne (by injection h)), release_mem]
  have hend (i : Fin 2) : s'.mem (.stopEventPipe spe i) = s.mem (.stopEventPipe spe i) := by
    rw [hs', setMem_of_ne (by simp), release_mem]
  have hslots := slotFds_update nodup_fdNames (mem_fdNames d) hother
  rw [hself, heldFd_neg_one, add_zero, show heldFd (s.mem (.speFdsArray spe d)) = {.fd fd} from
    heldFd_of_nonneg hfd] at hslots
  have howned : s.owned spe l.event = {.fd fd} + s'.owned spe l.event := by
    unfold Proc.owned Proc.pipeFds
    rw [← hslots, hend 0, hend 1, show s'.base = s.base from release_base]
    abel
  have hlive : s.live = {.fd fd} + (l.others + s'.owned spe l.event) := by
    rw [hs.live, howned]
    abel
  obtain ⟨hl, hf⟩ := release_live hlive
  refine ⟨hl, hf.trans hs.faults, fun d' => ?_, fun he i => hend i ▸ hs.ends he i⟩
  by_cases hne : d' = d
  · subst hne
    exact .inl hself
  · rw [hother d' hne]
    exact hs.slots d'

/-- The other end of the pipe. -/
theorem pipeFds_eq (s : Proc) (spe : Spe) (i : Fin 2) :
    s.pipeFds spe = heldFd (s.mem (.stopEventPipe spe i)) +
      heldFd (s.mem (.stopEventPipe spe (1 - i))) := by
  match i with
  | 0 => rfl
  | 1 => exact add_comm ..

theorem end_eq_or : ∀ i j : Fin 2, j = i ∨ j = 1 - i := by decide

theorem end_ne : ∀ i : Fin 2, 1 - i ≠ i := by decide

/-- An end of the pipe is released and its member reset. -/
def Proc.closeEnd (s : Proc) (spe : Spe) (i : Fin 2) : Proc :=
  (s.release (.fd (s.mem (.stopEventPipe spe i)))).setMem (.stopEventPipe spe i) (-1)

theorem closeEnd_mem_self (i : Fin 2) : (s.closeEnd spe i).mem (.stopEventPipe spe i) = -1 :=
  setMem_self

theorem closeEnd_mem_of_ne {i : Fin 2} {l : Loc} (h : l ≠ .stopEventPipe spe i) :
    (s.closeEnd spe i).mem l = s.mem l := by
  rw [Proc.closeEnd, setMem_of_ne h, release_mem]

theorem Holds.end_live {i : Fin 2} (hs : Holds l spe s) (he : l.event = true)
    (hi : s.mem (.stopEventPipe spe i) ≠ -1) : .fd (s.mem (.stopEventPipe spe i)) ∈ s.live := by
  have hfd : 0 ≤ s.mem (.stopEventPipe spe i) := (hs.ends he i).resolve_left hi
  rw [hs.live, Proc.owned, he, if_pos rfl, pipeFds_eq _ _ i, heldFd_of_nonneg hfd]
  simp

theorem Holds.closeEnd {i : Fin 2} (hs : Holds l spe s) (he : l.event = true)
    (hi : s.mem (.stopEventPipe spe i) ≠ -1) : Holds l spe (s.closeEnd spe i) := by
  set fd := s.mem (.stopEventPipe spe i)
  have hfd : 0 ≤ fd := (hs.ends he i).resolve_left hi
  have hself : (s.closeEnd spe i).mem (.stopEventPipe spe i) = -1 := closeEnd_mem_self i
  have hother : (s.closeEnd spe i).mem (.stopEventPipe spe (1 - i)) =
      s.mem (.stopEventPipe spe (1 - i)) :=
    closeEnd_mem_of_ne fun h => end_ne i (by injection h)
  have hslot (d : FdName) : (s.closeEnd spe i).mem (.speFdsArray spe d) =
      s.mem (.speFdsArray spe d) := closeEnd_mem_of_ne (by simp)
  have hbase : (s.closeEnd spe i).base = s.base := release_base
  have howned : s.owned spe l.event = {.fd fd} + (s.closeEnd spe i).owned spe l.event := by
    unfold Proc.owned
    rw [hbase, slotFds_congr fun d _ => hslot d, pipeFds_eq _ _ i, pipeFds_eq _ _ i, hself, hother,
      he, show heldFd (s.mem (.stopEventPipe spe i)) = {.fd fd} from heldFd_of_nonneg hfd,
      heldFd_neg_one]
    simp only [↓reduceIte]
    abel
  have hlive : s.live = {.fd fd} + (l.others + (s.closeEnd spe i).owned spe l.event) := by
    rw [hs.live, howned]
    abel
  obtain ⟨hl, hf⟩ := release_live hlive
  refine ⟨hl, hf.trans hs.faults, fun d => hslot d ▸ hs.slots d, fun _ j => ?_⟩
  rcases end_eq_or i j with rfl | rfl
  · exact .inl hself
  · rw [hother]
    exact hs.ends he _

/-- A pipe that was closed gets two new descriptors. -/
def Proc.openPipe (s : Proc) (spe : Spe) (r w : Fd) : Proc :=
  (((s.acquire (.fd r)).acquire (.fd w)).setMem (.stopEventPipe spe 0) r).setMem
    (.stopEventPipe spe 1) w

theorem openPipe_mem_of_ne {r w : Fd} {l : Loc} (h : ∀ i, l ≠ .stopEventPipe spe i) :
    (s.openPipe spe r w).mem l = s.mem l := by
  rw [Proc.openPipe, setMem_of_ne (h 1), setMem_of_ne (h 0)]
  rfl

theorem Holds.openPipe {r w : Fd} (hs : Holds l spe s) (he : l.event = true)
    (hclosed : ∀ i, s.mem (.stopEventPipe spe i) = -1) (hr : 0 ≤ r) (hw : 0 ≤ w) :
    Holds l spe (s.openPipe spe r w) := by
  have h₀ : (s.openPipe spe r w).mem (.stopEventPipe spe 0) = r := by
    rw [Proc.openPipe, setMem_of_ne (by simp), setMem_self]
  have h₁ : (s.openPipe spe r w).mem (.stopEventPipe spe 1) = w := setMem_self
  have hslot (d : FdName) : (s.openPipe spe r w).mem (.speFdsArray spe d) =
      s.mem (.speFdsArray spe d) := openPipe_mem_of_ne (by simp)
  refine ⟨?_, hs.faults, fun d => hslot d ▸ hs.slots d, fun _ i => ?_⟩
  · show .fd w ::ₘ .fd r ::ₘ s.live = _
    unfold Proc.owned
    rw [slotFds_congr fun d _ => hslot d, hs.live, Proc.owned, Proc.pipeFds, Proc.pipeFds, h₀, h₁,
      hclosed 0, hclosed 1, he, heldFd_of_nonneg hr, heldFd_of_nonneg hw,
      ← Multiset.singleton_add, ← Multiset.singleton_add]
    simp only [heldFd_neg_one, ↓reduceIte]
    show _ = l.others + (s.base.owned + _ + _)
    abel
  · match i with
    | 0 => exact .inr (h₀.symm ▸ hr)
    | 1 => exact .inr (h₁.symm ▸ hw)

end LibSpe2.Ctx
