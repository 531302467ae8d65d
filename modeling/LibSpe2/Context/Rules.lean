import LibSpe2.Context.Ops

/-!
# Following a call through its code

A property of programs that is closed under sequencing and repetition, and that holds of the commands
that a call consists of, holds of the call. `Rules` says what there is to show for such a property, and
the rules that follow go through the functions of the library once and for all.

* `Rules` — the commands, and the functions for slots and for the pipe, which a property treats in its
  own way.
* `Rules.outMboxRead`, …, `Rules.deregister` — mailboxes, status, signals, multisource synchronisation,
  proxy DMA and the registration of events.

What is reached through the problem state is reached only in a context with `SPE_MAP_PS`, and the pipe
only in one with `SPE_EVENTS_ENABLE`.
-/

namespace LibSpe2.Ctx

open Conc

/-- The commands of `Sys` that are issued outside of the functions for slots and for the pipe. -/
def Ordinary (flags : UInt32) : LibSpe2.Cmd → Prop
  | .store _ _ | .openat _ _ | .close _ | .pipe _ | .baseRun _ => False
  | .note (.opened _ _ _) | .note (.closed _ _ _) => False
  | .readMboxStat _ | .readOutMbox _ | .writeInMbox _ _ => flags &&& speMapPs ≠ 0
  | _ => True

/-- The registers of the MFC are reached only in a context with `SPE_MAP_PS`. -/
def DmaQuiet (flags : UInt32) : Dma.Cmd → Prop
  | .readQStatus | .writeLSA _ | .writeEAH _ | .writeEAL _ | .writeSizeTag _ | .writeClassIdCmd _
  | .readCmdStatus | .writeQueryMask _ | .readTagStatus _ => flags &&& speMapPs ≠ 0
  | _ => True

/-- The property `K` of programs can be followed through the calls on a context with these flags. -/
structure Rules (flags : UInt32) (spe : Spe) (K : ∀ α : Type, Code α → Prop) : Prop where
  ret {α : Type} (a : α) : K α (.ret a)
  bind {α β : Type} {p : Code α} {f : α → Code β} (hp : K α p) (hf : ∀ a, K β (f a)) : K β (p.bind f)
  repeats {ι β : Type} {body : ι → Code (ι ⊕ β)} {i : ι} (hb : ∀ j, K _ (body j)) :
    K β (Prog.repeats body i)
  base {β : Type} {f : BasePriv → Code β} (hf : ∀ priv, priv.flags = flags → K β (f priv)) :
    K β ((perform .base).bind f)
  load (loc : Loc) : K _ (perform (.load loc))
  sys {c : LibSpe2.Cmd} (hc : Ordinary flags c) : K _ (perform (.sys c))
  dma (c : Dma.Cmd) : K _ (perform (.dma c))
  access (a : PsArea) (hps : flags &&& speMapPs ≠ 0) : K _ (perform (.access a))
  setErrno (e : Int) : K _ (perform (.setErrno e))
  someWord : K _ (perform .someWord)
  openIfClosed (d : FdName) : K _ (openIfClosed spe d)
  /-- Only the slots of the signals are closed again. -/
  closeIfOpen {d : FdName} (hd : d = .sig1 ∨ d = .sig2) : K _ (Ctx.sys (baseSpeCloseIfOpen spe d))
  acquire (hev : flags &&& speEventsEnable ≠ 0) : K _ (Ctx.sys (stopEventPipeAcquire spe))
  release (hev : flags &&& speEventsEnable ≠ 0) : K _ (Ctx.sys (stopEventPipeRelease spe))

namespace Rules

variable {flags : UInt32} {spe : Spe} {K : ∀ α : Type, Code α → Prop} {α β : Type}

/-! ## Programs of the other modules -/

section

variable (hK : Rules flags spe K)
include hK

/-- Commands carried out by programs. -/
theorem interp {C' : Type} {R' : C' → Type} {P : C' → Prop} {f : (c : C') → Code (R' c)}
    {p : Prog C' R' α} (hp : p.All P) (h : ∀ c, P c → K _ (f c)) : K α (p.interp f) := by
  induction p with
  | ret a => exact hK.ret a
  | cmd c k ih => exact hK.bind (h c hp.1) fun r => ih r (hp.2 r)
  | loop body i k ihb ihk =>
    have hloop : K _ (Prog.repeats (fun j => (body j).interp f) i) :=
      hK.repeats fun j => ihb j (hp.1 j)
    exact hK.bind hloop fun b => ihk b (hp.2 b)

theorem sysBind {p : Sys α} {f : α → Sys β} (hp : K _ (Ctx.sys p)) (hf : ∀ a, K _ (Ctx.sys (f a))) :
    K _ (Ctx.sys (p.bind f)) := by
  unfold Ctx.sys
  rw [Prog.interp_bind]
  exact hK.bind hp hf

theorem sysRepeats {ι : Type} {body : ι → Sys (ι ⊕ β)} {i : ι} (hb : ∀ j, K _ (Ctx.sys (body j))) :
    K _ (Ctx.sys (Prog.repeats body i)) := by
  unfold Ctx.sys
  rw [Prog.interp_repeats]
  exact hK.repeats hb

theorem implSys {c : LibSpe2.Cmd} (hc : Ordinary flags c) :
    K _ (implSys (perform (.sys (.baseRun 0))) c) := by
  cases c with
  | store | openat | close | pipe | baseRun => exact hc.elim
  | load loc => exact hK.load loc
  | flags => exact hK.base fun priv _ => hK.ret priv.flags
  | readMboxStat | readOutMbox | writeInMbox => exact hK.bind (hK.access .control hc) fun _ => hK.sys hc
  | _ => exact hK.sys hc

theorem sysCmd {c : LibSpe2.Cmd} (hc : Ordinary flags c) : K _ (Ctx.sys (LibSpe2.perform c)) := by
  unfold Ctx.sys
  rw [Prog.interp_perform]
  exact hK.implSys hc

/-- One command of `Sys`, then the rest. -/
theorem sysStep {c : LibSpe2.Cmd} {f : LibSpe2.Ans c → Sys β} (hc : Ordinary flags c)
    (hf : ∀ r, K _ (Ctx.sys (f r))) : K _ (Ctx.sys ((LibSpe2.perform c).bind f)) :=
  hK.sysBind (hK.sysCmd hc) hf

theorem sysAll {p : Sys α} (hp : p.All (Ordinary flags)) : K _ (Ctx.sys p) :=
  hK.interp hp fun _ hc => hK.implSys hc

/-- What `flags` reads. -/
theorem sysFlags {spe' : Spe} {f : UInt32 → Sys β} (h : K _ (Ctx.sys (f flags))) :
    K _ (Ctx.sys ((LibSpe2.perform (.flags spe')).bind f)) := by
  show K _ ((perform .base).bind fun priv => Ctx.sys (f priv.flags))
  apply hK.base
  intro priv hflags
  rw [hflags]
  exact h

theorem implDma {c : Dma.Cmd} (hc : DmaQuiet flags c) : K _ (implDma spe c) := by
  have hdma : K _ (perform (.dma c)) := hK.dma c
  have haccess (hps : flags &&& speMapPs ≠ 0) :
      K _ ((perform (.access .mfcCommand)).bind fun _ => perform (.dma c)) :=
    hK.bind (hK.access .mfcCommand hps) fun _ => hdma
  cases c with
  | openIfClosed d => exact hK.openIfClosed d
  | readQStatus | writeLSA | writeEAH | writeEAL | writeSizeTag | writeClassIdCmd | readCmdStatus
  | writeQueryMask | readTagStatus => exact haccess hc
  | _ => exact hdma

end

/-! ## Mailboxes -/

section

variable (hps : flags &&& speMapPs ≠ 0)
include hps

theorem ordinary_fetchWords {n : Nat} {got : List Word} : (fetchWords spe n got).All (Ordinary flags) := by
  induction n generalizing got with
  | zero => trivial
  | succ n ih => exact .bind (.perform hps) fun _ => ih

theorem ordinary_storeWords {n : Nat} {aux sent : List Word} :
    (storeWords spe n aux sent).All (Ordinary flags) := by
  induction n generalizing aux sent with
  | zero => trivial
  | succ n ih => exact .bind (.perform hps) fun _ => ih

theorem ordinary_outMboxReadPs {count : Int} : (baseSpeOutMboxReadPs spe count).All (Ordinary flags) := by
  refine .bind (.perform trivial) fun _ => ?_
  refine .bind ?_ fun _ => .bind (.perform trivial) fun _ => .bind (.perform trivial) fun _ => trivial
  apply Prog.all_repeats.mpr
  intro got
  dsimp only
  split
  · refine .bind (.perform hps) fun stat => ?_
    split
    · trivial
    · exact .bind (ordinary_fetchWords hps) fun _ => trivial
  · trivial

theorem ordinary_inMboxWritePs {data : List Word} {count : Int} :
    (baseSpeInMboxWritePs spe data count).All (Ordinary flags) := by
  refine .bind (.perform trivial) fun _ => ?_
  refine .bind ?_ fun _ => .bind (.perform trivial) fun _ => .bind (.perform trivial) fun _ => trivial
  apply Prog.all_repeats.mpr
  intro (aux, sent)
  dsimp only
  split
  · refine .bind (.perform hps) fun stat => ?_
    split
    · trivial
    · exact .bind (ordinary_storeWords hps) fun _ => trivial
  · trivial

end

section

variable (hK : Rules flags spe K)
include hK

theorem fail {e : Errno} : K _ (Ctx.sys (fail e)) := hK.sysStep trivial fun _ => hK.ret _

/-- A slot is opened, and one command uses its descriptor. -/
theorem openThen {d : FdName} {c : Fd → LibSpe2.Cmd} {f : (fd : Fd) → LibSpe2.Ans (c fd) → Sys β}
    (hc : ∀ fd, Ordinary flags (c fd)) (hf : ∀ fd r, K _ (Ctx.sys (f fd r))) :
    K _ (Ctx.sys ((baseSpeOpenIfClosed spe d false).bind fun fd => (LibSpe2.perform (c fd)).bind (f fd))) :=
  hK.sysBind (hK.openIfClosed d) fun fd => hK.sysStep (hc fd) (hf fd)

theorem outMboxRead {data : Option (List UInt8)} {count : Int} :
    K _ (Ctx.sys (baseSpeOutMboxRead spe data count)) := by
  unfold baseSpeOutMboxRead
  split
  · exact hK.sysBind hK.fail fun _ => hK.ret _
  split
  · exact hK.sysBind hK.fail fun _ => hK.ret _
  apply hK.sysFlags
  split
  · next hps => exact hK.sysBind (hK.sysAll (ordinary_outMboxReadPs hps)) fun _ => hK.ret _
  · refine hK.openThen (fun _ => trivial) fun fd r => ?_
    split
    · exact hK.ret _
    · exact hK.sysStep trivial fun _ => hK.ret _
    · exact hK.ret _

theorem pollWbox : K _ (Ctx.sys (pollWbox spe)) := by
  refine hK.openThen (fun _ => trivial) fun fd r => ?_
  split <;> exact hK.ret _

theorem inMboxWriteAllPs (hps : flags &&& speMapPs ≠ 0) {data : List Word} {count : Int} :
    K _ (Ctx.sys (inMboxWriteAllPs spe data count)) := by
  apply hK.sysRepeats
  intro total
  refine hK.sysBind (hK.sysAll (ordinary_inMboxWritePs hps)) fun n => ?_
  dsimp only
  split
  · refine hK.sysBind hK.pollWbox fun ok => ?_
    split <;> exact hK.ret _
  · exact hK.ret _

theorem inMboxWriteAnyPs (hps : flags &&& speMapPs ≠ 0) {data : List Word} {count : Int} :
    K _ (Ctx.sys (inMboxWriteAnyPs spe data count)) := by
  apply hK.sysRepeats
  intro _
  refine hK.sysBind (hK.sysAll (ordinary_inMboxWritePs hps)) fun n => ?_
  split
  · refine hK.sysBind hK.pollWbox fun ok => ?_
    split <;> exact hK.ret _
  · exact hK.ret _

theorem inMboxWriteAllFile {data : List Word} {count : Int} :
    K _ (Ctx.sys (inMboxWriteAllFile spe data count)) := by
  apply hK.sysRepeats
  intro total
  split
  · refine hK.openThen (fun _ => trivial) fun fd r => ?_
    split <;> exact hK.ret _
  · exact hK.ret _

theorem inMboxWriteFile {d : FdName} {data : List Word} {count : Int} :
    K _ (Ctx.sys (inMboxWriteFile spe d data count)) := by
  refine hK.openThen (fun _ => trivial) fun fd r => ?_
  split <;> exact hK.ret _

theorem inMboxWrite {data : Option (List Word)} {count behavior : Int} :
    K _ (Ctx.sys (baseSpeInMboxWrite spe data count behavior)) := by
  unfold baseSpeInMboxWrite
  split
  · exact hK.fail
  split
  · exact hK.fail
  split
  · apply hK.sysFlags
    split
    · next hps => exact hK.inMboxWriteAllPs hps
    refine hK.sysBind hK.inMboxWriteAllFile fun r => ?_
    split
    · exact hK.ret _
    · exact hK.fail
  split
  · apply hK.sysFlags
    split
    · next hps => exact hK.inMboxWriteAnyPs hps
    refine hK.sysBind hK.inMboxWriteFile fun r => ?_
    split
    · exact hK.ret _
    · exact hK.fail
  split
  · apply hK.sysFlags
    split
    · next hps => exact hK.sysAll (ordinary_inMboxWritePs hps)
    refine hK.sysBind hK.inMboxWriteFile fun r => ?_
    split
    · exact hK.ret _
    · exact hK.sysStep trivial fun _ => hK.ret _
    · exact hK.fail
  · exact hK.fail

theorem outIntrMboxReadAll {buf : List UInt8} {count : Int} :
    K _ (Ctx.sys (outIntrMboxReadAll spe buf count)) := by
  apply hK.sysRepeats
  intro (total, buf)
  dsimp only
  split
  · refine hK.openThen (fun _ => trivial) fun fd r => ?_
    split <;> exact hK.ret _
  · exact hK.ret _

theorem outIntrMboxReadOnce {d : FdName} {buf : List UInt8} {count : Int} :
    K _ (Ctx.sys (outIntrMboxReadOnce spe d buf count)) := by
  refine hK.openThen (fun _ => trivial) fun fd r => ?_
  split <;> exact hK.ret _

theorem outIntrMboxRead {data : Option (List UInt8)} {count behavior : Int} :
    K _ (Ctx.sys (baseSpeOutIntrMboxRead spe data count behavior)) := by
  have hfail (e : Errno) (buf : List UInt8) : K _ (Ctx.sys (do return (← LibSpe2.fail e, buf))) :=
    hK.sysBind hK.fail fun _ => hK.ret _
  unfold baseSpeOutIntrMboxRead
  split
  · exact hfail _ _
  split
  · exact hfail _ _
  split
  · refine hK.sysBind hK.outIntrMboxReadAll fun r => ?_
    split
    · exact hK.ret _
    · exact hfail _ _
  split
  · refine hK.sysBind hK.outIntrMboxReadOnce fun r => ?_
    split
    · exact hK.ret _
    · exact hfail _ _
  split
  · refine hK.sysBind hK.outIntrMboxReadOnce fun r => ?_
    split
    · exact hK.ret _
    · exact hK.sysStep trivial fun _ => hK.ret _
    · exact hfail _ _
  · exact hfail _ _

/-! ## Status, signals and multisource synchronisation -/

theorem hasFlag {bit : UInt32} {f : Bool → Code β} (htrue : flags &&& bit ≠ 0 → K _ (f true))
    (hfalse : K _ (f false)) : K _ ((hasFlag bit).bind f) := by
  apply hK.base
  intro priv hflags
  show K _ (f (priv.flags &&& bit ≠ 0))
  rw [hflags]
  by_cases hbit : flags &&& bit = 0
  · simpa [hbit] using hfalse
  · simpa [hbit] using htrue hbit

/-- A slot is opened, and the rest is commands of the process. -/
theorem opened {d : FdName} {f : Fd → Code β} (hf : ∀ fd, K _ (f fd)) :
    K _ ((Ctx.openIfClosed spe d).bind f) := hK.bind (hK.openIfClosed d) hf

theorem mboxStatus {d : FdName} {field : Word → Int} : K _ (mboxStatus spe d field) := by
  apply hK.hasFlag
  · intro hps
    refine hK.bind (hK.access .control hps) fun _ => ?_
    exact hK.bind (hK.sys (c := .readMboxStat spe) hps) fun _ => hK.ret _
  · refine hK.opened fun fd => ?_
    refine hK.bind (hK.sys (c := .read fd 4) trivial) fun r => ?_
    split <;> exact hK.ret _

theorem signalWriteFile {d : FdName} (hd : d = .sig1 ∨ d = .sig2) {data : Word} :
    K _ (signalWriteFile spe d data) := by
  refine hK.opened fun fd => ?_
  refine hK.bind (hK.sys (c := .write fd (wordBytes data)) trivial) fun r => ?_
  exact hK.bind (hK.closeIfOpen hd) fun _ => hK.ret _

theorem signalWrite {reg : UInt32} {data : Word} : K _ (baseSpeSignalWrite spe reg data) := by
  apply hK.hasFlag
  · intro hps
    rw [if_pos rfl]
    split
    · exact hK.bind (hK.access .sigNotify1 hps) fun _ => hK.ret _
    split
    · exact hK.bind (hK.access .sigNotify2 hps) fun _ => hK.ret _
    · exact hK.bind (hK.setErrno einval) fun _ => hK.ret _
  · rw [if_neg Bool.false_ne_true]
    split
    · exact hK.signalWriteFile (.inl rfl)
    split
    · exact hK.signalWriteFile (.inr rfl)
    · exact hK.bind (hK.setErrno einval) fun _ => hK.ret _

theorem mssyncStart : K _ (baseSpeMssyncStart spe) := by
  apply hK.hasFlag
  · intro hps
    exact hK.bind (hK.access .mssync hps) fun _ => hK.ret _
  · refine hK.opened fun fd => ?_
    split
    · refine hK.bind (hK.sys (c := .write fd (wordBytes 1)) trivial) fun r => ?_
      split <;> exact hK.ret _
    · exact hK.ret _

theorem mssyncStatus : K _ (baseSpeMssyncStatus spe) := by
  apply hK.hasFlag
  · intro hps
    refine hK.bind (hK.access .mssync hps) fun _ => ?_
    exact hK.bind hK.someWord fun _ => hK.ret _
  · refine hK.opened fun fd => ?_
    split
    · refine hK.bind (hK.sys (c := .read fd 4) trivial) fun r => ?_
      split <;> exact hK.ret _
    · exact hK.ret _

theorem psAreaGet {area : PsArea} : K _ (baseSpePsAreaGet area) := by
  apply hK.base
  intro priv _
  split
  · exact hK.bind (hK.setErrno eacces) fun _ => hK.ret _
  · exact hK.ret _

end

/-! ## Proxy DMA -/

section

variable {ctx : Dma.Context}

theorem dmaQuiet_issue {p : Dma.Parms} : (Dma.issueMfcCommand ctx p).All (DmaQuiet ctx.flags) := by
  unfold Dma.issueMfcCommand
  split
  · exact .bind (.perform trivial) fun _ => trivial
  split
  · next hps =>
    have hps : ctx.flags &&& speMapPs ≠ 0 := of_decide_eq_true hps
    refine .bind (.perform trivial) fun _ => .bind (.perform trivial) fun active => ?_
    refine .bind (.perform trivial) fun _ => .bind ?_ fun _ => .bind ?_ fun _ => ?_
    · exact Prog.all_repeats.mpr fun _ => .bind (.perform hps) fun _ => trivial
    · apply Prog.all_repeats.mpr
      intro _
      refine .bind (.perform hps) fun _ => .bind (.perform hps) fun _ => ?_
      refine .bind (.perform hps) fun _ => .bind (.perform hps) fun _ => ?_
      exact .bind (.perform hps) fun _ => .bind (.perform hps) fun _ => trivial
    · exact .bind (.perform trivial) fun _ => .bind (.perform trivial) fun _ => trivial
  · refine .bind (.perform trivial) fun fd => ?_
    split
    · exact .bind (.perform trivial) fun _ => trivial
    · trivial

theorem dmaQuiet_put {src size tag tid rid : UInt32} {dst : UInt64} {cmd : Dma.MfcCmd} :
    (Dma.speDoMfcPut ctx src dst size tag tid rid cmd).All (DmaQuiet ctx.flags) := by
  refine .bind dmaQuiet_issue fun ret => ?_
  split
  · trivial
  split <;> exact .bind (.perform trivial) fun _ => trivial

theorem dmaQuiet_get {dst size tag tid rid : UInt32} {src : UInt64} {cmd : Dma.MfcCmd} :
    (Dma.speDoMfcGet ctx dst src size tag tid rid cmd).All (DmaQuiet ctx.flags) := by
  refine .bind dmaQuiet_issue fun ret => ?_
  split
  · trivial
  split <;> exact .bind (.perform trivial) fun _ => trivial

theorem dmaQuiet_sample (hps : ctx.flags &&& speMapPs ≠ 0) {mask : UInt32} :
    (Dma.sampleTagStatus mask).All (DmaQuiet ctx.flags) :=
  .bind (.perform hps) fun _ => .bind (.perform trivial) fun _ => .bind (.perform trivial) fun _ =>
    trivial

theorem dmaQuiet_readStatusFile {fd : Fd} : (Dma.readStatusFile fd).All (DmaQuiet ctx.flags) :=
  .bind (.perform trivial) fun _ => trivial

theorem dmaQuiet_readBlock {mask : UInt32} :
    (Dma.speReadTagStatusBlock ctx mask).All (DmaQuiet ctx.flags) := by
  unfold Dma.speReadTagStatusBlock
  split
  · next hps =>
    have hps : ctx.flags &&& speMapPs ≠ 0 := of_decide_eq_true hps
    refine .bind (.perform trivial) fun _ => .bind (.perform hps) fun _ => .bind ?_ fun _ => ?_
    · exact Prog.all_repeats.mpr fun _ => .bind (dmaQuiet_sample hps) fun _ => trivial
    · exact .bind (.perform trivial) fun _ => .bind (.perform trivial) fun _ => trivial
  · refine .bind (.perform trivial) fun fd => ?_
    split
    · trivial
    · exact dmaQuiet_readStatusFile

theorem dmaQuiet_readNoblock {mask : UInt32} :
    (Dma.speReadTagStatusNoblock ctx mask).All (DmaQuiet ctx.flags) := by
  unfold Dma.speReadTagStatusNoblock
  split
  · next hps =>
    have hps : ctx.flags &&& speMapPs ≠ 0 := of_decide_eq_true hps
    refine .bind (.perform trivial) fun _ => .bind (.perform hps) fun _ => ?_
    refine .bind (dmaQuiet_sample hps) fun _ => ?_
    exact .bind (.perform trivial) fun _ => .bind (.perform trivial) fun _ => trivial
  · refine .bind (.perform trivial) fun fd => ?_
    split
    · trivial
    refine .bind (.perform trivial) fun r => ?_
    dsimp only
    split
    · trivial
    · exact dmaQuiet_readStatusFile

theorem dmaQuiet_tagStatusRead {mask behavior : UInt32} {tagStatus : Bool} :
    (Dma.baseSpeMfcioTagStatusRead ctx mask behavior tagStatus).All (DmaQuiet ctx.flags) := by
  refine .bind ?_ fun mask => ?_
  · unfold Dma.effectiveMask
    split
    · trivial
    split
    · exact .perform trivial
    · trivial
  split
  · exact .bind (.perform trivial) fun _ => trivial
  split
  · unfold Dma.speMfcioTagStatusReadAll
    split
    · exact dmaQuiet_readBlock
    refine .bind (.perform trivial) fun fd => ?_
    split
    · trivial
    refine .bind (.perform trivial) fun rc => ?_
    split
    · trivial
    · exact dmaQuiet_readBlock
  split
  · exact dmaQuiet_readBlock
  split
  · exact dmaQuiet_readNoblock
  · exact .bind (.perform trivial) fun _ => trivial

theorem dmaQuiet_call {c : Dma.Call} : (c.code ctx).All (DmaQuiet ctx.flags) := by
  cases c with
  | put | putb | putf => exact .bind dmaQuiet_put fun _ => trivial
  | get | getb | getf => exact .bind dmaQuiet_get fun _ => trivial
  | tagStatusRead => exact .bind dmaQuiet_tagStatusRead fun _ => trivial

end

section

variable (hK : Rules flags spe K)
include hK

theorem dmaCode {c : Dma.Call} : K _ (dmaCode spe c) := by
  apply hK.base
  intro priv hflags
  apply hK.interp dmaQuiet_call
  intro c hc
  exact hK.implDma (hflags ▸ hc)

/-! ## Events -/

theorem ifEvent {events : UInt32} {k : EventType} {block : Sys Bool} (h : K _ (Ctx.sys block)) :
    K _ (Ctx.sys (ifEvent events k block)) := by
  unfold LibSpe2.ifEvent
  split
  · exact h
  · exact hK.ret _

theorem andThen {block rest : Sys Bool} (hb : K _ (Ctx.sys block)) (hr : K _ (Ctx.sys rest)) :
    K _ (Ctx.sys (andThen block rest)) := by
  refine hK.sysBind hb fun ok => ?_
  split
  · exact hr
  · exact hK.ret _

theorem underContextLock {blocks : Sys Bool} (h : K _ (Ctx.sys blocks)) :
    K _ (Ctx.sys (underContextLock spe blocks)) := by
  refine hK.sysStep trivial fun _ => ?_
  refine hK.sysBind h fun ok => ?_
  exact hK.sysStep trivial fun _ => hK.ret _

/-- The checks of register and deregister: what follows them does so in a context with
`SPE_EVENTS_ENABLE`. -/
theorem withEventArgs {h : Option Handler} {event : Option EventOf}
    {k : Handler → Spe → EventArg → Sys Int}
    (hk : flags &&& speEventsEnable ≠ 0 → ∀ h ev, K _ (Ctx.sys (k h spe ev))) :
    K _ (Ctx.sys (withEventArgs h (eventArg spe event) k)) := by
  cases h with
  | none => exact hK.fail
  | some h =>
    cases event with
    | none => exact hK.fail
    | some ev =>
      apply hK.sysFlags
      split
      · exact hK.fail
      · next hev =>
        split
        · exact hK.fail
        · exact hk hev _ _

theorem registerSource {h : Handler} {k : EventType} {d : FdName} {out : Bool} {data : UInt64}
    {check : Sys Bool} (hc : K _ (Ctx.sys check)) :
    K _ (Ctx.sys (registerSource h spe k d out data check)) := by
  refine hK.sysBind (hK.openIfClosed d) fun fd => ?_
  split
  · exact hK.ret _
  refine hK.sysBind hc fun ok => ?_
  split
  · refine hK.sysStep trivial fun _ => hK.sysStep trivial fun r => ?_
    split <;> exact hK.ret _
  · exact hK.ret _

theorem registerTagGroup {h : Handler} {data : UInt64} :
    K _ (Ctx.sys (registerTagGroup h spe data)) := by
  apply hK.registerSource
  refine hK.sysStep trivial fun fl => ?_
  split
  · exact hK.sysStep trivial fun _ => hK.ret _
  · exact hK.ret _

theorem registerSpeStopped (hev : flags &&& speEventsEnable ≠ 0) {h : Handler} {data : UInt64} :
    K _ (Ctx.sys (registerSpeStopped h spe data)) := by
  refine hK.sysStep trivial fun _ => ?_
  refine hK.sysBind (hK.acquire hev) fun rc => ?_
  split
  · exact hK.sysStep trivial fun _ => hK.ret _
  refine hK.sysStep trivial fun fd => ?_
  refine hK.sysStep trivial fun _ => hK.sysStep trivial fun r => ?_
  split
  · exact hK.sysStep trivial fun _ => hK.sysStep trivial fun _ => hK.ret _
  · exact hK.sysBind (hK.release hev) fun _ => hK.sysStep trivial fun _ => hK.ret _

theorem register {h : Option Handler} {event : Option EventOf} :
    K _ (Ctx.sys (eventSpeEventHandlerRegister h (eventArg spe event))) := by
  apply hK.withEventArgs
  intro hev h ev
  apply hK.underContextLock
  apply hK.andThen (hK.ifEvent (hK.registerSource (hK.ret _)))
  apply hK.andThen (hK.ifEvent (hK.registerSource (hK.ret _)))
  apply hK.andThen (hK.ifEvent hK.registerTagGroup)
  exact hK.ifEvent (hK.registerSpeStopped hev)

theorem deregisterSource {h : Handler} {k : EventType} {d : FdName} :
    K _ (Ctx.sys (deregisterSource h spe k d)) := by
  refine hK.sysBind (hK.openIfClosed d) fun fd => ?_
  split
  · exact hK.ret _
  refine hK.sysStep trivial fun r => ?_
  split
  · exact hK.sysStep trivial fun _ => hK.ret _
  · exact hK.ret _

theorem deregisterSpeStopped (hev : flags &&& speEventsEnable ≠ 0) {h : Handler} :
    K _ (Ctx.sys (deregisterSpeStopped h spe)) := by
  refine hK.sysStep trivial fun _ => hK.sysStep trivial fun fd => ?_
  refine hK.sysStep trivial fun r => ?_
  split
  · refine hK.sysStep trivial fun _ => hK.sysStep trivial fun _ => ?_
    exact hK.sysBind (hK.release hev) fun _ => hK.sysStep trivial fun _ => hK.ret _
  · exact hK.sysStep trivial fun _ => hK.ret _

theorem deregister {h : Option Handler} {event : Option EventOf} :
    K _ (Ctx.sys (eventSpeEventHandlerDeregister h (eventArg spe event))) := by
  apply hK.withEventArgs
  intro hev h ev
  apply hK.underContextLock
  apply hK.andThen (hK.ifEvent hK.deregisterSource)
  apply hK.andThen (hK.ifEvent hK.deregisterSource)
  apply hK.andThen (hK.ifEvent hK.deregisterSource)
  exact hK.ifEvent (hK.deregisterSpeStopped hev)

end

end Rules

/-! ## Calls -/

/-- A call that neither loads nor runs a program, nor reads what a run left. -/
def Op.Plain : Op → Prop
  | .programLoad _ | .contextRun _ | .stopInfoRead => False
  | _ => True

instance : DecidablePred Op.Plain := fun op => by
  cases op <;> unfold Op.Plain <;> infer_instance

/-- **Calls**: a property with these rules holds of the code of a call. -/
theorem Rules.op {flags : UInt32} {spe : Spe} {K : ∀ α : Type, Code α → Prop} (hK : Rules flags spe K)
    {op : Op} (hop : op.Plain) : K _ (op.code spe) := by
  cases op with
  | outMboxRead => exact hK.bind hK.outMboxRead fun _ => hK.ret _
  | inMboxWrite => exact hK.bind hK.inMboxWrite fun _ => hK.ret _
  | outIntrMboxRead => exact hK.bind hK.outIntrMboxRead fun _ => hK.ret _
  | inMboxStatus => exact hK.bind hK.mboxStatus fun _ => hK.ret _
  | outMboxStatus => exact hK.bind hK.mboxStatus fun _ => hK.ret _
  | outIntrMboxStatus => exact hK.bind hK.mboxStatus fun _ => hK.ret _
  | signalWrite => exact hK.bind hK.signalWrite fun _ => hK.ret _
  | mfcio => exact hK.dmaCode
  | mssyncStart => exact hK.bind hK.mssyncStart fun _ => hK.ret _
  | mssyncStatus => exact hK.bind hK.mssyncStatus fun _ => hK.ret _
  | psAreaGet => exact hK.bind hK.psAreaGet fun _ => hK.ret _
  | eventHandlerRegister => exact hK.bind hK.register fun _ => hK.ret _
  | eventHandlerDeregister => exact hK.bind hK.deregister fun _ => hK.ret _
  | programLoad | contextRun | stopInfoRead => exact hop.elim

end LibSpe2.Ctx
