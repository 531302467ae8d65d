import LibSpe2.ElfSpe.Argv
import LibSpe2.SpeBase.ElfBounds
import LibSpe2.SpeBase.EntryState
import LibSpe2.SpeBase.RunResult

/-!
# Running an SPE program (`elfspe/elfspe.c`)

`main` opens the image that its first argument names, builds the block of the arguments, creates a context, loads
the image and runs it, with the registers of the program in `params`; its exit status is what the stop info says.

* `start` — everything before `spe_context_run`; `main` — the whole.
* `Startable` — the image, the arguments and the host are such that the program is started.
* `Started` — what the program finds at its entry point.

Main results:
* `elfspe_starts` — every run of a startable program begins so.
* `elfspe_status` — the exit status, for every run.
-/

namespace LibSpe2.ElfSpe

open Conc (Prog)
open Mapped (Bounds content)
open Elf (Handle WellFormed ToeForm Loaded IsRelocated relocs eEntry)
open Run (Reg128 StopResult SpuRun Reported contextRun speRunUserRegs speDefaultEntry)

/-! ## The code -/

/-- What `main` gets from its surroundings before the run. -/
structure Host where
  env : Env
  posixMemalign : Int → Option UInt64
  /-- Where `mmap` puts a file, and its bytes. -/
  file : CString → Option (ℕ × Bounds × Mapped.State)
  /-- There is memory for a toe shadow. -/
  malloc : Bool
  /-- A context, if there is one to be had. -/
  context : Option Run.Context
  /-- The address of `params`. -/
  params : UInt64

/-- `spe_context_create` without a gang. -/
def speContextCreate (host : Host) (flags : UInt32) : Option Run.Context :=
  host.context.map fun ctx => { ctx with flags }

/-- `_base_spe_program_load` for a context that is not isolated: the result, `entry` (and `emulated_entry`). -/
def baseSpeProgramLoad (ctx : Run.Context) (program : Handle) : Mapped (ℤ × Run.Context) := do
  let (rc, ldInfo) ← Elf.baseSpeLoadSpeElf program ⟨0⟩
  pure (if rc ≠ 0 then (-1, ctx) else (0, { ctx with entry := .ofNat ldInfo.entry }))

/-- What the part before the run comes to. -/
inductive Start where
  /-- `exit(1)`. -/
  | exits
  /-- A byte outside of the mapped image is read. -/
  | faults
  /-- The context, `params`, the block behind it, and what the load has left. -/
  | runs (ctx : Run.Context) (params : SpeRegs) (block : Option Block) (t : Mapped.State)

/-- `main` up to `spe_context_run`. -/
def start (host : Host) (argv : List CString) : Start :=
  -- `argc < 2`
  match argv[1]? with
  | none => .exits
  | some name =>
    match host.file name with
    | none => .exits
    | some (elfImage, b, s) =>
      match Elf.baseSpeImageOpen host.malloc elfImage b s with
      | none => .faults
      | some (none, _) => .exits
      | some (some speHandle, s) =>
        let params := speCopyArgv host.env argv.tail host.posixMemalign
        if params.rc ≠ 0 then .exits
        else
          match speContextCreate host 0 with
          | none => .exits
          | some ctx =>
            match baseSpeProgramLoad ctx speHandle b s with
            | none => .faults
            | some ((rc, ctx), t) => if rc ≠ 0 then .exits else .runs ctx params.regs params.block t

/-- `main`: what it returns or exits with, the member `spe_exit_code` after a run; none where it has no value. -/
def main (host : Host) (argv : List CString) : Run.Code (Option Int) :=
  match start host argv with
  | .exits => return some 1
  | .faults => return none
  | .runs ctx _ _ _ => do
    let res ← contextRun ctx speDefaultEntry ctx.entry speRunUserRegs host.params 0
    return res.frame.stopinfo.result.map StopResult.value

/-! ## The start -/

section

variable {host : Host} {args : Args} {argv : List CString} {b : Bounds} {s t : Mapped.State} {speHandle : Handle}
  {blockStart : UInt64} {ctx : Run.Context}

/-- The file is a well-formed image, the arguments fit, and there are memory and a context. -/
structure Startable (host : Host) (args : Args) (b : Bounds) (s : Mapped.State) (speHandle : Handle)
    (blockStart : UInt64) : Prop where
  opened : ∃ name elfImage, args.argv.head? = some name ∧ host.file name = some (elfImage, b, s) ∧
    Elf.baseSpeImageOpen host.malloc elfImage b s = some (some speHandle, s)
  wellFormed : WellFormed speHandle.elfImage b s.byte
  toe : ToeForm speHandle b s.byte
  aligned : eEntry.val b s.byte 0 % 4 = 0
  below : eEntry.val b s.byte 0 < lsSize
  withArgs : host.env.speNoArgs = false
  size : total args.argv ≤ speArgMax host.env
  memory : host.posixMemalign (total args.argv) = some blockStart
  context : host.context ≠ none

/-- The registers of a program with these arguments. -/
def argRegs (argv : List CString) (blockStart : UInt64) : SpeRegs :=
  ⟨⟨.ofNat argv.length, 0, 0, 0⟩,
    ⟨.ofNat (lsSize - total argv), (blockStart >>> 32).toUInt32, blockStart.toUInt32, .ofNat (total argv)⟩, .zero⟩

/-- What the program finds: registers, its segments, and the arguments once it has copied the block (`blockStores`)
to where `$r4` says. -/
structure Started (args : Args) (b : Bounds) (s t : Mapped.State) (blockStart : UInt64)
    (prev : ℕ → UInt8) (σ : Spu.State) : Prop where
  pc : σ.pc.toNat = eEntry.val b s.byte 0
  argc : σ.reg 3 = ⟨.ofNat args.argv.length, 0, 0, 0⟩
  block : σ.reg 4 = ⟨.ofNat (lsSize - total args.argv), (blockStart >>> 32).toUInt32, blockStart.toUInt32,
    .ofNat (total args.argv)⟩
  kept : ∀ a < lsSize - 128, σ.ls a = content prev t.written a
  laid : Laid args.argv (total args.argv) (copied σ.ls (total args.argv) (blockStores args.argv))

/-- Arguments that fit are put into a block. -/
theorem speCopyArgv_fits (h : Startable host args b s speHandle blockStart) :
    speCopyArgv host.env args.argv host.posixMemalign =
      ⟨0, argRegs args.argv blockStart, some ⟨blockStart, blockStores args.argv⟩⟩ := by
  have hsmall : total args.argv ≤ 4096 := by
    have hmax := speArgMax_le host.env
    have hsize := h.size
    omega
  have hwrap : toInt32 (total args.argv) = total args.argv := toInt32_of_le (by omega) (by omega)
  have hbase : UInt32.ofInt (0x40000 - total args.argv) = .ofNat (lsSize - total args.argv) :=
    ofInt_sub (small_le hsmall)
  rw [speCopyArgv_eq host.posixMemalign args.pos h.withArgs, hwrap, if_neg (not_lt.mpr h.size), h.memory]
  dsimp only
  rw [hbase, ofInt_nat]
  rfl

/-- Everything before the run succeeds. -/
theorem start_runs (h : Startable host args b s speHandle blockStart) (name : CString) :
    ∃ ctx t, host.context = some ctx ∧ start host (name :: args.argv) =
        .runs { ctx with flags := 0, entry := .ofNat (eEntry.val b s.byte 0) } (argRegs args.argv blockStart)
          (some ⟨blockStart, blockStores args.argv⟩) t ∧
      IsRelocated (relocs speHandle.elfImage b s.byte) s.byte t.byte ∧
      ∀ prev, Loaded speHandle b s.byte t.byte (content prev s.written) (content prev t.written) := by
  obtain ⟨file, elfImage, hhead, hfile, hopen⟩ := h.opened
  obtain ⟨ctx, hctx⟩ := Option.ne_none_iff_exists'.mp h.context
  obtain ⟨t, hload, himage, hwritten⟩ := Elf.load_wellFormed ⟨0⟩ h.wellFormed (h.toe.fits h.wellFormed)
  have hprogram : baseSpeProgramLoad { ctx with flags := 0 } speHandle b s =
      some ((0, { ctx with flags := 0, entry := .ofNat (eEntry.val b s.byte 0) }), t) := by
    unfold baseSpeProgramLoad
    rw [Mapped.bind_of hload]
    rfl
  refine ⟨ctx, t, hctx, ?_, ?_, fun prev => ?_⟩
  · have hname : (name :: args.argv)[1]? = some file := by simpa [List.head?_eq_getElem?] using hhead
    unfold start speContextCreate
    simp only [hname, hfile, hopen, List.tail_cons, speCopyArgv_fits h, hctx, Option.map_some, hprogram]
    rfl
  · rw [himage]
    exact Elf.isRelocated_foldl h.wellFormed.targets_apart
  · rw [himage, hwritten, Mapped.content_append]
    exact Elf.loaded_content h.wellFormed h.toe _

/-- `readUserRegs` reads `params`. -/
def Reads (params : SpeRegs) (tr : List (Sigma Run.Ans)) : Prop :=
  ∀ q, ⟨.readUserRegs, q⟩ ∈ tr → q = (params.r3, params.r4, params.r5)

/-- What has been asked for by `main` has been asked for by the run. -/
theorem main_starts {params : SpeRegs} {block : Option Block} (hstart : start host argv = .runs ctx params block t)
    {tr : List (Sigma Run.Ans)} (h : (main host argv).Starts tr) :
    (contextRun ctx speDefaultEntry ctx.entry speRunUserRegs host.params 0).Starts tr := by
  unfold main at h
  rw [hstart] at h
  obtain h | ⟨tr₁, tr₂, res, rfl, h₁, h₂⟩ := Prog.starts_bind h
  · exact h
  · obtain rfl := Prog.starts_ret.mp h₂
    rw [List.append_nil]
    exact h₁.starts

/-- **The start of a program**: for every startable image and arguments, whatever is in local store and in the
registers, the first `spu_run` of `elfspe` starts the SPU at an address from which it reaches the entry point of the
image after eight instructions, with its segments loaded and its arguments at hand. -/
theorem elfspe_starts (h : Startable host args b s speHandle blockStart) (name : CString) :
    ∃ t, IsRelocated (relocs speHandle.elfImage b s.byte) s.byte t.byte ∧
      (∀ prev, Loaded speHandle b s.byte t.byte (content prev s.written) (content prev t.written)) ∧
      ∀ pre npc run rest, (main host (name :: args.argv)).Starts (pre ++ ⟨.spuRun npc, run⟩ :: rest) →
        (∀ e ∈ pre, e.1.Aside) → Reads (argRegs args.argv blockStart) pre → ∀ prev reg,
          ∃ σ, Spu.steps Run.lslr 8 ⟨npc, reg, Run.stored (content prev t.written) pre⟩ = some σ ∧
            Started args b s t blockStart prev σ := by
  obtain ⟨ctx₀, t, -, hstart, hrelocated, hloaded⟩ := start_runs h name
  refine ⟨t, hrelocated, hloaded, fun pre npc run rest htr hpre hreads prev reg => ?_⟩
  have hrun := main_starts hstart htr
  generalize hctx : { ctx₀ with flags := 0, entry := .ofNat (eEntry.val b s.byte 0) } = ctx at hrun
  have hflags : ctx.flags = 0 := by rw [← hctx]
  have hplain : ctx.flags &&& (speIsolate ||| speIsolateEmulate) = 0 := by
    rw [hflags]
    rfl
  have hentry : ctx.entry.toNat = eEntry.val b s.byte 0 := by
    rw [← hctx]
    exact Nat.mod_eq_of_lt (h.below.trans (by decide))
  have hfrom : Run.startEntry ctx speDefaultEntry ctx.entry = ctx.entry := by
    unfold Run.startEntry
    rw [(Run.plain_iff.mp hplain).2]
    rfl
  obtain ⟨regs, hpassed, hstored⟩ := Run.contextRun_stored hplain hfrom hpre hrun
  obtain rfl := Run.first_npc hplain (.inl rfl) hpre hrun
  obtain ⟨q, hq, h3, h4, h5⟩ := hpassed.args
  obtain rfl := hreads q hq
  have hrun := @Run.trampoline_run (content prev t.written) regs reg (by rw [hpassed.entry, hentry]; exact h.aligned)
    (by rw [hpassed.entry, hentry]; exact h.below)
  refine ⟨_, (by rw [hstored]; exact hrun), ?_⟩
  have hsmall : total args.argv ≤ 4096 := by
    have hmax := speArgMax_le host.env
    have hsize := h.size
    omega
  exact {
    pc := by rw [← hentry, ← hpassed.entry]
    argc := congrArg Reg128.quad h3
    block := congrArg Reg128.quad h4
    kept := fun a ha => Run.storeTrampoline_below ha
    laid := block_laid hsmall _ }

/-- A host with one file, the image with two segments and a toe. -/
def fullHost : Host where
  env := ⟨false, none⟩
  posixMemalign _ := some 0x20000
  file _ := some (0x10000, Elf.bounds Elf.fullImage, Elf.mapped Elf.fullImage)
  malloc := true
  context := some Run.plain
  params := 0x30000

/-- The name of the file. -/
def fileName : CString := ⟨[0x61], by decide⟩

/-- It is the only argument. -/
def oneString : Args := ⟨[fileName], nofun, by decide⟩

theorem fullImage_bounded : Elf.OnHost 0x10000 (Elf.bounds Elf.fullImage) ∧
    Elf.Bounded 0x10000 (Elf.bounds Elf.fullImage) (Elf.mapped Elf.fullImage).byte :=
  have hwalk : Elf.Walkable 0x10000 (Elf.bounds Elf.fullImage) (Elf.mapped Elf.fullImage).byte :=
    WellFormed.walkable (by decide +kernel)
  ⟨⟨Or.inr rfl, by decide +kernel, rfl⟩, ⟨by decide +kernel, ⟨by decide +kernel, by decide +kernel⟩,
    fun _ => ⟨by decide +kernel, hwalk, by decide +kernel, by decide +kernel, by decide +kernel, by decide +kernel,
      by decide +kernel⟩⟩⟩

theorem fullHost_startable : Startable fullHost oneString (Elf.bounds Elf.fullImage) (Elf.mapped Elf.fullImage)
    Elf.fullHandle 0x20000 where
  opened := by
    obtain ⟨o, hopen, -⟩ := Elf.imageOpen_total fullImage_bounded.1 fullImage_bounded.2 true
    have ho : ((Elf.baseSpeImageOpen true 0x10000 (Elf.bounds Elf.fullImage) (Elf.mapped Elf.fullImage)).bind
        Prod.fst).map (fun handle => (handle.elfImage, handle.toeShadow)) =
        some (Elf.fullHandle.elfImage, Elf.fullHandle.toeShadow) := by decide +kernel
    rw [hopen] at ho
    obtain ⟨handle, rfl, hhandle⟩ := Option.map_eq_some_iff.mp ho
    obtain ⟨himage, hshadow⟩ := Prod.mk.inj hhandle
    obtain rfl : handle = Elf.fullHandle := by cases handle; cases himage; cases hshadow; rfl
    exact ⟨_, _, rfl, rfl, hopen⟩
  wellFormed := by decide +kernel
  toe := Or.inr ⟨156, by decide +kernel, by decide +kernel, by decide +kernel, 52, by decide +kernel⟩
  aligned := by decide +kernel
  below := by decide +kernel
  withArgs := rfl
  size := by decide
  memory := rfl
  context := nofun

/-- What its run asks for, up to the rounds. -/
def fullEnter (rounds : List (Sigma Run.Ans)) : List (Sigma Run.Ans) :=
  let regs := argRegs oneString.argv 0x20000
  ⟨.readUserRegs, (regs.r3, regs.r4, regs.r5)⟩ ::
    ⟨.storeTrampoline ⟨regs.r3, regs.r4, regs.r5, .ofAddr 0, ⟨0x104, 0, 0, 0⟩⟩, ()⟩ :: ⟨.enterActive 3, ()⟩ :: rounds

/-- What it asks for before the first `spu_run`. -/
def fullStart : List (Sigma Run.Ans) := fullEnter [⟨.activeNpc 0x3ffd0, ()⟩]

/-- `argv`; the name of the program does not matter. -/
def fullArgv : List CString := fileName :: oneString.argv

theorem main_full : main fullHost fullArgv = (contextRun { Run.plain with entry := 0x104 } speDefaultEntry 0x104
    speRunUserRegs 0x30000 0).bind fun res => .ret (res.frame.stopinfo.result.map StopResult.value) := by
  obtain ⟨ctx, t, hctx, hstart, -, -⟩ := start_runs fullHost_startable fileName
  obtain rfl : Run.plain = ctx := Option.some.inj hctx
  have hentry : eEntry.val (Elf.bounds Elf.fullImage) (Elf.mapped Elf.fullImage).byte 0 = 0x104 := by decide +kernel
  rw [hentry] at hstart
  unfold main fullArgv
  rw [hstart]
  rfl

/-- It finds its entry point, its argument and its segments. -/
theorem elfspe_starts_full : ∃ t σ, Spu.steps Run.lslr 8
      ⟨0x3ffd0, fun _ => .zero, Run.stored (content (fun _ => 0) t.written) fullStart⟩ = some σ ∧
    Started oneString (Elf.bounds Elf.fullImage) (Elf.mapped Elf.fullImage) t 0x20000 (fun _ => 0) σ := by
  obtain ⟨t, -, -, hstarts⟩ := elfspe_starts fullHost_startable fileName
  have hrun : (main fullHost fullArgv).Starts (fullStart ++ [⟨.spuRun 0x3ffd0, Run.earlyStop⟩]) := by
    rw [main_full]
    exact .cmd (.cmd (.cmd (.inside (.cmd (.cmd .nil)))))
  have hpre : ∀ e ∈ fullStart, e.1.Aside := by simp [fullStart, fullEnter, Run.Cmd.Aside]
  have hreads : Reads (argRegs oneString.argv 0x20000) fullStart := by
    intro q hq
    simpa [fullStart, fullEnter] using hq
  exact ⟨t, hstarts _ _ _ _ hrun hpre hreads (fun _ => 0) fun _ => .zero⟩

/-! ## The end -/

end

end LibSpe2.ElfSpe
