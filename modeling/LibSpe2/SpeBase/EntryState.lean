import LibSpe2.Data.Spu
import LibSpe2.SpeBase.RunChain

/-!
# The state in which a program starts (`spebase/regs.c`, `spebase/run.c`)

Before a program starts at its entry point, a little code is stored at the end of local store, behind the
values of the registers that it loads; the SPU is started at this code, which branches to the entry point.

* `regSetupTrampoline`, `storeTrampoline` — the code, and what `_base_spe_setup_registers` does to local store.
* `trampoline_run` — its eight instructions, executed on the SPU.

Main result:
* `entry_state` — what a program finds in its registers and in local store.
-/

namespace LibSpe2.Run

open Conc Mapped Function

/-! ## The trampoline -/

/-- The local storage limit register. -/
def lslr : UInt32 := 0x3ffff

/-- `reg_setup_trampoline`: the words that `reg_state` takes, `_start` and `backchain`. -/
def regSetupTrampoline : List UInt32 :=
  List.replicate 20 0 ++
    [0x33fff603, 0x33fff784, 0x33fff905, 0x00200000, 0x33fffa06, 0x33fffb81, 0x40800002, 0x35200081,
      0x00000000, 0x00000000, 0x00000000, 0x00000000]

def Reg128.words (r : Reg128) : List UInt32 := [r.slot₀, r.slot₁, r.slot₂, r.slot₃]

def RegState.words (regs : RegState) : List UInt32 :=
  regs.r3.words ++ regs.r4.words ++ regs.r5.words ++ regs.r6.words ++ regs.entry.words

/-- `base_addr`. -/
def baseAddr : Nat := lsSize - 4 * regSetupTrampoline.length

/-- The two `memcpy` of `_base_spe_setup_registers`. -/
def storeTrampoline (ls : Nat → UInt8) (regs : RegState) : Nat → UInt8 :=
  put (put ls baseAddr (Spu.encode regSetupTrampoline)) baseAddr (Spu.encode regs.words)

/-- Local store after what a run has asked for. -/
def stored (ls : Nat → UInt8) : List (Sigma Ans) → Nat → UInt8
  | [] => ls
  | ⟨.storeTrampoline regs, _⟩ :: tr => stored (storeTrampoline ls regs) tr
  | _ :: tr => stored ls tr

/-- A register of the SPU. -/
def Reg128.quad (r : Reg128) : Spu.Quad := ⟨r.slot₀, r.slot₁, r.slot₂, r.slot₃⟩

variable {ls : Nat → UInt8} {regs : RegState} {spe : Context} {runflags : UInt32}

/-! ## What is stored -/

theorem length_words (regs : RegState) : regs.words.length = 20 := rfl

/-- The values of the registers. -/
theorem word_state {k : Nat} {w : UInt32} (h : regs.words[k]? = some w) :
    Spu.word (storeTrampoline ls regs) (0x3ff80 + 4 * k) = w := Spu.word_encode h

/-- The code behind them. -/
theorem word_code {k a : Nat} {w : UInt32} (ha : a = 0x3ff80 + 4 * k) (hk : 20 ≤ k)
    (h : regSetupTrampoline[k]? = some w) : Spu.word (storeTrampoline ls regs) a = w := by
  rw [ha, storeTrampoline, Spu.word_outside]
  · exact Spu.word_encode h
  · intro i hi
    right
    rw [length_words]
    show 0x3ff80 + 4 * 20 ≤ 0x3ff80 + 4 * k + i
    omega

/-- Nothing else is stored. -/
theorem storeTrampoline_below {a : Nat} (h : a < lsSize - 128) : storeTrampoline ls regs a = ls a := by
  have hbase : a < baseAddr := h
  rw [storeTrampoline, put_outside (.inl hbase), put_outside (.inl hbase)]

/-- One register of the values that are stored. -/
theorem quad_state {k a : Nat} {r : Reg128} (ha : a = 0x3ff80 + 16 * k)
    (h : (regs.words.drop (4 * k)).take 4 = r.words) : Spu.quad (storeTrampoline ls regs) a = r.quad := by
  have hword {j d : Nat} {w : UInt32} (hj : j < 4) (hd : d = 4 * j) (hw : r.words[j]? = some w) :
      Spu.word (storeTrampoline ls regs) (a + d) = w := by
    rw [ha, show 0x3ff80 + 16 * k + d = 0x3ff80 + 4 * (4 * k + j) by omega]
    apply word_state
    rw [← hw, ← h, List.getElem?_take_of_lt hj, List.getElem?_drop]
  have h₀ := @hword 0 0 r.slot₀ (by decide) rfl rfl
  have h₁ := @hword 1 4 r.slot₁ (by decide) rfl rfl
  have h₂ := @hword 2 8 r.slot₂ (by decide) rfl rfl
  have h₃ := @hword 3 12 r.slot₃ (by decide) rfl rfl
  rw [Nat.add_zero] at h₀
  rw [Spu.quad, Reg128.quad, h₀, h₁, h₂, h₃]

/-! ## Execution -/

/-- An entry point is not changed by the masks of a branch. -/
theorem branch_target {e : UInt32} (haligned : e.toNat % 4 = 0) (hbelow : e.toNat < lsSize) :
    e &&& lslr &&& 0xfffffffc = e := by
  have hlimit : e &&& lslr = e := by
    apply UInt32.toNat_inj.mp
    rw [UInt32.toNat_and]
    exact (Nat.and_two_pow_sub_one_eq_mod e.toNat 18).trans (Nat.mod_eq_of_lt hbelow)
  have hlow : e &&& 3 = 0 := by
    apply UInt32.toNat_inj.mp
    rw [UInt32.toNat_and]
    exact (Nat.and_two_pow_sub_one_eq_mod e.toNat 2).trans haligned
  have hsplit : (e &&& 3) ||| (e &&& 0xfffffffc) = e := by
    apply UInt32.toBitVec_inj.mp
    show (e.toBitVec &&& 3) ||| (e.toBitVec &&& 0xfffffffc) = e.toBitVec
    rw [← BitVec.and_or_distrib_left]
    exact BitVec.and_allOnes
  rw [hlow, UInt32.zero_or] at hsplit
  rw [hlimit, hsplit]

/-- **The trampoline**: from `_start`, eight instructions load the registers and branch to the entry point. -/
theorem trampoline_run (reg : Nat → Spu.Quad) (haligned : regs.entry.slot₀.toNat % 4 = 0)
    (hbelow : regs.entry.slot₀.toNat < lsSize) :
    Spu.steps lslr 8 ⟨0x3ffd0, reg, storeTrampoline ls regs⟩ = some ⟨regs.entry.slot₀,
      update (update (update (update (update (update (update reg 3 regs.r3.quad) 4 regs.r4.quad) 5 regs.r5.quad)
        6 regs.r6.quad) 1 regs.entry.quad) 2 .zero) 1 ⟨0x3fff0, 0, 0, 0⟩, storeTrampoline ls regs⟩ := by
  generalize hm : storeTrampoline ls regs = m
  have hfetch (k : Nat) (pc : UInt32) (i : Spu.Instr) {w : UInt32} (hpc : pc.toNat = 0x3ff80 + 4 * k)
      (hk : 20 ≤ k) (h : regSetupTrampoline[k]? = some w) (hi : Spu.decode w = some i) :
      Spu.decode (Spu.word m pc.toNat) = some i := by
    rw [← hm, word_code hpc hk h, hi]
  have hload (k : Nat) {a : UInt32} {r : Reg128} (ha : a.toNat = 0x3ff80 + 16 * k)
      (h : (regs.words.drop (4 * k)).take 4 = r.words) : Spu.quad m a.toNat = r.quad := by
    rw [← hm]
    exact quad_state ha h
  calc Spu.steps lslr 8 ⟨0x3ffd0, reg, m⟩
    _ = Spu.steps lslr 7 ⟨0x3ffd4, update reg 3 regs.r3.quad, m⟩ := by
      have hi := hfetch 20 0x3ffd0 (.lqr 3 0xffec) (by decide) (by decide) rfl (by decide)
      exact Spu.steps_lqr (a := 0x3ff80) hi (by decide) (by decide) (hload 0 (by decide) rfl)
    _ = Spu.steps lslr 6 ⟨0x3ffd8, update (update reg 3 regs.r3.quad) 4 regs.r4.quad, m⟩ := by
      have hi := hfetch 21 0x3ffd4 (.lqr 4 0xffef) (by decide) (by decide) rfl (by decide)
      exact Spu.steps_lqr (a := 0x3ff90) hi (by decide) (by decide) (hload 1 (by decide) rfl)
    _ = Spu.steps lslr 5 ⟨0x3ffdc, _, m⟩ := by
      have hi := hfetch 22 0x3ffd8 (.lqr 5 0xfff2) (by decide) (by decide) rfl (by decide)
      exact Spu.steps_lqr (a := 0x3ffa0) hi (by decide) (by decide) (hload 2 (by decide) rfl)
    _ = Spu.steps lslr 4 ⟨0x3ffe0, _, m⟩ := by
      have hi := hfetch 23 0x3ffdc .lnop (by decide) (by decide) rfl (by decide)
      exact Spu.steps_lnop hi (by decide)
    _ = Spu.steps lslr 3 ⟨0x3ffe4, _, m⟩ := by
      have hi := hfetch 24 0x3ffe0 (.lqr 6 0xfff4) (by decide) (by decide) rfl (by decide)
      exact Spu.steps_lqr (a := 0x3ffb0) hi (by decide) (by decide) (hload 3 (by decide) rfl)
    _ = Spu.steps lslr 2 ⟨0x3ffe8, _, m⟩ := by
      have hi := hfetch 25 0x3ffe4 (.lqr 1 0xfff7) (by decide) (by decide) rfl (by decide)
      exact Spu.steps_lqr (a := 0x3ffc0) hi (by decide) (by decide) (hload 4 (by decide) rfl)
    _ = Spu.steps lslr 1 ⟨0x3ffec, _, m⟩ := by
      have hi := hfetch 26 0x3ffe8 (.il 2 0) (by decide) (by decide) rfl (by decide)
      exact Spu.steps_il hi (by decide)
    _ = Spu.steps lslr 0 ⟨regs.entry.slot₀, _, m⟩ := by
      have hi := hfetch 27 0x3ffec (.bisl 1 1) (by decide) (by decide) rfl (by decide)
      rw [Spu.steps_bisl hi]
      -- the link is set after the target was read from the same register
      rw [update_of_ne (by decide), update_self]
      show Spu.steps lslr 0 ⟨regs.entry.slot₀ &&& lslr &&& 0xfffffffc, _, m⟩ = _
      rw [branch_target haligned hbelow]
      rfl

/-! ## Before the first `spu_run` -/

/-- The command does not store the trampoline. -/
def Cmd.KeepsLs : Cmd → Prop
  | .storeTrampoline _ => False
  | _ => True

theorem stored_append (ls : Nat → UInt8) (tr₁ tr₂ : List (Sigma Ans)) :
    stored ls (tr₁ ++ tr₂) = stored (stored ls tr₁) tr₂ := by
  induction tr₁ generalizing ls with
  | nil => rfl
  | cons e tr₁ ih =>
    obtain ⟨c, r⟩ := e
    cases c <;> exact ih _

theorem stored_of_keepsLs {tr : List (Sigma Ans)} (h : ∀ e ∈ tr, e.1.KeepsLs) : stored ls tr = ls := by
  induction tr with
  | nil => rfl
  | cons e tr ih =>
    obtain ⟨he, htr⟩ := List.forall_mem_cons.mp h
    obtain ⟨c, r⟩ := e
    cases c with
    | storeTrampoline => exact he.elim
    | _ => exact ih htr

/-- The registers for a program that starts at its entry point. -/
structure Passed (spe : Context) (runflags : UInt32) (argp envp : UInt64) (tr : List (Sigma Ans))
    (regs : RegState) : Prop where
  args : if has runflags speRunUserRegs then
      ∃ q : Reg128 × Reg128 × Reg128, ⟨.readUserRegs, q⟩ ∈ tr ∧ regs.r3 = q.1 ∧ regs.r4 = q.2.1 ∧ regs.r5 = q.2.2
    else regs.r3 = .ofAddr spe.self ∧ regs.r4 = .ofAddr argp ∧ regs.r5 = .ofAddr envp
  base : regs.r6 = .ofAddr spe.memMmapBase
  entry : regs.entry.slot₀ = spe.entry

theorem setupArguments_stored {argp envp : UInt64} {tr : List (Sigma Ans)} {x : Int × UInt32}
    (hplain : spe.flags &&& (speIsolate ||| speIsolateEmulate) = 0)
    (h : (setupArguments spe runflags spe.entry argp envp).Ends tr x) :
    ∃ regs, Passed spe runflags argp envp tr regs ∧ ∀ ls, stored ls tr = storeTrampoline ls regs := by
  unfold setupArguments at h
  rw [if_pos ⟨rfl, hplain⟩] at h
  obtain ⟨tr₁, tr₂, regs, rfl, h₁, h₂⟩ := Prog.ends_bind.mp h
  obtain ⟨u, tr₃, rfl, h₃⟩ := h₂.perform
  obtain ⟨rfl, rfl⟩ := Prog.ends_ret.mp h₃
  unfold startRegs at h₁
  dsimp only at h₁
  split at h₁
  · next huser =>
    obtain ⟨q, tr₄, rfl, h₄⟩ := h₁.perform
    obtain ⟨rfl, rfl⟩ := Prog.ends_ret.mp h₄
    refine ⟨_, { args := ?_, base := rfl, entry := rfl }, fun ls => rfl⟩
    rw [if_pos huser]
    exact ⟨q, List.mem_cons_self, rfl, rfl, rfl⟩
  · next huser =>
    obtain ⟨rfl, rfl⟩ := Prog.ends_ret.mp h₁
    refine ⟨_, { args := ?_, base := rfl, entry := rfl }, fun ls => rfl⟩
    rw [if_neg huser]
    exact ⟨rfl, rfl, rfl⟩

theorem doRun_keepsLs (f : Frame) : (doRun spe runflags f).All Cmd.KeepsLs := by
  apply (doRun_ofRound f).imp
  intro c hc
  cases c with
  | storeTrampoline => cases hc
  | _ => trivial

/-- What has been asked for up to the first `spu_run`: the trampoline has been stored, with these registers. -/
theorem contextRun_stored {entry emulatedEntry : UInt32} {argp envp : UInt64} {pre rest : List (Sigma Ans)}
    {npc : UInt32} {run : SpuRun} (hplain : spe.flags &&& (speIsolate ||| speIsolateEmulate) = 0)
    (hentry : startEntry spe entry emulatedEntry = spe.entry) (hpre : ∀ e ∈ pre, e.1.Aside)
    (h : (contextRun spe entry emulatedEntry runflags argp envp).Starts (pre ++ ⟨.spuRun npc, run⟩ :: rest)) :
    ∃ regs, Passed spe runflags argp envp pre regs ∧ ∀ ls, stored ls pre = storeTrampoline ls regs := by
  have hrun : (⟨.spuRun npc, run⟩ : Sigma Ans) ∈ pre ++ ⟨.spuRun npc, run⟩ :: rest :=
    List.mem_append_right _ List.mem_cons_self
  obtain hsetup | ⟨tr₀, tr₁, ⟨rc, start⟩, heq, h₀, h₁⟩ := Prog.starts_bind h
  · exact (setupArguments_aside.starts hsetup _ hrun).elim
  have haside := setupArguments_aside.ends h₀
  obtain ⟨-, hrc⟩ := setupArguments_ends h₀
  obtain rfl : rc = 0 := hrc
  -- the arguments are set up before the `spu_run`
  obtain ⟨between, rfl, hbetween⟩ :
      ∃ between, pre = tr₀ ++ between ∧ tr₁ = between ++ ⟨.spuRun npc, run⟩ :: rest := by
    rcases List.append_eq_append_iff.mp heq with ⟨c, hc, hrest⟩ | ⟨c, hc, hrest⟩
    · cases c with
      | nil => exact ⟨[], by rw [hc, List.append_nil, List.append_nil], hrest.symm⟩
      | cons e c =>
        obtain ⟨rfl, -⟩ := List.cons.inj hrest
        have hmem : (⟨.spuRun npc, run⟩ : Sigma Ans) ∈ tr₀ := by
          rw [hc]
          exact List.mem_append_right _ List.mem_cons_self
        exact (haside _ hmem).elim
    · exact ⟨c, hc, hrest⟩
  rw [hentry] at h₀
  obtain ⟨regs, hpassed, hstored⟩ := setupArguments_stored hplain h₀
  have hkeeps : ∀ e ∈ tr₁, e.1.KeepsLs := by
    refine Prog.All.starts ?_ h₁
    show Prog.All _ (perform (.enterActive spe.fdSpeDir) >>= _)
    refine .bind (.perform trivial) fun _ => .bind ?_ fun _ => ?_
    · exact ⟨fun f => doRun_keepsLs f, fun _ => trivial⟩
    · exact .bind (.perform trivial) fun _ => .bind (.perform trivial) fun _ => trivial
  refine ⟨regs, { hpassed with args := ?_ }, fun ls => ?_⟩
  · have hargs := hpassed.args
    split
    · next huser =>
      rw [if_pos huser] at hargs
      obtain ⟨q, hq, hregs⟩ := hargs
      exact ⟨q, List.mem_append_left _ hq, hregs⟩
    · next huser =>
      rw [if_neg huser] at hargs
      exact hargs
  · rw [stored_append, hstored]
    exact stored_of_keepsLs fun e he => hkeeps e (hbetween ▸ List.mem_append_left _ he)

/-- The first `spu_run` of a program that starts at its entry point is given the address of the trampoline. -/
theorem first_npc {entry emulatedEntry : UInt32} {argp envp : UInt64} {pre rest : List (Sigma Ans)}
    {npc : UInt32} {run : SpuRun} (hplain : spe.flags &&& (speIsolate ||| speIsolateEmulate) = 0)
    (hentry : entry = speDefaultEntry ∨ entry = spe.entry) (hpre : ∀ e ∈ pre, e.1.Aside)
    (h : (contextRun spe entry emulatedEntry runflags argp envp).Starts (pre ++ ⟨.spuRun npc, run⟩ :: rest)) :
    npc = 0x3ffd0 := by
  obtain ⟨hisolate, hemulate⟩ := plain_iff.mp hplain
  have hsteps : Steps spe runflags (firstNpc spe 0 entry) (turns (pre ++ ⟨.spuRun npc, run⟩ :: rest)) := by
    have hcode : (Args.code ⟨entry, runflags, argp, envp⟩ spe emulatedEntry).Starts _ := h
    refine contextRun_starts (fun hem => ?_) hcode
    rw [hemulate] at hem
    cases hem
  rw [(turns_append pre (show callbackOf (⟨.spuRun npc, run⟩ :: rest) = none from rfl)).1, (turns_aside hpre).1]
    at hsteps
  have hfirst : npc = firstNpc spe 0 entry := hsteps.first _ rfl
  have hnpc : (if entry = speDefaultEntry then spe.entry else entry) = spe.entry := by
    split
    · rfl
    · next hne => exact hentry.resolve_left hne
  rw [hfirst, firstNpc, hemulate, if_neg Bool.false_ne_true]
  simp only [hnpc, hisolate, and_self, if_true]
  rfl

/-! ## The program -/

/-- What a program finds: its arguments, and a stack that starts behind the trampoline. -/
structure EntryState (spe : Context) (runflags : UInt32) (argp envp : UInt64) (pre : List (Sigma Ans))
    (ls : Nat → UInt8) (s : Spu.State) : Prop where
  pc : s.pc = spe.entry
  args : if has runflags speRunUserRegs then ∃ q : Reg128 × Reg128 × Reg128, ⟨.readUserRegs, q⟩ ∈ pre ∧
      s.reg 3 = q.1.quad ∧ s.reg 4 = q.2.1.quad ∧ s.reg 5 = q.2.2.quad
    else s.reg 3 = (Reg128.ofAddr spe.self).quad ∧ s.reg 4 = (Reg128.ofAddr argp).quad ∧
      s.reg 5 = (Reg128.ofAddr envp).quad
  base : s.reg 6 = (Reg128.ofAddr spe.memMmapBase).quad
  stackSize : s.reg 2 = .zero
  backchain : (s.reg 1).w₀.toNat + 16 ≤ lsSize ∧ Spu.quad s.ls (s.reg 1).w₀.toNat = .zero
  kept : ∀ a < lsSize - 128, s.ls a = ls a

/-- The quadword behind the code. -/
theorem quad_backchain : Spu.quad (storeTrampoline ls regs) 0x3fff0 = .zero := by
  have hword {k d : Nat} (hd : 0x3fff0 + d = 0x3ff80 + 4 * k) (hk : 20 ≤ k) (h : regSetupTrampoline[k]? = some 0) :
      Spu.word (storeTrampoline ls regs) (0x3fff0 + d) = 0 := word_code hd hk h
  have h₀ : Spu.word (storeTrampoline ls regs) 0x3fff0 = 0 := @hword 28 0 rfl (by decide) rfl
  have h₁ := @hword 29 4 rfl (by decide) rfl
  have h₂ := @hword 30 8 rfl (by decide) rfl
  have h₃ := @hword 31 12 rfl (by decide) rfl
  rw [Spu.quad, h₀, h₁, h₂, h₃]
  rfl

/-- **The entry state**: for a context that is not isolated, whatever is in local store and in the registers of
the SPU, the first `spu_run` of a program that starts at its entry point starts the SPU at an address from
which it reaches this entry point after eight instructions, in such a state. -/
theorem entry_state {entry emulatedEntry : UInt32} {argp envp : UInt64} {pre rest : List (Sigma Ans)}
    {npc : UInt32} {run : SpuRun} (hplain : spe.flags &&& (speIsolate ||| speIsolateEmulate) = 0)
    (haligned : spe.entry.toNat % 4 = 0) (hbelow : spe.entry.toNat < lsSize)
    (hentry : entry = speDefaultEntry ∨ entry = spe.entry) (hpre : ∀ e ∈ pre, e.1.Aside)
    (h : (contextRun spe entry emulatedEntry runflags argp envp).Starts (pre ++ ⟨.spuRun npc, run⟩ :: rest))
    (ls : Nat → UInt8) (reg : Nat → Spu.Quad) :
    ∃ s, Spu.steps lslr 8 ⟨npc, reg, stored ls pre⟩ = some s ∧
      EntryState spe runflags argp envp pre ls s := by
  have hstart : startEntry spe entry emulatedEntry = spe.entry := by
    unfold startEntry
    rw [(plain_iff.mp hplain).2, if_neg Bool.false_ne_true]
    split
    · rfl
    · next hne => exact hentry.resolve_left hne
  obtain ⟨regs, hpassed, hstored⟩ := contextRun_stored hplain hstart hpre h
  obtain rfl := first_npc hplain hentry hpre h
  have hrun := @trampoline_run ls regs reg (by rw [hpassed.entry]; exact haligned)
    (by rw [hpassed.entry]; exact hbelow)
  refine ⟨_, (by rw [hstored]; exact hrun), ?_⟩
  exact {
    pc := hpassed.entry
    args := by
      have hargs := hpassed.args
      split
      · next huser =>
        rw [if_pos huser] at hargs
        obtain ⟨q, hq, h3, h4, h5⟩ := hargs
        exact ⟨q, hq, congrArg Reg128.quad h3, congrArg Reg128.quad h4, congrArg Reg128.quad h5⟩
      · next huser =>
        rw [if_neg huser] at hargs
        obtain ⟨h3, h4, h5⟩ := hargs
        exact ⟨congrArg Reg128.quad h3, congrArg Reg128.quad h4, congrArg Reg128.quad h5⟩
    base := congrArg Reg128.quad hpassed.base
    stackSize := rfl
    backchain := ⟨show 0x3fff0 + 16 ≤ lsSize by decide, quad_backchain⟩
    kept := fun a ha => storeTrampoline_below ha }

/-- What a run asks for before its first `spu_run`, for a plain context and an `argp` of `0x1000`. -/
def plainStart : List (Sigma Ans) :=
  [⟨.storeTrampoline ⟨.ofAddr 0, .ofAddr 0x1000, .ofAddr 0, .ofAddr 0, ⟨0x80, 0, 0, 0⟩⟩, ()⟩,
    ⟨.enterActive 3, ()⟩, ⟨.activeNpc 0x3ffd0, ()⟩]

/-- Its program starts in such a state. -/
theorem entry_state_plain : ∃ s,
    Spu.steps lslr 8 ⟨0x3ffd0, fun _ => .zero, stored (fun _ => 0) plainStart⟩ = some s ∧
    EntryState plain 0 0x1000 0 plainStart (fun _ => 0) s := by
  have hpre : ∀ e ∈ plainStart, e.1.Aside := by
    intro e he
    simp only [plainStart, List.mem_cons, List.not_mem_nil, or_false] at he
    obtain rfl | rfl | rfl := he <;> trivial
  have hstarts : (contextRun plain 0xffffffff 0 0 0x1000 0).Starts
      (plainStart ++ [⟨.spuRun 0x3ffd0, earlyStop⟩]) := .cmd (.cmd (.inside (.cmd (.cmd .nil))))
  exact entry_state rfl rfl (by decide) (.inl rfl) hpre hstarts (fun _ => 0) fun _ => .zero

end LibSpe2.Run
