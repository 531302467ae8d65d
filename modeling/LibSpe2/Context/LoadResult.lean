import LibSpe2.Context.Ops
import LibSpe2.SpeBase.ElfSegments

/-!
# What a load leaves in the context (`spebase/load.c`)

`_base_spe_program_load` sets three members of the context, `loaded_program` before it has loaded anything
and the two entries at its end, from a structure that its helpers fill.

* `Images` — the mapped images behind the program handles, and the emulated loader.
* `loadMachine` — what the load does to the members; the ELF functions work on the images, and everything
  else may be answered in any way.
* `LoadResult` — a load that fails leaves the members as they were; one that succeeds sets all three.

Main result:
* `program_load_atomic` — when every load of a program has such a result.
-/

namespace LibSpe2.Ctx

open Conc

/-! ## Images -/

/-- `toe_shadow` of a handle, and its image. -/
structure Image where
  toeShadow : List UInt8
  bounds : Mapped.Bounds
  state : Mapped.State

/-- The images of the program handles, and the emulated loader, if its file can be opened. -/
structure Images where
  image : ProgramHandle → Image
  loader : Option ProgramHandle

namespace Images

variable (im : Images) (program : ProgramHandle)

def handle : Elf.Handle := ⟨program.elfImage.getD 0, (im.image program).toeShadow⟩

/-- `_base_spe_load_spe_elf` of the program. -/
def load : Option ((Int × Elf.SpeLdInfo) × Mapped.State) :=
  Elf.baseSpeLoadSpeElf (im.handle program) ⟨0⟩ (im.image program).bounds (im.image program).state

/-- `_base_spe_parse_isolated_elf` of the program. -/
def parse : Option ((Int × Option (ℕ × ℕ)) × Mapped.State) :=
  Elf.baseSpeParseIsolatedElf (im.handle program) (im.image program).bounds (im.image program).state

/-- The result of a load, and `entry` if it was written. -/
def AnswersLoad (r : Int × UInt32) : Prop :=
  match im.load program with
  | some ((rc, info), _) => r.1 = rc ∧ (rc = 0 → r.2 = .ofNat info.entry)
  | none => False

/-- The result of a parse, and `addr` and `size` if they were written. -/
def AnswersParse (r : Int × UInt64 × UInt32) : Prop :=
  match im.parse program with
  | some ((rc, some (addr, size)), _) => r = (rc, .ofNat addr, .ofNat size)
  | some ((rc, none), _) => r.1 = rc
  | none => False

instance (r : Int × UInt32) : Decidable (im.AnswersLoad program r) := by
  unfold AnswersLoad
  split <;> infer_instance

instance (r : Int × UInt64 × UInt32) : Decidable (im.AnswersParse program r) := by
  unfold AnswersParse
  split <;> infer_instance

/-- The load of the emulated loader. -/
def AnswersLoader : Option (Int × UInt32) → Prop
  | none => im.loader = none
  | some r => ∃ l ∈ im.loader, im.AnswersLoad l r

instance : (r : Option (Int × UInt32)) → Decidable (im.AnswersLoader r)
  | none => inferInstanceAs (Decidable (im.loader = none))
  | some r => inferInstanceAs (Decidable (∃ l ∈ im.loader, im.AnswersLoad l r))

end Images

/-- What a load does to the members of the context. -/
def loadExec (im : Images) (_ : Unit) : (c : Cmd) → Ans c → BasePriv → Option BasePriv
  | .base, b, s => if b = s then some s else none
  | .setBase b, _, _ => some b
  | .loadSpeElf program, r, s => if im.AnswersLoad program r then some s else none
  | .loadEmulatedLoader, r, s => if im.AnswersLoader r then some s else none
  | .parseIsolatedElf program, r, s => if im.AnswersParse program r then some s else none
  | _, _, s => some s

def loadMachine (im : Images) : Machine Cmd Ans Unit BasePriv := ⟨loadExec im⟩

/-! ## The result -/

/-- `e_entry` in the image of a program that has been loaded. -/
def Images.loadedEntry (im : Images) (program : ProgramHandle) : UInt32 :=
  match im.load program with
  | some (_, t) => .ofNat (Elf.eEntry.val (im.image program).bounds t.byte 0)
  | none => 0

/-- `e_entry` of the ELF that is run first. -/
def Images.firstEntry (im : Images) (flags : UInt32) (program : ProgramHandle) : UInt32 :=
  if flags &&& speIsolate ≠ 0 then
    .ofNat (Elf.eEntry.val (im.image program).bounds (im.image program).state.byte 0)
  else if flags &&& speIsolateEmulate ≠ 0 then (im.loader.map im.loadedEntry).getD 0
  else im.loadedEntry program

/-- A load is atomic and sets the right entry. -/
structure LoadResult (im : Images) (program : ProgramHandle) (prev : BasePriv) (rc : Int) (next : BasePriv) :
    Prop where
  failed : rc = -1 → next.loadedProgram = prev.loadedProgram ∧ next.entry = prev.entry ∧
    next.emulatedEntry = prev.emulatedEntry
  loaded : rc = 0 → next.loadedProgram = some program ∧ next.entry = im.firstEntry prev.flags program ∧
    next.emulatedEntry = im.firstEntry prev.flags program

/-- An isolated image that can be sent to the loader. -/
def Images.Startable (im : Images) (program : ProgramHandle) : Prop :=
  ∃ addr size t, im.parse program = some ((0, some (addr, size)), t) ∧ UInt64.ofNat addr &&& 0xf = 0

/-- The load of a program can fail: the ELF is refused, there is no loader, or an access to a file fails. -/
def Images.CanFail (im : Images) (flags : UInt32) (program : ProgramHandle) : Prop :=
  if flags &&& speIsolate ≠ 0 then (im.parse program).isSome = true
  else if flags &&& speIsolateEmulate ≠ 0 then
    im.loader = none ∨ ∃ l ∈ im.loader, ∃ rc info t, im.load l = some ((rc, info), t) ∧
      (rc ≠ 0 ∨ (im.parse program).isSome = true)
  else ∃ rc info t, im.load program = some ((rc, info), t) ∧ rc ≠ 0

/-! ## What the helpers may answer -/

variable {im : Images} {spe : Spe} {program : ProgramHandle} {priv : BasePriv}

/-- A parse that returns 0 has written `addr` and `size`. -/
theorem parse_writes {handle : Elf.Handle} {b : Mapped.Bounds} {s t : Mapped.State} {o : Option (ℕ × ℕ)}
    (h : Elf.baseSpeParseIsolatedElf handle b s = some ((0, o), t)) : o.isSome = true := by
  have hrefused {s t : Mapped.State} {o : Option (ℕ × ℕ)}
      (h : (pure (-Elf.einval, none) : Mapped (ℤ × Option (ℕ × ℕ))) b s = some ((0, o), t)) :
      o.isSome = true := by
    rw [Mapped.pure_some, Prod.mk.injEq, Prod.mk.injEq] at h
    exact absurd h.1.1 (by decide)
  unfold Elf.baseSpeParseIsolatedElf at h
  split at h
  · exact hrefused h
  obtain ⟨phentsize, s₁, -, h⟩ := Mapped.bind_some.mp h
  split at h
  · exact hrefused h
  obtain ⟨phnum, s₂, -, h⟩ := Mapped.bind_some.mp h
  split at h
  · exact hrefused h
  obtain ⟨phdr, s₃, -, h⟩ := Mapped.bind_some.mp h
  obtain ⟨type, s₄, -, h⟩ := Mapped.bind_some.mp h
  split at h
  · exact hrefused h
  obtain ⟨memsz, s₅, -, h⟩ := Mapped.bind_some.mp h
  split at h
  · exact hrefused h
  obtain ⟨offset, s₆, -, h⟩ := Mapped.bind_some.mp h
  obtain ⟨addr, s₇, -, h⟩ := Mapped.bind_some.mp h
  rw [Mapped.pure_some, Prod.mk.injEq, Prod.mk.injEq] at h
  obtain ⟨⟨-, rfl⟩, -⟩ := h
  rfl

theorem Images.AnswersParse.isSome {r : Int × UInt64 × UInt32} (h : im.AnswersParse program r) :
    (im.parse program).isSome = true := by
  unfold AnswersParse at h
  split at h
  · next hrun => rw [hrun]; rfl
  · next hrun => rw [hrun]; rfl
  · exact h.elim

/-- An image that the parser accepts, with its first byte at a multiple of 16, can be sent. -/
theorem Images.AnswersParse.startable {r : Int × UInt64 × UInt32} (h : im.AnswersParse program r)
    (hrc : r.1 = 0) (haddr : r.2.1 &&& 0xf = 0) : im.Startable program := by
  unfold AnswersParse at h
  split at h
  · next rc addr size t hrun =>
    subst h
    obtain rfl : rc = 0 := hrc
    exact ⟨addr, size, t, hrun, haddr⟩
  · next rc t hrun =>
    obtain rfl : rc = 0 := h.symm.trans hrc
    exact absurd (parse_writes hrun) (by decide)
  · exact h.elim

theorem Images.exists_answersParse (h : (im.parse program).isSome = true) :
    ∃ r, im.AnswersParse program r := by
  obtain ⟨⟨⟨rc, o⟩, t⟩, hrun⟩ := Option.isSome_iff_exists.mp h
  unfold AnswersParse
  rw [hrun]
  cases o with
  | none => exact ⟨(rc, 0, 0), rfl⟩
  | some place => exact ⟨(rc, .ofNat place.1, .ofNat place.2), rfl⟩

/-- **The entry of a load**: what is written is `e_entry` of the image. -/
theorem Images.AnswersLoad.entry {r : Int × UInt32} (h : im.AnswersLoad program r) (hrc : r.1 = 0) :
    r.2 = im.loadedEntry program := by
  unfold AnswersLoad at h
  unfold loadedEntry
  split at h
  · next rc info t hrun =>
    obtain rfl : rc = 0 := h.1.symm.trans hrc
    obtain ⟨-, -, -, -, -, -, rfl⟩ := Elf.load_parts hrun
    rw [h.2 rfl, hrun]
  · exact h.elim

theorem Images.AnswersLoad.run {r : Int × UInt32} (h : im.AnswersLoad program r) :
    ∃ info t, im.load program = some ((r.1, info), t) := by
  unfold AnswersLoad at h
  split at h
  · next rc info t hrun => exact ⟨info, t, h.1 ▸ hrun⟩
  · exact h.elim

theorem Images.answersLoad {rc : Int} {info : Elf.SpeLdInfo} {t : Mapped.State}
    (h : im.load program = some ((rc, info), t)) : im.AnswersLoad program (rc, .ofNat info.entry) := by
  unfold AnswersLoad
  rw [h]
  exact ⟨rfl, fun _ => rfl⟩

/-! ## The helpers leave the members alone -/

/-- A command that does not store the record. -/
def Cmd.Reads : Cmd → Prop
  | .setBase _ => False
  | _ => True

theorem still {α : Type} {p : Code α} (hp : p.All Cmd.Reads) (priv : BasePriv) :
    Solo (loadMachine im) () p priv fun _ _ next => next = priv := by
  apply Solo.still hp
  intro c r s s' hc hexec
  cases c with
  | setBase b => exact hc.elim
  | base | loadSpeElf | parseIsolatedElf | loadEmulatedLoader =>
    exact (Option.some.inj (Option.ite_none_right_eq_some.mp hexec).2).symm
  | _ => exact (Option.some.inj hexec).symm

theorem Cmd.Inner.reads {c : Cmd} (hc : c.Inner) : c.Reads := by
  cases c with
  | setBase b => exact hc.elim
  | _ => trivial

/-! ## What the helpers return -/

theorem failNeg_spec (e : Int) :
    Solo (loadMachine im) () (failNeg e) priv fun _ rc next => next = priv ∧ rc = -e := by
  apply Solo.perform
  intro r next hexec
  exact .ret ⟨(Option.some.inj hexec).symm, rfl⟩

theorem speStartIsolatedApp_spec :
    Solo (loadMachine im) () (speStartIsolatedApp spe program) priv fun _ rc next =>
      next = priv ∧ (im.parse program).isSome = true ∧ (rc = 0 → im.Startable program) := by
  apply Solo.perform
  rintro ⟨rc, addr, size⟩ next hexec
  obtain ⟨hans, hnext⟩ := Option.ite_none_right_eq_some.mp hexec
  obtain rfl := Option.some.inj hnext
  have hfail {e : Int} (he : -e ≠ 0) : Solo (loadMachine im) () (failNeg e) priv fun _ rc next =>
      next = priv ∧ (im.parse program).isSome = true ∧ (rc = 0 → im.Startable program) := by
    refine Solo.mono (failNeg_spec e) ?_
    rintro tr rc next ⟨hnext, rfl⟩
    exact ⟨hnext, hans.isSome, fun h => absurd h he⟩
  dsimp only
  split
  · exact hfail (by decide)
  next hrc =>
  split
  · exact hfail (by decide)
  next haddr =>
  have hstart := hans.startable (not_not.mp hrc) (not_not.mp haddr)
  apply Solo.bind
  refine Solo.mono (still ((inner_writeIsolatedLoadParams _ _ _ _).imp fun _ => Cmd.Inner.reads) _) ?_
  rintro tr rc' next rfl
  split
  · exact hfail (by decide)
  · exact .ret ⟨rfl, hans.isSome, fun _ => hstart⟩

/-- What is known of a load that has returned `rc`, with `entry` if it was written. -/
def Images.Loaded (im : Images) (flags : UInt32) (program : ProgramHandle) (r : Int × Option UInt32) : Prop :=
  (r.1 ≠ 0 → im.CanFail flags program) ∧
    (r.1 = 0 → if flags &&& speIsolate ≠ 0 then im.Startable program
      else r.2 = some (im.firstEntry flags program))

theorem loadProgram_spec {flags : UInt32} :
    Solo (loadMachine im) () (loadProgram spe flags program) priv fun _ r next =>
      next = priv ∧ im.Loaded flags program r := by
  unfold loadProgram Images.Loaded Images.CanFail Images.firstEntry
  split
  · apply Solo.bind
    refine Solo.mono speStartIsolatedApp_spec ?_
    rintro tr rc next ⟨hnext, hparse, hstart⟩
    exact .ret ⟨hnext, fun _ => hparse, hstart⟩
  split
  · apply Solo.perform
    rintro r next hexec
    obtain ⟨hans, hnext⟩ := Option.ite_none_right_eq_some.mp hexec
    obtain rfl := Option.some.inj hnext
    cases r with
    | none => exact .ret ⟨rfl, fun _ => .inl hans, fun h => absurd h (by decide)⟩
    | some r =>
      obtain ⟨l, hl, hans⟩ := hans
      obtain ⟨info, t, hrun⟩ := hans.run
      dsimp only
      split
      · next hrc =>
        exact .ret ⟨rfl, fun _ => .inr ⟨l, hl, _, info, t, hrun, .inl hrc⟩, fun h => absurd h hrc⟩
      next hrc =>
      apply Solo.bind
      refine Solo.mono speStartIsolatedApp_spec ?_
      rintro tr rc next ⟨hnext, hparse, -⟩
      have hentry : some r.2 = some ((im.loader.map im.loadedEntry).getD 0) := by
        rw [hans.entry (not_not.mp hrc), Option.mem_def.mp hl]
        rfl
      exact .ret ⟨hnext, fun _ => .inr ⟨l, hl, _, info, t, hrun, .inr hparse⟩, fun _ => hentry⟩
  · apply Solo.perform
    rintro ⟨rc, entry⟩ next hexec
    obtain ⟨hans, hnext⟩ := Option.ite_none_right_eq_some.mp hexec
    obtain rfl := Option.some.inj hnext
    obtain ⟨info, t, hrun⟩ := hans.run
    dsimp only
    split
    · next hrc =>
      apply Solo.bind
      refine Solo.mono (still (inner_programLoadComplete.imp fun _ => Cmd.Inner.reads) _) ?_
      rintro tr u next hnext
      exact .ret ⟨hnext, fun h => absurd hrc h, fun _ => congrArg some (hans.entry hrc)⟩
    · next hrc => exact .ret ⟨rfl, fun _ => ⟨_, info, t, hrun, hrc⟩, fun h => absurd h hrc⟩

theorem modifyBase_spec (f : BasePriv → BasePriv) :
    Solo (loadMachine im) () (modifyBase f) priv fun _ _ next => next = f priv := by
  apply Solo.perform
  intro b next hexec
  obtain ⟨rfl, hnext⟩ := Option.ite_none_right_eq_some.mp hexec
  obtain rfl := Option.some.inj hnext
  apply Solo.cmd
  intro r next' hexec'
  exact .ret (Option.some.inj hexec').symm

/-- **Every load of a program**: it fails, having stored the program; or it returns 0, and the entries are
that of the ELF that is run first, unless the context is an isolated one. -/
theorem baseSpeProgramLoad_spec :
    Solo (loadMachine im) () (baseSpeProgramLoad spe program) priv fun _ rc next =>
      rc = -1 ∧ next = { priv with loadedProgram := some program } ∧ im.CanFail priv.flags program ∨
      rc = 0 ∧ ∃ e, next = { priv with loadedProgram := some program, entry := e, emulatedEntry := e } ∧
        if priv.flags &&& speIsolate ≠ 0 then im.Startable program
        else e = im.firstEntry priv.flags program := by
  apply Solo.bind
  refine Solo.mono (modifyBase_spec _) ?_
  rintro tr u next rfl
  apply Solo.perform
  intro b next hexec
  obtain ⟨rfl, hnext⟩ := Option.ite_none_right_eq_some.mp hexec
  obtain rfl := Option.some.inj hnext
  apply Solo.bind
  refine Solo.mono loadProgram_spec ?_
  rintro tr' ⟨rc, entry⟩ next ⟨rfl, hfailed, hloaded⟩
  dsimp only at hfailed hloaded ⊢
  split
  · next hrc => exact .ret (.inl ⟨rfl, rfl, hfailed hrc⟩)
  next hrc =>
  apply Solo.perform
  intro garbage next hexec
  obtain rfl := Option.some.inj hexec
  apply Solo.bind
  refine Solo.mono (modifyBase_spec _) ?_
  rintro tr'' u next rfl
  refine .ret (.inr ⟨rfl, entry.getD garbage, rfl, ?_⟩)
  have hloaded := hloaded (not_not.mp hrc)
  split at hloaded
  · next hiso => exact (if_pos hiso).mpr hloaded
  · next hiso =>
    rw [hloaded, if_neg hiso]
    rfl

/-! ## Loads that fail, and loads with no entry -/

/-- The file of the mailbox, already open. -/
theorem may_openIfClosed (d : FdName) : May (loadMachine im) () (openIfClosed spe d) priv 5 priv := by
  refine ⟨[⟨.sys (.lock (.fdLock spe d)), ()⟩, ⟨.load (.speFdsArray spe d), 5⟩,
    ⟨.load (.speFdsRefcount spe d), 1⟩, ⟨.store (.speFdsRefcount spe d) 2, ()⟩,
    ⟨.sys (.note (.opened spe d 5)), ()⟩, ⟨.sys (.unlock (.fdLock spe d)), ()⟩,
    ⟨.load (.speFdsArray spe d), 5⟩, ⟨.sys (.note (.openReturned spe d 5)), ()⟩], ?_, rfl⟩
  repeat first
    | exact .ret
    | refine .cmd ?_

theorem may_writeWords (fd : Fd) (ws : List Word) : May (loadMachine im) () (writeWords fd ws) priv 0 priv := by
  induction ws with
  | nil => exact .ret
  | cons w ws ih =>
    apply May.bind (May.perform (r := .ok 4) rfl)
    exact ih

theorem may_failNeg (e : Int) : May (loadMachine im) () (failNeg e) priv (-e) priv :=
  (May.perform (r := ()) rfl).bind .ret

/-- Sending the parameters fails at the first word, or not at all. -/
theorem may_writeIsolatedLoadParams (addrH addrL size : Word) (rc : Int) (hrc : rc = 0 ∨ rc = -1) :
    May (loadMachine im) () (writeIsolatedLoadParams spe addrH addrL size) priv rc priv := by
  apply May.bind (may_openIfClosed .wbox)
  rcases hrc with rfl | rfl
  · exact may_writeWords 5 _
  · exact (May.perform (r := .ok 0) rfl).bind .ret

theorem may_startIsolatedApp_fail (spe : Spe) (priv : BasePriv) (h : (im.parse program).isSome = true) :
    ∃ rc, rc ≠ 0 ∧ May (loadMachine im) () (speStartIsolatedApp spe program) priv rc priv := by
  obtain ⟨⟨rc, addr, size⟩, hans⟩ := Images.exists_answersParse h
  have hfail {e : Int} {f : Int × UInt64 × UInt32 → Code Int}
      (hf : May (loadMachine im) () (f (rc, addr, size)) priv (-e) priv) :
      May (loadMachine im) () ((Prog.perform (.parseIsolatedElf program)).bind f) priv (-e) priv :=
    (May.perform (if_pos hans)).bind hf
  by_cases hrc : rc = 0
  · by_cases haddr : addr &&& 0xf = 0
    · refine ⟨-eio, by decide, hfail ?_⟩
      dsimp only
      rw [if_neg (not_not.mpr hrc), if_neg (not_not.mpr haddr)]
      exact (may_writeIsolatedLoadParams _ _ _ (-1) (.inr rfl)).bind (may_failNeg eio)
    · refine ⟨-einval, by decide, hfail ?_⟩
      dsimp only
      rw [if_neg (not_not.mpr hrc), if_pos haddr]
      exact may_failNeg einval
  · refine ⟨-enoexec, by decide, hfail ?_⟩
    dsimp only
    rw [if_pos hrc]
    exact may_failNeg enoexec

theorem may_startIsolatedApp (h : im.Startable program) :
    May (loadMachine im) () (speStartIsolatedApp spe program) priv 0 priv := by
  obtain ⟨addr, size, t, hrun, haddr⟩ := h
  have hans : im.AnswersParse program (0, .ofNat addr, .ofNat size) := by
    unfold Images.AnswersParse
    rw [hrun]
  apply May.bind (May.perform (if_pos hans))
  dsimp only
  rw [if_neg (not_not.mpr rfl), if_neg (not_not.mpr haddr)]
  exact (may_writeIsolatedLoadParams _ _ _ 0 (.inl rfl)).bind .ret

theorem may_loadProgram_fail (spe : Spe) (priv : BasePriv) {flags : UInt32} (h : im.CanFail flags program) :
    ∃ r : Int × Option UInt32, r.1 ≠ 0 ∧
      May (loadMachine im) () (loadProgram spe flags program) priv r priv := by
  unfold Images.CanFail at h
  unfold loadProgram
  split at h
  · next hiso =>
    obtain ⟨rc, hrc, hmay⟩ := may_startIsolatedApp_fail spe priv h
    rw [if_pos hiso]
    exact ⟨(rc, none), hrc, hmay.bind .ret⟩
  next hiso =>
  rw [if_neg hiso]
  split at h
  · next hemu =>
    rw [if_pos hemu]
    obtain h | ⟨l, hl, rc, info, t, hrun, h⟩ := h
    · exact ⟨(-1, none), by decide, (May.perform (r := none) (if_pos h)).bind .ret⟩
    have hans : im.AnswersLoader (some (rc, .ofNat info.entry)) := ⟨l, hl, Images.answersLoad hrun⟩
    by_cases hrc : rc = 0
    · obtain ⟨rc', hrc', hmay⟩ := may_startIsolatedApp_fail spe priv
        (h.resolve_left (not_not.mpr hrc))
      refine ⟨(rc', some (.ofNat info.entry)), hrc', (May.perform (if_pos hans)).bind ?_⟩
      dsimp only
      rw [if_neg (not_not.mpr hrc)]
      exact hmay.bind .ret
    · refine ⟨(rc, none), hrc, (May.perform (if_pos hans)).bind ?_⟩
      dsimp only
      rw [if_pos hrc]
      exact .ret
  · next hemu =>
    rw [if_neg hemu]
    obtain ⟨rc, info, t, hrun, hrc⟩ := h
    refine ⟨(rc, some (.ofNat info.entry)), hrc, (May.perform (if_pos (Images.answersLoad hrun))).bind ?_⟩
    dsimp only
    rw [if_neg hrc]
    exact .ret

theorem may_modifyBase (f : BasePriv → BasePriv) : May (loadMachine im) () (modifyBase f) priv () (f priv) :=
  ⟨[⟨.base, priv⟩, ⟨.setBase (f priv), ()⟩], .cmd (.cmd .ret), by
    rw [Machine.play_cons, show (loadMachine im).exec () .base priv priv = some priv from if_pos rfl]
    rfl⟩

/-- A load that fails, with the program stored. -/
theorem may_programLoad_fail (spe : Spe) (h : im.CanFail priv.flags program) :
    May (loadMachine im) () (baseSpeProgramLoad spe program) priv (-1)
      { priv with loadedProgram := some program } := by
  apply May.bind (may_modifyBase _)
  obtain ⟨r, hr, hmay⟩ := may_loadProgram_fail spe { priv with loadedProgram := some program } h
  apply May.bind (May.perform (if_pos rfl))
  apply May.bind hmay
  dsimp only
  rw [if_pos hr]
  exact .ret

/-- An isolated load sets the entries to whatever was in the local variable. -/
theorem may_programLoad_isolated (spe : Spe) (hiso : priv.flags &&& speIsolate ≠ 0)
    (h : im.Startable program) (garbage : UInt32) : May (loadMachine im) () (baseSpeProgramLoad spe program) priv 0
      { priv with loadedProgram := some program, entry := garbage, emulatedEntry := garbage } := by
  apply May.bind (may_modifyBase _)
  apply May.bind (May.perform (if_pos rfl))
  have hmay : May (loadMachine im) () (loadProgram spe priv.flags program)
      { priv with loadedProgram := some program } (0, none) { priv with loadedProgram := some program } := by
    unfold loadProgram
    rw [if_pos hiso]
    exact (may_startIsolatedApp h).bind .ret
  apply May.bind hmay
  apply May.bind (May.perform (r := garbage) rfl)
  exact (may_modifyBase _).bind .ret

/-! ## When loads are atomic -/

/-- Every load of `program` in a context with the members `priv` is atomic and sets the right entry. -/
def Images.Atomic (im : Images) (spe : Spe) (program : ProgramHandle) (priv : BasePriv) : Prop :=
  ∀ tr rc next, (baseSpeProgramLoad spe program).Ends tr rc →
    (loadMachine im).play () tr priv = some next → LoadResult im program priv rc next

/-- **Loads**: they are atomic and set the right entry unless one that can fail replaces another program, or an
isolated one succeeds. -/
theorem program_load_atomic (im : Images) (spe : Spe) (program : ProgramHandle) (priv : BasePriv) :
    im.Atomic spe program priv ↔
      (im.CanFail priv.flags program → priv.loadedProgram = some program) ∧
        ¬ (priv.flags &&& speIsolate ≠ 0 ∧ im.Startable program) := by
  constructor
  · intro h
    constructor
    · intro hfail
      obtain ⟨tr, hends, hplay⟩ := may_programLoad_fail spe hfail
      exact ((h tr _ _ hends hplay).failed rfl).1.symm
    · rintro ⟨hiso, hstart⟩
      obtain ⟨tr, hends, hplay⟩ :=
        may_programLoad_isolated spe hiso hstart (im.firstEntry priv.flags program + 1)
      have hentry := ((h tr _ _ hends hplay).loaded rfl).2.1
      exact absurd hentry (by simp)
  · rintro ⟨hfail, hiso⟩ tr rc next hends hplay
    obtain ⟨rfl, rfl, hcan⟩ | ⟨rfl, e, rfl, he⟩ := baseSpeProgramLoad_spec tr rc next hends hplay
    · exact ⟨fun _ => ⟨(hfail hcan).symm, rfl, rfl⟩, fun h => absurd h (by decide)⟩
    · split at he
      · next hflag => exact absurd ⟨hflag, he⟩ hiso
      · exact ⟨fun h => absurd h (by decide), fun _ => ⟨rfl, he, he⟩⟩

/-- An image of zeros, which no load accepts, behind every handle. -/
def zeroImages : Images where
  image _ := ⟨[], ⟨0x10000, 52, 2 ^ 32⟩, ⟨fun _ => 0, []⟩⟩
  loader := none

/-- A context in which nothing has been loaded. -/
def freshPriv : BasePriv := ⟨3, 0, 0, 0, none, none, none, none, none, none, none, none⟩

/-- A refused image stays behind as the program that is loaded. -/
theorem program_load_leaves : ¬ ∀ im spe program priv, Images.Atomic im spe program priv := by
  intro h
  have hfail : zeroImages.CanFail freshPriv.flags ⟨some 0x10000⟩ := by
    unfold Images.CanFail
    rw [if_neg (by decide), if_neg (by decide)]
    exact ⟨_, _, _, rfl, by decide⟩
  obtain ⟨tr, hends, hplay⟩ := may_programLoad_fail 1 hfail
  have hleft := ((h _ _ _ _ tr _ _ hends hplay).failed rfl).1
  exact absurd hleft (by decide)

end LibSpe2.Ctx
