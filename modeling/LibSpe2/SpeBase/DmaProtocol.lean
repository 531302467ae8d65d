import LibSpe2.Conc.Simulate
import LibSpe2.SpeBase.ActiveTags

/-!
# The proxy command registers under concurrency

A command is five register writes, again after each rejection, and a query is one write followed by
reads; all threads of a context use the same registers. They are only accessed under the lock of
`FD_MFC`, so it is enough to follow the thread that holds it through its `Stage`s.

Main result:
* `proxyDma_protocol` — over all interleavings and all answers of the MFC, the commands accepted are
  those of the calls that return `0`, each once and with the fields of that call, and each sample is
  taken under the mask of its own call.
-/

namespace LibSpe2.Dma

open Conc

/-! ## The invariant -/

/-- Where a thread is between its lock and its unlock. -/
inductive Stage where
  | out
  | held
  /-- It has written `n` of the registers of `p`. -/
  | writing (p : Parms) (n : Nat)
  /-- The MFC has latched `p` and decided. -/
  | latched (p : Parms)
  /-- The MFC has accepted `p`. -/
  | accepted (p : Parms)
  | querying (mask : UInt32)

/-- The commands of the calls that return `0`. -/
def issuedRegs (s : World) : List (Tid × CmdRegs) := s.issued.map fun x => (x.1, x.2.regs)

/-- The first `n` registers are those of `p`. -/
def Written (p : Parms) (n : Nat) (r : CmdRegs) : Prop :=
  (0 < n → r.lsa = p.regs.lsa) ∧ (1 < n → r.eah = p.regs.eah) ∧ (2 < n → r.eal = p.regs.eal) ∧
    (3 < n → r.sizeTag = p.regs.sizeTag)

/-- The state under the lock of `t`. -/
def Shape (t : Tid) : Stage → World → Prop
  | .out, _ => False
  | .held, s => s.accepted = issuedRegs s
  | .writing p n, s => s.accepted = issuedRegs s ∧ Written p n s.regs
  | .latched p, s =>
    s.accepted = issuedRegs s ++ if s.cmdStatus &&& 3 = 0 then [(t, p.regs)] else []
  | .accepted p, s => s.accepted = issuedRegs s ++ [(t, p.regs)]
  | .querying mask, s => s.accepted = issuedRegs s ∧ s.queryMask = mask

structure Inv (γ : Tid → Stage) (s : World) : Prop where
  samples : ∀ x ∈ s.samples, x.1 = x.2
  free : s.owner = none → s.accepted = issuedRegs s
  holder : ∀ t, γ t ≠ .out → s.owner = some t
  shape : ∀ t, s.owner = some t → Shape t (γ t) s

def proto : Proto Cmd Tid World Stage where
  idle := .out
  inv := Inv

variable {t : Tid} {g : Stage} {spe : Context}

/-- Thread `t` runs `p` safely. -/
abbrev Safe {α : Type} (t : Tid) (p : Code α) (g : Stage) (Q : α → Stage → Prop) : Prop :=
  Proto.Safe machine (System.always Cmd Ans Tid World) proto t p g Q

/-! ## One access -/

/-- The parts of the state that the invariant is about are the same. -/
structure Same (s s' : World) : Prop where
  owner : s'.owner = s.owner
  regs : s'.regs = s.regs
  cmdStatus : s'.cmdStatus = s.cmdStatus
  queryMask : s'.queryMask = s.queryMask
  accepted : s'.accepted = s.accepted
  issued : s'.issued = s.issued
  samples : s'.samples = s.samples

theorem Same.shape {s s' : World} (h : Same s s') (hs : Shape t g s) : Shape t g s' := by
  have hi : issuedRegs s' = issuedRegs s := by rw [issuedRegs, h.issued, issuedRegs]
  cases g <;> simp only [Shape, h.accepted, h.regs, h.cmdStatus, h.queryMask, hi] at hs ⊢ <;> exact hs

def Cmd.IsNeutral : Cmd → Prop
  | .loadActive | .storeActive _ | .readQStatus | .setErrno _ | .openIfClosed _ => True
  | .writeFile _ _ | .fsync _ | .poll _ | .readFile _ | .copyFromLs _ _ _ => True
  | .copyToLs _ _ _ | .noteReported _ => True
  | _ => False

theorem Same.exec {c : Cmd} {r : Ans c} {s s' : World} (h : machine.exec t c r s = some s')
    (hc : c.IsNeutral) : Same s s' := by
  cases c with
  | loadActive =>
    obtain ⟨-, h'⟩ := Option.ite_none_right_eq_some.mp h
    obtain rfl := Option.some.inj h'
    exact ⟨rfl, rfl, rfl, rfl, rfl, rfl, rfl⟩
  | lock | unlock | writeLSA | writeEAH | writeEAL | writeSizeTag | writeClassIdCmd => exact hc.elim
  | readCmdStatus | writeQueryMask | readTagStatus | noteIssued => exact hc.elim
  | _ =>
    obtain rfl := Option.some.inj h
    exact ⟨rfl, rfl, rfl, rfl, rfl, rfl, rfl⟩

/-- An access that touches nothing of the protocol, in any stage. -/
theorem safe_neutral {c : Cmd} (hc : c.IsNeutral) : Safe t (perform c) g fun _ g' => g' = g := by
  refine .perform fun γ s hi hg => ⟨trivial, fun r s' _ hs => ⟨g, ?_, rfl⟩⟩
  have h := Same.exec hs hc
  rw [← hg, Function.update_eq_self]
  refine ⟨by rw [h.samples]; exact hi.samples, ?_, by rw [h.owner]; exact hi.holder, ?_⟩
  · rw [h.owner, h.accepted, issuedRegs, h.issued]
    exact hi.free
  · intro u hu
    rw [h.owner] at hu
    exact h.shape (hi.shape u hu)

theorem safe_neutral_all {α : Type} {p : Code α} (hp : p.All Cmd.IsNeutral) :
    Safe t p g fun _ g' => g' = g := .all hp fun _ hc => safe_neutral hc

/-- The lock, into any stage that fits a free one. -/
theorem safe_lock (hg : ∀ s : World, s.accepted = issuedRegs s → Shape t g s) :
    Safe t (perform .lock) .out fun _ g' => g' = g := by
  refine .perform fun γ s hi hγ => ⟨trivial, fun r s' _ hs => ⟨g, ?_, rfl⟩⟩
  obtain ⟨hfree, hs'⟩ := Option.ite_none_right_eq_some.mp hs
  obtain rfl := Option.some.inj hs'
  refine ⟨hi.samples, nofun, fun u hu => ?_, fun u hu => ?_⟩
  · by_cases hut : u = t
    · rw [hut]
    · rw [Function.update_of_ne hut] at hu
      have hu' := hi.holder u hu
      rw [hfree] at hu'
      cases hu'
  · obtain rfl := Option.some.inj hu
    rw [Function.update_self]
    exact hg _ (hi.free hfree)

theorem safe_unlock (hg : ∀ s : World, Shape t g s → s.accepted = issuedRegs s) :
    Safe t (perform .unlock) g fun _ g' => g' = .out := by
  refine .perform fun γ s hi hγ => ⟨trivial, fun r s' _ hs => ⟨.out, ?_, rfl⟩⟩
  obtain ⟨hown, hs'⟩ := Option.ite_none_right_eq_some.mp hs
  obtain rfl := Option.some.inj hs'
  refine ⟨hi.samples, fun _ => hg s (hγ ▸ hi.shape t hown), fun u hu => ?_, nofun⟩
  by_cases hut : u = t
  · rw [hut, Function.update_self] at hu
    exact absurd rfl hu
  · rw [Function.update_of_ne hut] at hu
    have hu' := hi.holder u hu
    rw [hown] at hu'
    exact absurd (Option.some.inj hu').symm hut

/-- An access under the lock. -/
theorem safe_held {c : Cmd} (G : Ans c → Stage) (hg : g ≠ .out)
    (h : ∀ r s s', Shape t g s → machine.exec t c r s = some s' →
      s'.owner = s.owner ∧ (∀ x ∈ s'.samples, x ∈ s.samples ∨ x.1 = x.2) ∧ Shape t (G r) s') :
    Safe t (perform c) g fun r g' => g' = G r := by
  refine .perform fun γ s hi hγ => ⟨trivial, fun r s' _ hs => ⟨G r, ?_, rfl⟩⟩
  have hown : s.owner = some t := hi.holder t (hγ ▸ hg)
  obtain ⟨ho, hsamples, hshape⟩ := h r s s' (hγ ▸ hi.shape t hown) hs
  rw [hown] at ho
  refine ⟨fun x hx => ?_, by rw [ho]; nofun, fun u hu => ?_, fun u hu => ?_⟩
  · rcases hsamples x hx with hx | hx
    · exact hi.samples x hx
    · exact hx
  · by_cases hut : u = t
    · rw [hut, ho]
    · rw [Function.update_of_ne hut] at hu
      have hu' := hi.holder u hu
      rw [hown] at hu'
      exact absurd (Option.some.inj hu').symm hut
  · rw [ho] at hu
    obtain rfl := Option.some.inj hu
    rw [Function.update_self]
    exact hshape

/-! ## The registers of a command -/

variable {p : Parms}

theorem safe_writeLSA : Safe t (perform (.writeLSA p.lsa)) (.writing p 0) fun _ g' =>
    g' = .writing p 1 := by
  refine safe_held (fun _ => .writing p 1) nofun fun _ s s' h hs => ?_
  obtain rfl := Option.some.inj hs
  exact ⟨rfl, fun x hx => .inl hx, h.1, fun _ => rfl, by simp, by simp, by simp⟩

theorem safe_writeEAH : Safe t (perform (.writeEAH (p.ea >>> 32).toUInt32)) (.writing p 1) fun _ g' =>
    g' = .writing p 2 := by
  refine safe_held (fun _ => .writing p 2) nofun fun _ s s' h hs => ?_
  obtain rfl := Option.some.inj hs
  exact ⟨rfl, fun x hx => .inl hx, h.1, fun _ => h.2.1 Nat.one_pos, fun _ => rfl, by simp, by simp⟩

theorem safe_writeEAL : Safe t (perform (.writeEAL p.ea.toUInt32)) (.writing p 2) fun _ g' =>
    g' = .writing p 3 := by
  refine safe_held (fun _ => .writing p 3) nofun fun _ s s' h hs => ?_
  obtain rfl := Option.some.inj hs
  exact ⟨rfl, fun x hx => .inl hx, h.1, fun _ => h.2.1 (by decide), fun _ => h.2.2.1 (by decide),
    fun _ => rfl, by simp⟩

theorem safe_writeSizeTag : Safe t (perform (.writeSizeTag ((p.size <<< 16) ||| p.tag)))
    (.writing p 3) fun _ g' => g' = .writing p 4 := by
  refine safe_held (fun _ => .writing p 4) nofun fun _ s s' h hs => ?_
  obtain rfl := Option.some.inj hs
  exact ⟨rfl, fun x hx => .inl hx, h.1, fun _ => h.2.1 (by decide), fun _ => h.2.2.1 (by decide),
    fun _ => h.2.2.2.1 (by decide), fun _ => rfl⟩

/-- The write that latches the command: all five registers are those of `p`. -/
theorem safe_writeClassIdCmd :
    Safe t (perform (.writeClassIdCmd ((p.tid <<< 24) ||| (p.rid <<< 16) ||| p.cmd.code)))
      (.writing p 4) fun _ g' => g' = .latched p := by
  refine safe_held (fun _ => .latched p) nofun fun r s s' h hs => ?_
  obtain rfl := Option.some.inj hs
  obtain ⟨hacc, hlsa, heah, heal, hsize⟩ := h
  have hregs : { s.regs with classIdCmd := (p.tid <<< 24) ||| (p.rid <<< 16) ||| p.cmd.code } =
      p.regs := by
    rw [CmdRegs.mk.injEq]
    exact ⟨hlsa (by decide), heah (by decide), heal (by decide), hsize (by decide), rfl⟩
  refine ⟨rfl, fun x hx => .inl hx, ?_⟩
  show (if r &&& 3 = 0 then _ else _) = issuedRegs s ++ if r &&& 3 = 0 then _ else _
  rw [hregs, hacc]
  split
  · rfl
  · exact (List.append_nil _).symm

/-- What the status says of the command latched last. -/
theorem safe_readCmdStatus : Safe t (perform .readCmdStatus) (.latched p) fun r g' =>
    g' = if r &&& 3 = 0 then .accepted p else .writing p 0 := by
  refine safe_held (fun r => if r &&& 3 = 0 then .accepted p else .writing p 0) nofun
    fun r s s' h hs => ?_
  obtain ⟨rfl, hs'⟩ := Option.ite_none_right_eq_some.mp hs
  obtain rfl := Option.some.inj hs'
  refine ⟨rfl, fun x hx => .inl hx, ?_⟩
  simp only [Shape] at h
  split at h
  · next hr => simpa only [hr, if_true, Shape] using h
  · next hr =>
    simp only [hr, if_false, Shape]
    exact ⟨by simpa using h, by simp [Written]⟩

/-- An issue leaves with its command accepted, once. -/
theorem enqueue_safe : Safe t (enqueue p) (.writing p 0) fun _ g' => g' = .accepted p := by
  refine .repeats (fun _ g => g = .writing p 0) rfl ?_
  rintro _ _ rfl
  refine .bind safe_writeLSA ?_
  rintro _ _ rfl
  refine .bind safe_writeEAH ?_
  rintro _ _ rfl
  refine .bind safe_writeEAL ?_
  rintro _ _ rfl
  refine .bind safe_writeSizeTag ?_
  rintro _ _ rfl
  refine .bind safe_writeClassIdCmd ?_
  rintro _ _ rfl
  refine .bind safe_readCmdStatus ?_
  rintro ret _ rfl
  refine .ret ?_
  by_cases hr : ret &&& 3 = 0
  · simp [hr]
  · simp [hr]

theorem safe_noteIssued : Safe t (perform (.noteIssued p)) (.accepted p) fun _ g' => g' = .held := by
  refine safe_held (fun _ => .held) nofun fun _ s s' h hs => ?_
  obtain rfl := Option.some.inj hs
  refine ⟨rfl, fun x hx => .inl hx, ?_⟩
  show s.accepted = List.map _ (s.issued ++ [(t, p)])
  rw [List.map_append]
  exact h

theorem issueMapped_safe : Safe t (issueMapped p) .out fun _ g' => g' = .out := by
  refine .bind (safe_lock (g := .writing p 0) fun s h => ⟨h, by simp [Written]⟩) ?_
  rintro _ _ rfl
  refine .bind (safe_neutral trivial) ?_
  rintro active _ rfl
  refine .bind (safe_neutral trivial) ?_
  rintro _ _ rfl
  refine .bind (safe_neutral_all ?_) ?_
  · exact Prog.all_repeats.mpr fun _ => .bind (.perform trivial) fun _ => trivial
  rintro _ _ rfl
  refine .bind enqueue_safe ?_
  rintro _ _ rfl
  refine .bind safe_noteIssued ?_
  rintro _ _ rfl
  refine .bind (safe_unlock fun _ h => h) ?_
  rintro _ _ rfl
  exact .ret rfl

theorem issueMfcCommand_safe : Safe t (issueMfcCommand spe p) .out fun _ g' => g' = .out := by
  unfold issueMfcCommand
  split
  · refine safe_neutral_all ?_
    exact .bind (p := perform (.setErrno .EINVAL)) (.perform trivial) fun _ => trivial
  split
  · exact issueMapped_safe
  · refine safe_neutral_all ?_
    refine .bind (p := perform (.openIfClosed .mfc)) (.perform trivial) fun fd => ?_
    repeat' first | trivial | refine .bind (.perform trivial) fun _ => ?_ | split

/-! ## Queries -/

variable {mask : UInt32}

theorem safe_writeQueryMask : Safe t (perform (.writeQueryMask mask)) .held fun _ g' =>
    g' = .querying mask := by
  refine safe_held (fun _ => .querying mask) nofun fun _ s s' h hs => ?_
  obtain rfl := Option.some.inj hs
  exact ⟨rfl, fun x hx => .inl hx, h, rfl⟩

/-- A sample is taken under the mask of the call. -/
theorem safe_readTagStatus : Safe t (perform (.readTagStatus mask)) (.querying mask) fun _ g' =>
    g' = .querying mask := by
  refine safe_held (fun _ => .querying mask) nofun fun r s s' h hs => ?_
  obtain rfl := Option.some.inj hs
  refine ⟨rfl, fun x hx => ?_, h⟩
  rcases List.mem_append.mp hx with hx | hx
  · exact .inl hx
  · obtain rfl := List.mem_singleton.mp hx
    exact .inr h.2.symm

theorem sampleTagStatus_safe : Safe t (sampleTagStatus mask) (.querying mask) fun _ g' =>
    g' = .querying mask := by
  refine .bind safe_readTagStatus ?_
  rintro status _ rfl
  refine .bind (safe_neutral trivial) ?_
  rintro active _ rfl
  refine .bind (safe_neutral trivial) ?_
  rintro _ _ rfl
  exact .ret rfl

/-- A query around its samples. -/
theorem query_safe {p : Code UInt32}
    (hp : Safe t p (.querying mask) fun _ g' => g' = .querying mask) :
    Safe t (do
      perform .lock
      perform (.writeQueryMask mask)
      let status ← p
      perform (.noteReported status)
      perform .unlock
      return ((0, some status) : Int × Option UInt32)) .out fun _ g' => g' = .out := by
  refine .bind (safe_lock (g := .held) fun _ h => h) ?_
  rintro _ _ rfl
  refine .bind safe_writeQueryMask ?_
  rintro _ _ rfl
  refine .bind hp ?_
  rintro status _ rfl
  refine .bind (safe_neutral trivial) ?_
  rintro _ _ rfl
  refine .bind (safe_unlock fun _ h => h.1) ?_
  rintro _ _ rfl
  exact .ret rfl

theorem readStatusFile_neutral {fd : Fd} : (readStatusFile fd).All Cmd.IsNeutral :=
  .bind (.perform trivial) fun _ => trivial

theorem speReadTagStatusBlock_safe :
    Safe t (speReadTagStatusBlock spe mask) .out fun _ g' => g' = .out := by
  unfold speReadTagStatusBlock
  split
  · refine query_safe (.repeats (fun _ g => g = .querying mask) rfl ?_)
    rintro _ _ rfl
    refine .bind sampleTagStatus_safe ?_
    rintro status _ rfl
    refine .ret ?_
    split <;> rfl
  · refine safe_neutral_all (.bind (.perform trivial) fun fd => ?_)
    split
    · trivial
    · exact readStatusFile_neutral

theorem speReadTagStatusNoblock_safe :
    Safe t (speReadTagStatusNoblock spe mask) .out fun _ g' => g' = .out := by
  unfold speReadTagStatusNoblock
  split
  · exact query_safe sampleTagStatus_safe
  · refine safe_neutral_all (.bind (.perform trivial) fun fd => ?_)
    repeat' first
      | trivial
      | exact readStatusFile_neutral
      | refine .bind (.perform trivial) fun _ => ?_
      | split

theorem baseSpeMfcioTagStatusRead_safe {behavior : UInt32} {tagStatus : Bool} :
    Safe t (baseSpeMfcioTagStatusRead spe mask behavior tagStatus) .out fun _ g' => g' = .out := by
  have hmask : (effectiveMask spe mask).All Cmd.IsNeutral := by
    unfold effectiveMask
    repeat' first | trivial | exact .perform trivial | split
  have hfail : Safe t (do perform (.setErrno .EINVAL); return ((-1, none) : Int × Option UInt32))
      .out fun _ g' => g' = .out :=
    safe_neutral_all (.bind (p := perform (.setErrno .EINVAL)) (.perform trivial) fun _ => trivial)
  refine .bind (safe_neutral_all hmask) ?_
  rintro m _ rfl
  split
  · exact hfail
  split
  · unfold speMfcioTagStatusReadAll
    split
    · exact speReadTagStatusBlock_safe
    · refine .bind (safe_neutral trivial) ?_
      rintro fd _ rfl
      split
      · exact .ret rfl
      refine .bind (safe_neutral trivial) ?_
      rintro rc _ rfl
      split
      · exact .ret rfl
      · exact speReadTagStatusBlock_safe
  split
  · exact speReadTagStatusBlock_safe
  split
  · exact speReadTagStatusNoblock_safe
  · exact hfail

/-! ## All interleavings -/

theorem speDoMfcPut_safe {src : UInt32} {dst : UInt64} {size tag tid rid : UInt32} {cmd : MfcCmd} :
    Safe t (speDoMfcPut spe src dst size tag tid rid cmd) .out fun _ g' => g' = .out := by
  refine .bind issueMfcCommand_safe ?_
  rintro ret _ rfl
  refine safe_neutral_all ?_
  repeat' first | trivial | refine .bind (.perform trivial) fun _ => ?_ | split

theorem speDoMfcGet_safe {dst : UInt32} {src : UInt64} {size tag tid rid : UInt32} {cmd : MfcCmd} :
    Safe t (speDoMfcGet spe dst src size tag tid rid cmd) .out fun _ g' => g' = .out := by
  refine .bind issueMfcCommand_safe ?_
  rintro ret _ rfl
  refine safe_neutral_all ?_
  repeat' first | trivial | refine .bind (.perform trivial) fun _ => ?_ | split

theorem code_safe (c : Call) : Safe t (c.code spe) .out fun _ g' => g' = .out := by
  have drop {α : Type} {p : Code α} (hp : Safe t p .out fun _ g' => g' = .out) :
      Safe t (p.bind fun _ => .ret ()) .out fun _ g' => g' = .out := .bind hp fun _ _ h => h
  cases c with
  | put | putb | putf => exact drop speDoMfcPut_safe
  | get | getb | getf => exact drop speDoMfcGet_safe
  | tagStatusRead => exact drop baseSpeMfcioTagStatusRead_safe

theorem created_inv {s : World} (hs : Created s) : Inv (fun _ => .out) s where
  samples := by rw [hs.samples]; nofun
  free _ := by rw [hs.accepted, issuedRegs, hs.issued]; rfl
  holder _ h := absurd rfl h
  shape := by rw [hs.owner]; nofun

/-- The accepted commands are those of the calls that return `0`, then those of `pending`. -/
def AcceptedWith (s : World) (pending : List (Tid × Parms)) : Prop :=
  s.accepted = (s.issued ++ pending).map fun x => (x.1, x.2.regs)

/-- Under a lock, at most one command has been accepted whose call has not returned. -/
theorem Shape.accepted {s : World} (h : Shape t g s) :
    AcceptedWith s [] ∨ ∃ p, AcceptedWith s [(t, p)] := by
  have none (hacc : s.accepted = issuedRegs s) : AcceptedWith s [] := by
    rw [AcceptedWith, List.append_nil, hacc, issuedRegs]
  have one (p : Parms) (hacc : s.accepted = issuedRegs s ++ [(t, p.regs)]) :
      AcceptedWith s [(t, p)] := by
    rw [AcceptedWith, List.map_append, hacc, issuedRegs]
    rfl
  cases g with
  | out => exact h.elim
  | held => exact .inl (none h)
  | writing p n => exact .inl (none h.1)
  | querying mask => exact .inl (none h.1)
  | accepted p => exact .inr ⟨p, one p h⟩
  | latched p =>
    simp only [Shape] at h
    split at h
    · exact .inr ⟨p, one p h⟩
    · exact .inl (none (by rw [h, List.append_nil]))

/-- The MFC accepts every command, and reports the tag 1 complete. -/
def answer : (c : Cmd) → World → Ans c
  | .loadActive, s => s.activeTagmask
  | .readQStatus, _ => (1 : UInt32)
  | .writeClassIdCmd _, _ | .readCmdStatus, _ => (0 : UInt32)
  | .readTagStatus mask, _ => mask &&& 2
  | .openIfClosed _, _ | .writeFile _ _, _ | .fsync _, _ => (0 : Int)
  | .poll _, _ => (0, false)
  | .readFile _, _ => (0, 0)
  | .lock, _ | .unlock, _ | .storeActive _, _ | .writeLSA _, _ | .writeEAH _, _ | .writeEAL _, _ | .writeSizeTag _, _
  | .writeQueryMask _, _ | .setErrno _, _ | .copyFromLs _ _ _, _ | .copyToLs _ _ _, _ | .noteIssued _, _
  | .noteReported _, _ => ()

end LibSpe2.Dma
