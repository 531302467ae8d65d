import LibSpe2.Data.Words
import LibSpe2.SpeBase.ActiveTags

/-!
# What a proxy DMA call asks for

A command leaves the library as five register writes, as one write of the `mfc` file, or not at all where
the library copies the bytes itself. The MFC and spufs decode what they are given.

* `Request` — a command as it is decoded (`CmdRegs.decode`, `MfcCommandParameterArea.decode`).
* `latched`, `fileWrites`, `copies` — what a trace hands to the MFC, to spufs and to `memcpy`.
* `Issued`, `Called` — what `issue_mfc_command` and the calls over it can do, whatever they are answered.
* `transfers`, `Faithful` — the ranges of local store that a call asks for or copies, and what is expected.

Main results:
* `mfcio_encoding` — each operation but `getb` is encoded field by field; `getb` loses the `tid`.
* `mfcio_size` — the size and the address survive exactly if the size has 16 bits and the range is in local
  store; `memcpy` needs the latter only.
-/

namespace LibSpe2.Dma

open Conc (Prog)
open Words

/-! ## Packed words -/

theorem toNat_shiftLeft_8 (x : UInt32) : (x <<< 8).toNat = 2 ^ 8 * (x.toNat % 2 ^ 24) :=
  toNat_shiftLeft (k := 8) (by decide)

theorem toNat_shiftLeft_16 (x : UInt32) : (x <<< 16).toNat = 2 ^ 16 * (x.toNat % 2 ^ 16) :=
  toNat_shiftLeft (k := 16) (by decide)

theorem toNat_shiftLeft_24 (x : UInt32) : (x <<< 24).toNat = 2 ^ 24 * (x.toNat % 2 ^ 8) :=
  toNat_shiftLeft (k := 24) (by decide)

theorem toNat_shiftRight_16 (x : UInt32) : (x >>> 16).toNat = x.toNat / 2 ^ 16 :=
  toNat_shiftRight (k := 16) (by decide)

theorem toNat_shiftRight_24 (x : UInt32) : (x >>> 24).toNat = x.toNat / 2 ^ 24 :=
  toNat_shiftRight (k := 24) (by decide)

theorem toNat_and_ff (x : UInt32) : (x &&& 0xff).toNat = x.toNat % 2 ^ 8 :=
  toNat_and_low (m := 0xff) (n := 8) rfl

theorem toNat_and_ffff (x : UInt32) : (x &&& 0xffff).toNat = x.toNat % 2 ^ 16 :=
  toNat_and_low (m := 0xffff) (n := 16) rfl

/-- An effective address is put together again from its halves. -/
theorem ea_halves (ea : UInt64) :
    ((ea >>> 32).toUInt32.toUInt64 <<< 32) ||| ea.toUInt32.toUInt64 = ea := by
  have hlt := ea.toNat_lt
  apply UInt64.toNat_inj.mp
  rw [UInt64.toNat_or, UInt64.toNat_shiftLeft, UInt32.toNat_toUInt64, UInt32.toNat_toUInt64,
    UInt64.toNat_toUInt32, UInt64.toNat_toUInt32, UInt64.toNat_shiftRight]
  show ((ea.toNat >>> 32) % 2 ^ 32) <<< 32 % 2 ^ 64 ||| ea.toNat % 2 ^ 32 = ea.toNat
  rw [Nat.shiftRight_eq_div_pow, Nat.shiftLeft_eq, or_eq_add (k := 32) (by omega) (by omega)]
  omega

/-! ## Decoding -/

/-- A command as the MFC understands it: `tid` and `rid` are the high and the low part of the class ID. -/
structure Request where
  lsa : UInt32
  ea : UInt64
  size : UInt32
  tag : UInt32
  tid : UInt32
  rid : UInt32
  opcode : UInt32
  deriving DecidableEq

/-- The fields of the command registers. -/
def CmdRegs.decode (r : CmdRegs) : Request where
  lsa := r.lsa
  ea := (r.eah.toUInt64 <<< 32) ||| r.eal.toUInt64
  size := r.sizeTag >>> 16
  tag := r.sizeTag &&& 0xffff
  tid := r.classIdCmd >>> 24
  rid := (r.classIdCmd >>> 16) &&& 0xff
  opcode := r.classIdCmd &&& 0xffff

/-- The fields of what is written to the `mfc` file. -/
def MfcCommandParameterArea.decode (parm : MfcCommandParameterArea) : Request where
  lsa := parm.lsa
  ea := parm.ea
  size := parm.size.toUInt32
  tag := parm.tag.toUInt32
  tid := (parm.class_ >>> 8).toUInt32
  rid := (parm.class_ &&& 0xff).toUInt32
  opcode := parm.cmd.toUInt32

/-- The initializer of `issue_mfc_command`. -/
def Parms.parm (p : Parms) : MfcCommandParameterArea where
  lsa := p.lsa
  ea := p.ea
  size := p.size.toUInt16
  tag := p.tag.toUInt16
  class_ := ((p.tid <<< 8) ||| p.rid).toUInt16
  cmd := p.cmd.code.toUInt16

/-- What a call asks for. -/
def Parms.request (p : Parms) : Request := ⟨p.lsa, p.ea, p.size, p.tag, p.tid, p.rid, p.cmd.code⟩

/-- The check of `issue_mfc_command`. -/
def Parms.Refused (p : Parms) : Prop := p.tag > 0x0f ∨ p.tid > 0xff ∨ p.rid > 0xff

instance (p : Parms) : Decidable p.Refused := inferInstanceAs (Decidable (_ ∨ _))

/-- The fields of a command that passes the check, in both layouts. -/
structure Parms.InRange (p : Parms) : Prop where
  tag : p.tag.toNat < 2 ^ 4
  tid : p.tid.toNat < 2 ^ 8
  rid : p.rid.toNat < 2 ^ 8

variable {p : Parms}

theorem Parms.inRange (h : ¬ p.Refused) : p.InRange := by
  obtain ⟨htag, h⟩ := not_or.mp h
  obtain ⟨htid, hrid⟩ := not_or.mp h
  have htag : p.tag.toNat ≤ 15 := UInt32.not_lt.mp htag
  have htid : p.tid.toNat ≤ 255 := UInt32.not_lt.mp htid
  have hrid : p.rid.toNat ≤ 255 := UInt32.not_lt.mp hrid
  exact ⟨by omega, by omega, by omega⟩

theorem MfcCmd.code_lt (c : MfcCmd) : c.code.toNat < 2 ^ 16 := by
  cases c <;> decide

theorem toNat_sizeTag (h : p.InRange) :
    p.regs.sizeTag.toNat = 2 ^ 16 * (p.size.toNat % 2 ^ 16) + p.tag.toNat := by
  have htag := h.tag
  show (p.size <<< 16 ||| p.tag).toNat = _
  rw [UInt32.toNat_or, toNat_shiftLeft_16, or_eq_add (Nat.dvd_mul_right ..) (by omega)]

theorem toNat_classIdCmd (h : p.InRange) : p.regs.classIdCmd.toNat =
    2 ^ 24 * p.tid.toNat + 2 ^ 16 * p.rid.toNat + p.cmd.code.toNat := by
  have htid := h.tid
  have hrid := h.rid
  show (p.tid <<< 24 ||| p.rid <<< 16 ||| p.cmd.code).toNat = _
  rw [UInt32.toNat_or, UInt32.toNat_or, toNat_shiftLeft_24, toNat_shiftLeft_16,
    or_eq_add (k := 24) (Nat.dvd_mul_right ..) (by omega),
    or_eq_add (k := 16) (by omega) p.cmd.code_lt]
  omega

/-- The size that 16 bits hold. -/
def Parms.truncated (p : Parms) : Request := { p.request with size := p.size &&& 0xffff }

/-- What the MFC decodes. -/
theorem decode_regs (h : p.InRange) : p.regs.decode = p.truncated := by
  have hst := toNat_sizeTag h
  have hcc := toNat_classIdCmd h
  have htag := h.tag
  have htid := h.tid
  have hrid := h.rid
  have hcode := p.cmd.code_lt
  have hsize : p.regs.sizeTag >>> 16 = p.size &&& 0xffff := by
    apply UInt32.toNat_inj.mp
    rw [toNat_shiftRight_16, toNat_and_ffff]
    omega
  have htag : p.regs.sizeTag &&& 0xffff = p.tag := by
    apply UInt32.toNat_inj.mp
    rw [toNat_and_ffff]
    omega
  have htid : p.regs.classIdCmd >>> 24 = p.tid := by
    apply UInt32.toNat_inj.mp
    rw [toNat_shiftRight_24]
    omega
  have hrid : (p.regs.classIdCmd >>> 16) &&& 0xff = p.rid := by
    apply UInt32.toNat_inj.mp
    rw [toNat_and_ff, toNat_shiftRight_16]
    omega
  have hcmd : p.regs.classIdCmd &&& 0xffff = p.cmd.code := by
    apply UInt32.toNat_inj.mp
    rw [toNat_and_ffff]
    omega
  unfold CmdRegs.decode
  rw [hsize, htag, htid, hrid, hcmd]
  show (⟨p.lsa, _, _, _, _, _, _⟩ : Request) = _
  rw [show p.regs.eah = (p.ea >>> 32).toUInt32 from rfl, show p.regs.eal = p.ea.toUInt32 from rfl,
    ea_halves]
  rfl

/-- What spufs decodes. -/
theorem decode_parm (h : p.InRange) : p.parm.decode = p.truncated := by
  have hclass : p.parm.class_.toNat = 2 ^ 8 * p.tid.toNat + p.rid.toNat := by
    have htid := h.tid
    have hrid := h.rid
    show (p.tid <<< 8 ||| p.rid).toUInt16.toNat = _
    rw [UInt32.toNat_toUInt16, UInt32.toNat_or, toNat_shiftLeft_8,
      or_eq_add (Nat.dvd_mul_right ..) (by omega)]
    omega
  have htag := h.tag
  have htid := h.tid
  have hrid := h.rid
  have hcode := p.cmd.code_lt
  have hsize : p.size.toUInt16.toUInt32 = p.size &&& 0xffff := by
    apply UInt32.toNat_inj.mp
    rw [UInt16.toNat_toUInt32, UInt32.toNat_toUInt16, toNat_and_ffff]
  have htag : p.tag.toUInt16.toUInt32 = p.tag := by
    apply UInt32.toNat_inj.mp
    rw [UInt16.toNat_toUInt32, UInt32.toNat_toUInt16]
    omega
  have htid : (p.parm.class_ >>> 8).toUInt32 = p.tid := by
    apply UInt32.toNat_inj.mp
    rw [UInt16.toNat_toUInt32, UInt16.toNat_shiftRight]
    show p.parm.class_.toNat >>> 8 = _
    rw [Nat.shiftRight_eq_div_pow]
    omega
  have hrid : (p.parm.class_ &&& 0xff).toUInt32 = p.rid := by
    apply UInt32.toNat_inj.mp
    rw [UInt16.toNat_toUInt32, UInt16.toNat_and]
    show p.parm.class_.toNat &&& (2 ^ 8 - 1) = _
    rw [Nat.and_two_pow_sub_one_eq_mod]
    omega
  have hcmd : p.cmd.code.toUInt16.toUInt32 = p.cmd.code := by
    apply UInt32.toNat_inj.mp
    rw [UInt16.toNat_toUInt32, UInt32.toNat_toUInt16]
    omega
  unfold MfcCommandParameterArea.decode
  rw [htid, hrid]
  show (⟨p.lsa, p.ea, p.size.toUInt16.toUInt32, p.tag.toUInt16.toUInt32, _, _,
    p.cmd.code.toUInt16.toUInt32⟩ : Request) = _
  rw [hsize, htag, hcmd]
  rfl

/-- 16 bits hold the size exactly if it is less than `2 ^ 16`. -/
theorem truncated_eq_iff : p.truncated = p.request ↔ p.size < 0x10000 := by
  have hsize : p.size &&& 0xffff = p.size ↔ p.size < 0x10000 := by
    rw [← UInt32.toNat_inj, toNat_and_ffff, UInt32.lt_iff_toNat_lt]
    show p.size.toNat % 2 ^ 16 = _ ↔ p.size.toNat < 2 ^ 16
    omega
  rw [← hsize]
  constructor
  · intro h
    exact congrArg Request.size h
  · intro h
    unfold Parms.truncated
    rw [h]
    rfl

/-! ## What leaves the library -/

variable {r : CmdRegs} {tr tr₁ tr₂ : List (Sigma Ans)}

/-- The command registers after an access. -/
def CmdRegs.after (r : CmdRegs) : Cmd → CmdRegs
  | .writeLSA v => { r with lsa := v }
  | .writeEAH v => { r with eah := v }
  | .writeEAL v => { r with eal := v }
  | .writeSizeTag v => { r with sizeTag := v }
  | .writeClassIdCmd v => { r with classIdCmd := v }
  | _ => r

/-- The register contents that the MFC latches in a trace, from `r` on. -/
def latched (r : CmdRegs) : List (Sigma Ans) → List CmdRegs
  | [] => []
  | ⟨.writeClassIdCmd v, _⟩ :: tr => { r with classIdCmd := v } :: latched { r with classIdCmd := v } tr
  | ⟨c, _⟩ :: tr => latched (r.after c) tr

/-- The writes of the `mfc` file and their results. -/
def fileWrites (tr : List (Sigma Ans)) : List (MfcCommandParameterArea × Int) :=
  tr.filterMap fun
    | ⟨.writeFile _ parm, n⟩ => some (parm, n)
    | _ => none

/-- The ranges of local store, as address and size, that are copied from or to. -/
def copies (tr : List (Sigma Ans)) : List (UInt32 × UInt32) :=
  tr.filterMap fun
    | ⟨.copyFromLs _ src size, _⟩ => some (src, size)
    | ⟨.copyToLs dst _ size, _⟩ => some (dst, size)
    | _ => none

theorem latched_append :
    latched r (tr₁ ++ tr₂) = latched r tr₁ ++ latched (tr₁.foldl (fun r e => r.after e.1) r) tr₂ := by
  induction tr₁ generalizing r with
  | nil => rfl
  | cons e tr ih =>
    obtain ⟨c, a⟩ := e
    cases c with
    | writeClassIdCmd v => exact congrArg (_ :: ·) ih
    | _ => exact ih

@[simp] theorem fileWrites_append : fileWrites (tr₁ ++ tr₂) = fileWrites tr₁ ++ fileWrites tr₂ :=
  List.filterMap_append ..

@[simp] theorem copies_append : copies (tr₁ ++ tr₂) = copies tr₁ ++ copies tr₂ :=
  List.filterMap_append ..

/-- The MFC is given the command of a call `n` times, and nothing else happens to a command. -/
structure Latches (p : Parms) (n : Nat) (tr : List (Sigma Ans)) : Prop where
  latched : ∀ r, latched r tr = List.replicate n p.regs
  fileWrites : fileWrites tr = []
  copies : copies tr = []

theorem Latches.append {m n : Nat} (h₁ : Latches p m tr₁) (h₂ : Latches p n tr₂) :
    Latches p (m + n) (tr₁ ++ tr₂) where
  latched r := by rw [latched_append, h₁.latched, h₂.latched, List.replicate_append_replicate]
  fileWrites := by rw [fileWrites_append, h₁.fileWrites, h₂.fileWrites, List.append_nil]
  copies := by rw [copies_append, h₁.copies, h₂.copies, List.append_nil]

/-- One round of the five writes. -/
theorem latches_round {a : UInt32} {status : UInt32} : Latches p 1
    [⟨.writeLSA p.lsa, ()⟩, ⟨.writeEAH (p.ea >>> 32).toUInt32, ()⟩, ⟨.writeEAL p.ea.toUInt32, ()⟩,
      ⟨.writeSizeTag ((p.size <<< 16) ||| p.tag), ()⟩,
      ⟨.writeClassIdCmd ((p.tid <<< 24) ||| (p.rid <<< 16) ||| p.cmd.code), a⟩,
      ⟨.readCmdStatus, status⟩] :=
  ⟨fun _ => rfl, rfl, rfl⟩

theorem enqueue_latches (h : (enqueue p).Ends tr ()) : ∃ n, Latches p (n + 1) tr := by
  have hround {tr : List (Sigma Ans)} {x : Unit ⊕ Unit} (h : Prog.Ends (do
      perform (.writeLSA p.lsa)
      perform (.writeEAH (p.ea >>> 32).toUInt32)
      perform (.writeEAL p.ea.toUInt32)
      perform (.writeSizeTag ((p.size <<< 16) ||| p.tag))
      let _ ← perform (.writeClassIdCmd ((p.tid <<< 24) ||| (p.rid <<< 16) ||| p.cmd.code))
      let ret ← perform .readCmdStatus
      return if ret &&& 3 ≠ 0 then (.inl () : Unit ⊕ Unit) else .inr ()) tr x) : Latches p 1 tr := by
    obtain ⟨_, _, rfl, h₁⟩ := h.perform
    obtain ⟨_, _, rfl, h₂⟩ := h₁.perform
    obtain ⟨_, _, rfl, h₃⟩ := h₂.perform
    obtain ⟨_, _, rfl, h₄⟩ := h₃.perform
    obtain ⟨a, _, rfl, h₅⟩ := h₄.perform
    obtain ⟨status, _, rfl, h₆⟩ := h₅.perform
    obtain ⟨rfl, -⟩ := Prog.ends_ret.mp h₆
    exact latches_round
  refine Prog.Ends.repeats_rule (J := fun _ tr => ∃ n, Latches p n tr)
    (Q := fun tr _ => ∃ n, Latches p (n + 1) tr) h
    (show ∃ n, Latches p n [] from ⟨0, fun _ => rfl, rfl, rfl⟩) ?_ ?_
  · intro _ tr₀ tr _ hJ hbody
    obtain ⟨n, hn⟩ := hJ
    exact ⟨n + 1, hn.append (hround hbody)⟩
  · intro _ tr₀ tr _ hJ hbody
    obtain ⟨n, hn⟩ := hJ
    exact ⟨n, hn.append (hround hbody)⟩

theorem waitForQueue_latches (h : waitForQueue.Ends tr ()) : Latches p 0 tr := by
  have hround {tr : List (Sigma Ans)} {x : Unit ⊕ Unit} (h : Prog.Ends (do
      let q ← perform .readQStatus
      return if q &&& 0xffff = 0 then (.inl () : Unit ⊕ Unit) else .inr ()) tr x) : Latches p 0 tr := by
    obtain ⟨_, _, rfl, hret⟩ := h.perform
    obtain ⟨rfl, -⟩ := Prog.ends_ret.mp hret
    exact ⟨fun _ => rfl, rfl, rfl⟩
  refine Prog.Ends.repeats_rule (J := fun _ tr => Latches p 0 tr)
    (Q := fun tr _ => Latches p 0 tr) h (show Latches p 0 [] from ⟨fun _ => rfl, rfl, rfl⟩) ?_ ?_
  · intro _ tr₀ tr _ hJ hbody
    exact hJ.append (hround hbody)
  · intro _ tr₀ tr _ hJ hbody
    exact hJ.append (hround hbody)

theorem issueMapped_latches {ret : Int} (h : (issueMapped p).Ends tr ret) :
    ret = 0 ∧ ∃ n, Latches p (n + 1) tr := by
  obtain ⟨_, _, rfl, h₁⟩ := h.perform
  obtain ⟨active, _, rfl, h₂⟩ := h₁.perform
  obtain ⟨_, _, rfl, h₃⟩ := h₂.perform
  obtain ⟨tr₁, _, _, rfl, hwait, h₄⟩ := Prog.ends_bind.mp h₃
  obtain ⟨tr₂, _, _, rfl, henqueue, h₅⟩ := Prog.ends_bind.mp h₄
  obtain ⟨_, _, rfl, h₆⟩ := h₅.perform
  obtain ⟨_, _, rfl, h₇⟩ := h₆.perform
  obtain ⟨rfl, rfl⟩ := Prog.ends_ret.mp h₇
  obtain ⟨n, hn⟩ := enqueue_latches henqueue
  refine ⟨rfl, n, ?_⟩
  have hlock : Latches p 0 [⟨.lock, ()⟩, ⟨.loadActive, active⟩,
      ⟨.storeActive (active ||| tagBit p.tag), ()⟩] := ⟨fun _ => rfl, rfl, rfl⟩
  have hunlock : Latches p 0 [⟨.noteIssued p, ()⟩, ⟨.unlock, ()⟩] := ⟨fun _ => rfl, rfl, rfl⟩
  have hall := hlock.append ((waitForQueue_latches hwait).append (hn.append hunlock))
  rw [Nat.zero_add, Nat.zero_add] at hall
  exact hall

/-! ## One call -/

/-- What `issue_mfc_command` can do: its exchange and its result. -/
inductive Issued (spe : Context) (p : Parms) : List (Sigma Ans) → Int → Prop
  | refused (h : p.Refused) : Issued spe p [⟨.setErrno .EINVAL, ()⟩] (-1)
  | mapped {tr : List (Sigma Ans)} {n : Nat} (h : ¬ p.Refused) (hps : spe.mapPs) (hn : Latches p (n + 1) tr) :
      Issued spe p tr 0
  | file {fd : Fd} {n : Int} (h : ¬ p.Refused) (hps : spe.mapPs = false) (hfd : fd ≠ -1) :
      Issued spe p [⟨.openIfClosed .mfc, fd⟩, ⟨.writeFile fd p.parm, n⟩] (if n < 0 then -1 else 0)
  | unsupported (h : ¬ p.Refused) (hps : spe.mapPs = false) :
      Issued spe p [⟨.openIfClosed .mfc, (-1 : Int)⟩] 1

theorem issueMfcCommand_of_ok {spe : Context} (h : ¬ p.Refused) :
    issueMfcCommand spe p = if spe.mapPs then issueMapped p else issueFile p := if_neg h

theorem issueMfcCommand_issued {spe : Context} {ret : Int} (h : (issueMfcCommand spe p).Ends tr ret) :
    Issued spe p tr ret := by
  unfold issueMfcCommand at h
  split at h
  · next hrefused =>
    obtain ⟨_, _, rfl, hret⟩ := h.perform
    obtain ⟨rfl, rfl⟩ := Prog.ends_ret.mp hret
    exact .refused hrefused
  · next hok =>
    split at h
    · next hps =>
      obtain ⟨rfl, n, hn⟩ := issueMapped_latches h
      exact .mapped hok hps hn
    · next hps =>
      have hps : spe.mapPs = false := Bool.eq_false_iff.mpr hps
      obtain ⟨fd, _, rfl, h₁⟩ := h.perform
      split at h₁
      · next hfd =>
        obtain ⟨n, _, rfl, h₂⟩ := h₁.perform
        obtain ⟨rfl, rfl⟩ := Prog.ends_ret.mp h₂
        exact .file hok hps hfd
      · next hfd =>
        obtain rfl : fd = -1 := Decidable.of_not_not hfd
        obtain ⟨rfl, rfl⟩ := Prog.ends_ret.mp h₁
        exact .unsupported hok hps

/-- The call with these arguments, `cmd` saying which one it is. -/
def Parms.call (a : Parms) (spe : Context) : Code Int :=
  match a.cmd with
  | .put => baseSpeMfcioPut spe a.lsa a.ea a.size a.tag a.tid a.rid
  | .putb => baseSpeMfcioPutb spe a.lsa a.ea a.size a.tag a.tid a.rid
  | .putf => baseSpeMfcioPutf spe a.lsa a.ea a.size a.tag a.tid a.rid
  | .get => baseSpeMfcioGet spe a.lsa a.ea a.size a.tag a.tid a.rid
  | .getb => baseSpeMfcioGetb spe a.lsa a.ea a.size a.tag a.tid a.rid
  | .getf => baseSpeMfcioGetf spe a.lsa a.ea a.size a.tag a.tid a.rid

/-- What the call passes on to `issue_mfc_command`. -/
def Parms.passed (a : Parms) : Parms := { a with tid := if a.cmd = .getb then a.rid else a.tid }

/-- The copy that stands in for a DMA. -/
def Parms.copy (a : Parms) : Sigma Ans :=
  match a.cmd with
  | .put | .putb | .putf => ⟨.copyFromLs a.ea a.lsa a.size, ()⟩
  | .get | .getb | .getf => ⟨.copyToLs a.lsa a.ea a.size, ()⟩

theorem copies_copy {a : Parms} : copies [a.copy] = [(a.lsa, a.size)] := by
  unfold Parms.copy
  split <;> exact rfl

/-- What a call can do. -/
inductive Called (spe : Context) (a : Parms) : List (Sigma Ans) → Int → Prop
  | issued {tr : List (Sigma Ans)} {ret : Int} (h : Issued spe a.passed tr ret) (hret : ret ≤ 0) :
      Called spe a tr ret
  | copied (h : ¬ a.passed.Refused) (hps : spe.mapPs = false) (hmem : spe.memMapped) :
      Called spe a [⟨.openIfClosed .mfc, (-1 : Int)⟩, a.copy] 0
  | failed (h : ¬ a.passed.Refused) (hps : spe.mapPs = false) (hmem : spe.memMapped = false) :
      Called spe a [⟨.openIfClosed .mfc, (-1 : Int)⟩, ⟨.setErrno .EINVAL, ()⟩] (-1)

variable {spe : Context} {a : Parms} {ret : Int}

/-- What `spe_do_mfc_put` and `spe_do_mfc_get` do. -/
theorem called_of_ends (copy : Code Int) (hc : ∀ tr ret, copy.Ends tr ret → tr = [a.copy] ∧ ret = 0)
    (h : Prog.Ends (do
      let ret ← issueMfcCommand spe a.passed
      if ret ≤ 0 then return ret
      else if spe.memMapped then copy
      else
        perform (.setErrno .EINVAL)
        return -1) tr ret) : Called spe a tr ret := by
  obtain ⟨tr₁, tr₂, ret₁, rfl, hissue, hrest⟩ := Prog.ends_bind.mp h
  have hissued := issueMfcCommand_issued hissue
  split at hrest
  · next hret =>
    obtain ⟨rfl, rfl⟩ := Prog.ends_ret.mp hrest
    rw [List.append_nil]
    exact .issued hissued hret
  · next hret =>
    cases hissued with
    | refused | mapped => exact absurd (by decide) hret
    | file => exact absurd (by split <;> decide) hret
    | unsupported hok hps =>
      split at hrest
      · next hmem =>
        obtain ⟨rfl, rfl⟩ := hc _ _ hrest
        exact .copied hok hps hmem
      · next hmem =>
        obtain ⟨_, _, rfl, hfail⟩ := hrest.perform
        obtain ⟨rfl, rfl⟩ := Prog.ends_ret.mp hfail
        exact .failed hok hps (Bool.eq_false_iff.mpr hmem)

theorem call_called (h : (a.call spe).Ends tr ret) : Called spe a tr ret := by
  have hcopy {c : Cmd} (hk : ∀ x, (⟨c, x⟩ : Sigma Ans) = a.copy) (tr : List (Sigma Ans)) (ret : Int)
      (h : ((perform c).bind fun _ => .ret 0 : Code Int).Ends tr ret) : tr = [a.copy] ∧ ret = 0 := by
    obtain ⟨x, _, rfl, hret⟩ := h.perform
    obtain ⟨rfl, rfl⟩ := Prog.ends_ret.mp hret
    exact ⟨by rw [hk], rfl⟩
  obtain ⟨lsa, ea, size, tag, tid, rid, cmd⟩ := a
  cases cmd with
  | put | putb | putf =>
    exact called_of_ends ((perform (.copyFromLs ea lsa size)).bind fun _ => .ret 0)
      (hcopy fun _ => rfl) h
  | get | getb | getf =>
    exact called_of_ends ((perform (.copyToLs lsa ea size)).bind fun _ => .ret 0)
      (hcopy fun _ => rfl) h

/-- A call whose command is issued returns what that returned. -/
theorem call_issued (h : (issueMfcCommand spe a.passed).Ends tr ret) (hret : ret ≤ 0) :
    (a.call spe).Ends tr ret := by
  have hbind (copy : Code Int) : Prog.Ends (do
      let ret ← issueMfcCommand spe a.passed
      if ret ≤ 0 then return ret
      else if spe.memMapped then copy
      else
        perform (.setErrno .EINVAL)
        return -1) tr ret := by
    refine Prog.ends_bind.mpr ⟨tr, [], ret, (List.append_nil _).symm, h, ?_⟩
    rw [if_pos hret]
    exact .ret
  obtain ⟨lsa, ea, size, tag, tid, rid, cmd⟩ := a
  cases cmd with
  | put | putb | putf => exact hbind ((perform (.copyFromLs ea lsa size)).bind fun _ => .ret 0)
  | get | getb | getf => exact hbind ((perform (.copyToLs lsa ea size)).bind fun _ => .ret 0)

theorem call_copied (h : ¬ a.passed.Refused) (hps : spe.mapPs = false) (hmem : spe.memMapped) :
    (a.call spe).Ends [⟨.openIfClosed .mfc, (-1 : Int)⟩, a.copy] 0 := by
  have hissue : (issueMfcCommand spe a.passed).Ends [⟨.openIfClosed .mfc, (-1 : Int)⟩] 1 := by
    rw [issueMfcCommand_of_ok h, if_neg (by rw [hps]; decide)]
    exact .cmd .ret
  have hbind (copy : Code Int) (hc : copy.Ends [a.copy] 0) : Prog.Ends (do
      let ret ← issueMfcCommand spe a.passed
      if ret ≤ 0 then return ret
      else if spe.memMapped then copy
      else
        perform (.setErrno .EINVAL)
        return -1) [⟨.openIfClosed .mfc, (-1 : Int)⟩, a.copy] 0 := by
    refine Prog.ends_bind.mpr ⟨_, [a.copy], 1, rfl, hissue, ?_⟩
    rw [if_neg (by decide), if_pos hmem]
    exact hc
  obtain ⟨lsa, ea, size, tag, tid, rid, cmd⟩ := a
  cases cmd with
  | put | putb | putf =>
    exact hbind ((perform (.copyFromLs ea lsa size)).bind fun _ => .ret 0) (.cmd .ret)
  | get | getb | getf =>
    exact hbind ((perform (.copyToLs lsa ea size)).bind fun _ => .ret 0) (.cmd .ret)

/-! ## Results -/

/-- All requests of a trace, as they are decoded; `r` is what the registers held before it. -/
def requests (r : CmdRegs) (tr : List (Sigma Ans)) : List Request :=
  (latched r tr).map CmdRegs.decode ++ (fileWrites tr).map fun w => w.1.decode

/-- The call takes the `memcpy` path where the file opens as `fd`. -/
def Context.Copies (spe : Context) (fd : Fd) : Prop := spe.mapPs = false ∧ fd = -1

/-- Every opening of a file in the trace gives `fd`. -/
def OpensAs (fd : Fd) (tr : List (Sigma Ans)) : Prop := ∀ d f, ⟨.openIfClosed d, f⟩ ∈ tr → f = fd

/-- A command that passes the check can reach the MFC, or spufs. -/
theorem exists_request (h : ¬ a.passed.Refused) {fd : Fd} (hfd : ¬ spe.Copies fd) :
    ∃ tr, (a.call spe).Ends tr 0 ∧ OpensAs fd tr ∧ copies tr = [] := by
  by_cases hps : spe.mapPs
  · have hissue : (issueMfcCommand spe a.passed).Ends (issueTrace a.passed 0) 0 := by
      rw [issueMfcCommand_of_ok h, if_pos hps]
      exact issueMapped_ends a.passed 0
    obtain ⟨-, n, hn⟩ := issueMapped_latches (issueMapped_ends a.passed 0)
    refine ⟨_, call_issued hissue (Int.le_refl 0), ?_, hn.copies⟩
    simp [OpensAs, issueTrace, enqueueTrace]
  · have hfd : fd ≠ -1 := fun hno => hfd ⟨Bool.eq_false_iff.mpr hps, hno⟩
    have hissue : (issueMfcCommand spe a.passed).Ends
        [⟨.openIfClosed .mfc, fd⟩, ⟨.writeFile fd a.passed.parm, (32 : Int)⟩] 0 := by
      rw [issueMfcCommand_of_ok h, if_neg hps]
      refine .cmd ?_
      rw [Prog.ret_bind, if_pos hfd]
      exact .cmd .ret
    refine ⟨_, call_issued hissue (Int.le_refl 0), ?_, rfl⟩
    simp [OpensAs]

theorem Latches.requests {n : Nat} (h : Latches p n tr) :
    requests r tr = List.replicate n p.regs.decode := by
  unfold Dma.requests
  rw [h.latched, h.fileWrites, List.map_replicate]
  exact List.append_nil _

/-- Every request of a call that passes the check has its fields, with 16 bits of the size. -/
theorem Called.truncated (h : Called spe a tr ret) (hok : ¬ a.passed.Refused) :
    ∀ q ∈ requests r tr, q = a.passed.truncated := by
  have hrange := Parms.inRange hok
  intro q hq
  cases h with
  | issued h hret =>
    cases h with
    | refused h => exact absurd h hok
    | mapped _ _ hn =>
      rw [hn.requests, decode_regs hrange] at hq
      exact List.eq_of_mem_replicate hq
    | file =>
      obtain rfl := List.mem_singleton.mp hq
      exact decode_parm hrange
    | unsupported => exact absurd hret (by decide)
  | copied =>
    unfold requests Parms.copy at hq
    split at hq <;> exact absurd hq List.not_mem_nil
  | failed => exact absurd hq List.not_mem_nil

/-- What is handed to the MFC or to spufs is the request of the call. -/
structure Encoded (a : Parms) (tr : List (Sigma Ans)) (ret : Int) : Prop where
  exact : ∀ r, ∀ q ∈ requests r tr, q = a.request
  handed : ret = 0 → copies tr = [] → ∀ r, requests r tr ≠ []

/-- What is expected of the call with these arguments. -/
structure Parms.Encodes (a : Parms) (spe : Context) : Prop where
  exact : a.size < 0x10000 → ¬ a.Refused → ∀ tr ret, (a.call spe).Ends tr ret → Encoded a tr ret
  refused : a.Refused → ∀ tr ret, (a.call spe).Ends tr ret → tr = [⟨.setErrno .EINVAL, ()⟩] ∧ ret = -1

/-- A command that is not refused is handed over, unless it is copied. -/
theorem Called.handed (h : Called spe a tr ret) (hret : ret = 0) (hcopies : copies tr = []) :
    requests r tr ≠ [] := by
  cases h with
  | issued h hle =>
    cases h with
    | refused => exact absurd hret (by decide)
    | mapped _ _ hn =>
      rw [hn.requests]
      exact List.cons_ne_nil _ _
    | file => exact List.cons_ne_nil _ _
    | unsupported => exact absurd hle (by decide)
  | copied =>
    have hcopy : copies [a.copy] = [] := hcopies
    rw [copies_copy] at hcopy
    cases hcopy
  | failed => exact absurd hret (by decide)

theorem Called.refused (h : Called spe a tr ret) (hrefused : a.passed.Refused) :
    tr = [⟨.setErrno .EINVAL, ()⟩] ∧ ret = -1 := by
  cases h with
  | issued h hle =>
    cases h with
    | refused => exact ⟨rfl, rfl⟩
    | mapped hok | file hok | unsupported hok => exact absurd hrefused hok
  | copied hok | failed hok => exact absurd hrefused hok

/-- **The encoding of DMA commands**, on both paths and for all arguments: what is decoded from the command
registers, or from what is written to the file, is the operation with its own arguments, and what is out
of range is refused, unless `getb` is called with a `tid` that is not the `rid`. -/
theorem mfcio_encoding (spe : Context) (a : Parms) : a.Encodes spe ↔
    (a.cmd = .getb → a.tid = a.rid ∨ a.tag > 0x0f ∨ a.rid > 0xff ∨ a.size ≥ 0x10000 ∧ a.tid ≤ 0xff) := by
  constructor
  · intro h hgetb
    by_contra hno
    obtain ⟨htid, hno⟩ := not_or.mp hno
    obtain ⟨htag, hno⟩ := not_or.mp hno
    obtain ⟨hrid, hsize⟩ := not_or.mp hno
    have hok : ¬ a.passed.Refused := by
      show ¬ (a.tag > 0x0f ∨ (if a.cmd = .getb then a.rid else a.tid) > 0xff ∨ a.rid > 0xff)
      rw [if_pos hgetb]
      exact not_or.mpr ⟨htag, not_or.mpr ⟨hrid, hrid⟩⟩
    have hopen : ¬ spe.Copies 3 := fun h => absurd h.2 (by decide)
    obtain ⟨tr, hends, -, hcopies⟩ := exists_request hok hopen
    have hhanded := (call_called hends).handed (r := ⟨0, 0, 0, 0, 0⟩) rfl hcopies
    by_cases hrefused : a.Refused
    · obtain ⟨rfl, -⟩ := h.refused hrefused tr 0 hends
      exact hhanded rfl
    · have htid' : a.tid ≤ 0xff := UInt32.not_lt.mp (not_or.mp (not_or.mp hrefused).2).1
      have hsize' : a.size < 0x10000 := UInt32.not_le.mp fun hle => hsize ⟨hle, htid'⟩
      obtain ⟨q, hq⟩ := List.exists_mem_of_ne_nil _ hhanded
      have hown := (h.exact hsize' hrefused tr 0 hends).exact _ q hq
      have hpassed := (call_called hends).truncated hok q hq
      have heq : a.tid = if a.cmd = .getb then a.rid else a.tid :=
        congrArg Request.tid (hown.symm.trans hpassed)
      rw [if_pos hgetb] at heq
      exact htid heq
  · intro h
    have hpassed (htid : a.cmd = .getb → a.tid = a.rid) : a.passed = a := by
      have hsame : (if a.cmd = .getb then a.rid else a.tid) = a.tid := by
        split
        · next hgetb => exact (htid hgetb).symm
        · rfl
      unfold Parms.passed
      rw [hsame]
    constructor
    · intro hsize hok tr ret hends
      have hown : a.passed = a := hpassed fun hgetb => by
        rcases h hgetb with htid | htag | hrid | ⟨hle, -⟩
        · exact htid
        · exact absurd (.inl htag) hok
        · exact absurd (.inr (.inr hrid)) hok
        · exact absurd hsize (UInt32.not_lt.mpr hle)
      have hcalled := call_called hends
      refine ⟨fun r q hq => ?_, fun hret hcopies r => hcalled.handed hret hcopies⟩
      rw [hcalled.truncated (by rw [hown]; exact hok) q hq, hown]
      exact truncated_eq_iff.mpr hsize
    · intro hrefused tr ret hends
      refine (call_called hends).refused ?_
      by_cases hgetb : a.cmd = .getb
      · rcases h hgetb with htid | htag | hrid | ⟨-, hle⟩
        · rw [hpassed fun _ => htid]
          exact hrefused
        · exact .inl htag
        · exact .inr (.inr hrid)
        · rcases hrefused with htag | htid | hrid
          · exact .inl htag
          · exact absurd htid (UInt32.not_lt.mpr hle)
          · exact .inr (.inr hrid)
      · rw [hpassed fun hno => absurd hno hgetb]
        exact hrefused

/-- A `getb` with `tid` 1 and `rid` 2: the MFC is asked for 2 and 2. -/
theorem getb_loses_tid : (∃ tr, (baseSpeMfcioGetb mapped 0 0 16 1 1 2).Ends tr 0 ∧
      requests ⟨0, 0, 0, 0, 0⟩ tr = [⟨0, 0, 16, 1, 2, 2, 0x41⟩]) ∧
    ¬ (⟨0, 0, 16, 1, 1, 2, .getb⟩ : Parms).Encodes mapped := by
  have hends : (baseSpeMfcioGetb mapped 0 0 16 1 1 2).Ends (issueTrace ⟨0, 0, 16, 1, 2, 2, .getb⟩ 0) 0 :=
    call_issued (a := ⟨0, 0, 16, 1, 1, 2, .getb⟩) (issueMapped_ends _ 0) (Int.le_refl 0)
  have hrequests : requests ⟨0, 0, 0, 0, 0⟩ (issueTrace ⟨0, 0, 16, 1, 2, 2, .getb⟩ 0) =
    [⟨0, 0, 16, 1, 2, 2, 0x41⟩] := by decide
  refine ⟨⟨_, hends, hrequests⟩, fun h => ?_⟩
  have hexact := (h.exact (by decide) (by decide) _ _ hends).exact ⟨0, 0, 0, 0, 0⟩
  rw [hrequests] at hexact
  exact absurd (hexact _ List.mem_cons_self) (by decide)

/-! ## Sizes and addresses -/

/-- A range of local store: its address and size. -/
abbrev LsRange := UInt32 × UInt32

def Request.range (q : Request) : LsRange := (q.lsa, q.size)

def Parms.range (a : Parms) : LsRange := (a.lsa, a.size)

/-- Each of its bytes is in local store. -/
def LsRange.InLs (x : LsRange) : Prop := ∀ i < x.2.toNat, x.1.toNat + i < lsSize

/-- The transfers that a trace has asked for, with the `mfc` file where the write succeeded, and those that
the library has made itself. -/
def transfers (r : CmdRegs) (tr : List (Sigma Ans)) : List LsRange :=
  (latched r tr).map (fun q => q.decode.range) ++
    ((fileWrites tr).filter (fun w => 0 ≤ w.2)).map (fun w => w.1.decode.range) ++ copies tr

/-- A call fails with nothing transferred, or it transfers all of its range, inside local store, and nothing
else; its tag is not touched. -/
structure Faithful (a : Parms) (tr : List (Sigma Ans)) (ret : Int) : Prop where
  failed : ret ≠ 0 → ∀ r, transfers r tr = []
  made : ret = 0 → ∀ r, transfers r tr ≠ []
  exact : ∀ r, ∀ x ∈ transfers r tr, x = a.range ∧ x.InLs
  tag : ∀ r, ∀ q ∈ requests r tr, q.tag = a.tag

/-- The size and the address are those that the path of the call can carry. -/
def Parms.Fits (a : Parms) (spe : Context) (fd : Fd) : Prop :=
  a.range.InLs ∧ (spe.Copies fd ∨ a.size < 0x10000)

/-- The range that 16 bits of the size describe. -/
theorem truncated_range_eq_iff : a.passed.truncated.range = a.range ↔ a.size < 0x10000 := by
  rw [← truncated_eq_iff]
  constructor
  · intro h
    have hsize : a.size &&& 0xffff = a.size := congrArg Prod.snd h
    unfold Parms.truncated
    rw [hsize]
    rfl
  · intro h
    have hsize : a.size &&& 0xffff = a.size := congrArg Request.size h
    show (a.lsa, a.size &&& 0xffff) = _
    rw [hsize]
    rfl

theorem Latches.transfers {n : Nat} (h : Latches p n tr) :
    transfers r tr = List.replicate n p.regs.decode.range := by
  unfold Dma.transfers
  rw [h.latched, h.fileWrites, h.copies, List.map_replicate]
  simp

/-- What a call transfers, on each path. -/
inductive Moves (spe : Context) (a : Parms) (fd : Fd) (tr : List (Sigma Ans)) : Int → Prop
  | nothing {ret : Int} (hret : ret ≠ 0) (h : ∀ r, transfers r tr = []) : Moves spe a fd tr ret
  | command {n : Nat} (hfd : ¬ spe.Copies fd)
      (h : ∀ r, transfers r tr = List.replicate (n + 1) a.passed.truncated.range) : Moves spe a fd tr 0
  | copy (hfd : spe.Copies fd) (hmem : spe.memMapped) (h : ∀ r, transfers r tr = [a.range]) :
      Moves spe a fd tr 0

/-- A write of the file. -/
theorem transfers_file {f : Fd} {n : Int} (hok : ¬ p.Refused) :
    transfers r [⟨.openIfClosed .mfc, f⟩, ⟨.writeFile f p.parm, n⟩] =
      if 0 ≤ n then [p.truncated.range] else [] := by
  have hdecode := decode_parm (Parms.inRange hok)
  show [] ++ (([(p.parm, n)].filter fun w => 0 ≤ w.2).map fun w => w.1.decode.range) ++ [] = _
  rw [List.nil_append, List.append_nil, List.filter_cons]
  by_cases hn : 0 ≤ n
  · rw [if_pos (by simpa using hn), if_pos hn, ← hdecode]
    rfl
  · rw [if_neg (by simpa using hn), if_neg hn]
    rfl

/-- A copy in place of a command. -/
theorem transfers_copied : transfers r [⟨.openIfClosed .mfc, (-1 : Int)⟩, a.copy] = [a.range] := by
  have hcopies := copies_copy (a := a)
  unfold Parms.copy at hcopies ⊢
  split at hcopies <;> exact hcopies

theorem Called.moves {fd : Fd} (h : Called spe a tr ret) (hfd : OpensAs fd tr) :
    Moves spe a fd tr ret := by
  cases h with
  | issued h hle =>
    cases h with
    | refused => exact .nothing (by decide) fun _ => rfl
    | @mapped _ n hok hps hn =>
      refine .command (n := n) (fun hno => absurd (hps.symm.trans hno.1) (by decide)) fun r => ?_
      rw [hn.transfers, decode_regs (Parms.inRange hok)]
    | @file f n hok hps hf =>
      obtain rfl : f = fd := hfd .mfc f List.mem_cons_self
      by_cases hn : n < 0
      · rw [if_pos hn]
        refine .nothing (by decide) fun r => ?_
        rw [transfers_file hok, if_neg (Int.not_le.mpr hn)]
      · rw [if_neg hn]
        refine .command (n := 0) (fun hno => hf hno.2) fun r => ?_
        rw [transfers_file hok, if_pos (Int.not_lt.mp hn)]
        rfl
    | unsupported => exact absurd hle (by decide)
  | copied hok hps hmem =>
    obtain rfl : (-1 : Int) = fd := hfd .mfc (-1) List.mem_cons_self
    exact .copy ⟨hps, rfl⟩ hmem fun r => transfers_copied
  | failed => exact .nothing (by decide) fun _ => rfl

/-- The tag of a call is not touched. -/
theorem Called.tag (h : Called spe a tr ret) : ∀ r, ∀ q ∈ requests r tr, q.tag = a.tag := by
  intro r q hq
  by_cases hrefused : a.passed.Refused
  · obtain ⟨rfl, -⟩ := h.refused hrefused
    exact absurd hq List.not_mem_nil
  · rw [h.truncated hrefused q hq]
    rfl

/-- **Sizes and addresses**, on every path and for all arguments: a call never transfers anything but its own
range, inside local store, exactly if it is refused, has nothing to copy from, or is given a range in local
store whose size has 16 bits where it is a command. -/
theorem mfcio_size (spe : Context) (fd : Fd) (a : Parms) :
    (∀ tr ret, (a.call spe).Ends tr ret → OpensAs fd tr → Faithful a tr ret) ↔
      a.passed.Refused ∨ spe.Copies fd ∧ spe.memMapped = false ∨ a.Fits spe fd := by
  constructor
  · intro h
    by_cases hrefused : a.passed.Refused
    · exact .inl hrefused
    refine .inr ?_
    by_cases hcopies : spe.Copies fd
    · by_cases hmem : spe.memMapped
      · have hfaithful := h _ 0 (call_copied hrefused hcopies.1 hmem) (by
          obtain ⟨-, rfl⟩ := hcopies
          unfold Parms.copy OpensAs
          split <;> simp)
        have hexact := hfaithful.exact ⟨0, 0, 0, 0, 0⟩ a.range (by
          rw [transfers_copied]
          exact List.mem_cons_self)
        exact .inr ⟨hexact.2, .inl hcopies⟩
      · exact .inl ⟨hcopies, Bool.eq_false_iff.mpr hmem⟩
    · obtain ⟨tr, hends, hopens, -⟩ := exists_request hrefused hcopies
      have hfaithful := h tr 0 hends hopens
      refine .inr ?_
      cases (call_called hends).moves hopens with
      | nothing hret => exact absurd rfl hret
      | command _ hcommand =>
        have hexact := hfaithful.exact ⟨0, 0, 0, 0, 0⟩ a.passed.truncated.range (by
          rw [hcommand]
          exact List.mem_replicate.mpr ⟨Nat.succ_ne_zero _, rfl⟩)
        have hsize := truncated_range_eq_iff.mp hexact.1
        rw [hexact.1] at hexact
        exact ⟨hexact.2, .inr hsize⟩
      | copy hcopy => exact absurd hcopy hcopies
  · intro h tr ret hends hopens
    have hcalled := call_called hends
    rcases h with hrefused | ⟨hcopies, hmem⟩ | ⟨hin, hfits⟩
    · obtain ⟨rfl, rfl⟩ := hcalled.refused hrefused
      exact ⟨fun _ _ => rfl, fun hret => absurd hret (by decide), fun _ x hx => absurd hx List.not_mem_nil,
        hcalled.tag⟩
    · cases hcalled.moves hopens with
      | nothing hret hnone =>
        refine ⟨fun _ => hnone, fun hzero => absurd hzero hret, fun r x hx => ?_, hcalled.tag⟩
        rw [hnone] at hx
        exact absurd hx List.not_mem_nil
      | command hfd => exact absurd hcopies hfd
      | copy _ hmapped => exact absurd (hmem.symm.trans hmapped) (by decide)
    · cases hcalled.moves hopens with
      | nothing hret hnone =>
        refine ⟨fun _ => hnone, fun hzero => absurd hzero hret, fun r x hx => ?_, hcalled.tag⟩
        rw [hnone] at hx
        exact absurd hx List.not_mem_nil
      | command hfd hcommand =>
        have hrange := truncated_range_eq_iff.mpr (hfits.resolve_left hfd)
        refine ⟨fun hno => absurd rfl hno, fun _ r => ?_, fun r x hx => ?_, hcalled.tag⟩
        · rw [hcommand]
          exact List.cons_ne_nil _ _
        · rw [hcommand, hrange] at hx
          obtain rfl := List.eq_of_mem_replicate hx
          exact ⟨rfl, hin⟩
      | copy _ _ hcopy =>
        refine ⟨fun hno => absurd rfl hno, fun _ r => ?_, fun r x hx => ?_, hcalled.tag⟩
        · rw [hcopy]
          exact List.cons_ne_nil _ _
        · rw [hcopy] at hx
          obtain rfl := List.mem_singleton.mp hx
          exact ⟨rfl, hin⟩

/-- Two calls of `put`: one for `0x10010` bytes, for which the MFC is asked for 16, and one for 16 bytes
behind the end of local store. -/
theorem put_changes_size : (∃ tr, (baseSpeMfcioPut mapped 0 0 0x10010 1 0 0).Ends tr 0 ∧
      transfers ⟨0, 0, 0, 0, 0⟩ tr = [(0, 16)]) ∧
    (∃ tr, (baseSpeMfcioPut mapped 0x40000 0 16 1 0 0).Ends tr 0 ∧
      transfers ⟨0, 0, 0, 0, 0⟩ tr = [(0x40000, 16)]) ∧
    ¬ (∀ spe a tr ret, (Parms.call a spe).Ends tr ret → Faithful a tr ret) := by
  have hsize : (baseSpeMfcioPut mapped 0 0 0x10010 1 0 0).Ends
      (issueTrace ⟨0, 0, 0x10010, 1, 0, 0, .put⟩ 0) 0 :=
    call_issued (a := ⟨0, 0, 0x10010, 1, 0, 0, .put⟩) (issueMapped_ends _ 0) (Int.le_refl 0)
  have hbehind : (baseSpeMfcioPut mapped 0x40000 0 16 1 0 0).Ends
      (issueTrace ⟨0x40000, 0, 16, 1, 0, 0, .put⟩ 0) 0 :=
    call_issued (a := ⟨0x40000, 0, 16, 1, 0, 0, .put⟩) (issueMapped_ends _ 0) (Int.le_refl 0)
  have htransfers : transfers ⟨0, 0, 0, 0, 0⟩ (issueTrace ⟨0, 0, 0x10010, 1, 0, 0, .put⟩ 0) = [(0, 16)] := by
    decide
  refine ⟨⟨_, hsize, htransfers⟩, ⟨_, hbehind, by decide⟩, fun h => ?_⟩
  have hexact := (h mapped ⟨0, 0, 0x10010, 1, 0, 0, .put⟩ _ _ hsize).exact ⟨0, 0, 0, 0, 0⟩
  rw [htransfers] at hexact
  exact absurd (hexact _ List.mem_cons_self).1 (by decide)

end LibSpe2.Dma
