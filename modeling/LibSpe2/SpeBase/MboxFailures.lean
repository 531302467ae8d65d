import LibSpe2.SpeBase.MboxBehavior

/-!
# Mailbox calls that fail

A read, a write or a `poll` may fail at any point of a call. Its caller learns of the words that had been
moved before only from what the call returns.

* `Failing`, `WholeWords` — what the kernel may answer; `FailsMidway` — a failure behind the first word.
* `Outcome` — a call is refused, moves words without a failure, or ends at its first one.

Main result:
* `mbox_failures` — a call reports what it moved exactly if nothing fails midway, and only
  `SPE_MBOX_ALL_BLOCKING` lets something fail midway.
-/

namespace LibSpe2

open Conc (Prog)

/-! ## Failures and whole words -/

/-- A read, a write or a `poll` that fails. -/
def Failing : Sigma Ans → Prop
  | ⟨.write _ _, .error _⟩ => True
  | ⟨.read _ _, .error _⟩ => True
  | ⟨.poll _, .error _⟩ => True
  | _ => False

/-- Files transfer whole words, and no more than they are asked for. -/
def WholeWords : Sigma Ans → Prop
  | ⟨.write _ bytes, .ok n⟩ => 4 ∣ n ∧ n ≤ bytes.length
  | ⟨.read _ n, .ok bytes⟩ => 4 ∣ bytes.length ∧ bytes.length ≤ n
  | _ => True

/-- The bytes that a trace has moved to or from a mailbox. -/
def bytesMoved (tr : List (Sigma Ans)) : Nat := (bytesSent tr).length + (bytesGot tr).length

/-- The words that a trace has moved. -/
def wordsMoved (tr : List (Sigma Ans)) : Nat := bytesMoved tr / 4

/-- Something fails after a word has been moved. -/
def FailsMidway (tr : List (Sigma Ans)) : Prop :=
  ∃ tr₁ e tr₂, tr = tr₁ ++ e :: tr₂ ∧ Failing e ∧ 0 < wordsMoved tr₁

/-- The result `r` of a call says what it has moved. -/
structure Reported (tr : List (Sigma Ans)) (r : Int) : Prop where
  ret : r = -1 ∨ 0 ≤ r
  failed : r = -1 → wordsMoved tr = 0
  moved : 0 ≤ r → wordsMoved tr = r

variable {c : Spe} {d : FdName} {tr tr₁ tr₂ : List (Sigma Ans)} {e : Sigma Ans} {m n r : Int}

theorem bytesMoved_append : bytesMoved (tr₁ ++ tr₂) = bytesMoved tr₁ + bytesMoved tr₂ := by
  unfold bytesMoved
  rw [bytesSent_append, bytesGot_append, List.length_append, List.length_append]
  omega

theorem Failing.bytesMoved (h : Failing e) : bytesMoved [e] = 0 := by
  obtain ⟨cmd, a⟩ := e
  cases cmd with
  | write fd bytes => cases a with
    | ok n => exact h.elim
    | error e => rfl
  | read fd n => cases a with
    | ok bytes => exact h.elim
    | error e => rfl
  | poll fd => rfl
  | _ => exact h.elim

/-- The trace moves `n` words, and nothing fails in it. -/
structure Moves (tr : List (Sigma Ans)) (n : Int) : Prop where
  ok : ∀ e ∈ tr, ¬ Failing e
  bytes : (bytesMoved tr : Int) = 4 * n

theorem Moves.append (h₁ : Moves tr₁ m) (h₂ : Moves tr₂ n) : Moves (tr₁ ++ tr₂) (m + n) := by
  refine ⟨List.forall_mem_append.mpr ⟨h₁.ok, h₂.ok⟩, ?_⟩
  have hbytes₁ := h₁.bytes
  have hbytes₂ := h₂.bytes
  rw [bytesMoved_append]
  push_cast
  omega

theorem Moves.nil : Moves [] 0 := ⟨fun _ he => absurd he List.not_mem_nil, rfl⟩

theorem Moves.wordsMoved (h : Moves tr n) : (wordsMoved tr : Int) = n := by
  have hbytes := h.bytes
  unfold LibSpe2.wordsMoved
  omega

/-! ## Outcomes -/

/-- How a call ends: refused, without a failure, or at its first failure, which is behind a word only if
`mid`. The result of the latter is `-1`, or `0` where it is an `EAGAIN`. -/
inductive Outcome (mid : Prop) : List (Sigma Ans) → Int → Prop
  | refused {tr : List (Sigma Ans)} (h : Moves tr 0) : Outcome mid tr (-1)
  | moved {tr : List (Sigma Ans)} {r : Int} (h : Moves tr r) (hr : 0 ≤ r) : Outcome mid tr r
  | failed {tr₁ tr₂ : List (Sigma Ans)} {e : Sigma Ans} {n r : Int} (h₁ : Moves tr₁ n) (he : Failing e)
      (h₂ : Moves tr₂ 0) (hmid : n = 0 ∨ mid) (hr : r = -1 ∨ r = 0 ∧ n = 0) :
      Outcome mid (tr₁ ++ e :: tr₂) r

/-- There is one failure to split a trace at. -/
theorem Moves.split_unique {tr₁' tr₂' : List (Sigma Ans)} {e' : Sigma Ans} (h₁ : Moves tr₁ m)
    (h₂ : Moves tr₂ n) (he' : Failing e') (heq : tr₁ ++ e :: tr₂ = tr₁' ++ e' :: tr₂') : tr₁' = tr₁ := by
  rcases List.append_eq_append_iff.mp heq with ⟨as, rfl, htail⟩ | ⟨as, rfl, htail⟩
  · cases as with
    | nil => exact List.append_nil tr₁
    | cons a as =>
      obtain ⟨-, rfl⟩ := List.cons.inj htail
      exact absurd he' (h₂.ok e' (List.mem_append_right _ List.mem_cons_self))
  · cases as with
    | nil => exact (List.append_nil tr₁').symm
    | cons a as =>
      obtain ⟨rfl, -⟩ := List.cons.inj htail
      exact absurd he' (h₁.ok e' (List.mem_append_right _ List.mem_cons_self))

theorem Moves.not_failsMidway (h : Moves tr n) : ¬ FailsMidway tr := by
  rintro ⟨tr₁, e, tr₂, rfl, he, -⟩
  exact h.ok e (List.mem_append_right _ List.mem_cons_self) he

theorem failsMidway_iff (h₁ : Moves tr₁ n) (he : Failing e) (h₂ : Moves tr₂ 0) :
    FailsMidway (tr₁ ++ e :: tr₂) ↔ n ≠ 0 := by
  have hwords := h₁.wordsMoved
  constructor
  · rintro ⟨tr₁', e', tr₂', heq, he', hpos⟩
    obtain rfl := h₁.split_unique h₂ he' heq
    omega
  · intro hn
    exact ⟨tr₁, e, tr₂, rfl, he, by omega⟩

theorem wordsMoved_failed (h₁ : Moves tr₁ n) (he : Failing e) (h₂ : Moves tr₂ 0) :
    (wordsMoved (tr₁ ++ e :: tr₂) : Int) = n := by
  have hbytes₁ := h₁.bytes
  have hbytes₂ := h₂.bytes
  have hnone := he.bytesMoved
  have hcons : bytesMoved ([e] ++ tr₂) = bytesMoved [e] + bytesMoved tr₂ := bytesMoved_append
  rw [List.singleton_append] at hcons
  unfold wordsMoved
  rw [bytesMoved_append, hcons, hnone]
  omega

theorem Outcome.failsMidway {mid : Prop} (h : Outcome mid tr r) (hfails : FailsMidway tr) : mid := by
  cases h with
  | refused h | moved h => exact absurd hfails h.not_failsMidway
  | failed h₁ he h₂ hmid => exact hmid.resolve_left ((failsMidway_iff h₁ he h₂).mp hfails)

theorem Outcome.reported_iff {mid : Prop} (h : Outcome mid tr r) : Reported tr r ↔ ¬ FailsMidway tr := by
  cases h with
  | refused h =>
    have hwords := h.wordsMoved
    exact iff_of_true ⟨.inl rfl, fun _ => by omega, fun hno => absurd hno (by decide)⟩ h.not_failsMidway
  | moved h hr =>
    exact iff_of_true ⟨.inr hr, fun hfailed => by omega, fun _ => h.wordsMoved⟩ h.not_failsMidway
  | failed h₁ he h₂ hmid hr =>
    have hwords := wordsMoved_failed h₁ he h₂
    have hnonneg := h₁.wordsMoved
    rw [failsMidway_iff h₁ he h₂, not_not]
    constructor
    · intro h
      rcases hr with hfailed | ⟨-, hn⟩
      · have hzero := h.failed hfailed
        omega
      · exact hn
    · intro hn
      refine ⟨hr.imp id fun h => Int.le_of_eq h.1.symm, fun _ => by omega, fun hr₀ => ?_⟩
      rcases hr with hfailed | ⟨hr, -⟩ <;> omega

theorem Outcome.imp {mid mid' : Prop} (h : Outcome mid tr r) (himp : mid → mid') : Outcome mid' tr r := by
  cases h with
  | refused h => exact .refused h
  | moved h hr => exact .moved h hr
  | failed h₁ he h₂ hmid hr => exact .failed h₁ he h₂ (hmid.imp id himp) hr

/-! ## Steps -/

/-- The commands that are no transfer and cannot fail in the sense of `Failing`. -/
def Cmd.NoIo : Cmd → Prop
  | .read _ _ | .write _ _ | .poll _ => False
  | _ => True

theorem Cmd.NoIo.not_failing {cmd : Cmd} (h : cmd.NoIo) (a : Ans cmd) : ¬ Failing ⟨cmd, a⟩ := by
  cases cmd with
  | read | write | poll => exact h.elim
  | _ => exact id

theorem Cmd.NoIo.bytesGot {cmd : Cmd} (h : cmd.NoIo) (a : Ans cmd) : bytesGot [⟨cmd, a⟩] = [] := by
  cases cmd with
  | read => exact h.elim
  | _ => rfl

theorem not_failing_of_noIo (h : ∀ e ∈ tr, e.1.NoIo) : ∀ e ∈ tr, ¬ Failing e :=
  fun e he => (h e he).not_failing e.2

theorem bytesGot_of_noIo (h : ∀ e ∈ tr, e.1.NoIo) : bytesGot tr = [] := by
  induction tr with
  | nil => rfl
  | cons e tr ih =>
    obtain ⟨he, htr⟩ := List.forall_mem_cons.mp h
    show bytesGot ([e] ++ tr) = []
    rw [bytesGot_append, he.bytesGot e.2, ih htr]
    rfl

/-- A trace without transfers. -/
theorem Moves.of_idle (hidle : Idle tr) (h : ∀ e ∈ tr, ¬ Failing e) : Moves tr 0 := by
  refine ⟨h, ?_⟩
  unfold bytesMoved
  rw [hidle.bytesSent, hidle.bytesGot]
  rfl

theorem open_moves {fd : Fd} (h : (baseSpeOpenIfClosed c d false).Ends tr fd) : Moves tr 0 := by
  have hall : (baseSpeOpenIfClosed c d false).All Cmd.NoIo := by
    show (do
      baseSpeContextLock c d
      _ : Sys Fd).All _
    repeat' first
      | trivial
      | refine .bind (.perform trivial) fun _ => ?_
      | split
  exact .of_idle (baseSpeOpenIfClosed_idle h) (not_failing_of_noIo (hall.ends h))

/-- A command in front of a call that is no transfer. -/
theorem Outcome.cons {mid : Prop} {cmd : Cmd} {a : Ans cmd} (h : Outcome mid tr r) (hio : cmd.NoIo)
    (hmoves : cmd.Moveless) : Outcome mid (⟨cmd, a⟩ :: tr) r := by
  have hcmd : Moves [⟨cmd, a⟩] 0 :=
    .of_idle (.single hmoves a) (List.forall_mem_singleton.mpr (hio.not_failing a))
  cases h with
  | refused h => exact .refused (hcmd.append h)
  | moved h hr =>
    have hall := hcmd.append h
    rw [Int.zero_add] at hall
    exact .moved hall hr
  | failed h₁ he h₂ hmid hr =>
    have hall := hcmd.append h₁
    rw [Int.zero_add] at hall
    exact .failed hall he h₂ hmid hr

/-- A call that is refused. -/
theorem fail_outcome {mid : Prop} {errno : Errno} (h : (fail errno).Ends tr r) : Outcome mid tr r := by
  obtain ⟨_, _, rfl, hret⟩ := h.perform
  obtain ⟨rfl, rfl⟩ := Prog.ends_ret.mp hret
  exact .refused ⟨List.forall_mem_singleton.mpr id, rfl⟩

/-! ## Transfers of a file -/

/-- A write of a file. -/
theorem write_moves {fd : Fd} {bytes : List UInt8} {k : Nat} (h : WholeWords ⟨.write fd bytes, .ok k⟩) :
    Moves [⟨.write fd bytes, .ok k⟩] (k / 4) := by
  obtain ⟨hdvd, hle⟩ := h
  refine ⟨List.forall_mem_singleton.mpr id, ?_⟩
  have hsent : bytesSent [⟨.write fd bytes, .ok k⟩] = bytes.take k := List.append_nil _
  unfold bytesMoved
  rw [hsent, List.length_take, Nat.min_eq_left hle]
  show ((k + 0 : Nat) : Int) = _
  omega

/-- A read of a file. -/
theorem read_moves {fd : Fd} {bytes : List UInt8} {k : Nat} (h : WholeWords ⟨.read fd k, .ok bytes⟩) :
    Moves [⟨.read fd k, .ok bytes⟩] (bytes.length / 4) := by
  obtain ⟨hdvd, -⟩ := h
  refine ⟨List.forall_mem_singleton.mpr id, ?_⟩
  have hgot : bytesGot [⟨.read fd k, .ok bytes⟩] = bytes := List.append_nil _
  unfold bytesMoved
  rw [hgot]
  show ((0 + bytes.length : Nat) : Int) = _
  omega

/-- How the transfers of a file end: with `total` bytes, or at their first failure. -/
inductive FileOutcome (mid : Prop) (tr : List (Sigma Ans)) : Option Int → Prop
  | moved {k : Int} (h : Moves tr k) (hk : 0 ≤ k) : FileOutcome mid tr (some (4 * k))
  | failed {tr₁ : List (Sigma Ans)} {e : Sigma Ans} {k : Int} (htr : tr = tr₁ ++ [e]) (h₁ : Moves tr₁ k)
      (he : Failing e) (hmid : k = 0 ∨ mid) : FileOutcome mid tr none

/-- The invariant of a loop over a file, `total` bytes from its beginning. -/
abbrev FileLoop (total : Int) (tr : List (Sigma Ans)) : Prop :=
  (∀ e ∈ tr, WholeWords e) → ∃ k, total = 4 * k ∧ Moves tr k ∧ 0 ≤ k

theorem FileLoop.step {total : Int} {k : Nat} (h : FileLoop total tr) (hopen : Moves tr₁ 0)
    (hmoves : WholeWords e → Moves [e] (k / 4)) (hdvd : WholeWords e → 4 ∣ k) :
    FileLoop (total + k) (tr ++ (tr₁ ++ [e])) := by
  intro hok
  obtain ⟨hok₀, hok₁⟩ := List.forall_mem_append.mp hok
  have he := hok₁ e (List.mem_append_right _ List.mem_cons_self)
  obtain ⟨n, rfl, hn, h₀⟩ := h hok₀
  obtain ⟨m, rfl⟩ := hdvd he
  have hall := hn.append (hopen.append (hmoves he))
  have hdiv : ((4 * m : Nat) : Int) / 4 = m := by omega
  rw [hdiv, Int.zero_add] at hall
  exact ⟨n + m, by push_cast; omega, hall, by omega⟩

/-- A failure of the file is a failure of the call. -/
theorem FileOutcome.fail {mid : Prop} {errno : Errno} (h : FileOutcome mid tr none)
    (hfail : (LibSpe2.fail errno).Ends tr₂ r) : Outcome mid (tr ++ tr₂) r := by
  cases h with
  | failed htr h₁ he hmid =>
    obtain ⟨_, _, rfl, hret⟩ := hfail.perform
    obtain ⟨rfl, rfl⟩ := Prog.ends_ret.mp hret
    have herrno : Moves [⟨.setErrno errno, ()⟩] 0 := ⟨List.forall_mem_singleton.mpr id, rfl⟩
    rw [htr, List.append_assoc]
    exact .failed h₁ he herrno hmid (.inl rfl)

/-- An `EAGAIN` of a file that does not block is no failure of the call. -/
theorem FileOutcome.again (h : FileOutcome False tr none) :
    Outcome False (tr ++ [⟨.setErrno .zero, ()⟩]) 0 := by
  cases h with
  | failed htr h₁ he hmid =>
    have herrno : Moves [⟨.setErrno .zero, ()⟩] 0 := ⟨List.forall_mem_singleton.mpr id, rfl⟩
    obtain rfl := hmid.resolve_right id
    rw [htr, List.append_assoc]
    exact .failed h₁ he herrno (.inl rfl) (.inr ⟨rfl, rfl⟩)

/-- The words that the bytes of a file make. -/
theorem FileOutcome.tdiv {mid : Prop} {total : Int} (h : FileOutcome mid tr (some total)) :
    Outcome mid tr (total.tdiv 4) := by
  generalize hx : some total = x at h
  cases h with
  | moved hk h₀ =>
    obtain rfl := Option.some.inj hx
    rw [Int.mul_tdiv_cancel_left _ (by decide)]
    exact .moved hk h₀
  | failed => cases hx

/-! ## The inbound mailbox -/

theorem storeWords_noIo (k : Nat) (aux sent : List Word) : (storeWords c k aux sent).All Cmd.NoIo := by
  induction k generalizing aux sent with
  | zero => trivial
  | succ k ih => exact .bind (.perform trivial) fun _ => ih _ _

theorem writePs_moves {mboxData : List Word} {count rc : Int}
    (h : (baseSpeInMboxWritePs c mboxData count).Ends tr rc) : Moves tr rc ∧ 0 ≤ rc := by
  have hall : (baseSpeInMboxWritePs c mboxData count).All Cmd.NoIo := by
    refine .bind (.perform trivial) fun _ => .bind (Prog.all_repeats.mpr fun x => ?_) fun _ =>
      .bind (.perform trivial) fun _ => .bind (.perform trivial) fun _ => trivial
    dsimp only
    split
    · refine .bind (.perform trivial) fun _ => ?_
      split
      · trivial
      · exact .bind (storeWords_noIo _ _ _) fun _ => trivial
    · trivial
  have hcall := inMboxWritePs_call h
  have hret := hcall.ret
  refine ⟨⟨not_failing_of_noIo (hall.ends h), ?_⟩, by omega⟩
  unfold bytesMoved
  rw [bytesGot_of_noIo (hall.ends h), hcall.bytes, length_encode]
  push_cast
  simp only [List.length_nil]
  omega

/-- A `poll` of the inbound mailbox. -/
theorem pollWbox_outcome {b : Bool} (h : (pollWbox c).Ends tr b) :
    b = true ∧ Moves tr 0 ∨ b = false ∧ ∃ tr₁ e, tr = tr₁ ++ [e] ∧ Moves tr₁ 0 ∧ Failing e := by
  obtain ⟨tr₁, tr₂, fd, rfl, hopen, h₂⟩ := Prog.ends_bind.mp h
  obtain ⟨x, tr₃, rfl, h₃⟩ := h₂.perform
  have hmoves := open_moves hopen
  cases x with
  | ok n =>
    obtain ⟨rfl, rfl⟩ := Prog.ends_ret.mp h₃
    refine .inl ⟨rfl, ?_⟩
    have hpoll : Moves [⟨.poll fd, .ok n⟩] 0 := ⟨List.forall_mem_singleton.mpr id, rfl⟩
    exact hmoves.append hpoll
  | error e =>
    obtain ⟨rfl, rfl⟩ := Prog.ends_ret.mp h₃
    exact .inr ⟨rfl, tr₁, _, rfl, hmoves, trivial⟩

theorem writeAllPs_outcome {mboxData : List Word} {count : Int}
    (h : (inMboxWriteAllPs c mboxData count).Ends tr r) : Outcome True tr r := by
  refine Prog.Ends.repeats_rule (J := fun total tr => Moves tr total ∧ 0 ≤ total)
    (Q := fun tr r => Outcome True tr r) h (show Moves [] 0 ∧ _ from ⟨.nil, Int.le_refl 0⟩) ?_ ?_
  · rintro total tr₀ tr total' ⟨hmoves, h₀⟩ hbody
    obtain ⟨trc, trw, n, rfl, hcall, hrest⟩ := Prog.ends_bind.mp hbody
    obtain ⟨hn, hn₀⟩ := writePs_moves hcall
    dsimp only at hrest
    split at hrest
    · obtain ⟨trp, trr, b, rfl, hpoll, hret⟩ := Prog.ends_bind.mp hrest
      rcases pollWbox_outcome hpoll with ⟨rfl, hp⟩ | ⟨rfl, -⟩
      · obtain ⟨rfl, heq⟩ := Prog.ends_ret.mp hret
        obtain rfl := Sum.inl.inj heq
        have hall := hmoves.append (hn.append hp)
        rw [List.append_nil]
        rw [Int.add_zero] at hall
        exact ⟨hall, by omega⟩
      · cases hret
    · cases hrest
  · rintro total tr₀ tr r ⟨hmoves, h₀⟩ hbody
    obtain ⟨trc, trw, n, rfl, hcall, hrest⟩ := Prog.ends_bind.mp hbody
    obtain ⟨hn, hn₀⟩ := writePs_moves hcall
    have hall := hmoves.append hn
    rw [← List.append_assoc]
    dsimp only at hrest
    split at hrest
    · obtain ⟨trp, trr, b, rfl, hpoll, hret⟩ := Prog.ends_bind.mp hrest
      rcases pollWbox_outcome hpoll with ⟨rfl, -⟩ | ⟨rfl, tr₁, e, rfl, hp, he⟩
      · cases hret
      · obtain ⟨rfl, heq⟩ := Prog.ends_ret.mp hret
        obtain rfl := Sum.inr.inj heq
        rw [List.append_nil, ← List.append_assoc]
        exact .failed (hall.append hp) he .nil (.inr trivial) (.inl rfl)
    · obtain ⟨rfl, heq⟩ := Prog.ends_ret.mp hrest
      obtain rfl := Sum.inr.inj heq
      rw [List.append_nil]
      exact .moved hall (by omega)

theorem writeAnyPs_outcome {mboxData : List Word} {count : Int}
    (h : (inMboxWriteAnyPs c mboxData count).Ends tr r) : Outcome False tr r := by
  refine Prog.Ends.repeats_rule (J := fun _ tr => Moves tr 0)
    (Q := fun tr r => Outcome False tr r) h (show Moves [] 0 from .nil) ?_ ?_
  · intro _ tr₀ tr _ hmoves hbody
    obtain ⟨trc, trw, n, rfl, hcall, hrest⟩ := Prog.ends_bind.mp hbody
    obtain ⟨hn, -⟩ := writePs_moves hcall
    split at hrest
    · next hzero =>
      obtain rfl : n = 0 := hzero
      obtain ⟨trp, trr, b, rfl, hpoll, hret⟩ := Prog.ends_bind.mp hrest
      rcases pollWbox_outcome hpoll with ⟨rfl, hp⟩ | ⟨rfl, -⟩
      · obtain ⟨rfl, -⟩ := Prog.ends_ret.mp hret
        rw [List.append_nil]
        exact hmoves.append (hn.append hp)
      · cases hret
    · cases hrest
  · intro _ tr₀ tr r hmoves hbody
    obtain ⟨trc, trw, n, rfl, hcall, hrest⟩ := Prog.ends_bind.mp hbody
    obtain ⟨hn, hn₀⟩ := writePs_moves hcall
    have hall := hmoves.append hn
    rw [Int.zero_add] at hall
    rw [← List.append_assoc]
    split at hrest
    · next hzero =>
      obtain ⟨trp, trr, b, rfl, hpoll, hret⟩ := Prog.ends_bind.mp hrest
      rcases pollWbox_outcome hpoll with ⟨rfl, -⟩ | ⟨rfl, tr₁, e, rfl, hp, he⟩
      · cases hret
      · obtain ⟨rfl, heq⟩ := Prog.ends_ret.mp hret
        obtain rfl := Sum.inr.inj heq
        rw [List.append_nil, ← List.append_assoc]
        exact .failed (hall.append hp) he .nil (.inl (by omega)) (.inl rfl)
    · obtain ⟨rfl, heq⟩ := Prog.ends_ret.mp hrest
      obtain rfl := Sum.inr.inj heq
      rw [List.append_nil]
      exact .moved hall hn₀

theorem writeAllFile_outcome {mboxData : List Word} {count : Int} {x : Option Int}
    (h : (inMboxWriteAllFile c mboxData count).Ends tr x) (hok : ∀ e ∈ tr, WholeWords e) :
    FileOutcome True tr (x.map (4 * ·)) := by
  refine Prog.Ends.repeats_rule (J := FileLoop)
    (Q := fun tr x => (∀ e ∈ tr, WholeWords e) → FileOutcome True tr (x.map (4 * ·))) h
    (show FileLoop 0 [] from fun _ => ⟨0, rfl, .nil, Int.le_refl 0⟩) ?_ ?_ hok
  · intro total tr₀ tr total' hJ hbody
    split at hbody
    · obtain ⟨tr₁, tr₂, fd, rfl, hopen, hwrite⟩ := Prog.ends_bind.mp hbody
      obtain ⟨y, tr₃, rfl, hret⟩ := hwrite.perform
      cases y with
      | error e => cases hret
      | ok n =>
        obtain ⟨rfl, heq⟩ := Prog.ends_ret.mp hret
        obtain rfl := Sum.inl.inj heq
        exact hJ.step (open_moves hopen) write_moves fun h => h.1
    · cases hbody
  · intro total tr₀ tr x hJ hbody hok
    obtain ⟨k, rfl, hk, h₀⟩ := hJ (List.forall_mem_append.mp hok).1
    split at hbody
    · obtain ⟨tr₁, tr₂, fd, rfl, hopen, hwrite⟩ := Prog.ends_bind.mp hbody
      obtain ⟨y, tr₃, rfl, hret⟩ := hwrite.perform
      cases y with
      | ok n => cases hret
      | error e =>
        obtain ⟨rfl, heq⟩ := Prog.ends_ret.mp hret
        obtain rfl := Sum.inr.inj heq
        refine .failed (List.append_assoc ..).symm (hk.append (open_moves hopen)) trivial (.inr trivial)
    · obtain ⟨rfl, heq⟩ := Prog.ends_ret.mp hbody
      obtain rfl := Sum.inr.inj heq
      rw [List.append_nil, Int.mul_tdiv_cancel_left _ (by decide)]
      exact .moved hk h₀

/-- One write of a file, whatever it fails with. -/
theorem writeFile_outcome {mboxData : List Word} {count : Int} {x : Except Errno Int}
    (h : (inMboxWriteFile c d mboxData count).Ends tr x) (hok : ∀ e ∈ tr, WholeWords e) :
    FileOutcome False tr (x.toOption.map (4 * ·)) := by
  obtain ⟨tr₁, tr₂, fd, rfl, hopen, hwrite⟩ := Prog.ends_bind.mp h
  obtain ⟨y, tr₃, rfl, hret⟩ := hwrite.perform
  have hmoves := open_moves hopen
  have hwhole := hok _ (List.mem_append_right _ List.mem_cons_self)
  cases y with
  | error e =>
    obtain ⟨rfl, rfl⟩ := Prog.ends_ret.mp hret
    exact .failed rfl hmoves trivial (.inl rfl)
  | ok n =>
    obtain ⟨rfl, rfl⟩ := Prog.ends_ret.mp hret
    have hall := hmoves.append (write_moves hwhole)
    rw [Int.zero_add] at hall
    obtain ⟨m, rfl⟩ := hwhole.1
    have hdiv : ((4 * m : Nat) : Int) / 4 = m := by omega
    rw [hdiv] at hall
    have htdiv : ((4 * m : Nat) : Int).tdiv 4 = m := by
      push_cast
      exact Int.mul_tdiv_cancel_left _ (by decide)
    show FileOutcome False _ (some (4 * ((4 * m : Nat) : Int).tdiv 4))
    rw [htdiv]
    exact .moved hall (by omega)

/-- Nothing is left to do behind the transfers of whole words. -/
theorem FileOutcome.outcome {mid : Prop} (h : FileOutcome mid tr (some (4 * n))) : Outcome mid tr n := by
  have htdiv := h.tdiv
  rwa [Int.mul_tdiv_cancel_left _ (by decide)] at htdiv

/-- `_base_spe_in_mbox_write`. -/
theorem inMboxWrite_outcome {mboxData : Option (List Word)} {count behaviorFlag : Int}
    (h : (baseSpeInMboxWrite c mboxData count behaviorFlag).Ends tr r) (hok : ∀ e ∈ tr, WholeWords e) :
    Outcome (behaviorFlag = speMboxAllBlocking) tr r := by
  unfold baseSpeInMboxWrite at h
  cases mboxData with
  | none => exact fail_outcome h
  | some mboxData =>
    dsimp only at h
    split at h
    · exact fail_outcome h
    split at h
    · next hall =>
      obtain ⟨fl, tr', rfl, h₁⟩ := h.perform
      refine Outcome.cons ?_ trivial trivial
      split at h₁
      · exact (writeAllPs_outcome h₁).imp fun _ => hall
      · obtain ⟨tr₁, tr₂, x, rfl, hfile, h₂⟩ := Prog.ends_bind.mp h₁
        have hout := writeAllFile_outcome hfile fun e he => hok e (by simp [he])
        cases x with
        | none => exact (hout.fail h₂).imp fun _ => hall
        | some total =>
          obtain ⟨rfl, rfl⟩ := Prog.ends_ret.mp h₂
          rw [List.append_nil]
          exact hout.outcome.imp fun _ => hall
    split at h
    · obtain ⟨fl, tr', rfl, h₁⟩ := h.perform
      refine Outcome.cons ?_ trivial trivial
      split at h₁
      · exact (writeAnyPs_outcome h₁).imp False.elim
      · obtain ⟨tr₁, tr₂, x, rfl, hfile, h₂⟩ := Prog.ends_bind.mp h₁
        have hout := writeFile_outcome hfile fun e he => hok e (by simp [he])
        cases x with
        | error e => exact (hout.fail h₂).imp False.elim
        | ok total =>
          obtain ⟨rfl, rfl⟩ := Prog.ends_ret.mp h₂
          rw [List.append_nil]
          exact hout.outcome.imp False.elim
    split at h
    · obtain ⟨fl, tr', rfl, h₁⟩ := h.perform
      refine Outcome.cons ?_ trivial trivial
      split at h₁
      · obtain ⟨hmoves, hr⟩ := writePs_moves h₁
        exact .moved hmoves hr
      · obtain ⟨tr₁, tr₂, x, rfl, hfile, h₂⟩ := Prog.ends_bind.mp h₁
        have hout := writeFile_outcome hfile fun e he => hok e (by simp [he])
        rcases x with e | total
        · by_cases he : e = .EAGAIN
          · subst he
            obtain ⟨_, _, rfl, hret⟩ := h₂.perform
            obtain ⟨rfl, rfl⟩ := Prog.ends_ret.mp hret
            exact hout.again.imp False.elim
          · have hfail : (fail Errno.EIO).Ends tr₂ r := by
              cases e <;> first | exact h₂ | exact absurd rfl he
            exact (hout.fail hfail).imp False.elim
        · obtain ⟨rfl, rfl⟩ := Prog.ends_ret.mp h₂
          rw [List.append_nil]
          exact hout.outcome.imp False.elim
    · exact fail_outcome h

/-! ## The outbound interrupt mailbox -/

variable {buf buf' : List UInt8} {count : Int}

theorem readAll_outcome {x : Option Int} (h : (outIntrMboxReadAll c buf count).Ends tr (x, buf'))
    (hok : ∀ e ∈ tr, WholeWords e) : FileOutcome True tr x := by
  refine Prog.Ends.repeats_rule (J := fun x tr => FileLoop x.1 tr)
    (Q := fun tr x => (∀ e ∈ tr, WholeWords e) → FileOutcome True tr x.1) h
    (show FileLoop 0 [] from fun _ => ⟨0, rfl, .nil, Int.le_refl 0⟩) ?_ ?_ hok
  · rintro ⟨total, buf⟩ tr₀ tr ⟨total', buf'⟩ hJ hbody
    dsimp only at hbody
    split at hbody
    · obtain ⟨tr₁, tr₂, fd, rfl, hopen, hread⟩ := Prog.ends_bind.mp hbody
      obtain ⟨y, tr₃, rfl, hret⟩ := hread.perform
      cases y with
      | error e => cases hret
      | ok bytes =>
        obtain ⟨rfl, heq⟩ := Prog.ends_ret.mp hret
        obtain ⟨rfl, rfl⟩ := Prod.mk.inj (Sum.inl.inj heq)
        exact hJ.step (open_moves hopen) read_moves fun h => h.1
    · cases hbody
  · rintro ⟨total, buf⟩ tr₀ tr ⟨x, buf'⟩ hJ hbody hok
    obtain ⟨k, hk, hmoves, h₀⟩ := hJ (List.forall_mem_append.mp hok).1
    dsimp only at hbody hk
    split at hbody
    · obtain ⟨tr₁, tr₂, fd, rfl, hopen, hread⟩ := Prog.ends_bind.mp hbody
      obtain ⟨y, tr₃, rfl, hret⟩ := hread.perform
      cases y with
      | ok bytes => cases hret
      | error e =>
        obtain ⟨rfl, heq⟩ := Prog.ends_ret.mp hret
        obtain ⟨rfl, -⟩ := Prod.mk.inj (Sum.inr.inj heq)
        exact .failed (List.append_assoc ..).symm (hmoves.append (open_moves hopen)) trivial (.inr trivial)
    · obtain ⟨rfl, heq⟩ := Prog.ends_ret.mp hbody
      obtain ⟨rfl, -⟩ := Prod.mk.inj (Sum.inr.inj heq)
      rw [List.append_nil, hk]
      exact .moved hmoves h₀

theorem readOnce_outcome {x : Except Errno Int}
    (h : (outIntrMboxReadOnce c d buf count).Ends tr (x, buf')) (hok : ∀ e ∈ tr, WholeWords e) :
    FileOutcome False tr x.toOption := by
  obtain ⟨tr₁, tr₂, fd, rfl, hopen, hread⟩ := Prog.ends_bind.mp h
  obtain ⟨y, tr₃, rfl, hret⟩ := hread.perform
  have hmoves := open_moves hopen
  have hwhole := hok _ (List.mem_append_right _ List.mem_cons_self)
  cases y with
  | error e =>
    obtain ⟨rfl, heq⟩ := Prog.ends_ret.mp hret
    obtain ⟨rfl, -⟩ := Prod.mk.inj heq
    exact .failed rfl hmoves trivial (.inl rfl)
  | ok bytes =>
    obtain ⟨rfl, heq⟩ := Prog.ends_ret.mp hret
    obtain ⟨rfl, -⟩ := Prod.mk.inj heq
    have hall := hmoves.append (read_moves hwhole)
    rw [Int.zero_add] at hall
    obtain ⟨m, hm⟩ := hwhole.1
    have hdiv : (bytes.length : Int) / 4 = m := by omega
    have hlength : (bytes.length : Int) = 4 * m := by omega
    rw [hdiv] at hall
    show FileOutcome False _ (some (bytes.length : Int))
    rw [hlength]
    exact .moved hall (by omega)

/-- A failure of a call that returns its array too. -/
theorem ends_fail_buf {errno : Errno} (h : Prog.Ends (do return (← fail errno, buf)) tr (r, buf')) :
    (fail errno).Ends tr r := by
  obtain ⟨tr₃, _, rc, rfl, hfail, hret⟩ := Prog.ends_bind.mp h
  obtain ⟨rfl, heq⟩ := Prog.ends_ret.mp hret
  obtain ⟨rfl, -⟩ := Prod.mk.inj heq
  rw [List.append_nil]
  exact hfail

/-- `_base_spe_out_intr_mbox_read`. -/
theorem outIntrMboxRead_outcome {mboxData : Option (List UInt8)} {behaviorFlag : Int}
    (h : (baseSpeOutIntrMboxRead c mboxData count behaviorFlag).Ends tr (r, buf))
    (hok : ∀ e ∈ tr, WholeWords e) : Outcome (behaviorFlag = speMboxAllBlocking) tr r := by
  unfold baseSpeOutIntrMboxRead at h
  cases mboxData with
  | none => exact fail_outcome (ends_fail_buf h)
  | some mboxData =>
    dsimp only at h
    split at h
    · exact fail_outcome (ends_fail_buf h)
    split at h
    · next hall =>
      obtain ⟨tr₁, tr₂, ⟨x, buf₁⟩, rfl, hread, h₁⟩ := Prog.ends_bind.mp h
      have hout := readAll_outcome hread fun e he => hok e (List.mem_append_left _ he)
      cases x with
      | none => exact (hout.fail (ends_fail_buf h₁)).imp fun _ => hall
      | some total =>
        obtain ⟨rfl, heq⟩ := Prog.ends_ret.mp h₁
        obtain ⟨rfl, -⟩ := Prod.mk.inj heq
        rw [List.append_nil]
        exact hout.tdiv.imp fun _ => hall
    split at h
    · obtain ⟨tr₁, tr₂, ⟨x, buf₁⟩, rfl, hread, h₁⟩ := Prog.ends_bind.mp h
      have hout := readOnce_outcome hread fun e he => hok e (List.mem_append_left _ he)
      cases x with
      | error e => exact (hout.fail (ends_fail_buf h₁)).imp False.elim
      | ok total =>
        obtain ⟨rfl, heq⟩ := Prog.ends_ret.mp h₁
        obtain ⟨rfl, -⟩ := Prod.mk.inj heq
        rw [List.append_nil]
        exact hout.tdiv.imp False.elim
    split at h
    · obtain ⟨tr₁, tr₂, ⟨x, buf₁⟩, rfl, hread, h₁⟩ := Prog.ends_bind.mp h
      have hout := readOnce_outcome hread fun e he => hok e (List.mem_append_left _ he)
      cases x with
      | error e =>
        by_cases he : e = .EAGAIN
        · subst he
          obtain ⟨_, _, rfl, hret⟩ := h₁.perform
          obtain ⟨rfl, heq⟩ := Prog.ends_ret.mp hret
          obtain ⟨rfl, -⟩ := Prod.mk.inj heq
          exact hout.again.imp False.elim
        · have hfail : Prog.Ends (do return (← fail Errno.EIO, buf₁)) tr₂ (r, buf) := by
            cases e <;> first | exact h₁ | exact absurd rfl he
          exact (hout.fail (ends_fail_buf hfail)).imp False.elim
      | ok total =>
        obtain ⟨rfl, heq⟩ := Prog.ends_ret.mp h₁
        obtain ⟨rfl, -⟩ := Prod.mk.inj heq
        rw [List.append_nil]
        exact hout.tdiv.imp False.elim
    · exact fail_outcome (ends_fail_buf h)

/-! ## Reports -/

/-- **Failures of mailbox calls.** Whatever the kernel answers in whole words, a call returns `-1` with no word
moved, or the number of words it moved, exactly if nothing fails after the first word; and that is how it is
with every behaviour but `SPE_MBOX_ALL_BLOCKING`. -/
theorem mbox_failures (c : Spe) (count behaviorFlag : Int) :
    (∀ mboxData tr r, (∀ e ∈ tr, WholeWords e) →
      (baseSpeInMboxWrite c mboxData count behaviorFlag).Ends tr r →
        (Reported tr r ↔ ¬ FailsMidway tr) ∧ (FailsMidway tr → behaviorFlag = speMboxAllBlocking)) ∧
    ∀ mboxData tr r buf, (∀ e ∈ tr, WholeWords e) →
      (baseSpeOutIntrMboxRead c mboxData count behaviorFlag).Ends tr (r, buf) →
        (Reported tr r ↔ ¬ FailsMidway tr) ∧ (FailsMidway tr → behaviorFlag = speMboxAllBlocking) := by
  constructor
  · intro mboxData tr r hok h
    have hout := inMboxWrite_outcome h hok
    exact ⟨hout.reported_iff, hout.failsMidway⟩
  · intro mboxData tr r buf hok h
    have hout := outIntrMboxRead_outcome h hok
    exact ⟨hout.reported_iff, hout.failsMidway⟩

theorem mbox_failures_short : Reported shortWriteTrace 2 ↔ ¬ FailsMidway shortWriteTrace := by
  refine ((mbox_failures 0 2 speMboxAllBlocking).1 (some [7, 8]) shortWriteTrace 2 ?_ shortWrite_ends).1
  simp [shortWriteTrace, wboxOpen, WholeWords]

/-- Two words to write, and the second transfer fails. -/
def failedWriteTrace : List (Sigma Ans) :=
  ⟨.flags 0, (0 : UInt32)⟩ :: ((wboxOpen 1 ++ [⟨.write 5 (encode [7, 8]), .ok 4⟩]) ++
    ((wboxOpen 2 ++ [⟨.write 5 (encode [8]), .error Errno.EIO⟩]) ++ []) ++ [⟨.setErrno Errno.EIO, ()⟩])

theorem failedWrite_ends : (baseSpeInMboxWrite 0 (some [7, 8]) 2 speMboxAllBlocking).Ends
    failedWriteTrace (-1) := by
  have hfile : (inMboxWriteAllFile 0 [7, 8] 2).Ends ((wboxOpen 1 ++ [⟨.write 5 (encode [7, 8]), .ok 4⟩]) ++
      ((wboxOpen 2 ++ [⟨.write 5 (encode [8]), .error Errno.EIO⟩]) ++ [])) none := by
    refine Prog.ends_loop.mpr ⟨_, _, .inl 4, rfl, ?_, Prog.ends_loop.mpr ⟨_, _, .inr none, rfl, ?_, .ret⟩⟩
    · exact Prog.ends_bind.mpr ⟨_, _, _, rfl, wboxOpen_ends 1, .cmd .ret⟩
    · exact Prog.ends_bind.mpr ⟨_, _, _, rfl, wboxOpen_ends 2, .cmd .ret⟩
  refine .cmd ?_
  exact (Prog.ends_bind (p := inMboxWriteAllFile 0 [7, 8] 2)).mpr ⟨_, _, none, rfl, hfile, .cmd .ret⟩

/-- The call fails and the SPU has one word. -/
theorem failed_write_moves : (baseSpeInMboxWrite 0 (some [7, 8]) 2 speMboxAllBlocking).Ends
      failedWriteTrace (-1) ∧ (∀ e ∈ failedWriteTrace, WholeWords e) ∧
    wordsMoved failedWriteTrace = 1 ∧ ¬ Reported failedWriteTrace (-1) := by
  refine ⟨failedWrite_ends, ?_, by decide, fun h => absurd (h.failed rfl) (by decide)⟩
  simp [failedWriteTrace, wboxOpen, WholeWords]

end LibSpe2
