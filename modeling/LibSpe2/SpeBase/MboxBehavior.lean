import LibSpe2.SpeBase.MboxWords

/-!
# The behaviours of the mailbox calls

`SPE_MBOX_ALL_BLOCKING` moves all words, `SPE_MBOX_ANY_BLOCKING` at least one, and
`SPE_MBOX_ANY_NONBLOCKING` whatever is possible at once. That holds through the registers and through
the files, however the transfers are split.

## Main result

* `mbox_behaviors` — a call returns how many words it moved, as its behaviour promises, and they are
  the first words of the array.
-/

namespace LibSpe2

open Conc (Prog)

/-! ## Reading into an array -/

section

variable {c : Spe} {d : FdName} {tr tr₁ tr₂ : List (Sigma Ans)} {buf buf₀ bytes : List UInt8}
  {count r : Int} {nb : Bool}

theorem length_overwrite {off : Nat} (h : off + bytes.length ≤ buf.length) :
    (overwrite buf off bytes).length = buf.length := by
  unfold overwrite
  rw [List.length_append, List.length_append, List.length_take, List.length_drop]
  omega

theorem take_overwrite {off : Nat} (h : off ≤ buf.length) :
    (overwrite buf off bytes).take (off + bytes.length) = buf.take off ++ bytes := by
  unfold overwrite
  rw [List.take_append_of_le_length (by rw [List.length_append, List.length_take]; omega)]
  exact List.take_of_length_le (by rw [List.length_append, List.length_take]; omega)

theorem drop_overwrite {off : Nat} (h : off ≤ buf.length) :
    (overwrite buf off bytes).drop (off + bytes.length) = buf.drop (off + bytes.length) := by
  unfold overwrite
  have hlen : (buf.take off ++ bytes).length = off + bytes.length := by
    rw [List.length_append, List.length_take, Nat.min_eq_left h]
  rw [← hlen, List.drop_left]

/-- `r` words have been received into the array, which is untouched behind them. -/
structure Received (buf₀ : List UInt8) (count r : Int) (buf : List UInt8) (tr : List (Sigma Ans)) :
    Prop where
  nonneg : 0 ≤ r
  le : r ≤ count
  bytes : bytesGot tr = buf.take (4 * r.toNat)
  rest : buf.drop (4 * r.toNat) = buf₀.drop (4 * r.toNat)
  length : buf.length = buf₀.length

theorem Received.nil (h₀ : 0 ≤ count) : Received buf₀ count 0 buf₀ [] :=
  ⟨Int.le_refl 0, h₀, rfl, rfl, rfl⟩

theorem Received.idle (h₁ : Received buf₀ count r buf tr₁) (h₂ : Idle tr₂) :
    Received buf₀ count r buf (tr₁ ++ tr₂) :=
  ⟨h₁.nonneg, h₁.le, by rw [bytesGot_append, h₁.bytes, h₂.bytesGot, List.append_nil], h₁.rest,
    h₁.length⟩

/-- A read of a file goes behind what has been received. -/
theorem Received.read {k : Int} {fd : Fd} (h : Received buf₀ count k buf tr)
    (hbuf : 4 * count ≤ buf₀.length)
    (hok : Transfer nb ⟨.read fd (4 * count - 4 * k).toNat, .ok bytes⟩) :
    Received buf₀ count (k + bytes.length / 4) (overwrite buf (4 * k).toNat bytes)
      (tr ++ [⟨.read fd (4 * count - 4 * k).toNat, .ok bytes⟩]) := by
  obtain ⟨⟨m, hm⟩, hlen, -⟩ := hok
  have h₀ := h.nonneg
  have hle := h.le
  have hl := h.length
  have hdiv : ((bytes.length : Int)) / 4 = m := by omega
  have hoff : (4 * k).toNat = 4 * k.toNat := by omega
  have hend : 4 * (k + (m : Int)).toNat = 4 * k.toNat + bytes.length := by omega
  rw [hdiv, hoff]
  refine ⟨by omega, by omega, ?_, ?_, ?_⟩
  · rw [hend, take_overwrite (by omega), ← h.bytes, bytesGot_append]
    exact congrArg _ (List.append_nil _)
  · rw [hend, drop_overwrite (by omega), ← List.drop_drop, h.rest, List.drop_drop]
  · rw [length_overwrite (by omega), h.length]

theorem outIntrMboxReadAll_ends {x : Option Int}
    (h : (outIntrMboxReadAll c buf₀ count).Ends tr (x, buf)) (hpos : 1 ≤ count)
    (hint : 4 * count < 2 ^ 31) (hbuf : 4 * count ≤ buf₀.length)
    (hok : ∀ e ∈ tr, Transfer false e) :
    x = some (4 * count) ∧ Received buf₀ count count buf tr := by
  refine Prog.Ends.repeats_rule
    (J := fun x tr => (∀ e ∈ tr, Transfer false e) →
      ∃ k, x.1 = 4 * k ∧ Received buf₀ count k x.2 tr)
    (Q := fun tr x => (∀ e ∈ tr, Transfer false e) →
      x.1 = some (4 * count) ∧ Received buf₀ count count x.2 tr) h
    (show _ → ∃ k, (0 : Int) = 4 * k ∧ Received buf₀ count k buf₀ [] from
      fun _ => ⟨0, rfl, .nil (by omega)⟩) ?_ ?_ hok
  · rintro ⟨total, buf⟩ tr₀ tr ⟨total', buf'⟩ hJ hbody hok
    obtain ⟨hok₀, hok₁⟩ := List.forall_mem_append.mp hok
    obtain ⟨k, hk, hrec⟩ := hJ hok₀
    dsimp only at hk hrec hbody
    subst hk
    rw [toInt32_four hpos hint] at hbody
    split at hbody
    · obtain ⟨tr₁, tr₂, fd, rfl, hopen, hr⟩ := Prog.ends_bind.mp hbody
      obtain ⟨y, tr₃, rfl, hret⟩ := hr.perform
      cases y with
      | error e => cases hret
      | ok bytes =>
        obtain ⟨rfl, heq⟩ := Prog.ends_ret.mp hret
        obtain ⟨rfl, rfl⟩ := Prod.mk.inj (Sum.inl.inj heq)
        have hsize : toSize (4 * count - 4 * k) = (4 * count - 4 * k).toNat :=
          toSize_of_range (by omega) (by have := hrec.nonneg; omega)
        rw [hsize] at hok₁ ⊢
        have htransfer := hok₁ _ (List.mem_append_right _ (.head _))
        have hread := (hrec.idle (baseSpeOpenIfClosed_idle hopen)).read hbuf htransfer
        obtain ⟨m, hm⟩ := htransfer.1
        refine ⟨k + bytes.length / 4, by dsimp only; omega, ?_⟩
        rw [← List.append_assoc]
        exact hread
    · cases hbody
  · rintro ⟨total, buf⟩ tr₀ tr ⟨x, buf'⟩ hJ hbody hok
    obtain ⟨hok₀, hok₁⟩ := List.forall_mem_append.mp hok
    obtain ⟨k, hk, hrec⟩ := hJ hok₀
    dsimp only at hk hrec hbody
    subst hk
    rw [toInt32_four hpos hint] at hbody
    split at hbody
    · obtain ⟨tr₁, tr₂, fd, rfl, hopen, hr⟩ := Prog.ends_bind.mp hbody
      obtain ⟨y, tr₃, rfl, hret⟩ := hr.perform
      cases y with
      | error e =>
        have htransfer : false = true ∧ _ := hok₁ _ (List.mem_append_right _ (.head _))
        exact absurd htransfer.1 (by decide)
      | ok bytes => cases hret
    · next hge =>
      obtain ⟨rfl, heq⟩ := Prog.ends_ret.mp hbody
      obtain ⟨rfl, rfl⟩ := Prod.mk.inj (Sum.inr.inj heq)
      have hk : k = count := by have := hrec.le; omega
      subst hk
      rw [List.append_nil]
      exact ⟨rfl, hrec⟩

theorem outIntrMboxReadOnce_ends {x : Except Errno Int}
    (h : (outIntrMboxReadOnce c d buf₀ count).Ends tr (x, buf)) (hpos : 1 ≤ count)
    (hint : 4 * count < 2 ^ 31) (hbuf : 4 * count ≤ buf₀.length) (hok : ∀ e ∈ tr, Transfer nb e) :
    match x with
    | .ok total => Received buf₀ count (total.tdiv 4) buf tr ∧ (nb = false → 1 ≤ total.tdiv 4)
    | .error e => nb = true ∧ e = .EAGAIN ∧ Received buf₀ count 0 buf tr := by
  obtain ⟨tr₁, tr₂, fd, rfl, hopen, hr⟩ := Prog.ends_bind.mp h
  have hnone : Received buf₀ count 0 buf₀ ([] ++ tr₁) :=
    (Received.nil (by omega)).idle (baseSpeOpenIfClosed_idle hopen)
  obtain ⟨y, tr₃, rfl, hret⟩ := hr.perform
  have htransfer := hok _ (List.mem_append_right _ (.head _))
  cases y with
  | error e =>
    obtain ⟨rfl, heq⟩ := Prog.ends_ret.mp hret
    obtain ⟨rfl, rfl⟩ := Prod.mk.inj heq
    obtain ⟨hnb, rfl⟩ : nb = true ∧ e = .EAGAIN := htransfer
    refine ⟨hnb, rfl, hnone.idle ?_⟩
    exact ⟨rfl, rfl, rfl, rfl, rfl⟩
  | ok bytes =>
    obtain ⟨rfl, heq⟩ := Prog.ends_ret.mp hret
    obtain ⟨rfl, rfl⟩ := Prod.mk.inj heq
    have hall : toSize (toInt32 (4 * count)) = (4 * count - 4 * 0).toNat := by
      rw [toInt32_four hpos hint, toSize_of_range (by omega) hint, Int.mul_zero, Int.sub_zero]
    rw [hall] at htransfer ⊢
    have hread := hnone.read hbuf htransfer
    obtain ⟨⟨m, hm⟩, -, hblock⟩ := htransfer
    have hdiv : (bytes.length : Int).tdiv 4 = 0 + (bytes.length : Int) / 4 := by
      rw [Int.tdiv_eq_ediv_of_nonneg (Int.natCast_nonneg _), Int.zero_add]
    dsimp only
    rw [hdiv]
    exact ⟨hread, fun hnb => by have := hblock hnb; omega⟩

/-! ## The behaviours -/

/-- The number of words that a call may report. -/
structure WordCount (behaviorFlag count r : Int) : Prop where
  nonneg : 0 ≤ r
  le : r ≤ count
  all : behaviorFlag = speMboxAllBlocking → r = count
  any : behaviorFlag = speMboxAnyBlocking → 1 ≤ r

/-- The behaviours there are. -/
def IsBehavior (behaviorFlag : Int) : Prop :=
  behaviorFlag = speMboxAllBlocking ∨ behaviorFlag = speMboxAnyBlocking ∨
    behaviorFlag = speMboxAnyNonblocking

/-- Whether a behaviour uses the file that does not block (`FD_WBOX_NB`, `FD_IBOX_NB`). -/
def usesNb (behaviorFlag : Int) : Bool := behaviorFlag = speMboxAnyNonblocking

theorem Sent.flags {mboxData : List Word} {fl : UInt32} (h : Sent mboxData count r tr) :
    Sent mboxData count r (⟨.flags c, fl⟩ :: tr) := h

theorem Sent.all {mboxData : List Word} (hpos : 1 ≤ count) (h : Sent mboxData count count tr) :
    WordCount speMboxAllBlocking count count ∧ bytesSent tr = encode (mboxData.take count.toNat) :=
  ⟨⟨h.1, h.2.1, fun _ => rfl, fun _ => hpos⟩, h.2.2⟩

theorem Sent.any {mboxData : List Word} (hr : 1 ≤ r) (h : Sent mboxData count r tr) :
    WordCount speMboxAnyBlocking count r ∧ bytesSent tr = encode (mboxData.take r.toNat) :=
  ⟨⟨h.1, h.2.1, fun h => absurd h (by decide), fun _ => hr⟩, h.2.2⟩

theorem Sent.nonblocking {mboxData : List Word} (h : Sent mboxData count r tr) :
    WordCount speMboxAnyNonblocking count r ∧ bytesSent tr = encode (mboxData.take r.toNat) :=
  ⟨⟨h.1, h.2.1, fun h => absurd h (by decide), fun h => absurd h (by decide)⟩, h.2.2⟩

/-- What `_base_spe_in_mbox_write` sends. -/
theorem inMboxWrite_ends {mboxData : List Word} {behaviorFlag : Int}
    (h : (baseSpeInMboxWrite c (some mboxData) count behaviorFlag).Ends tr r)
    (hb : IsBehavior behaviorFlag) (hpos : 1 ≤ count) (hint : 4 * count < 2 ^ 31)
    (hdata : count ≤ mboxData.length) (hok : ∀ e ∈ tr, Transfer (usesNb behaviorFlag) e) :
    WordCount behaviorFlag count r ∧ bytesSent tr = encode (mboxData.take r.toNat) := by
  unfold baseSpeInMboxWrite at h
  dsimp only at h
  rw [if_neg (by omega)] at h
  rcases hb with rfl | rfl | rfl
  · rw [if_pos rfl] at h
    obtain ⟨fl, tr', rfl, h'⟩ := h.perform
    obtain ⟨-, hok'⟩ := List.forall_mem_cons.mp hok
    split at h'
    · obtain ⟨rfl, hsent⟩ := inMboxWriteAllPs_ends h' hpos hdata hok'
      exact hsent.flags.all hpos
    · obtain ⟨tr₁, tr₂, x, rfl, hall, hret⟩ := Prog.ends_bind.mp h'
      obtain ⟨rfl, hsent⟩ := inMboxWriteAllFile_ends hall hpos hint
        fun e he => hok' e (List.mem_append_left _ he)
      obtain ⟨rfl, rfl⟩ := Prog.ends_ret.mp hret
      rw [List.append_nil]
      exact hsent.flags.all hpos
  · rw [if_neg (by decide), if_pos rfl] at h
    obtain ⟨fl, tr', rfl, h'⟩ := h.perform
    obtain ⟨-, hok'⟩ := List.forall_mem_cons.mp hok
    split at h'
    · obtain ⟨hr, hsent⟩ := inMboxWriteAnyPs_ends h' hpos hdata hok'
      exact hsent.flags.any hr
    · obtain ⟨tr₁, tr₂, x, rfl, hone, hret⟩ := Prog.ends_bind.mp h'
      have hx := inMboxWriteFile_ends hone hpos hint fun e he => hok' e (List.mem_append_left _ he)
      cases x with
      | error e => exact absurd hx.1 (by decide)
      | ok n =>
        obtain ⟨rfl, rfl⟩ := Prog.ends_ret.mp hret
        rw [List.append_nil]
        exact hx.1.flags.any (hx.2 rfl)
  · rw [if_neg (by decide), if_neg (by decide), if_pos rfl] at h
    obtain ⟨fl, tr', rfl, h'⟩ := h.perform
    obtain ⟨-, hok'⟩ := List.forall_mem_cons.mp hok
    split at h'
    · exact ((inMboxWritePs_call h').sent (by omega) hdata).flags.nonblocking
    · obtain ⟨tr₁, tr₂, x, rfl, hone, hret⟩ := Prog.ends_bind.mp h'
      have hx := inMboxWriteFile_ends hone hpos hint fun e he => hok' e (List.mem_append_left _ he)
      cases x with
      | error e =>
        obtain ⟨-, rfl, hbytes⟩ := hx
        obtain ⟨_, tr₃, rfl, hret'⟩ := hret.perform
        obtain ⟨rfl, rfl⟩ := Prog.ends_ret.mp hret'
        have hnone : Sent mboxData count 0 (tr₁ ++ [⟨.setErrno .zero, ()⟩]) := by
          refine ⟨Int.le_refl 0, by omega, ?_⟩
          rw [bytesSent_append, hbytes]
          rfl
        exact hnone.flags.nonblocking
      | ok n =>
        obtain ⟨rfl, rfl⟩ := Prog.ends_ret.mp hret
        rw [List.append_nil]
        exact hx.1.flags.nonblocking

/-- What `_base_spe_out_intr_mbox_read` receives. -/
theorem outIntrMboxRead_ends {behaviorFlag : Int}
    (h : (baseSpeOutIntrMboxRead c (some buf₀) count behaviorFlag).Ends tr (r, buf))
    (hb : IsBehavior behaviorFlag) (hpos : 1 ≤ count) (hint : 4 * count < 2 ^ 31)
    (hbuf : 4 * count ≤ buf₀.length) (hok : ∀ e ∈ tr, Transfer (usesNb behaviorFlag) e) :
    WordCount behaviorFlag count r ∧ Received buf₀ count r buf tr := by
  unfold baseSpeOutIntrMboxRead at h
  dsimp only at h
  rw [if_neg (by omega)] at h
  rcases hb with rfl | rfl | rfl
  · rw [if_pos rfl] at h
    obtain ⟨tr₁, tr₂, ⟨x, buf'⟩, rfl, hall, hret⟩ := Prog.ends_bind.mp h
    obtain ⟨rfl, hrec⟩ := outIntrMboxReadAll_ends hall hpos hint hbuf
      fun e he => hok e (List.mem_append_left _ he)
    obtain ⟨rfl, heq⟩ := Prog.ends_ret.mp hret
    obtain ⟨rfl, rfl⟩ := Prod.mk.inj heq
    rw [List.append_nil, Int.mul_tdiv_cancel_left _ (by decide)]
    exact ⟨⟨hrec.nonneg, hrec.le, fun _ => rfl, fun _ => hpos⟩, hrec⟩
  · rw [if_neg (by decide), if_pos rfl] at h
    obtain ⟨tr₁, tr₂, ⟨x, buf'⟩, rfl, hone, hret⟩ := Prog.ends_bind.mp h
    have hx := outIntrMboxReadOnce_ends hone hpos hint hbuf
      fun e he => hok e (List.mem_append_left _ he)
    cases x with
    | error e => exact absurd hx.1 (by decide)
    | ok total =>
      obtain ⟨rfl, heq⟩ := Prog.ends_ret.mp hret
      obtain ⟨rfl, rfl⟩ := Prod.mk.inj heq
      rw [List.append_nil]
      exact ⟨⟨hx.1.nonneg, hx.1.le, fun h => absurd h (by decide), fun _ => hx.2 rfl⟩, hx.1⟩
  · rw [if_neg (by decide), if_neg (by decide), if_pos rfl] at h
    obtain ⟨tr₁, tr₂, ⟨x, buf'⟩, rfl, hone, hret⟩ := Prog.ends_bind.mp h
    have hx := outIntrMboxReadOnce_ends hone hpos hint hbuf
      fun e he => hok e (List.mem_append_left _ he)
    cases x with
    | error e =>
      obtain ⟨-, rfl, hrec⟩ := hx
      obtain ⟨_, tr₃, rfl, hret'⟩ := hret.perform
      obtain ⟨rfl, heq⟩ := Prog.ends_ret.mp hret'
      obtain ⟨rfl, rfl⟩ := Prod.mk.inj heq
      refine ⟨⟨Int.le_refl 0, by omega, fun h => absurd h (by decide),
        fun h => absurd h (by decide)⟩, hrec.idle ?_⟩
      exact ⟨rfl, rfl, rfl, rfl, rfl⟩
    | ok total =>
      obtain ⟨rfl, heq⟩ := Prog.ends_ret.mp hret
      obtain ⟨rfl, rfl⟩ := Prod.mk.inj heq
      rw [List.append_nil]
      exact ⟨⟨hx.1.nonneg, hx.1.le, fun h => absurd h (by decide), fun h => absurd h (by decide)⟩,
        hx.1⟩

end

/-- **The behaviours.** Through the registers and through the files, and for every way the transfers
are split, a call returns how many words it moved, as its behaviour promises; a write has sent the
first words of the array, a read has received them into its beginning and left the rest alone. -/
theorem mbox_behaviors {behaviorFlag count : Int} (hb : IsBehavior behaviorFlag) (hpos : 1 ≤ count)
    (hint : 4 * count < 2 ^ 31) (c : Spe) :
    (∀ mboxData tr r, count ≤ (mboxData : List Word).length →
      (∀ e ∈ tr, Transfer (usesNb behaviorFlag) e) →
      (baseSpeInMboxWrite c (some mboxData) count behaviorFlag).Ends tr r →
        WordCount behaviorFlag count r ∧ bytesSent tr = encode (mboxData.take r.toNat)) ∧
    ∀ buf₀ tr r buf, 4 * count ≤ (buf₀ : List UInt8).length →
      (∀ e ∈ tr, Transfer (usesNb behaviorFlag) e) →
      (baseSpeOutIntrMboxRead c (some buf₀) count behaviorFlag).Ends tr (r, buf) →
        WordCount behaviorFlag count r ∧ bytesGot tr = buf.take (4 * r.toNat) ∧
          buf.drop (4 * r.toNat) = buf₀.drop (4 * r.toNat) := by
  constructor
  · intro mboxData tr r hdata hok h
    exact inMboxWrite_ends h hb hpos hint hdata hok
  · intro buf₀ tr r buf hbuf hok h
    obtain ⟨hcount, hrec⟩ := outIntrMboxRead_ends h hb hpos hint hbuf hok
    exact ⟨hcount, hrec.bytes, hrec.rest⟩

/-- An open of the inbound mailbox file while `n` references are held. -/
def wboxOpen (n : Int) : List (Sigma Ans) :=
  [⟨.lock (.fdLock 0 .wbox), ()⟩, ⟨.load (.speFdsArray 0 .wbox), (5 : Int)⟩,
    ⟨.load (.speFdsRefcount 0 .wbox), n⟩, ⟨.store (.speFdsRefcount 0 .wbox) (toInt32 (n + 1)), ()⟩,
    ⟨.note (.opened 0 .wbox 5), ()⟩, ⟨.unlock (.fdLock 0 .wbox), ()⟩,
    ⟨.load (.speFdsArray 0 .wbox), (5 : Int)⟩, ⟨.note (.openReturned 0 .wbox 5), ()⟩]

/-- Two words written in two transfers. -/
def shortWriteTrace : List (Sigma Ans) :=
  ⟨.flags 0, (0 : UInt32)⟩ :: ((wboxOpen 1 ++ [⟨.write 5 (encode [7, 8]), .ok 4⟩]) ++
    ((wboxOpen 2 ++ [⟨.write 5 (encode [8]), .ok 4⟩]) ++ []))

theorem wboxOpen_ends (n : Int) : (baseSpeOpenIfClosed 0 .wbox false).Ends (wboxOpen n) 5 := by
  repeat first | exact .ret | refine .cmd ?_

theorem shortWrite_ends : (baseSpeInMboxWrite 0 (some [7, 8]) 2 speMboxAllBlocking).Ends
    shortWriteTrace 2 := by
  refine .cmd (Prog.ends_loop.mpr ⟨_, _, .inl 4, rfl, ?_, Prog.ends_loop.mpr
    ⟨_, _, .inl 8, rfl, ?_, Prog.ends_loop.mpr ⟨_, _, .inr (some 2), rfl, .ret, .ret⟩⟩⟩)
  · exact Prog.ends_bind.mpr ⟨_, _, _, rfl, wboxOpen_ends 1, .cmd .ret⟩
  · exact Prog.ends_bind.mpr ⟨_, _, _, rfl, wboxOpen_ends 2, .cmd .ret⟩

theorem mbox_behaviors_short : WordCount speMboxAllBlocking 2 2 ∧
    bytesSent shortWriteTrace = encode [7, 8] := by
  refine (mbox_behaviors (.inl rfl) (by decide) (by decide) 0).1 [7, 8] shortWriteTrace 2 (by decide)
    ?_ shortWrite_ends
  simp [shortWriteTrace, wboxOpen, Transfer]

end LibSpe2
