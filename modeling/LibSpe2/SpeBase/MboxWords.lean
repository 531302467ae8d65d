import LibSpe2.SpeBase.Mbox

/-!
# Mailbox calls, word by word

What a single call moves, whatever it is answered: a call's trace holds every register access and every
read and write of a file, with the answers, and the answers may be anything that `Transfer` allows.
Short transfers, waits and the SPU's progress are all in there.

## Main results

* `outMboxReadPs_call`, `inMboxWritePs_call` — a helper returns the number of the words it moved;
* `inMboxWriteAllPs_ends`, `inMboxWriteAnyPs_ends`, `inMboxWriteAllFile_ends`, `inMboxWriteFile_ends` —
  the ways of writing send the first words of the array, in order.
-/

namespace LibSpe2

open Conc (Prog)

/-! ## What a trace moves -/

/-- The words read from the outbound mailbox. -/
def wordsRead (tr : List (Sigma Ans)) : List Word :=
  tr.flatMap fun
    | ⟨.readOutMbox _, w⟩ => [w]
    | _ => []

/-- The words written to the inbound mailbox. -/
def wordsWritten (tr : List (Sigma Ans)) : List Word :=
  tr.flatMap fun
    | ⟨.writeInMbox _ w, _⟩ => [w]
    | _ => []

/-- The bursts recorded. -/
def burstsOf (tr : List (Sigma Ans)) : List Burst :=
  tr.flatMap fun
    | ⟨.note (.outBurst _ b), _⟩ => [b]
    | ⟨.note (.inBurst _ b), _⟩ => [b]
    | _ => []

/-- The bytes that writes have taken from the array, through the register or a file. -/
def bytesSent (tr : List (Sigma Ans)) : List UInt8 :=
  tr.flatMap fun
    | ⟨.writeInMbox _ w, _⟩ => wordBytes w
    | ⟨.write _ bytes, .ok n⟩ => bytes.take n
    | _ => []

/-- The bytes that reads of a file have returned. -/
def bytesGot (tr : List (Sigma Ans)) : List UInt8 :=
  tr.flatMap fun
    | ⟨.read _ _, .ok bytes⟩ => bytes
    | _ => []

/-- The commands that move no word and record no burst. -/
def Cmd.Moveless : Cmd → Prop
  | .readOutMbox _ | .writeInMbox _ _ | .read _ _ | .write _ _ => False
  | .note (.outBurst _ _) | .note (.inBurst _ _) => False
  | _ => True

section

variable {c : Spe} {d : FdName} {tr tr₁ tr₂ : List (Sigma Ans)}

@[simp] theorem wordsRead_append : wordsRead (tr₁ ++ tr₂) = wordsRead tr₁ ++ wordsRead tr₂ :=
  List.flatMap_append

@[simp] theorem wordsWritten_append :
    wordsWritten (tr₁ ++ tr₂) = wordsWritten tr₁ ++ wordsWritten tr₂ := List.flatMap_append

@[simp] theorem burstsOf_append : burstsOf (tr₁ ++ tr₂) = burstsOf tr₁ ++ burstsOf tr₂ :=
  List.flatMap_append

@[simp] theorem bytesSent_append : bytesSent (tr₁ ++ tr₂) = bytesSent tr₁ ++ bytesSent tr₂ :=
  List.flatMap_append

@[simp] theorem bytesGot_append : bytesGot (tr₁ ++ tr₂) = bytesGot tr₁ ++ bytesGot tr₂ :=
  List.flatMap_append

/-- A trace of such commands. -/
structure Idle (tr : List (Sigma Ans)) : Prop where
  wordsRead : wordsRead tr = []
  wordsWritten : wordsWritten tr = []
  burstsOf : burstsOf tr = []
  bytesSent : bytesSent tr = []
  bytesGot : bytesGot tr = []

theorem Idle.append (h₁ : Idle tr₁) (h₂ : Idle tr₂) : Idle (tr₁ ++ tr₂) := by
  constructor <;> simp [h₁.1, h₁.2, h₁.3, h₁.4, h₁.5, h₂.1, h₂.2, h₂.3, h₂.4, h₂.5]

theorem Idle.single {cmd : Cmd} (hc : cmd.Moveless) (r : Ans cmd) : Idle [⟨cmd, r⟩] := by
  cases cmd with
  | note n => cases n <;> first | exact hc.elim | exact ⟨rfl, rfl, rfl, rfl, rfl⟩
  | _ => first | exact hc.elim | exact ⟨rfl, rfl, rfl, rfl, rfl⟩

theorem Idle.of_forall (h : ∀ e ∈ tr, e.1.Moveless) : Idle tr := by
  induction tr with
  | nil => exact ⟨rfl, rfl, rfl, rfl, rfl⟩
  | cons e tr ih =>
    have he : e.1.Moveless := h e (.head _)
    exact (Idle.single he e.2).append (ih fun e' he' => h e' (.tail _ he'))

theorem baseSpeOpenIfClosed_idle {fd : Fd} (h : (baseSpeOpenIfClosed c d false).Ends tr fd) :
    Idle tr := by
  have hall : (baseSpeOpenIfClosed c d false).All Cmd.Moveless := by
    show (do
      baseSpeContextLock c d
      _ : Sys Fd).All _
    repeat' first
      | trivial
      | refine .bind (.perform trivial) fun _ => ?_
      | split
  exact .of_forall (hall.ends h)

@[simp] theorem length_wordBytes (w : Word) : (wordBytes w).length = 4 := rfl

@[simp] theorem length_encode (ws : List Word) : (encode ws).length = 4 * ws.length := by
  induction ws with
  | nil => rfl
  | cons w ws ih =>
    show (wordBytes w ++ encode ws).length = _
    rw [List.length_append, length_wordBytes, ih, List.length_cons]
    omega

@[simp] theorem encode_append (ws ws' : List Word) : encode (ws ++ ws') = encode ws ++ encode ws' :=
  List.flatMap_append

/-- The first bytes of an array, a whole number of words. -/
theorem take_encode (ws : List Word) (n : Nat) : (encode ws).take (4 * n) = encode (ws.take n) := by
  induction n generalizing ws with
  | zero => rfl
  | succ n ih =>
    cases ws with
    | nil => rfl
    | cons w ws =>
      show (wordBytes w ++ encode ws).take (4 * (n + 1)) = wordBytes w ++ encode (ws.take n)
      rw [← ih ws, List.take_append, length_wordBytes,
        List.take_of_length_le (by rw [length_wordBytes]; omega)]
      congr 2

/-! ## The helpers -/

theorem fetchWords_ends {k : Nat} {got got' : List Word} (h : (fetchWords c k got).Ends tr got') :
    got' = got ++ wordsRead tr ∧ (wordsRead tr).length = k ∧ burstsOf tr = [] := by
  induction k generalizing got tr with
  | zero =>
    obtain ⟨rfl, rfl⟩ := Prog.ends_ret.mp h
    exact ⟨(List.append_nil _).symm, rfl, rfl⟩
  | succ k ih =>
    obtain ⟨w, tr', rfl, h'⟩ := h.perform
    obtain ⟨rfl, hlen, hbursts⟩ := ih h'
    refine ⟨?_, ?_, hbursts⟩
    · show got ++ [w] ++ wordsRead tr' = got ++ ([w] ++ wordsRead tr')
      rw [List.append_assoc]
    · show ([w] ++ wordsRead tr').length = k + 1
      rw [List.length_append, hlen, List.length_singleton, Nat.add_comm]

/-- What `_base_spe_out_mbox_read_ps` did. -/
structure OutCall (count : Int) (tr : List (Sigma Ans)) (rc : Int) (got : List Word) : Prop where
  moved : wordsRead tr = got
  ret : rc = got.length
  le : 0 ≤ count → rc ≤ count
  burst : burstsOf tr = [⟨got, rc, count⟩]

/-- What is left of a burst is an upper bound for what is moved next. -/
theorem clamp_le {total count a : Int} (htotal : total < count) :
    ((if a > count - total then count - total else a).toNat : Int) ≤ count - total := by
  split <;> omega

theorem outMboxReadPs_call {count rc : Int} {got : List Word}
    (h : (baseSpeOutMboxReadPs c count).Ends tr (rc, got)) : OutCall count tr rc got := by
  obtain ⟨_, tr₁, rfl, h₁⟩ := h.perform
  obtain ⟨tr₂, tr₃, got', rfl, h₂, h₃⟩ := Prog.ends_bind.mp h₁
  obtain ⟨_, tr₄, rfl, h₄⟩ := h₃.perform
  obtain ⟨_, tr₅, rfl, h₅⟩ := h₄.perform
  obtain ⟨rfl, heq⟩ := Prog.ends_ret.mp h₅
  obtain ⟨rfl, rfl⟩ := Prod.mk.inj heq
  have hloop : wordsRead tr₂ = got ∧ (0 ≤ count → (got.length : Int) ≤ count) ∧ burstsOf tr₂ = [] := by
    refine Prog.Ends.repeats_rule
      (J := fun got tr => wordsRead tr = got ∧ (0 ≤ count → (got.length : Int) ≤ count) ∧
        burstsOf tr = [])
      (Q := fun tr got => wordsRead tr = got ∧ (0 ≤ count → (got.length : Int) ≤ count) ∧
        burstsOf tr = [])
      h₂ (show wordsRead [] = [] ∧ _ ∧ burstsOf [] = [] from ⟨rfl, fun h => h, rfl⟩) ?_ ?_
    · rintro got tr₀ tr got' ⟨hmoved, hle, hbursts⟩ hbody
      dsimp only at hbody
      split at hbody
      · next hlt =>
        obtain ⟨stat, tr', rfl, h'⟩ := hbody.perform
        split at h'
        · cases h'
        obtain ⟨tr₁, tr₂, got'', rfl, hfetch, hret⟩ := Prog.ends_bind.mp h'
        obtain ⟨rfl, heq⟩ := Prog.ends_ret.mp hret
        obtain rfl := Sum.inl.inj heq
        obtain ⟨rfl, hlen, hnone⟩ := fetchWords_ends hfetch
        have hclamp := clamp_le (a := statEntries stat) hlt
        refine ⟨?_, fun _ => ?_, ?_⟩
        · rw [wordsRead_append, hmoved, List.append_nil]
          rfl
        · rw [List.length_append, hlen]
          push_cast
          omega
        · rw [burstsOf_append, hbursts, List.append_nil]
          exact hnone
      · cases hbody
    · rintro got tr₀ tr got' ⟨hmoved, hle, hbursts⟩ hbody
      dsimp only at hbody
      split at hbody
      · obtain ⟨stat, tr', rfl, h'⟩ := hbody.perform
        split at h'
        · obtain ⟨rfl, heq⟩ := Prog.ends_ret.mp h'
          obtain rfl := Sum.inr.inj heq
          refine ⟨?_, hle, ?_⟩
          · rw [wordsRead_append, hmoved]
            exact List.append_nil _
          · rw [burstsOf_append, hbursts]
            rfl
        · obtain ⟨tr₁, tr₂, got'', rfl, -, hret⟩ := Prog.ends_bind.mp h'
          cases hret
      · obtain ⟨rfl, heq⟩ := Prog.ends_ret.mp hbody
        obtain rfl := Sum.inr.inj heq
        rw [List.append_nil]
        exact ⟨hmoved, hle, hbursts⟩
  obtain ⟨hmoved, hle, hbursts⟩ := hloop
  refine ⟨?_, rfl, hle, ?_⟩
  · show wordsRead (tr₂ ++ _) = got
    rw [wordsRead_append, hmoved]
    exact List.append_nil _
  · show burstsOf (tr₂ ++ _) = _
    rw [burstsOf_append, hbursts]
    rfl

theorem storeWords_ends {k : Nat} {aux sent : List Word} {r : List Word × List Word}
    (h : (storeWords c k aux sent).Ends tr r) :
    r.2 = sent ++ wordsWritten tr ∧ (wordsWritten tr).length = k ∧ burstsOf tr = [] ∧
      bytesSent tr = encode (wordsWritten tr) ∧
      (k ≤ aux.length → wordsWritten tr = aux.take k ∧ r.1 = aux.drop k) := by
  induction k generalizing aux sent tr with
  | zero =>
    obtain ⟨rfl, rfl⟩ := Prog.ends_ret.mp h
    exact ⟨(List.append_nil _).symm, rfl, rfl, rfl, fun _ => ⟨rfl, rfl⟩⟩
  | succ k ih =>
    obtain ⟨_, tr', rfl, h'⟩ := h.perform
    obtain ⟨hsent, hlen, hbursts, hbytes, haux⟩ := ih h'
    have hwords : wordsWritten (⟨.writeInMbox c (aux.headD 0), ()⟩ :: tr') =
        aux.headD 0 :: wordsWritten tr' := rfl
    rw [hwords]
    refine ⟨?_, ?_, hbursts, ?_, fun hk => ?_⟩
    · rw [hsent, List.append_assoc]
      rfl
    · rw [List.length_cons, hlen]
    · show wordBytes (aux.headD 0) ++ bytesSent tr' = wordBytes (aux.headD 0) ++ encode (wordsWritten tr')
      rw [hbytes]
    · cases aux with
      | nil => cases hk
      | cons w aux =>
        obtain ⟨htake, hdrop⟩ := haux (Nat.le_of_succ_le_succ hk)
        exact ⟨congrArg (w :: ·) htake, hdrop⟩

/-- What `_base_spe_in_mbox_write_ps` did. -/
structure InCall (mboxData : List Word) (count : Int) (tr : List (Sigma Ans)) (rc : Int) : Prop where
  ret : rc = (wordsWritten tr).length
  le : 0 ≤ count → rc ≤ count
  burst : burstsOf tr = [⟨wordsWritten tr, rc, count⟩]
  bytes : bytesSent tr = encode (wordsWritten tr)
  moved : 0 ≤ count → count ≤ mboxData.length → wordsWritten tr = mboxData.take rc.toNat

/-- The loop of the helper, after it has written `sent` and before it goes on from `aux`. -/
structure InLoop (mboxData : List Word) (count : Int) (x : List Word × List Word)
    (tr : List (Sigma Ans)) : Prop where
  words : wordsWritten tr = x.2
  bursts : burstsOf tr = []
  bytes : bytesSent tr = encode x.2
  le : 0 ≤ count → (x.2.length : Int) ≤ count
  data : 0 ≤ count → count ≤ mboxData.length →
    x.2 = mboxData.take x.2.length ∧ x.1 = mboxData.drop x.2.length

theorem inMboxWritePs_call {mboxData : List Word} {count rc : Int}
    (h : (baseSpeInMboxWritePs c mboxData count).Ends tr rc) : InCall mboxData count tr rc := by
  obtain ⟨_, tr₁, rfl, h₁⟩ := h.perform
  obtain ⟨tr₂, tr₃, ⟨aux, sent⟩, rfl, h₂, h₃⟩ := Prog.ends_bind.mp h₁
  obtain ⟨_, tr₄, rfl, h₄⟩ := h₃.perform
  obtain ⟨_, tr₅, rfl, h₅⟩ := h₄.perform
  obtain ⟨rfl, rfl⟩ := Prog.ends_ret.mp h₅
  have hloop : InLoop mboxData count (aux, sent) tr₂ := by
    refine Prog.Ends.repeats_rule (J := InLoop mboxData count)
      (Q := fun tr x => InLoop mboxData count x tr) h₂
      (show InLoop mboxData count (mboxData, []) [] from
        ⟨rfl, rfl, rfl, fun h => h, fun _ _ => ⟨rfl, rfl⟩⟩) ?_ ?_
    · rintro ⟨aux, sent⟩ tr₀ tr ⟨aux', sent'⟩ hJ hbody
      dsimp only at hbody
      split at hbody
      · next hlt =>
        obtain ⟨stat, tr', rfl, h'⟩ := hbody.perform
        split at h'
        · cases h'
        obtain ⟨tr₁, tr₂, x, rfl, hstore, hret⟩ := Prog.ends_bind.mp h'
        obtain ⟨rfl, heq⟩ := Prog.ends_ret.mp hret
        obtain rfl := Sum.inl.inj heq
        obtain ⟨hsent, hlen, hnone, hbytes, haux⟩ := storeWords_ends hstore
        have hclamp := clamp_le (a := statSpace stat) hlt
        rw [List.append_nil]
        refine ⟨?_, ?_, ?_, fun _ => ?_, fun h₀ hdata => ?_⟩
        · rw [wordsWritten_append, hJ.words]
          exact hsent.symm
        · rw [burstsOf_append, hJ.bursts]
          exact hnone
        · rw [bytesSent_append, hJ.bytes, hsent, encode_append, ← hbytes]
          rfl
        · rw [hsent, List.length_append, hlen]
          push_cast
          omega
        · obtain ⟨hs, ha⟩ := hJ.data h₀ hdata
          dsimp only at hs ha hsent
          have hk : (if statSpace stat > count - (sent.length : Int) then count - (sent.length : Int)
              else statSpace stat).toNat ≤ aux.length := by
            rw [ha, List.length_drop]
            omega
          obtain ⟨htake, hdrop⟩ := haux hk
          have hx : sent'.length = sent.length + (wordsWritten tr₁).length := by
            rw [hsent, List.length_append]
          rw [hx, hsent, hdrop, hlen, List.take_add, ← hs, htake, ha, List.drop_drop]
          exact ⟨rfl, rfl⟩
      · cases hbody
    · rintro ⟨aux, sent⟩ tr₀ tr x hJ hbody
      have hidle : Idle tr ∧ x = (aux, sent) := by
        dsimp only at hbody
        split at hbody
        · obtain ⟨stat, tr', rfl, h'⟩ := hbody.perform
          split at h'
          · obtain ⟨rfl, heq⟩ := Prog.ends_ret.mp h'
            exact ⟨.single (show Cmd.Moveless (.readMboxStat c) from trivial) stat, Sum.inr.inj heq⟩
          · obtain ⟨tr₁, tr₂, y, rfl, -, hret⟩ := Prog.ends_bind.mp h'
            cases hret
        · obtain ⟨rfl, heq⟩ := Prog.ends_ret.mp hbody
          exact ⟨⟨rfl, rfl, rfl, rfl, rfl⟩, Sum.inr.inj heq⟩
      obtain ⟨hidle, rfl⟩ := hidle
      refine ⟨?_, ?_, ?_, hJ.le, hJ.data⟩
      · rw [wordsWritten_append, hidle.wordsWritten, List.append_nil, hJ.words]
      · rw [burstsOf_append, hidle.burstsOf, List.append_nil, hJ.bursts]
      · rw [bytesSent_append, hidle.bytesSent, List.append_nil, hJ.bytes]
  have hwords : wordsWritten (⟨.lock (.fdLock c .wbox), ()⟩ :: (tr₂ ++
      [⟨.note (.inBurst c ⟨sent, sent.length, count⟩), ()⟩, ⟨.unlock (.fdLock c .wbox), ()⟩])) =
      sent := by
    show wordsWritten (tr₂ ++ _) = sent
    rw [wordsWritten_append, hloop.words]
    exact List.append_nil _
  refine ⟨?_, hloop.le, ?_, ?_, fun h₀ hdata => ?_⟩
  · rw [hwords]
  · rw [hwords]
    show burstsOf (tr₂ ++ _) = _
    rw [burstsOf_append, hloop.bursts]
    rfl
  · rw [hwords]
    show bytesSent (tr₂ ++ _) = _
    rw [bytesSent_append, hloop.bytes]
    exact List.append_nil _
  · rw [hwords, Int.toNat_natCast]
    exact (hloop.data h₀ hdata).1

/-! ## Transfers of whole words -/

/-- What the kernel answers: whole words, at least one if the file blocks (`nb = false`), and no error
but `EAGAIN` on a file that does not. -/
def Transfer (nb : Bool) : Sigma Ans → Prop
  | ⟨.write _ bytes, .ok n⟩ => 4 ∣ n ∧ n ≤ bytes.length ∧ (nb = false → 0 < n)
  | ⟨.read _ n, .ok bytes⟩ => 4 ∣ bytes.length ∧ bytes.length ≤ n ∧ (nb = false → 0 < bytes.length)
  | ⟨.write _ _, .error e⟩ => nb = true ∧ e = .EAGAIN
  | ⟨.read _ _, .error e⟩ => nb = true ∧ e = .EAGAIN
  | ⟨.poll _, .error _⟩ => False
  | _ => True

theorem toSize_of_range {n : Int} (h₀ : 0 ≤ n) (h : n < 2 ^ 31) : toSize n = n.toNat := by
  unfold toSize
  rw [Int.emod_eq_of_lt h₀ (by omega)]

theorem pollWbox_ends {nb r : Bool} (h : (pollWbox c).Ends tr r)
    (hok : ∀ e ∈ tr, Transfer nb e) : r = true ∧ Idle tr := by
  obtain ⟨tr₁, tr₂, fd, rfl, h₁, h₂⟩ := Prog.ends_bind.mp h
  obtain ⟨x, tr₃, rfl, h₃⟩ := h₂.perform
  cases x with
  | error e => exact (hok ⟨.poll fd, .error e⟩ (by simp)).elim
  | ok n =>
    obtain ⟨rfl, rfl⟩ := Prog.ends_ret.mp h₃
    exact ⟨rfl, (baseSpeOpenIfClosed_idle h₁).append
      (.single (show Cmd.Moveless (.poll fd) from trivial) _)⟩

section Write

variable {mboxData : List Word} {count r : Int} {nb : Bool}

/-- `r` words of the array have been sent, in order. -/
def Sent (mboxData : List Word) (count r : Int) (tr : List (Sigma Ans)) : Prop :=
  0 ≤ r ∧ r ≤ count ∧ bytesSent tr = encode (mboxData.take r.toNat)

theorem InCall.sent (h : InCall mboxData count tr r) (h₀ : 0 ≤ count)
    (hdata : count ≤ mboxData.length) : Sent mboxData count r tr := by
  refine ⟨?_, h.le h₀, ?_⟩
  · rw [h.ret]
    exact Int.natCast_nonneg _
  · rw [h.bytes, h.moved h₀ hdata]

/-- Sending goes on behind what has been sent. -/
theorem Sent.append {total n : Int} (h₁ : Sent mboxData count total tr₁)
    (h₂ : Sent (mboxData.drop total.toNat) (count - total) n tr₂) :
    Sent mboxData count (total + n) (tr₁ ++ tr₂) := by
  obtain ⟨h₀, hle, hbytes⟩ := h₁
  obtain ⟨h₀', hle', hbytes'⟩ := h₂
  refine ⟨by omega, by omega, ?_⟩
  rw [bytesSent_append, hbytes, hbytes', ← encode_append, ← List.take_add]
  congr 2
  omega

theorem Sent.idle (h₁ : Sent mboxData count r tr₁) (h₂ : Idle tr₂) :
    Sent mboxData count r (tr₁ ++ tr₂) := by
  obtain ⟨h₀, hle, hbytes⟩ := h₁
  refine ⟨h₀, hle, ?_⟩
  rw [bytesSent_append, hbytes, h₂.bytesSent, List.append_nil]

theorem Sent.nil (h₀ : 0 ≤ count) : Sent mboxData count 0 [] := ⟨Int.le_refl 0, h₀, rfl⟩

theorem inMboxWriteAllPs_ends (h : (inMboxWriteAllPs c mboxData count).Ends tr r)
    (hpos : 1 ≤ count) (hdata : count ≤ mboxData.length) (hok : ∀ e ∈ tr, Transfer nb e) :
    r = count ∧ Sent mboxData count r tr := by
  -- after each round but the last, `total` words have been sent
  refine Prog.Ends.repeats_rule
    (J := fun total tr => (∀ e ∈ tr, Transfer nb e) → Sent mboxData count total tr)
    (Q := fun tr r => (∀ e ∈ tr, Transfer nb e) → r = count ∧ Sent mboxData count r tr) h
    (show _ → Sent mboxData count 0 [] from fun _ => .nil (by omega)) ?_ ?_ hok
  · intro total tr₀ tr total' hJ hbody hok
    obtain ⟨hok₀, hok₁⟩ := List.forall_mem_append.mp hok
    obtain ⟨trc, trw, n, rfl, hcall, hrest⟩ := Prog.ends_bind.mp hbody
    have hsent := hJ hok₀
    have hn := (inMboxWritePs_call hcall).sent (by have := hsent.2.1; omega)
      (by rw [List.length_drop]; have := hsent.1; omega)
    dsimp only at hrest
    split at hrest
    · obtain ⟨trp, trr, b, rfl, hpoll, hret⟩ := Prog.ends_bind.mp hrest
      obtain ⟨rfl, hidle⟩ := pollWbox_ends hpoll fun e he => hok₁ e (by simp [he])
      obtain ⟨rfl, heq⟩ := Prog.ends_ret.mp hret
      obtain rfl := Sum.inl.inj heq
      rw [List.append_nil, ← List.append_assoc]
      exact (hsent.append hn).idle hidle
    · cases hrest
  · intro total tr₀ tr r hJ hbody hok
    obtain ⟨hok₀, hok₁⟩ := List.forall_mem_append.mp hok
    obtain ⟨trc, trw, n, rfl, hcall, hrest⟩ := Prog.ends_bind.mp hbody
    have hsent := hJ hok₀
    have hn := (inMboxWritePs_call hcall).sent (by have := hsent.2.1; omega)
      (by rw [List.length_drop]; have := hsent.1; omega)
    dsimp only at hrest
    split at hrest
    · obtain ⟨trp, trr, b, rfl, hpoll, hret⟩ := Prog.ends_bind.mp hrest
      obtain ⟨rfl, -⟩ := pollWbox_ends hpoll fun e he => hok₁ e (by simp [he])
      cases hret
    · next hge =>
      obtain ⟨rfl, heq⟩ := Prog.ends_ret.mp hrest
      obtain rfl := Sum.inr.inj heq
      have hall := hsent.append hn
      rw [List.append_nil]
      exact ⟨by have := hall.2.1; omega, hall⟩

theorem inMboxWriteAnyPs_ends (h : (inMboxWriteAnyPs c mboxData count).Ends tr r)
    (hpos : 1 ≤ count) (hdata : count ≤ mboxData.length) (hok : ∀ e ∈ tr, Transfer nb e) :
    1 ≤ r ∧ Sent mboxData count r tr := by
  refine Prog.Ends.repeats_rule
    (J := fun _ tr => (∀ e ∈ tr, Transfer nb e) → Sent mboxData count 0 tr)
    (Q := fun tr r => (∀ e ∈ tr, Transfer nb e) → 1 ≤ r ∧ Sent mboxData count r tr) h
    (show _ → Sent mboxData count 0 [] from fun _ => .nil (by omega)) ?_ ?_ hok
  · intro _ tr₀ tr _ hJ hbody hok
    obtain ⟨hok₀, hok₁⟩ := List.forall_mem_append.mp hok
    obtain ⟨trc, trw, n, rfl, hcall, hrest⟩ := Prog.ends_bind.mp hbody
    have hn := (inMboxWritePs_call hcall).sent (by omega) hdata
    split at hrest
    · next hzero =>
      obtain ⟨trp, trr, b, rfl, hpoll, hret⟩ := Prog.ends_bind.mp hrest
      obtain ⟨rfl, hidle⟩ := pollWbox_ends hpoll fun e he => hok₁ e (by simp [he])
      obtain ⟨rfl, -⟩ := Prog.ends_ret.mp hret
      rw [List.append_nil, ← List.append_assoc]
      subst hzero
      have := (hJ hok₀).append (n := 0) (by simpa using hn)
      exact this.idle hidle
    · cases hrest
  · intro _ tr₀ tr r hJ hbody hok
    obtain ⟨hok₀, hok₁⟩ := List.forall_mem_append.mp hok
    obtain ⟨trc, trw, n, rfl, hcall, hrest⟩ := Prog.ends_bind.mp hbody
    have hn := (inMboxWritePs_call hcall).sent (by omega) hdata
    split at hrest
    · obtain ⟨trp, trr, b, rfl, hpoll, hret⟩ := Prog.ends_bind.mp hrest
      obtain ⟨rfl, -⟩ := pollWbox_ends hpoll fun e he => hok₁ e (by simp [he])
      cases hret
    · next hne =>
      obtain ⟨rfl, heq⟩ := Prog.ends_ret.mp hrest
      obtain rfl := Sum.inr.inj heq
      have hall := (hJ hok₀).append (n := r) (by simpa using hn)
      rw [Int.zero_add] at hall
      rw [List.append_nil]
      exact ⟨by have := hall.1; omega, hall⟩

/-- A write of a file sends a prefix of what is left. -/
theorem Sent.write {total : Int} {fd : Fd} {n : Nat} (h : Sent mboxData count total tr)
    (hok : Transfer nb ⟨.write fd (((encode mboxData).drop (4 * total).toNat).take
      (4 * count - 4 * total).toNat), .ok n⟩) :
    Sent mboxData count (total + n / 4) (tr ++ [⟨.write fd (((encode mboxData).drop
      (4 * total).toNat).take (4 * count - 4 * total).toNat), .ok n⟩]) := by
  obtain ⟨h₀, hle, hbytes⟩ := h
  obtain ⟨⟨k, rfl⟩, hn, -⟩ := hok
  have hlen : 4 * k ≤ (4 * count - 4 * total).toNat :=
    Nat.le_trans hn (List.length_take_le ..)
  have hdiv : ((4 * k : Nat) : Int) / 4 = k := by omega
  rw [hdiv]
  refine ⟨by omega, by omega, ?_⟩
  have hone (bytes : List UInt8) : bytesSent [⟨.write fd bytes, .ok (4 * k)⟩] = bytes.take (4 * k) :=
    List.append_nil _
  have hoff : (4 * total).toNat = 4 * total.toNat := by omega
  have hsum : (total + (k : Int)).toNat = total.toNat + k := by omega
  rw [bytesSent_append, hbytes, hone, List.take_take, Nat.min_eq_left hlen, hoff, ← take_encode,
    ← List.take_add, ← Nat.mul_add, take_encode, hsum]

/-- `4 * count` fits an `int`. -/
theorem toInt32_four (hpos : 1 ≤ count) (hint : 4 * count < 2 ^ 31) :
    toInt32 (4 * count) = 4 * count := toInt32_of_range (by omega) hint

theorem inMboxWriteAllFile_ends {x : Option Int} (h : (inMboxWriteAllFile c mboxData count).Ends tr x)
    (hpos : 1 ≤ count) (hint : 4 * count < 2 ^ 31) (hok : ∀ e ∈ tr, Transfer false e) :
    x = some count ∧ Sent mboxData count count tr := by
  refine Prog.Ends.repeats_rule
    (J := fun total tr => (∀ e ∈ tr, Transfer false e) →
      ∃ k, total = 4 * k ∧ Sent mboxData count k tr)
    (Q := fun tr x => (∀ e ∈ tr, Transfer false e) → x = some count ∧ Sent mboxData count count tr) h
    (show _ → ∃ k, 0 = 4 * k ∧ Sent mboxData count k [] from fun _ => ⟨0, rfl, .nil (by omega)⟩)
    ?_ ?_ hok
  · intro total tr₀ tr total' hJ hbody hok
    obtain ⟨hok₀, hok₁⟩ := List.forall_mem_append.mp hok
    obtain ⟨k, rfl, hsent⟩ := hJ hok₀
    rw [toInt32_four hpos hint] at hbody
    split at hbody
    · obtain ⟨tr₁, tr₂, fd, rfl, hopen, hw⟩ := Prog.ends_bind.mp hbody
      obtain ⟨y, tr₃, rfl, hret⟩ := hw.perform
      cases y with
      | error e => cases hret
      | ok n =>
        obtain ⟨rfl, heq⟩ := Prog.ends_ret.mp hret
        obtain rfl := Sum.inl.inj heq
        have hsize : toSize (4 * count - 4 * k) = (4 * count - 4 * k).toNat :=
          toSize_of_range (by omega) (by have := hsent.1; omega)
        rw [hsize] at hok₁ ⊢
        have htransfer := hok₁ _ (List.mem_append_right _ (.head _))
        obtain ⟨m, rfl⟩ := htransfer.1
        refine ⟨k + m, by push_cast; omega, ?_⟩
        rw [← List.append_assoc]
        have := (hsent.idle (baseSpeOpenIfClosed_idle hopen)).write htransfer
        simpa using this
    · cases hbody
  · intro total tr₀ tr x hJ hbody hok
    obtain ⟨hok₀, hok₁⟩ := List.forall_mem_append.mp hok
    obtain ⟨k, rfl, hsent⟩ := hJ hok₀
    rw [toInt32_four hpos hint] at hbody
    split at hbody
    · obtain ⟨tr₁, tr₂, fd, rfl, hopen, hw⟩ := Prog.ends_bind.mp hbody
      obtain ⟨y, tr₃, rfl, hret⟩ := hw.perform
      cases y with
      | error e =>
        have htransfer : false = true ∧ _ := hok₁ _ (List.mem_append_right _ (.head _))
        exact absurd htransfer.1 (by decide)
      | ok n => cases hret
    · next hge =>
      obtain ⟨rfl, heq⟩ := Prog.ends_ret.mp hbody
      obtain rfl := Sum.inr.inj heq
      have hk : k = count := by have := hsent.2.1; omega
      subst hk
      rw [List.append_nil]
      exact ⟨congrArg some (by rw [Int.mul_tdiv_cancel_left _ (by decide)]), hsent⟩

/-- One write of the array, of which `n` words have gone. -/
theorem inMboxWriteFile_ends {x : Except Errno Int}
    (h : (inMboxWriteFile c d mboxData count).Ends tr x) (hpos : 1 ≤ count)
    (hint : 4 * count < 2 ^ 31) (hok : ∀ e ∈ tr, Transfer nb e) :
    match x with
    | .ok r => Sent mboxData count r tr ∧ (nb = false → 1 ≤ r)
    | .error e => nb = true ∧ e = .EAGAIN ∧ bytesSent tr = [] := by
  obtain ⟨tr₁, tr₂, fd, rfl, hopen, hw⟩ := Prog.ends_bind.mp h
  have hidle := baseSpeOpenIfClosed_idle hopen
  obtain ⟨y, tr₃, rfl, hret⟩ := hw.perform
  have htransfer := hok _ (List.mem_append_right _ (.head _))
  cases y with
  | error e =>
    obtain ⟨rfl, rfl⟩ := Prog.ends_ret.mp hret
    obtain ⟨hnb, rfl⟩ : nb = true ∧ e = .EAGAIN := htransfer
    exact ⟨hnb, rfl, by rw [bytesSent_append, hidle.bytesSent]; rfl⟩
  | ok n =>
    obtain ⟨rfl, rfl⟩ := Prog.ends_ret.mp hret
    have hall : (encode mboxData).take (toSize (toInt32 (4 * count))) =
        ((encode mboxData).drop (4 * (0 : Int)).toNat).take (4 * count - 4 * 0).toNat := by
      rw [toInt32_four hpos hint, toSize_of_range (by omega) hint, Int.mul_zero, Int.sub_zero]
      rfl
    rw [hall] at htransfer ⊢
    have hsent : Sent mboxData count 0 ([] ++ tr₁) := (Sent.nil (by omega)).idle hidle
    have hwrite := hsent.write htransfer
    obtain ⟨⟨m, rfl⟩, -, hblock⟩ := htransfer
    have hm : ((4 * m : Nat) : Int).tdiv 4 = m := by
      push_cast
      exact Int.mul_tdiv_cancel_left _ (by decide)
    dsimp only
    rw [hm]
    refine ⟨?_, fun hnb => by have := hblock hnb; omega⟩
    simpa using hwrite

end Write

end

end LibSpe2
