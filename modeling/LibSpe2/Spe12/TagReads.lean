import Mathlib.Data.List.Basic

/-!
# Waiting for tag groups (`libspe12/dma.c`)

A read of a context's `mfc` file gives the tags that have completed since the last one. The two calls read until
they have what they wait for, all tags of a mask or any of them.

* `readTagStatusNoblock`, `readTagStatusAsync` — one read, without and with a `poll`.
* `TagCall.run` — the calls on the answers of the system, as far as these go.
* `TagCall.expected` — what a call is to return on them, and when.

Main result:
* `waits_iff` — the answers on which a call returns what it should, when it should.
-/

namespace LibSpe2.Spe12.Tags

/-! ## The answers of the system -/

/-- What `read` returns, and the word that it has stored if this is 4. -/
structure ReadAnswer where
  rRead : Int
  word : UInt32

/-- What `poll` returns, and `revents`. -/
structure PollAnswer where
  ret : Int
  revents : UInt32

/-- A `poll` and the `read` after it. -/
structure Round where
  poll : PollAnswer
  read : ReadAnswer

/-- The word of a full read. -/
def ReadAnswer.full (r : ReadAnswer) : Option UInt32 := if r.rRead = 4 then some r.word else none

/-! ## The code -/

/-- `-1` as an `int`. -/
def minusOne : UInt32 := 0xffffffff

def pollIn : UInt32 := 1

/-- `read_tag_status_noblock`. -/
def readTagStatusNoblock (r : ReadAnswer) : UInt32 := if r.rRead = 4 then r.word else minusOne

/-- `read_tag_status_async`. The result of `poll` is in an unsigned variable. -/
def readTagStatusAsync (p : PollAnswer) (r : ReadAnswer) : UInt32 :=
  let ret := UInt32.ofInt p.ret
  if ret < 0 ∨ p.revents ||| pollIn = 0 then minusOne
  else if r.rRead = 4 then r.word else minusOne

/-- The loop that both calls have: `while (!leaves)`, on the answers from here on. -/
def waitLoop (leaves : UInt32 → Bool) (mask status : UInt32) : List Round → Option UInt32
  | [] => if leaves status then some (status &&& mask) else none
  | r :: rs =>
    if leaves status then some (status &&& mask)
    else
      let status := readTagStatusAsync r.poll r.read
      if status = minusOne then some minusOne else waitLoop leaves mask status rs

/-- `spe_mfc_read_tag_status_all`; `none` is that it still waits. -/
def speMfcReadTagStatusAll (mask : UInt32) (first : ReadAnswer) (rs : List Round) : Option UInt32 :=
  let status := readTagStatusNoblock first
  if status = minusOne then some minusOne
  else waitLoop (fun status => status &&& mask = mask) mask status rs

/-- `spe_mfc_read_tag_status_any`. -/
def speMfcReadTagStatusAny (mask : UInt32) (first : ReadAnswer) (rs : List Round) : Option UInt32 :=
  let status := readTagStatusNoblock first
  if status = minusOne then some minusOne
  else waitLoop (fun status => status &&& mask ≠ 0) mask status rs

/-- The two calls. -/
inductive TagCall where
  | all | any
  deriving DecidableEq

def TagCall.run (call : TagCall) : UInt32 → ReadAnswer → List Round → Option UInt32 :=
  match call with
  | all => speMfcReadTagStatusAll
  | any => speMfcReadTagStatusAny

/-! ## The law -/

/-- The word of a round, if neither its `poll` nor its `read` has failed. -/
def Round.word (r : Round) : Option UInt32 := if r.poll.ret < 0 then none else r.read.full

/-- The first read, which no `poll` precedes. -/
def firstRound (first : ReadAnswer) : Round := ⟨⟨1, pollIn⟩, first⟩

/-- What is to be returned after the word `w`, if the tags `acc` have completed before. -/
def TagCall.due (mask acc w : UInt32) : TagCall → Option UInt32
  | all => if (acc ||| w) &&& mask = mask then some mask else none
  | any => if w &&& mask ≠ 0 then some (w &&& mask) else none

/-- What a call is to return on some rounds, if the tags `acc` have completed before. -/
def TagCall.expected (call : TagCall) (mask : UInt32) : (acc : UInt32) → List Round → Option UInt32
  | _, [] => none
  | acc, r :: rs =>
    match r.word with
    | none => some minusOne
    | some w => (call.due mask acc w).or (call.expected mask (acc ||| w) rs)

/-- **The law**: on the answers up to any point, the call has returned what it should. -/
def TagCall.Waits (call : TagCall) (mask : UInt32) (first : ReadAnswer) (rs : List Round) : Prop :=
  ∀ n, call.run mask first (rs.take n) = call.expected mask 0 (firstRound first :: rs.take n)

/-! ## The condition -/

/-- A round that goes right: where `poll` has failed, there is nothing to read; a word of ones is for a mask of
ones; and the last of the tags come in one word. -/
def TagCall.Right (mask acc : UInt32) (r : Round) (call : TagCall) : Prop :=
  (r.poll.ret < 0 → ∀ w, r.read.full = some w → w = minusOne) ∧
    ∀ w, r.word = some w →
      match call with
      | all => (acc ||| w) &&& mask = mask → w &&& mask = mask ∧ (w = minusOne → mask = minusOne)
      | any => w = minusOne → mask = minusOne

/-- **The condition**: each round that is reached goes right. -/
def TagCall.Spared (call : TagCall) (mask : UInt32) : (acc : UInt32) → List Round → Prop
  | _, [] => True
  | acc, r :: rs => call.Right mask acc r ∧
      ∀ w, r.word = some w → call.due mask acc w = none → call.Spared mask (acc ||| w) rs

/-! ## The code, round by round -/

section

variable {call : TagCall} {mask acc w : UInt32} {r : Round} {rs : List Round}

/-- The failure of a `poll` is not noticed. -/
theorem readTagStatusAsync_eq (p : PollAnswer) (r : ReadAnswer) :
    readTagStatusAsync p r = readTagStatusNoblock r := by
  have hnever : ¬(UInt32.ofInt p.ret < 0 ∨ p.revents ||| pollIn = 0) := by
    intro h
    rcases h with h | h
    · exact UInt32.not_lt_zero h
    · rw [UInt32.or_eq_zero_iff] at h
      exact absurd h.2 (by decide)
  unfold readTagStatusAsync
  dsimp only
  rw [if_neg hnever]
  rfl

/-- The test of the loop. -/
def TagCall.leaves (mask status : UInt32) : TagCall → Bool
  | all => status &&& mask = mask
  | any => status &&& mask ≠ 0

/-- What the code does about the result of a read. -/
def TagCall.after (call : TagCall) (mask status : UInt32) : Option UInt32 :=
  if status = minusOne then some minusOne
  else if call.leaves mask status then some (status &&& mask) else none

theorem after_minusOne : call.after mask minusOne = some minusOne := if_pos rfl

theorem waitLoop_eq {status : UInt32} (h : status ≠ minusOne) : waitLoop (call.leaves mask) mask status rs =
    (status :: rs.map fun r => readTagStatusNoblock r.read).findSome? (call.after mask) := by
  induction rs generalizing status with
  | nil =>
    rw [waitLoop, List.map_nil, List.findSome?_cons, TagCall.after, if_neg h]
    split <;> rfl
  | cons r rs ih =>
    rw [waitLoop, List.map_cons, List.findSome?_cons, TagCall.after, if_neg h]
    split
    · rfl
    · dsimp only
      rw [readTagStatusAsync_eq]
      split
      · next hminus => rw [hminus, List.findSome?_cons, after_minusOne]
      · next hword => exact ih hword

/-- **The code**: the first read that it returns for. -/
theorem run_eq (first : ReadAnswer) : call.run mask first rs =
    ((firstRound first :: rs).map fun r => readTagStatusNoblock r.read).findSome? (call.after mask) := by
  have hrun : call.run mask first rs = if readTagStatusNoblock first = minusOne then some minusOne
      else waitLoop (call.leaves mask) mask (readTagStatusNoblock first) rs := by
    cases call <;> rfl
  rw [hrun, List.map_cons]
  show _ = List.findSome? _ (readTagStatusNoblock first :: _)
  split
  · next hminus => rw [hminus, List.findSome?_cons, after_minusOne]
  · next hword => exact waitLoop_eq hword

/-! ## One round -/

/-- What is to be returned after a round. -/
def TagCall.verdict (call : TagCall) (mask acc : UInt32) (r : Round) : Option UInt32 :=
  match r.word with
  | none => some minusOne
  | some w => call.due mask acc w

theorem minusOne_toBitVec : minusOne.toBitVec = BitVec.allOnes 32 := rfl

theorem minusOne_and : minusOne &&& mask = mask := by
  rw [← UInt32.toBitVec_inj, UInt32.toBitVec_and, minusOne_toBitVec, BitVec.allOnes_and]

theorem or_minusOne : acc ||| minusOne = minusOne := by
  rw [← UInt32.toBitVec_inj, UInt32.toBitVec_or, minusOne_toBitVec, BitVec.or_allOnes]

/-- A word that has all tags of the mask. -/
theorem covers_of_word (h : w &&& mask = mask) : (acc ||| w) &&& mask = mask := by
  rw [← UInt32.toBitVec_inj, UInt32.toBitVec_and] at h ⊢
  rw [UInt32.toBitVec_or]
  ext i hi
  have hbit := congrArg (·[i]) h
  simp only [BitVec.getElem_and, BitVec.getElem_or] at hbit ⊢
  rw [Bool.and_or_distrib_right, hbit]
  cases mask.toBitVec[i] <;> simp

/-- A word that has been read. -/
theorem after_due : call.after mask w = call.due mask acc w ↔
    match call with
    | .all => (acc ||| w) &&& mask = mask → w &&& mask = mask ∧ (w = minusOne → mask = minusOne)
    | .any => w = minusOne → mask = minusOne := by
  cases call with
  | all =>
    show TagCall.after .all mask w = TagCall.due mask acc w .all ↔ _
    unfold TagCall.after TagCall.due
    by_cases hminus : w = minusOne
    · subst hminus
      simp [or_minusOne, minusOne_and, eq_comm]
    · by_cases hw : w &&& mask = mask
      · simp [TagCall.leaves, hminus, hw, covers_of_word hw]
      · by_cases hcovers : (acc ||| w) &&& mask = mask <;> simp [TagCall.leaves, hminus, hw, hcovers]
  | any =>
    show TagCall.after .any mask w = TagCall.due mask acc w .any ↔ _
    unfold TagCall.after TagCall.due
    by_cases hminus : w = minusOne
    · subst hminus
      by_cases hmask : mask = 0
      · subst hmask
        simp [minusOne]
      · simp [minusOne_and, hmask, eq_comm]
    · simp [TagCall.leaves, hminus]

/-- An error is returned for nothing else than an error, or a word of ones. -/
theorem after_eq_minusOne {status : UInt32} : call.after mask status = some minusOne ↔ status = minusOne := by
  constructor
  · intro h
    by_contra hne
    rw [TagCall.after, if_neg hne] at h
    obtain ⟨-, heq⟩ := Option.ite_none_right_eq_some.mp h
    apply hne
    rw [Option.some.injEq, ← UInt32.toBitVec_inj, UInt32.toBitVec_and, minusOne_toBitVec] at heq
    rw [← UInt32.toBitVec_inj]
    exact (BitVec.and_eq_allOnes_iff.mp heq).1
  · intro h
    rw [h, after_minusOne]

theorem noblock_eq (a : ReadAnswer) : readTagStatusNoblock a = a.full.getD minusOne := by
  unfold readTagStatusNoblock ReadAnswer.full
  split <;> rfl

/-- A round goes right if the code does what it should. -/
theorem right_iff : call.Right mask acc r ↔
    call.after mask (readTagStatusNoblock r.read) = call.verdict mask acc r := by
  unfold TagCall.Right TagCall.verdict Round.word
  rw [noblock_eq]
  by_cases hpoll : r.poll.ret < 0
  · cases hfull : r.read.full with
    | none => simp [hpoll, after_minusOne]
    | some w => simp [hpoll, after_eq_minusOne]
  · cases hfull : r.read.full with
    | none => simp [hpoll, after_minusOne]
    | some w => simpa [hpoll] using after_due.symm

/-! ## All rounds -/

/-- The law for the rounds from some point on. -/
def TagCall.Agrees (call : TagCall) (mask acc : UInt32) (rs : List Round) : Prop :=
  ∀ n, ((rs.take n).map fun r => readTagStatusNoblock r.read).findSome? (call.after mask) =
    call.expected mask acc (rs.take n)

theorem expected_cons : call.expected mask acc (r :: rs) =
    (call.verdict mask acc r).or (r.word.bind fun w => call.expected mask (acc ||| w) rs) := by
  rw [TagCall.expected, TagCall.verdict]
  cases r.word <;> rfl

/-- One round, and the rest if it goes on. -/
theorem agrees_cons : call.Agrees mask acc (r :: rs) ↔ call.Right mask acc r ∧
    ∀ w, r.word = some w → call.due mask acc w = none → call.Agrees mask (acc ||| w) rs := by
  rw [right_iff]
  have hsucc (n : Nat) : (((r :: rs).take (n + 1)).map fun r => readTagStatusNoblock r.read).findSome?
      (call.after mask) = (call.after mask (readTagStatusNoblock r.read)).or
        (((rs.take n).map fun r => readTagStatusNoblock r.read).findSome? (call.after mask)) := by
    rw [List.take_succ_cons, List.map_cons, List.findSome?_cons]
    cases call.after mask (readTagStatusNoblock r.read) <;> rfl
  constructor
  · intro h
    have hfirst : call.after mask (readTagStatusNoblock r.read) = call.verdict mask acc r := by
      have hone := h 1
      rw [hsucc, List.take_succ_cons, expected_cons, List.take_zero] at hone
      have hnil : (r.word.bind fun w => call.expected mask (acc ||| w) []) = none := by
        cases r.word <;> rfl
      rw [hnil] at hone
      simpa using hone
    refine ⟨hfirst, fun w hw hdue n => ?_⟩
    have hnext := h (n + 1)
    have hverdict : call.verdict mask acc r = none := by
      rw [TagCall.verdict, hw]
      exact hdue
    rw [hsucc, hfirst, List.take_succ_cons, expected_cons, hverdict, hw] at hnext
    exact hnext
  · intro ⟨hfirst, hrest⟩ n
    cases n with
    | zero => rfl
    | succ n =>
      rw [hsucc, hfirst, List.take_succ_cons, expected_cons]
      cases hverdict : call.verdict mask acc r with
      | some v => rfl
      | none =>
        cases hw : r.word with
        | none =>
          rw [TagCall.verdict, hw] at hverdict
          cases hverdict
        | some w =>
          rw [TagCall.verdict, hw] at hverdict
          exact hrest w hw hverdict n

theorem agrees_iff : call.Agrees mask acc rs ↔ call.Spared mask acc rs := by
  induction rs generalizing acc with
  | nil => exact iff_of_true (fun n => by rw [List.take_nil]; rfl) trivial
  | cons r rs ih =>
    rw [agrees_cons, TagCall.Spared]
    simp only [ih]

/-- **Waiting for tags**: on the answers of any system, a call returns what it should when it should exactly if
each round that is reached goes right. -/
theorem waits_iff (call : TagCall) (mask : UInt32) (first : ReadAnswer) (rs : List Round) :
    call.Waits mask first rs ↔ call.Spared mask 0 (firstRound first :: rs) := by
  rw [← agrees_iff]
  unfold TagCall.Waits
  simp only [run_eq]
  constructor
  · intro h n
    cases n with
    | zero => rfl
    | succ n => exact h n
  · exact fun h n => h (n + 1)

/-- Two tags that complete one after the other: the call for all of them does not return. -/
theorem all_forgets : ¬∀ (call : TagCall) (mask : UInt32) (first : ReadAnswer) (rs : List Round),
    call.Waits mask first rs := by
  intro h
  have hlost := h .all 3 ⟨4, 1⟩ [⟨⟨1, 1⟩, ⟨4, 2⟩⟩] 1
  exact absurd hlost (by decide)

end

end LibSpe2.Spe12.Tags
