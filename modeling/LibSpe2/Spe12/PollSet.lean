import LibSpe2.Data.Words
import LibSpe2.Spe12.Event
import Mathlib.Data.List.Range

/-!
# The arrays of `spe_get_event` (`libspe12/spethreads.c`)

One pass over the members of the group counts the descriptors to poll, the two arrays are allocated for as many,
and another pass fills them. Each of them has its own tests of the event mask.

* `countPass`, `setupPass` — the passes with their counters, `numSPEsToPoll` and `setupSPEs`.
* `Passes.Exact` — the arrays are filled, and not written beyond their ends.

Main results:
* `speGetEvent_passes` — the passes are those of `speGetEvent`.
* `passes_exact_iff` — the masks for which the arrays are filled exactly.
-/

namespace LibSpe2.Spe12

open Conc

/-! ## The passes -/

/-- "Decide on what fd's to poll on". -/
def countPass (events : UInt32) : List Tid → (numSPEsToPoll : Nat) → Nat
  | [], n => n
  | _ :: ths, n =>
    let n := if events &&& speEventMailbox ≠ 0 then n + 1 else n
    let n := if events &&& speEventTagGroup ≠ 0 then n + 1 else n
    let n := if events &&& countedEvents ≠ 0 then n + 1 else n
    countPass events ths n

/-- A store to `SPEfds[index]` and `phelper[index]`. -/
structure Write where
  index : Nat
  entry : PollEntry

/-- What has been stored, and `setupSPEs`. -/
structure SetUp where
  writes : List Write
  setupSPEs : Nat

/-- One `if` of the loop: a descriptor, its entry, and `setupSPEs++`. -/
def SetUp.write (s : SetUp) (fd : Fd) (th : Tid) (type : PollType) : SetUp :=
  ⟨s.writes ++ [⟨s.setupSPEs, ⟨fd, th, type⟩⟩], s.setupSPEs + 1⟩

def setupMailbox (events : UInt32) (th : Tid) (s : SetUp) : Code SetUp :=
  if events &&& speEventMailbox ≠ 0 then do
    let fd ← perform (.openIfClosed th .ibox)
    return s.write fd th .mailbox
  else return s

def setupPipe (events : UInt32) (th : Tid) (s : SetUp) : Code SetUp :=
  if events &&& polledEvents ≠ 0 then do
    let fd ← perform (.pipeFd th)
    return s.write fd th .pipe
  else return s

def setupTagGroup (events : UInt32) (th : Tid) (s : SetUp) : Code SetUp :=
  if events &&& speEventTagGroup ≠ 0 then do
    let fd ← perform (.openIfClosed th .mfc)
    return s.write fd th .tagGroup
  else return s

/-- "Set up all necessary fds to poll on and remeber what they are for." -/
def setupPass (events : UInt32) : List Tid → SetUp → Code SetUp
  | [], s => return s
  | th :: ths, s => do
    let s ← setupMailbox events th s
    let s ← setupPipe events th s
    let s ← setupTagGroup events th s
    setupPass events ths s

/-- How the passes end: nothing is to be polled, or both arrays have been set up. -/
inductive Passes where
  | nothing
  | setUp (numSPEsToPoll : Nat) (s : SetUp)

/-- `spe_get_event` after a scan that has found nothing, up to the test for a mismatch. -/
def passes (events : UInt32) (members : List Tid) : Code Passes :=
  let numSPEsToPoll := countPass events members 0
  if numSPEsToPoll = 0 then return .nothing
  else do
    let s ← setupPass events members ⟨[], 0⟩
    return .setUp numSPEsToPoll s

/-- `poll` of the descriptors that were set up, and what it finds. -/
def pollEntries (events : UInt32) (timeout : Int) (entries : List PollEntry) : Code (Int × SpeEvent) := do
  perform .unlockGroups
  let (pollRet, ready) ← perform (.poll (entries.map (·.fd)) timeout)
  if pollRet = 0 then return (0, noEvent)
  else readEntries events (entries.zip ready) []

/-- An error is returned. -/
def failPasses (errno : Int) : Code (Int × SpeEvent) := do
  perform .unlockGroups
  perform (.setErrno errno)
  return (-1, noEvent)

/-- What follows the passes. -/
def afterPasses (events : UInt32) (timeout : Int) : Passes → Code (Int × SpeEvent)
  | .nothing => failPasses 22
  | .setUp numSPEsToPoll s =>
    if s.setupSPEs ≠ numSPEsToPoll then failPasses 14
    else pollEntries events timeout (s.writes.map (·.entry))

/-! ## The law -/

/-- The pass stores below `numSPEsToPoll` only, as many entries as this, and finds that it has. -/
def Passes.Exact : Passes → Prop
  | .nothing => True
  | .setUp numSPEsToPoll s =>
    (∀ w ∈ s.writes, w.index < numSPEsToPoll) ∧ s.writes.length = numSPEsToPoll ∧ s.setupSPEs = numSPEsToPoll

/-- **The condition**: a mask with `SPE_EVENT_INVALID_DMA_CMD` has another event for which the pipe is polled,
or none for another file; or the group is empty. -/
def Counted (events : UInt32) (members : List Tid) : Prop :=
  members = [] ∨ events &&& speEventInvalidDmaCmd = 0 ∨ events &&& countedEvents ≠ 0 ∨
    events &&& (speEventMailbox ||| speEventTagGroup) = 0

/-! ## The passes of `speGetEvent` -/

section

variable {events : UInt32} {th : Tid} {ths : List Tid} {s : SetUp}

theorem countPass_eq (n : Nat) : countPass events ths n = n + ths.length * fdsToPoll events := by
  induction ths generalizing n with
  | nil => simp [countPass]
  | cons th ths ih =>
    rw [countPass, ih, List.length_cons, Nat.succ_mul, fdsToPoll]
    split <;> split <;> split <;> omega

/-- The stores of `entries`, one after the other. -/
def SetUp.add (s : SetUp) (entries : List PollEntry) : SetUp :=
  ⟨s.writes ++ (entries.zipIdx s.setupSPEs).map fun (e, i) => ⟨i, e⟩, s.setupSPEs + entries.length⟩

theorem SetUp.add_append (es es' : List PollEntry) : s.add (es ++ es') = (s.add es).add es' := by
  simp [SetUp.add, List.zipIdx_append, Nat.add_assoc]

@[simp] theorem SetUp.add_nil : s.add [] = s := by simp [SetUp.add]

/-- An `if` that stores an entry is one that makes the entry. -/
theorem store_eq {c : Prop} [Decidable c] {fd : Code Fd} {type : PollType} :
    (if c then fd >>= fun fd => return s.write fd th type else return s : Code SetUp) =
      (if c then fd >>= fun fd => return [⟨fd, th, type⟩] else return [] : Code (List PollEntry)).bind
        fun es => .ret (s.add es) := by
  split
  · show Prog.bind fd _ = (Prog.bind fd _).bind _
    rw [Prog.bind_assoc]
    rfl
  · show Prog.ret s = .ret (s.add [])
    rw [SetUp.add_nil]

/-- The pass stores the entries that `setupPoll` makes. -/
theorem setupPass_eq : setupPass events ths s = (setupPoll events ths).bind fun es => .ret (s.add es) := by
  induction ths generalizing s with
  | nil =>
    show Prog.ret s = .ret (s.add [])
    rw [SetUp.add_nil]
  | cons th ths ih =>
    have hmailbox (s : SetUp) :
        setupMailbox events th s = (mailboxEntry events th).bind fun es => .ret (s.add es) := store_eq
    have hpipe (s : SetUp) : setupPipe events th s = (pipeEntry events th).bind fun es => .ret (s.add es) :=
      store_eq
    have htagGroup (s : SetUp) :
        setupTagGroup events th s = (tagGroupEntry events th).bind fun es => .ret (s.add es) := store_eq
    show (setupMailbox events th s).bind (fun s => (setupPipe events th s).bind fun s =>
      (setupTagGroup events th s).bind fun s => setupPass events ths s) =
        ((mailboxEntry events th).bind fun es₁ => (pipeEntry events th).bind fun es₂ =>
          (tagGroupEntry events th).bind fun es₃ => (setupPoll events ths).bind fun es₄ =>
            .ret (es₁ ++ es₂ ++ es₃ ++ es₄)).bind fun es => .ret (s.add es)
    simp only [hmailbox, hpipe, htagGroup, ih, Prog.bind_assoc, Prog.ret_bind, SetUp.add_append]

theorem entries_add (es : List PollEntry) : ((⟨[], 0⟩ : SetUp).add es).writes.map (·.entry) = es := by
  show (([] : List Write) ++ (es.zipIdx 0).map fun (e, i) => (⟨i, e⟩ : Write)).map Write.entry = es
  rw [List.nil_append, List.map_map]
  exact List.zipIdx_map_fst 0 es

/-- What follows the scan, with the passes. -/
theorem pollEvent_passes (events : UInt32) (timeout : Int) (members : List Tid) :
    ((passes events members).bind (afterPasses events timeout) : Code (Int × SpeEvent)) =
      if members.length * fdsToPoll events = 0 then failPasses 22 else pollEvent events timeout members := by
  unfold passes
  rw [countPass_eq, Nat.zero_add]
  dsimp only
  by_cases hnum : members.length * fdsToPoll events = 0
  · rw [if_pos hnum, if_pos hnum]
    rfl
  · rw [if_neg hnum, if_neg hnum]
    show ((setupPass events members ⟨[], 0⟩).bind fun s => .ret (Passes.setUp _ s)).bind _ = _
    rw [setupPass_eq, Prog.bind_assoc, Prog.bind_assoc]
    show _ = (setupPoll events members).bind _
    congr 1
    funext es
    show afterPasses events timeout (.setUp _ _) = _
    have hlen : ((⟨[], 0⟩ : SetUp).add es).setupSPEs = es.length := Nat.zero_add _
    rw [afterPasses, entries_add, hlen]
    rfl

/-- **The passes of the code**: `speGetEvent` is a scan, these, and what follows. -/
theorem speGetEvent_passes (gid : Gid) (events : UInt32) (timeout : Int) :
    speGetEvent gid events timeout =
      (perform .lockGroups).bind fun _ => (perform (.grpMembers gid)).bind fun members =>
        (scan events members).bind fun found =>
          match found with
          | some found => (perform .unlockGroups).bind fun _ => .ret (1, found)
          | none => (passes events members).bind (afterPasses events timeout) := by
  simp only [pollEvent_passes]
  rfl

/-! ## How much is stored -/

/-- The number of entries for each member. -/
def entriesPerMember (events : UInt32) : Nat :=
  (if events &&& speEventMailbox ≠ 0 then 1 else 0) + (if events &&& polledEvents ≠ 0 then 1 else 0) +
    if events &&& speEventTagGroup ≠ 0 then 1 else 0

theorem entry_ends {c : Prop} [Decidable c] {fd : Code Fd} {type : PollType} {tr : List (Sigma Ans)}
    {es : List PollEntry}
    (h : (if c then fd >>= fun fd => return [⟨fd, th, type⟩] else return [] :
      Code (List PollEntry)).Ends tr es) : es.length = if c then 1 else 0 := by
  by_cases hc : c
  · rw [if_pos hc] at h ⊢
    obtain ⟨tr₁, tr₂, fd, rfl, -, h₂⟩ := Prog.ends_bind.mp h
    obtain ⟨rfl, rfl⟩ := Prog.ends_ret.mp h₂
    rfl
  · rw [if_neg hc] at h ⊢
    obtain ⟨rfl, rfl⟩ := Prog.ends_ret.mp h
    rfl

theorem setupPoll_ends {tr : List (Sigma Ans)} {es : List PollEntry} (h : (setupPoll events ths).Ends tr es) :
    es.length = ths.length * entriesPerMember events := by
  induction ths generalizing tr es with
  | nil =>
    obtain ⟨-, rfl⟩ := Prog.ends_ret.mp h
    simp
  | cons th ths ih =>
    obtain ⟨_, _, es₁, rfl, h₁, h⟩ := Prog.ends_bind.mp h
    obtain ⟨_, _, es₂, rfl, h₂, h⟩ := Prog.ends_bind.mp h
    obtain ⟨_, _, es₃, rfl, h₃, h⟩ := Prog.ends_bind.mp h
    obtain ⟨_, _, es₄, rfl, h₄, h⟩ := Prog.ends_bind.mp h
    obtain ⟨-, rfl⟩ := Prog.ends_ret.mp h
    have hrest := ih h₄
    have hmailbox : es₁.length = if events &&& speEventMailbox ≠ 0 then 1 else 0 := entry_ends h₁
    have hpipe : es₂.length = if events &&& polledEvents ≠ 0 then 1 else 0 := entry_ends h₂
    have htagGroup : es₃.length = if events &&& speEventTagGroup ≠ 0 then 1 else 0 := entry_ends h₃
    rw [List.length_append, List.length_append, List.length_append, hrest, hmailbox, hpipe, htagGroup,
      List.length_cons, Nat.succ_mul, Nat.add_comm]
    rfl

/-! ## The masks -/

/-- The two passes count alike, or not. -/
theorem entriesPerMember_eq : entriesPerMember events = fdsToPoll events ↔
    events &&& speEventInvalidDmaCmd = 0 ∨ events &&& countedEvents ≠ 0 := by
  have hpolled : events &&& polledEvents = 0 ↔
      events &&& countedEvents = 0 ∧ events &&& speEventInvalidDmaCmd = 0 := Words.and_or_eq_zero
  unfold entriesPerMember fdsToPoll
  by_cases hcounted : events &&& countedEvents = 0
  · by_cases hdma : events &&& speEventInvalidDmaCmd = 0
    · simp [hpolled, hcounted, hdma]
    · simp [hpolled, hcounted, hdma]
  · simp [hpolled, hcounted]
    omega

/-- Nothing is counted. -/
theorem fdsToPoll_eq_zero : fdsToPoll events = 0 ↔ events &&& countedEvents = 0 ∧
    events &&& (speEventMailbox ||| speEventTagGroup) = 0 := by
  rw [Words.and_or_eq_zero]
  unfold fdsToPoll
  split <;> split <;> split <;> simp_all

/-- What the second pass leaves. -/
theorem setupPass_ends {tr : List (Sigma Ans)} {s : SetUp} (h : (setupPass events ths ⟨[], 0⟩).Ends tr s) :
    s.writes.map (·.index) = List.range (ths.length * entriesPerMember events) ∧
      s.setupSPEs = ths.length * entriesPerMember events := by
  rw [setupPass_eq] at h
  obtain ⟨tr₁, tr₂, es, rfl, h₁, h₂⟩ := Prog.ends_bind.mp h
  obtain ⟨-, rfl⟩ := Prog.ends_ret.mp h₂
  rw [← setupPoll_ends h₁]
  refine ⟨?_, Nat.zero_add _⟩
  show (([] : List Write) ++ (es.zipIdx 0).map fun (e, i) => (⟨i, e⟩ : Write)).map Write.index = _
  rw [List.nil_append, List.map_map, List.range_eq_range']
  exact List.zipIdx_map_snd 0 es

/-- **The poll set**: for every group and every mask, the arrays are filled exactly if and only if the passes
count alike. -/
theorem passes_exact_iff {members : List Tid} {tr : List (Sigma Ans)} {ps : Passes}
    (h : (passes events members).Ends tr ps) : ps.Exact ↔ Counted events members := by
  unfold passes at h
  rw [countPass_eq, Nat.zero_add] at h
  dsimp only at h
  by_cases hnum : members.length * fdsToPoll events = 0
  · -- no pass
    rw [if_pos hnum] at h
    obtain ⟨-, rfl⟩ := Prog.ends_ret.mp h
    refine iff_of_true trivial ?_
    rcases Nat.mul_eq_zero.mp hnum with hlen | hfds
    · exact .inl (List.length_eq_zero_iff.mp hlen)
    · exact .inr (.inr (.inr (fdsToPoll_eq_zero.mp hfds).2))
  rw [if_neg hnum] at h
  obtain ⟨tr₁, tr₂, s, rfl, h₁, h₂⟩ := Prog.ends_bind.mp h
  obtain ⟨-, rfl⟩ := Prog.ends_ret.mp h₂
  obtain ⟨hwrites, hset⟩ := setupPass_ends h₁
  have hlen : s.writes.length = members.length * entriesPerMember events := by
    rw [← List.length_map Write.index, hwrites, List.length_range]
  have hpos : 0 < members.length := Nat.pos_of_ne_zero fun h => hnum (by rw [h, Nat.zero_mul])
  have hfds : fdsToPoll events ≠ 0 := fun h => hnum (by rw [h, Nat.mul_zero])
  have hexact : (Passes.setUp (members.length * fdsToPoll events) s).Exact ↔
      entriesPerMember events = fdsToPoll events := by
    constructor
    · intro ⟨_, _, hall⟩
      rw [hset] at hall
      exact Nat.eq_of_mul_eq_mul_left hpos hall
    · intro hsame
      rw [hsame] at hwrites hlen hset
      refine ⟨fun w hw => ?_, hlen, hset⟩
      have hmem : w.index ∈ s.writes.map Write.index := List.mem_map_of_mem hw
      rw [hwrites] at hmem
      exact List.mem_range.mp hmem
  rw [hexact, entriesPerMember_eq]
  unfold Counted
  rw [Ne, fdsToPoll_eq_zero] at hfds
  have hne : members ≠ [] := List.ne_nil_of_length_pos hpos
  tauto

/-- A member that has a mailbox to be polled, and a pipe for an event of `SPE_EVENT_INVALID_DMA_CMD`: two
entries where one was counted. -/
theorem dma_overflows : ¬∀ (events : UInt32) (members : List Tid) (tr : List (Sigma Ans)) (ps : Passes),
    (passes events members).Ends tr ps → ps.Exact := by
  intro h
  have hends : (passes 0x801 [0]).Ends [⟨.openIfClosed 0 .ibox, 5⟩, ⟨.pipeFd 0, 7⟩]
      (.setUp 1 ⟨[⟨0, ⟨5, 0, .mailbox⟩⟩, ⟨1, ⟨7, 0, .pipe⟩⟩], 2⟩) := .cmd (.cmd .ret)
  obtain ⟨hall, -, -⟩ := h _ _ _ _ hends
  have hlt := hall ⟨1, ⟨7, 0, .pipe⟩⟩ (by simp)
  exact absurd hlt (by decide)

/-- The trace of a set-up pass for the mailbox, the pipe and the tag groups; the files of the member `th` are
`10 * th` and those after it. -/
def openThree (th : Tid) : List (Sigma Ans) :=
  [⟨.openIfClosed th .ibox, (10 * th : Int)⟩, ⟨.pipeFd th, (10 * th + 1 : Int)⟩,
    ⟨.openIfClosed th .mfc, (10 * th + 2 : Int)⟩]

/-- Three members, and a mask for the mailbox, stops, tag groups and `SPE_EVENT_INVALID_DMA_CMD`: nine entries. -/
theorem three_members_exact : ∃ s : SetUp, s.writes.map (·.entry.fd) = [10, 11, 12, 20, 21, 22, 30, 31, 32] ∧
    (passes 0x807 [1, 2, 3]).Ends ([1, 2, 3].flatMap openThree) (.setUp 9 s) ∧
      ((Passes.setUp 9 s).Exact ↔ Counted 0x807 [1, 2, 3]) ∧ (Passes.setUp 9 s).Exact := by
  have hends : ∃ s : SetUp, s.writes.map (·.entry.fd) = [10, 11, 12, 20, 21, 22, 30, 31, 32] ∧
      (passes 0x807 [1, 2, 3]).Ends ([1, 2, 3].flatMap openThree) (.setUp 9 s) :=
    ⟨_, rfl, .cmd (.cmd (.cmd (.cmd (.cmd (.cmd (.cmd (.cmd (.cmd .ret))))))))⟩
  obtain ⟨s, hfds, h⟩ := hends
  have hexact := passes_exact_iff h
  exact ⟨s, hfds, h, hexact, hexact.mpr (.inr (.inr (.inl (by decide))))⟩

end

end LibSpe2.Spe12
