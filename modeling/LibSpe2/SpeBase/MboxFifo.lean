import LibSpe2.SpeBase.MboxInv
import LibSpe2.SpeBase.MboxWords

/-!
# The mapped mailboxes over all interleavings

Any number of threads read and write the mailboxes of any contexts while the SPUs push and pop.

## Main result

* `mbox_fifo` — no register is accessed where that would invent or lose a word, words come out in the
  order in which they went in, and the words of one call are not interleaved with those of another.
-/

namespace LibSpe2

open Conc (Prog Config)

section

variable {t : Tid} {g : MboxStage} {c : Spe} {d : FdName} {got aux sent mboxData : List Word} {n k : Nat}
  {count : Int}

/-! ## The functions -/

theorem mbox_baseSpeOpenIfClosed :
    MboxSafe t (baseSpeOpenIfClosed c d false) none fun _ g' => g' = none := by
  -- what follows once the slot has been looked after
  have tail : MboxSafe t (do
      baseSpeContextUnlock c d
      let fd ← load (.speFdsArray c d)
      note (.openReturned c d fd)
      return fd) (some ⟨c, d, [], 0⟩) fun _ g' => g' = none := by
    refine .bind mbox_unlock ?_
    rintro _ _ rfl
    refine .bind (mbox_off trivial) ?_
    rintro fd _ rfl
    exact .bind (mbox_off trivial) fun _ _ h => h
  -- a slot that has just been opened, or not
  have counted : MboxSafe t (do
      let fd ← load (.speFdsArray c d)
      if fd > 0 then
        let n ← load (.speFdsRefcount c d)
        store (.speFdsRefcount c d) (toInt32 (n + 1))
      baseSpeContextUnlock c d
      let fd ← load (.speFdsArray c d)
      note (.openReturned c d fd)
      return fd) (some ⟨c, d, [], 0⟩) fun _ g' => g' = none := by
    refine .bind (mbox_off trivial) ?_
    rintro fd _ rfl
    by_cases hfd : fd > 0
    · simp only [hfd, ↓reduceIte]
      refine .bind (mbox_off trivial) ?_
      rintro m _ rfl
      refine .bind (mbox_off trivial) ?_
      rintro _ _ rfl
      exact tail
    · simp only [hfd, ↓reduceIte]
      exact tail
  refine .bind mbox_lock ?_
  rintro _ _ rfl
  refine .bind (mbox_off trivial) ?_
  rintro fd _ rfl
  by_cases hfd : fd = -1
  · simp only [hfd, ne_eq, not_true_eq_false, ↓reduceIte]
    refine .bind (mbox_off trivial) ?_
    rintro (e | fd') _ rfl
    all_goals
      refine .bind (mbox_off trivial) ?_
      rintro _ _ rfl
      refine .bind (mbox_off trivial) ?_
      rintro _ _ rfl
      exact counted
  · simp only [ne_eq, hfd, not_false_eq_true, ↓reduceIte]
    refine .bind (mbox_off trivial) ?_
    rintro m _ rfl
    refine .bind (mbox_off trivial) ?_
    rintro _ _ rfl
    refine .bind (mbox_off trivial) ?_
    rintro _ _ rfl
    exact tail

/-- As many reads as the credit allows. -/
theorem mbox_fetchWords (hk : k ≤ n) :
    MboxSafe t (fetchWords c k got) (some ⟨c, .mbox, got, n⟩) fun got' g' =>
      got'.length = got.length + k ∧ g' = some ⟨c, .mbox, got', n - k⟩ := by
  induction k generalizing got n with
  | zero => exact ⟨rfl, rfl⟩
  | succ k ih =>
    obtain ⟨m, rfl⟩ : ∃ m, n = m + 1 := ⟨n - 1, by omega⟩
    refine .bind mbox_readOutMbox ?_
    rintro w _ rfl
    refine (ih (by omega)).mono ?_
    rintro got' _ ⟨hlen, rfl⟩
    rw [hlen, List.length_append, List.length_singleton]
    exact ⟨by omega, by rw [Nat.add_sub_add_right]⟩

theorem mbox_storeWords (hk : k ≤ n) :
    MboxSafe t (storeWords c k aux sent) (some ⟨c, .wbox, sent, n⟩) fun r g' =>
      r.2.length = sent.length + k ∧ g' = some ⟨c, .wbox, r.2, n - k⟩ := by
  induction k generalizing aux sent n with
  | zero => exact ⟨rfl, rfl⟩
  | succ k ih =>
    obtain ⟨m, rfl⟩ : ∃ m, n = m + 1 := ⟨n - 1, by omega⟩
    refine .bind mbox_writeInMbox ?_
    rintro _ _ rfl
    refine (ih (by omega)).mono ?_
    rintro r _ ⟨hlen, rfl⟩
    rw [hlen, List.length_append, List.length_singleton]
    exact ⟨by omega, by rw [Nat.add_sub_add_right]⟩

/-- What is fetched or stored at once is covered by the status. -/
theorem clamp_le_stat {a b : Int} : (if a > b then b else a).toNat ≤ a.toNat := by
  split <;> omega

theorem mbox_baseSpeOutMboxReadPs (h₀ : 0 ≤ count) :
    MboxSafe t (baseSpeOutMboxReadPs c count) none fun _ g' => g' = none := by
  refine .bind mbox_lock ?_
  rintro _ _ rfl
  refine .bind (Q := fun got g' => (got.length : Int) ≤ count ∧ ∃ n, g' = some ⟨c, .mbox, got, n⟩)
    (.repeats (fun got g' => (got.length : Int) ≤ count ∧ ∃ n, g' = some ⟨c, .mbox, got, n⟩)
      ⟨h₀, 0, rfl⟩ ?_) ?_
  · rintro got _ ⟨hle, n, rfl⟩
    dsimp only
    split
    · next hlt =>
      refine .bind mbox_stat_entries ?_
      rintro stat _ rfl
      by_cases hz : statEntries stat = 0
      · rw [if_pos hz]
        exact ⟨hle, _, rfl⟩
      · rw [if_neg hz]
        refine .bind (mbox_fetchWords clamp_le_stat) ?_
        rintro got' _ ⟨hlen, rfl⟩
        have hclamp := clamp_le (a := statEntries stat) hlt
        exact ⟨by rw [hlen]; push_cast; omega, _, rfl⟩
    · exact ⟨hle, n, rfl⟩
  · rintro got _ ⟨hle, n, rfl⟩
    refine .bind (mbox_note_outBurst hle) ?_
    rintro _ _ rfl
    exact .bind mbox_unlock fun _ _ h => h

theorem mbox_baseSpeInMboxWritePs (h₀ : 0 ≤ count) :
    MboxSafe t (baseSpeInMboxWritePs c mboxData count) none fun r g' =>
      g' = none ∧ 0 ≤ r ∧ r ≤ count := by
  refine .bind mbox_lock ?_
  rintro _ _ rfl
  refine .bind (Q := fun x g' => (x.2.length : Int) ≤ count ∧ ∃ n, g' = some ⟨c, .wbox, x.2, n⟩)
    (.repeats (fun x g' => (x.2.length : Int) ≤ count ∧ ∃ n, g' = some ⟨c, .wbox, x.2, n⟩)
      ⟨h₀, 0, rfl⟩ ?_) ?_
  · rintro ⟨aux, sent⟩ _ ⟨hle, n, rfl⟩
    dsimp only at hle ⊢
    split
    · next hlt =>
      refine .bind mbox_stat_space ?_
      rintro stat _ rfl
      by_cases hz : statSpace stat = 0
      · rw [if_pos hz]
        exact ⟨hle, _, rfl⟩
      · rw [if_neg hz]
        refine .bind (mbox_storeWords clamp_le_stat) ?_
        rintro x _ ⟨hlen, rfl⟩
        have hclamp := clamp_le (a := statSpace stat) hlt
        exact ⟨by rw [hlen]; push_cast; omega, _, rfl⟩
    · exact ⟨hle, n, rfl⟩
  · rintro ⟨aux, sent⟩ _ ⟨hle, n, rfl⟩
    refine .bind (mbox_note_inBurst hle) ?_
    rintro _ _ rfl
    refine .bind mbox_unlock ?_
    rintro _ _ rfl
    exact ⟨rfl, Int.natCast_nonneg _, hle⟩

theorem mbox_pollWbox : MboxSafe t (pollWbox c) none fun _ g' => g' = none := by
  refine .bind mbox_baseSpeOpenIfClosed ?_
  rintro fd _ rfl
  refine .bind (mbox_off trivial) ?_
  rintro (e | n) _ rfl <;> exact rfl

theorem mbox_inMboxWriteAllPs (hpos : 1 ≤ count) :
    MboxSafe t (inMboxWriteAllPs c mboxData count) none fun _ g' => g' = none := by
  refine .repeats (fun total g => g = none ∧ 0 ≤ total ∧ total < count) ⟨rfl, by omega, by omega⟩ ?_
  rintro total _ ⟨rfl, h₀, hlt⟩
  refine .bind (mbox_baseSpeInMboxWritePs (by omega)) ?_
  rintro m _ ⟨rfl, hm, -⟩
  dsimp only
  split
  · next hlt' =>
    refine .bind mbox_pollWbox ?_
    rintro (_ | _) _ rfl
    · exact rfl
    · exact ⟨rfl, by omega, hlt'⟩
  · exact rfl

theorem mbox_inMboxWriteAnyPs (hpos : 1 ≤ count) :
    MboxSafe t (inMboxWriteAnyPs c mboxData count) none fun _ g' => g' = none := by
  refine .repeats (fun _ g => g = none) rfl ?_
  rintro _ _ rfl
  refine .bind (mbox_baseSpeInMboxWritePs (by omega)) ?_
  rintro m _ ⟨rfl, -⟩
  split
  · refine .bind mbox_pollWbox ?_
    rintro (_ | _) _ rfl <;> exact rfl
  · exact rfl

theorem mbox_inMboxWriteAllFile :
    MboxSafe t (inMboxWriteAllFile c mboxData count) none fun _ g' => g' = none := by
  refine .repeats (fun _ g => g = none) rfl ?_
  rintro total _ rfl
  split
  · refine .bind mbox_baseSpeOpenIfClosed ?_
    rintro fd _ rfl
    refine .bind (mbox_off trivial) ?_
    rintro (e | n) _ rfl <;> exact rfl
  · exact rfl

theorem mbox_inMboxWriteFile :
    MboxSafe t (inMboxWriteFile c d mboxData count) none fun _ g' => g' = none := by
  refine .bind mbox_baseSpeOpenIfClosed ?_
  rintro fd _ rfl
  refine .bind (mbox_off trivial) ?_
  rintro (e | n) _ rfl <;> exact rfl

theorem mbox_fail {e : Errno} : MboxSafe t (fail e) g fun _ g' => g' = g :=
  .bind (mbox_off trivial) fun _ _ h => h

theorem mbox_baseSpeInMboxWrite {data : Option (List Word)} {behaviorFlag : Int} :
    MboxSafe t (baseSpeInMboxWrite c data count behaviorFlag) none fun _ g' => g' = none := by
  unfold baseSpeInMboxWrite
  split
  · exact mbox_fail
  split
  · exact mbox_fail
  next hpos =>
  have hpos : 1 ≤ count := by omega
  split
  · refine .bind (mbox_off trivial) ?_
    rintro fl _ rfl
    split
    · exact mbox_inMboxWriteAllPs hpos
    refine .bind mbox_inMboxWriteAllFile ?_
    rintro (_ | total) _ rfl
    · exact mbox_fail
    · exact rfl
  split
  · refine .bind (mbox_off trivial) ?_
    rintro fl _ rfl
    split
    · exact mbox_inMboxWriteAnyPs hpos
    refine .bind mbox_inMboxWriteFile ?_
    rintro (e | total) _ rfl
    · exact mbox_fail
    · exact rfl
  split
  · refine .bind (mbox_off trivial) ?_
    rintro fl _ rfl
    split
    · exact (mbox_baseSpeInMboxWritePs (by omega)).mono fun _ _ h => h.1
    refine .bind mbox_inMboxWriteFile ?_
    rintro (e | total) _ rfl
    · split
      · exact rfl
      · exact .bind (mbox_off trivial) fun _ _ h => h
      · exact mbox_fail
    · exact rfl
  · exact mbox_fail

theorem mbox_baseSpeOutMboxRead {data : Option (List UInt8)} :
    MboxSafe t (baseSpeOutMboxRead c data count) none fun _ g' => g' = none := by
  unfold baseSpeOutMboxRead
  split
  · exact .bind mbox_fail fun _ _ h => h
  split
  · exact .bind mbox_fail fun _ _ h => h
  refine .bind (mbox_off trivial) ?_
  rintro fl _ rfl
  split
  · refine .bind (mbox_baseSpeOutMboxReadPs (by omega)) ?_
    rintro ⟨rc, got⟩ _ rfl
    exact rfl
  · refine .bind mbox_baseSpeOpenIfClosed ?_
    rintro fd _ rfl
    refine .bind (mbox_off trivial) ?_
    rintro x _ rfl
    split
    · exact rfl
    · exact .bind (mbox_off trivial) fun _ _ h => h
    · exact rfl

theorem mbox_outIntrMboxReadAll {buf : List UInt8} :
    MboxSafe t (outIntrMboxReadAll c buf count) none fun _ g' => g' = none := by
  refine .repeats (fun _ g => g = none) rfl ?_
  rintro ⟨total, buf⟩ _ rfl
  dsimp only
  split
  · refine .bind mbox_baseSpeOpenIfClosed ?_
    rintro fd _ rfl
    refine .bind (mbox_off trivial) ?_
    rintro (e | bytes) _ rfl <;> exact rfl
  · exact rfl

theorem mbox_outIntrMboxReadOnce {buf : List UInt8} :
    MboxSafe t (outIntrMboxReadOnce c d buf count) none fun _ g' => g' = none := by
  refine .bind mbox_baseSpeOpenIfClosed ?_
  rintro fd _ rfl
  refine .bind (mbox_off trivial) ?_
  rintro (e | bytes) _ rfl <;> exact rfl

theorem mbox_baseSpeOutIntrMboxRead {data : Option (List UInt8)} {behaviorFlag : Int} :
    MboxSafe t (baseSpeOutIntrMboxRead c data count behaviorFlag) none fun _ g' => g' = none := by
  have hfail (e : Errno) (buf : List UInt8) :
      MboxSafe t (do return (← fail e, buf)) none fun _ g' => g' = none :=
    .bind mbox_fail fun _ _ h => h
  unfold baseSpeOutIntrMboxRead
  split
  · exact hfail _ _
  split
  · exact hfail _ _
  split
  · refine .bind mbox_outIntrMboxReadAll ?_
    rintro ⟨_ | total, buf⟩ _ rfl
    · exact hfail _ _
    · exact rfl
  split
  · refine .bind mbox_outIntrMboxReadOnce ?_
    rintro ⟨_ | total, buf⟩ _ rfl
    · exact hfail _ _
    · exact rfl
  split
  · refine .bind mbox_outIntrMboxReadOnce ?_
    rintro ⟨x, buf⟩ _ rfl
    split
    · exact rfl
    · exact .bind (mbox_off trivial) fun _ _ h => h
    · exact hfail _ _
  · exact hfail _ _

end

/-! ## All interleavings -/

theorem mboxInv_init {s : World} (h : MboxInit s) : MboxInv (fun _ => none) s := by
  have hfl (c d) : inFlight (fun _ => none) s c d = [] := by
    simp [inFlight, h.owner]
  constructor
  · intro t x hx
    cases hx
  · intro c
    simp [h.hist, History.empty, h.outbound]
  · intro c
    simp [h.hist, History.empty, hfl]
  · intro c
    simp [h.hist, History.empty, h.inbound]
  · intro c
    simp [h.hist, History.empty, hfl]
  · intro t c ws n hx
    cases hx
  · intro t c ws n hx
    cases hx
  · intro c b hb
    simp [h.hist, History.empty] at hb
  · intro c b hb
    simp [h.hist, History.empty] at hb

/-- Every call keeps to the protocol. -/
theorem mboxSystem_safe (t : Tid) (call : MboxCall) :
    MboxSafe t (mboxSystem.code t call) none fun _ g' => g' = none := by
  cases call with
  | outMboxRead c data count => exact .bind mbox_baseSpeOutMboxRead fun _ _ h => h
  | inMboxWrite c data count behavior => exact .bind mbox_baseSpeInMboxWrite fun _ _ h => h
  | outIntrMboxRead c data count behavior => exact .bind mbox_baseSpeOutIntrMboxRead fun _ _ h => h
  | spuPush c w => exact mbox_spuPush
  | spuPop c => exact .bind mbox_spuPop fun _ _ h => h

/-- The mailboxes of one context in a state of a run. -/
structure MappedFifo (c : Spe) (s : World) : Prop where
  /-- What the SPU has pushed has been read, in order, or is still there. -/
  outbound : s.hist.pushed c = s.hist.popped c ++ (s.mailboxes c).outbound
  /-- What has been written has been consumed by the SPU, in order, or is still there. -/
  inbound : s.hist.sent c = s.hist.consumed c ++ (s.mailboxes c).inbound
  /-- The words read are those of the calls, call by call, and then those of the call under way. -/
  outBursts : ∃ cur, s.hist.popped c = (s.hist.outBursts c).flatMap Burst.words ++ cur ∧
    (s.owner (.fdLock c .mbox) = none → cur = [])
  inBursts : ∃ cur, s.hist.sent c = (s.hist.inBursts c).flatMap Burst.words ++ cur ∧
    (s.owner (.fdLock c .wbox) = none → cur = [])
  /-- Each of them returned how many words it moved, and no more than it was asked for. -/
  counted : ∀ b ∈ s.hist.outBursts c ++ s.hist.inBursts c, b.ret = b.words.length ∧ b.ret ≤ b.count

theorem MboxInv.mappedFifo {γ : Tid → MboxStage} {s : World} (hi : MboxInv γ s) (c : Spe) :
    MappedFifo c s := by
  have hcur (d) (hfree : s.owner (.fdLock c d) = none) : inFlight γ s c d = [] := by
    simp [inFlight, hfree]
  refine ⟨hi.pushed c, hi.sent c, ⟨_, hi.popped c, hcur .mbox⟩, ⟨_, hi.written c, hcur .wbox⟩, ?_⟩
  intro b hb
  rcases List.mem_append.mp hb with hb | hb
  · exact hi.outBursts c b hb
  · exact hi.inBursts c b hb

/-- What one call of a helper of the outbound mailbox does to it. -/
def OutHelper (c : Spe) : Prop :=
  ∀ count tr rc got, (baseSpeOutMboxReadPs c count).Ends tr (rc, got) → OutCall count tr rc got

/-- What one call of a helper of the inbound mailbox does to it. -/
def InHelper (c : Spe) : Prop :=
  ∀ mboxData count tr rc, (baseSpeInMboxWritePs c mboxData count).Ends tr rc →
    InCall mboxData count tr rc

/-! ## A run: the SPU pushes a word and a thread reads it -/

def pushTrace : List (Sigma Ans) := [⟨.spuPush 0 7, ()⟩]

/-- A read of up to two words that finds one. -/
def popTrace : List (Sigma Ans) :=
  ⟨.flags 0, speMapPs⟩ :: ⟨.lock (.fdLock 0 .mbox), ()⟩ ::
    ([⟨.readMboxStat 0, (0x401 : Word)⟩, ⟨.readOutMbox 0, (7 : Word)⟩] ++
      ([⟨.readMboxStat 0, (0x400 : Word)⟩] ++
        [⟨.note (.outBurst 0 ⟨[7], 1, 2⟩), ()⟩, ⟨.unlock (.fdLock 0 .mbox), ()⟩]))

/-- A world whose contexts have `SPE_MAP_PS`. -/
def mappedWorld : World := { World.boot with flags := fun _ => speMapPs }

theorem mboxInit_mappedWorld : MboxInit mappedWorld := by
  constructor <;> intros <;> rfl

def poppedConfig : Config Cmd Ans Tid World :=
  ⟨(mappedWorld.after 9 pushTrace).after 1 popTrace, fun _ => none⟩

theorem popped_reach : mboxSystem.Reachable poppedConfig := by
  have hok (t tr s) : machine.Passes (Conc.System.always Cmd Ans Tid World) t tr s :=
    Conc.Machine.passes_of_forall _ (fun _ _ _ _ => trivial) t tr s
  have h₁ : mboxSystem.Reachable ⟨mappedWorld.after 9 pushTrace, fun _ => none⟩ :=
    (Conc.System.Reach.init mboxInit_mappedWorld).solo (t := 9) (c := .spuPush 0 7) rfl (.cmd .ret)
      (show machine.play 9 pushTrace _ = some _ from rfl) (hok _ _ _)
  refine h₁.solo (t := 1) (c := .outMboxRead 0 (some (List.replicate 8 0)) 2) rfl ?_
    (show machine.play 1 popTrace _ = some _ from rfl) (hok _ _ _)
  refine .cmd (.cmd (Prog.ends_loop.mpr ⟨_, _, .inl [7], rfl, ?_, Prog.ends_loop.mpr
    ⟨_, _, .inr [7], rfl, .cmd .ret, .cmd (.cmd .ret)⟩⟩))
  exact .cmd (.cmd .ret)

/-! ## Results -/

/-- **The mapped mailboxes are queues.** -/
theorem mbox_fifo {cfg : Config Cmd Ans Tid World} (h : mboxSystem.Reachable cfg) :
    (∀ t c k, cfg.threads t = some (.cmd (.readOutMbox c) k) →
      (cfg.shared.mailboxes c).outbound ≠ []) ∧
    (∀ t c w k, cfg.threads t = some (.cmd (.writeInMbox c w) k) →
      (cfg.shared.mailboxes c).inbound.length < (cfg.shared.mailboxes c).inDepth) ∧
    ∀ c, MappedFifo c cfg.shared ∧ OutHelper c ∧ InHelper c := by
  have hpre {t c k} (ht : cfg.threads t = some (.cmd c k)) : mboxPre t c cfg.shared :=
    Conc.Proto.reach_pre (P := mboxProto) (fun _ => mboxInv_init) mboxSystem_safe h ht
  obtain ⟨γ, hγ, -⟩ := Conc.Proto.reach (P := mboxProto) (fun _ => mboxInv_init) mboxSystem_safe h
  refine ⟨fun t c k ht => hpre ht, fun t c w k ht => hpre ht, fun c => ⟨hγ.mappedFifo c, ?_, ?_⟩⟩
  · intro count tr rc got hcall
    exact outMboxReadPs_call hcall
  · intro mboxData count tr rc hcall
    exact inMboxWritePs_call hcall

theorem mbox_fifo_popped : MappedFifo 0 poppedConfig.shared ∧
    poppedConfig.shared.hist.outBursts 0 = [⟨[7], 1, 2⟩] :=
  ⟨((mbox_fifo popped_reach).2.2 0).1, rfl⟩

end LibSpe2
