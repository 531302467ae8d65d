import LibSpe2.Sys.Frame
import LibSpe2.SpeBase.Mbox

/-!
# The mapped mailboxes: what holds at every step

A helper reads `SPU_Mbox_Stat` once and then accesses the mailbox as often as that allowed. Nobody else
can take from the outbound or add to the inbound mailbox meanwhile, since the helper holds the lock, and
what the SPU does only leaves more entries, or more space. So a thread remembers (`MboxHold`) what it
has moved since it took the lock and its *credit*: how many accesses the last status still allows.

`MboxInv` says that the credit is covered, and that the words moved through a mailbox are those of the
finished bursts followed by those of the one under way.
-/

namespace LibSpe2

open Function (update)
open Conc (Prog)

/-- A thread that holds the lock of a mailbox. -/
structure MboxHold where
  spe : Spe
  d : FdName
  moved : List Word
  credit : Nat

abbrev MboxStage := Option MboxHold

/-- The words a thread is moving through a mailbox. -/
def MboxStage.moved (g : MboxStage) (c : Spe) (d : FdName) : List Word :=
  match g with
  | some h => if h.spe = c ∧ h.d = d then h.moved else []
  | none => []

/-- The burst under way at a mailbox: that of the thread that holds the lock. -/
def inFlight (γ : Tid → MboxStage) (s : World) (c : Spe) (d : FdName) : List Word :=
  match s.owner (.fdLock c d) with
  | some t => MboxStage.moved (γ t) c d
  | none => []

/-- What a burst of a helper reports: as many words as it moved, and no more than asked for. -/
def Burst.Counted (b : Burst) : Prop := b.ret = b.words.length ∧ b.ret ≤ b.count

structure MboxInv (γ : Tid → MboxStage) (s : World) : Prop where
  owner : ∀ t h, γ t = some h → s.owner (.fdLock h.spe h.d) = some t
  pushed : ∀ c, s.hist.pushed c = s.hist.popped c ++ (s.mailboxes c).outbound
  popped : ∀ c, s.hist.popped c = (s.hist.outBursts c).flatMap Burst.words ++ inFlight γ s c .mbox
  sent : ∀ c, s.hist.sent c = s.hist.consumed c ++ (s.mailboxes c).inbound
  written : ∀ c, s.hist.sent c = (s.hist.inBursts c).flatMap Burst.words ++ inFlight γ s c .wbox
  entries : ∀ t c ws n, γ t = some ⟨c, .mbox, ws, n⟩ → n ≤ (s.mailboxes c).outbound.length
  space : ∀ t c ws n, γ t = some ⟨c, .wbox, ws, n⟩ → 0 < n →
    (s.mailboxes c).inbound.length + n ≤ (s.mailboxes c).inDepth
  outBursts : ∀ c, ∀ b ∈ s.hist.outBursts c, b.Counted
  inBursts : ∀ c, ∀ b ∈ s.hist.inBursts c, b.Counted

/-- A register is accessed only where that moves a word. -/
def mboxPre (_t : Tid) : Cmd → World → Prop
  | .readOutMbox c, s => (s.mailboxes c).outbound ≠ []
  | .writeInMbox c _, s => (s.mailboxes c).inbound.length < (s.mailboxes c).inDepth
  | _, _ => True

def mboxProto : Conc.Proto Cmd Tid World MboxStage where
  idle := none
  inv := MboxInv
  pre := mboxPre

abbrev MboxSafe (t : Tid) {α : Type} (p : Sys α) (g : MboxStage) (Q : α → MboxStage → Prop) : Prop :=
  mboxProto.Safe machine (fun _ _ _ _ => True) t p g Q

/-- The commands that leave locks, mailboxes and bursts alone. -/
def Cmd.OffMbox : Cmd → Prop
  | .lock _ | .unlock _ => False
  | .readOutMbox _ | .writeInMbox _ _ | .spuPush _ _ | .spuPop _ => False
  | .note (.outBurst _ _) | .note (.inBurst _ _) => False
  | _ => True

section

variable {t : Tid} {γ : Tid → MboxStage} {s s' : World} {g g' : MboxStage} {c : Spe} {d : FdName}
  {ws : List Word} {n : Nat}

theorem Cmd.OffMbox.untouched {cmd : Cmd} (hc : cmd.OffMbox) :
    ¬ cmd.Touches .owner ∧ ¬ cmd.Touches .mailboxes ∧ ¬ cmd.Touches .bursts := by
  cases cmd with
  | note n => cases n <;> first | exact hc.elim | exact ⟨id, id, id⟩
  | _ => first | exact hc.elim | exact ⟨id, id, id⟩

theorem Cmd.OffMbox.pre {cmd : Cmd} (hc : cmd.OffMbox) : mboxPre t cmd s := by
  cases cmd with
  | readOutMbox | writeInMbox => exact hc.elim
  | _ => trivial

@[simp] theorem moved_none : MboxStage.moved none c d = [] := rfl

@[simp] theorem moved_self : MboxStage.moved (some ⟨c, d, ws, n⟩) c d = ws := if_pos ⟨rfl, rfl⟩

theorem moved_ne {c' : Spe} {d' : FdName} (h : ¬ (c = c' ∧ d = d')) :
    MboxStage.moved (some ⟨c, d, ws, n⟩) c' d' = [] := if_neg h

theorem inFlight_self (ho : s.owner (.fdLock c d) = some t) :
    inFlight γ s c d = MboxStage.moved (γ t) c d := by
  unfold inFlight
  rw [ho]

/-- A burst does not change when the lock stays with its holder, who moves nothing. -/
theorem inFlight_congr (ho : s'.owner (.fdLock c d) = s.owner (.fdLock c d))
    (hm : MboxStage.moved g' c d = MboxStage.moved (γ t) c d) :
    inFlight (update γ t g') s' c d = inFlight γ s c d := by
  unfold inFlight
  rw [ho]
  cases s.owner (.fdLock c d) with
  | none => rfl
  | some u =>
    show MboxStage.moved (update γ t g' u) c d = MboxStage.moved (γ u) c d
    by_cases hut : u = t
    · rw [hut, Function.update_self]
      exact hm
    · rw [Function.update_of_ne hut]

theorem MboxInv.offMbox (hi : MboxInv γ s) {cmd : Cmd} (hc : cmd.OffMbox) {r : Ans cmd}
    (he : exec t cmd r s = some s') : MboxInv γ s' := by
  have ho : s'.owner = s.owner := exec_same hc.untouched.1 he
  have hmail : (s'.mailboxes, s'.hist.pushed, s'.hist.popped, s'.hist.sent, s'.hist.consumed) =
      (s.mailboxes, s.hist.pushed, s.hist.popped, s.hist.sent, s.hist.consumed) :=
    exec_same hc.untouched.2.1 he
  simp only [Prod.mk.injEq] at hmail
  obtain ⟨hm, hpu, hpo, hse, hco⟩ := hmail
  obtain ⟨hob, hib⟩ : s'.hist.outBursts = s.hist.outBursts ∧ s'.hist.inBursts = s.hist.inBursts :=
    Prod.mk.inj (exec_same hc.untouched.2.2 he)
  have hfl : inFlight γ s' = inFlight γ s := by
    unfold inFlight
    rw [ho]
  constructor
  · rw [ho]; exact hi.owner
  · rw [hpu, hpo, hm]; exact hi.pushed
  · rw [hpo, hob, hfl]; exact hi.popped
  · rw [hse, hco, hm]; exact hi.sent
  · rw [hse, hib, hfl]; exact hi.written
  · rw [hm]; exact hi.entries
  · rw [hm]; exact hi.space
  · rw [hob]; exact hi.outBursts
  · rw [hib]; exact hi.inBursts

theorem mbox_off {cmd : Cmd} (hc : cmd.OffMbox) :
    MboxSafe t (perform cmd) g fun _ g' => g' = g := by
  refine .perform fun γ s hi hg => ⟨hc.pre (t := t), fun r s' _ he => ⟨g, ?_, rfl⟩⟩
  rw [← hg, Function.update_eq_self]
  exact hi.offMbox hc he

/-! ## Locks -/

theorem setOwner_fdLock_ne {c' : Spe} {d' : FdName} {o : Option Tid} (h : ¬ (c = c' ∧ d = d')) :
    (s.setOwner (.fdLock c d) o).owner (.fdLock c' d') = s.owner (.fdLock c' d') := by
  have hne : Mutex.fdLock c' d' ≠ .fdLock c d := by
    intro heq
    obtain ⟨rfl, rfl⟩ := Mutex.fdLock.inj heq
    exact h ⟨rfl, rfl⟩
  simp [World.setOwner, hne]

/-- A step that moves nothing: the stages of the holders and the locks may change, and each mailbox
may have gained entries or space. -/
theorem MboxInv.still (hi : MboxInv γ s) {γ' : Tid → MboxStage}
    (howner : ∀ u h, γ' u = some h → s'.owner (.fdLock h.spe h.d) = some u)
    (hfl : ∀ c d, inFlight γ' s' c d = inFlight γ s c d)
    (hm : s'.mailboxes = s.mailboxes) (hh : s'.hist = s.hist)
    (hentries : ∀ u c ws n, γ' u = some ⟨c, .mbox, ws, n⟩ → n ≤ (s.mailboxes c).outbound.length)
    (hspace : ∀ u c ws n, γ' u = some ⟨c, .wbox, ws, n⟩ → 0 < n →
      (s.mailboxes c).inbound.length + n ≤ (s.mailboxes c).inDepth) : MboxInv γ' s' := by
  constructor
  · exact howner
  · rw [hh, hm]; exact hi.pushed
  · intro c; rw [hh, hfl]; exact hi.popped c
  · rw [hh, hm]; exact hi.sent
  · intro c; rw [hh, hfl]; exact hi.written c
  · rw [hm]; exact hentries
  · rw [hm]; exact hspace
  · rw [hh]; exact hi.outBursts
  · rw [hh]; exact hi.inBursts

theorem update_stage {u : Tid} {h : MboxHold} (hu : update γ t g' u = some h) :
    u = t ∧ g' = some h ∨ u ≠ t ∧ γ u = some h := by
  by_cases hut : u = t
  · rw [hut, Function.update_self] at hu
    exact .inl ⟨hut, hu⟩
  · rw [Function.update_of_ne hut] at hu
    exact .inr ⟨hut, hu⟩

theorem mbox_lock : MboxSafe t (baseSpeContextLock c d) none fun _ g' => g' = some ⟨c, d, [], 0⟩ := by
  refine .perform fun γ s hi hg => ⟨trivial, fun _ s' _ he => ⟨_, ?_, rfl⟩⟩
  obtain ⟨hfree, rfl⟩ := of_guard he
  refine hi.still ?_ ?_ rfl rfl ?_ ?_
  · intro u h hu₀
    rcases update_stage hu₀ with ⟨rfl, hu⟩ | ⟨-, hu⟩
    · obtain rfl := Option.some.inj hu
      simp [World.setOwner]
    · have ho := hi.owner u h hu
      have hne : Mutex.fdLock h.spe h.d ≠ .fdLock c d := by
        intro heq
        rw [heq, hfree] at ho
        cases ho
      simpa [World.setOwner, hne] using ho
  · intro c' d'
    by_cases hcd : c = c' ∧ d = d'
    · obtain ⟨rfl, rfl⟩ := hcd
      rw [inFlight_self (t := t) (by simp [World.setOwner]), Function.update_self, moved_self]
      simp [inFlight, hfree]
    · refine inFlight_congr ?_ (by rw [moved_ne hcd, hg, moved_none])
      exact setOwner_fdLock_ne hcd
  · intro u c' ws n hu₀
    rcases update_stage hu₀ with ⟨-, hu⟩ | ⟨-, hu⟩
    · obtain ⟨rfl, rfl, rfl, rfl⟩ := MboxHold.mk.inj (Option.some.inj hu)
      exact Nat.zero_le _
    · exact hi.entries u c' ws n hu
  · intro u c' ws n hu₀ hn
    rcases update_stage hu₀ with ⟨-, hu⟩ | ⟨-, hu⟩
    · obtain ⟨rfl, rfl, rfl, rfl⟩ := MboxHold.mk.inj (Option.some.inj hu)
      exact absurd hn (Nat.lt_irrefl 0)
    · exact hi.space u c' ws n hu hn

/-- The lock is given back when the burst has been recorded. -/
theorem mbox_unlock :
    MboxSafe t (baseSpeContextUnlock c d) (some ⟨c, d, [], n⟩) fun _ g' => g' = none := by
  refine .perform fun γ s hi hg => ⟨trivial, fun _ s' _ he => ⟨_, ?_, rfl⟩⟩
  obtain ⟨ho, rfl⟩ := of_guard he
  refine hi.still ?_ ?_ rfl rfl ?_ ?_
  · intro u h hu₀
    rcases update_stage hu₀ with ⟨-, hu⟩ | ⟨hut, hu⟩
    · cases hu
    · have ho' := hi.owner u h hu
      have hne : Mutex.fdLock h.spe h.d ≠ .fdLock c d := by
        intro heq
        rw [heq, ho] at ho'
        exact hut (Option.some.inj ho').symm
      simpa [World.setOwner, hne] using ho'
  · intro c' d'
    by_cases hcd : c = c' ∧ d = d'
    · obtain ⟨rfl, rfl⟩ := hcd
      rw [inFlight_self ho, hg, moved_self]
      simp [inFlight, World.setOwner]
    · refine inFlight_congr ?_ (by rw [hg, moved_ne hcd, moved_none])
      exact setOwner_fdLock_ne hcd
  · intro u c' ws n hu₀
    rcases update_stage hu₀ with ⟨-, hu⟩ | ⟨-, hu⟩
    · cases hu
    · exact hi.entries u c' ws n hu
  · intro u c' ws n hu₀ hn
    rcases update_stage hu₀ with ⟨-, hu⟩ | ⟨-, hu⟩
    · cases hu
    · exact hi.space u c' ws n hu hn

/-! ## Accesses to the registers -/

/-- A thread at a mailbox moves to another stage there. -/
theorem MboxInv.owner_update (hi : MboxInv γ s) (hg : γ t = some ⟨c, d, ws, n⟩) (ws' : List Word)
    (m : Nat) {u : Tid} {h : MboxHold} (hu₀ : update γ t (some ⟨c, d, ws', m⟩) u = some h) :
    s.owner (.fdLock h.spe h.d) = some u := by
  rcases update_stage hu₀ with ⟨rfl, hu⟩ | ⟨-, hu⟩
  · obtain rfl := Option.some.inj hu
    exact hi.owner u ⟨c, d, ws, n⟩ hg
  · exact hi.owner u h hu

/-- One thread at a mailbox at a time. -/
theorem MboxInv.unique (hi : MboxInv γ s) (hg : γ t = some ⟨c, d, ws, n⟩) {u : Tid} {ws' : List Word}
    {m : Nat} (hu : γ u = some ⟨c, d, ws', m⟩) : u = t := by
  have h := (hi.owner u _ hu).symm.trans (hi.owner t ⟨c, d, ws, n⟩ hg)
  exact Option.some.inj h

/-- Its burst, and the one under way at another mailbox. -/
theorem MboxInv.inFlight_update (hi : MboxInv γ s) (hg : γ t = some ⟨c, d, ws, n⟩)
    (ws' : List Word) (m : Nat) (ho : s'.owner = s.owner) (c' : Spe) (d' : FdName) :
    inFlight (update γ t (some ⟨c, d, ws', m⟩)) s' c' d' =
      if c = c' ∧ d = d' then ws' else inFlight γ s c' d' := by
  split
  · next hcd =>
    obtain ⟨rfl, rfl⟩ := hcd
    rw [inFlight_self (t := t) (by rw [ho]; exact hi.owner t _ hg), Function.update_self, moved_self]
  · next hcd => exact inFlight_congr (by rw [ho]) (by rw [hg, moved_ne hcd, moved_ne hcd])

theorem MboxInv.inFlight_eq (hi : MboxInv γ s) (hg : γ t = some ⟨c, d, ws, n⟩) :
    inFlight γ s c d = ws := by
  rw [inFlight_self (hi.owner t _ hg), hg, moved_self]

/-- The status gives a new credit. -/
theorem MboxInv.credit (hi : MboxInv γ s) (hg : γ t = some ⟨c, d, ws, n⟩) {m : Nat}
    (hentries : d = .mbox → m ≤ (s.mailboxes c).outbound.length)
    (hspace : d = .wbox → 0 < m → (s.mailboxes c).inbound.length + m ≤ (s.mailboxes c).inDepth) :
    MboxInv (update γ t (some ⟨c, d, ws, m⟩)) s := by
  refine hi.still (fun u h hu => hi.owner_update hg ws m hu) ?_ rfl rfl ?_ ?_
  · intro c' d'
    rw [hi.inFlight_update hg ws m rfl]
    split
    · next hcd =>
      obtain ⟨rfl, rfl⟩ := hcd
      exact (hi.inFlight_eq hg).symm
    · rfl
  · intro u c' ws' m' hu₀
    rcases update_stage hu₀ with ⟨-, hu⟩ | ⟨-, hu⟩
    · obtain ⟨rfl, hd, rfl, rfl⟩ := MboxHold.mk.inj (Option.some.inj hu)
      exact hentries hd
    · exact hi.entries u c' ws' m' hu
  · intro u c' ws' m' hu₀ hm
    rcases update_stage hu₀ with ⟨-, hu⟩ | ⟨-, hu⟩
    · obtain ⟨rfl, hd, rfl, rfl⟩ := MboxHold.mk.inj (Option.some.inj hu)
      exact hspace hd hm
    · exact hi.space u c' ws' m' hu hm

theorem mbox_stat_entries : MboxSafe t (perform (.readMboxStat c)) (some ⟨c, .mbox, ws, n⟩)
    fun stat g' => g' = some ⟨c, .mbox, ws, (statEntries stat).toNat⟩ := by
  refine .perform fun γ s hi hg => ⟨trivial, fun stat s' _ he => ⟨_, ?_, rfl⟩⟩
  obtain ⟨⟨hent, -⟩, rfl⟩ := of_guard he
  refine hi.credit hg (fun _ => ?_) nofun
  rw [statEntries, Int.toNat_natCast]
  exact Nat.le_of_eq hent

theorem mbox_stat_space : MboxSafe t (perform (.readMboxStat c)) (some ⟨c, .wbox, ws, n⟩)
    fun stat g' => g' = some ⟨c, .wbox, ws, (statSpace stat).toNat⟩ := by
  refine .perform fun γ s hi hg => ⟨trivial, fun stat s' _ he => ⟨_, ?_, rfl⟩⟩
  obtain ⟨⟨-, hspace⟩, rfl⟩ := of_guard he
  refine hi.credit hg nofun fun _ hpos => ?_
  rw [statSpace, Int.toNat_natCast, hspace] at hpos ⊢
  omega

/-- A read takes the oldest word. -/
theorem mbox_readOutMbox : MboxSafe t (perform (.readOutMbox c)) (some ⟨c, .mbox, ws, n + 1⟩)
    fun w g' => g' = some ⟨c, .mbox, ws ++ [w], n⟩ := by
  refine .perform fun γ s hi hg => ?_
  have hlen := hi.entries t c ws (n + 1) hg
  obtain ⟨w, rest, hout⟩ : ∃ w rest, (s.mailboxes c).outbound = w :: rest := by
    cases hout : (s.mailboxes c).outbound with
    | nil => simp [hout] at hlen
    | cons w rest => exact ⟨w, rest, rfl⟩
  refine ⟨by simp [mboxProto, mboxPre, hout], fun r s' _ he => ⟨_, ?_, rfl⟩⟩
  simp only [machine, exec, hout] at he
  obtain ⟨rfl, rfl⟩ := of_guard he
  have hfl := hi.inFlight_update hg (ws ++ [r]) n (rfl : s.owner = s.owner)
  refine ⟨fun u h hu => hi.owner_update hg _ _ hu, fun c' => ?_, fun c' => ?_, fun c' => ?_,
    fun c' => ?_, fun u c' ws' m hu₀ => ?_, fun u c' ws' m hu₀ hm => ?_, hi.outBursts, hi.inBursts⟩
  · by_cases hc : c' = c
    · subst hc
      simp [World.setMailboxes, hi.pushed, hout]
    · simpa [World.setMailboxes, hc] using hi.pushed c'
  · show _ = _ ++ inFlight (update γ t _) s c' .mbox
    rw [hfl]
    by_cases hc : c' = c
    · subst hc
      simp [hi.popped, hi.inFlight_eq hg]
    · simpa [World.setMailboxes, hc, Ne.symm hc] using hi.popped c'
  · by_cases hc : c' = c
    · subst hc
      simpa [World.setMailboxes] using hi.sent c'
    · simpa [World.setMailboxes, hc] using hi.sent c'
  · show _ = _ ++ inFlight (update γ t _) s c' .wbox
    rw [hfl]
    simpa [World.setMailboxes] using hi.written c'
  · rcases update_stage hu₀ with ⟨-, hu⟩ | ⟨hut, hu⟩
    · obtain ⟨rfl, -, rfl, rfl⟩ := MboxHold.mk.inj (Option.some.inj hu)
      simpa [World.setMailboxes, hout] using hlen
    · have hc : c' ≠ c := by
        rintro rfl
        exact hut (hi.unique hg hu)
      simpa [World.setMailboxes, hc] using hi.entries u c' ws' m hu
  · rcases update_stage hu₀ with ⟨-, hu⟩ | ⟨-, hu⟩
    · cases hu
    · have hspace := hi.space u c' ws' m hu hm
      by_cases hc : c' = c
      · subst hc
        simpa [World.setMailboxes] using hspace
      · simpa [World.setMailboxes, hc] using hspace

/-- A write adds behind the others. -/
theorem mbox_writeInMbox {w : Word} :
    MboxSafe t (perform (.writeInMbox c w)) (some ⟨c, .wbox, ws, n + 1⟩)
      fun _ g' => g' = some ⟨c, .wbox, ws ++ [w], n⟩ := by
  refine .perform fun γ s hi hg => ?_
  have hroom := hi.space t c ws (n + 1) hg (Nat.succ_pos n)
  have hlt : (s.mailboxes c).inbound.length < (s.mailboxes c).inDepth := by omega
  refine ⟨hlt, fun r s' _ he => ⟨_, ?_, rfl⟩⟩
  simp only [machine, exec, hlt, ↓reduceIte, Option.some.injEq] at he
  subst he
  have hfl := hi.inFlight_update hg (ws ++ [w]) n (rfl : s.owner = s.owner)
  refine ⟨fun u h hu => hi.owner_update hg _ _ hu, fun c' => ?_, fun c' => ?_, fun c' => ?_,
    fun c' => ?_, fun u c' ws' m hu₀ => ?_, fun u c' ws' m hu₀ hm => ?_, hi.outBursts, hi.inBursts⟩
  · by_cases hc : c' = c
    · subst hc
      simpa [World.setMailboxes] using hi.pushed c'
    · simpa [World.setMailboxes, hc] using hi.pushed c'
  · show _ = _ ++ inFlight (update γ t _) s c' .mbox
    rw [hfl]
    simpa [World.setMailboxes] using hi.popped c'
  · by_cases hc : c' = c
    · subst hc
      simp [World.setMailboxes, hi.sent]
    · simpa [World.setMailboxes, hc] using hi.sent c'
  · show _ = _ ++ inFlight (update γ t _) s c' .wbox
    rw [hfl]
    by_cases hc : c' = c
    · subst hc
      simp [hi.written, hi.inFlight_eq hg]
    · simpa [World.setMailboxes, hc, Ne.symm hc] using hi.written c'
  · rcases update_stage hu₀ with ⟨-, hu⟩ | ⟨-, hu⟩
    · cases hu
    · have hent := hi.entries u c' ws' m hu
      by_cases hc : c' = c
      · subst hc
        simpa [World.setMailboxes] using hent
      · simpa [World.setMailboxes, hc] using hent
  · rcases update_stage hu₀ with ⟨-, hu⟩ | ⟨hut, hu⟩
    · obtain ⟨rfl, -, rfl, rfl⟩ := MboxHold.mk.inj (Option.some.inj hu)
      simp only [World.setMailboxes, Function.update_self, List.length_append, List.length_singleton]
      omega
    · have hc : c' ≠ c := by
        rintro rfl
        exact hut (hi.unique hg hu)
      simpa [World.setMailboxes, hc] using hi.space u c' ws' m hu hm

/-! ## Finished bursts -/

theorem mbox_note_outBurst {count : Int} (hcount : (ws.length : Int) ≤ count) :
    MboxSafe t (note (.outBurst c ⟨ws, ws.length, count⟩)) (some ⟨c, .mbox, ws, n⟩)
      fun _ g' => g' = some ⟨c, .mbox, [], 0⟩ := by
  refine .perform fun γ s hi hg => ⟨trivial, fun _ s' _ he => ⟨_, ?_, rfl⟩⟩
  obtain rfl := Option.some.inj he
  have hfl := hi.inFlight_update hg [] 0 (rfl : s.owner = s.owner)
  refine ⟨fun u h hu => hi.owner_update hg _ _ hu, hi.pushed, fun c' => ?_, hi.sent, fun c' => ?_,
    fun u c' ws' m hu₀ => ?_, fun u c' ws' m hu₀ hm => ?_, fun c' b hb => ?_, hi.inBursts⟩
  · show _ = _ ++ inFlight (update γ t _) s c' .mbox
    rw [hfl]
    by_cases hc : c' = c
    · subst hc
      simp [hi.popped, hi.inFlight_eq hg]
    · simpa [hc, Ne.symm hc] using hi.popped c'
  · show _ = _ ++ inFlight (update γ t _) s c' .wbox
    rw [hfl]
    simpa using hi.written c'
  · rcases update_stage hu₀ with ⟨-, hu⟩ | ⟨-, hu⟩
    · obtain ⟨rfl, -, rfl, rfl⟩ := MboxHold.mk.inj (Option.some.inj hu)
      exact Nat.zero_le _
    · exact hi.entries u c' ws' m hu
  · rcases update_stage hu₀ with ⟨-, hu⟩ | ⟨-, hu⟩
    · cases hu
    · exact hi.space u c' ws' m hu hm
  · by_cases hc : c' = c
    · subst hc
      simp only [Function.update_self, List.mem_append, List.mem_singleton] at hb
      rcases hb with hb | rfl
      · exact hi.outBursts c' b hb
      · exact ⟨rfl, hcount⟩
    · exact hi.outBursts c' b (by simpa [hc] using hb)

theorem mbox_note_inBurst {count : Int} (hcount : (ws.length : Int) ≤ count) :
    MboxSafe t (note (.inBurst c ⟨ws, ws.length, count⟩)) (some ⟨c, .wbox, ws, n⟩)
      fun _ g' => g' = some ⟨c, .wbox, [], 0⟩ := by
  refine .perform fun γ s hi hg => ⟨trivial, fun _ s' _ he => ⟨_, ?_, rfl⟩⟩
  obtain rfl := Option.some.inj he
  have hfl := hi.inFlight_update hg [] 0 (rfl : s.owner = s.owner)
  refine ⟨fun u h hu => hi.owner_update hg _ _ hu, hi.pushed, fun c' => ?_, hi.sent, fun c' => ?_,
    fun u c' ws' m hu₀ => ?_, fun u c' ws' m hu₀ hm => ?_, hi.outBursts, fun c' b hb => ?_⟩
  · show _ = _ ++ inFlight (update γ t _) s c' .mbox
    rw [hfl]
    simpa using hi.popped c'
  · show _ = _ ++ inFlight (update γ t _) s c' .wbox
    rw [hfl]
    by_cases hc : c' = c
    · subst hc
      simp [hi.written, hi.inFlight_eq hg]
    · simpa [hc, Ne.symm hc] using hi.written c'
  · rcases update_stage hu₀ with ⟨-, hu⟩ | ⟨-, hu⟩
    · cases hu
    · exact hi.entries u c' ws' m hu
  · rcases update_stage hu₀ with ⟨-, hu⟩ | ⟨-, hu⟩
    · obtain ⟨rfl, -, rfl, rfl⟩ := MboxHold.mk.inj (Option.some.inj hu)
      exact absurd hm (Nat.lt_irrefl 0)
    · exact hi.space u c' ws' m hu hm
  · by_cases hc : c' = c
    · subst hc
      simp only [Function.update_self, List.mem_append, List.mem_singleton] at hb
      rcases hb with hb | rfl
      · exact hi.inBursts c' b hb
      · exact ⟨rfl, hcount⟩
    · exact hi.inBursts c' b (by simpa [hc] using hb)

/-! ## The SPU's side -/

/-- A push leaves more entries. -/
theorem mbox_spuPush {w : Word} : MboxSafe t (perform (.spuPush c w)) g fun _ g' => g' = g := by
  refine .perform fun γ s hi hg => ⟨trivial, fun _ s' _ he => ⟨g, ?_, rfl⟩⟩
  rw [← hg, Function.update_eq_self]
  obtain ⟨-, rfl⟩ := of_guard he
  refine ⟨hi.owner, fun c' => ?_, hi.popped, fun c' => ?_, hi.written, fun u c' ws' m hu => ?_,
    fun u c' ws' m hu hm => ?_, hi.outBursts, hi.inBursts⟩
  · by_cases hc : c' = c
    · subst hc
      simp [World.setMailboxes, hi.pushed]
    · simpa [World.setMailboxes, hc] using hi.pushed c'
  · by_cases hc : c' = c
    · subst hc
      simpa [World.setMailboxes] using hi.sent c'
    · simpa [World.setMailboxes, hc] using hi.sent c'
  · have hent := hi.entries u c' ws' m hu
    by_cases hc : c' = c
    · subst hc
      simpa [World.setMailboxes] using Nat.le_succ_of_le hent
    · simpa [World.setMailboxes, hc] using hent
  · have hspace := hi.space u c' ws' m hu hm
    by_cases hc : c' = c
    · subst hc
      simpa [World.setMailboxes] using hspace
    · simpa [World.setMailboxes, hc] using hspace

/-- A pop leaves more space. -/
theorem mbox_spuPop : MboxSafe t (perform (.spuPop c)) g fun _ g' => g' = g := by
  refine .perform fun γ s hi hg => ⟨trivial, fun r s' _ he => ⟨g, ?_, rfl⟩⟩
  rw [← hg, Function.update_eq_self]
  cases hin : (s.mailboxes c).inbound with
  | nil => simp [machine, exec, hin] at he
  | cons w rest =>
    simp only [machine, exec, hin] at he
    obtain ⟨rfl, rfl⟩ := of_guard he
    refine ⟨hi.owner, fun c' => ?_, hi.popped, fun c' => ?_, hi.written, fun u c' ws' m hu => ?_,
      fun u c' ws' m hu hm => ?_, hi.outBursts, hi.inBursts⟩
    · by_cases hc : c' = c
      · subst hc
        simpa [World.setMailboxes] using hi.pushed c'
      · simpa [World.setMailboxes, hc] using hi.pushed c'
    · by_cases hc : c' = c
      · subst hc
        simp [World.setMailboxes, hi.sent, hin]
      · simpa [World.setMailboxes, hc] using hi.sent c'
    · have hent := hi.entries u c' ws' m hu
      by_cases hc : c' = c
      · subst hc
        simpa [World.setMailboxes] using hent
      · simpa [World.setMailboxes, hc] using hent
    · have hspace := hi.space u c' ws' m hu hm
      by_cases hc : c' = c
      · subst hc
        simp only [hin, List.length_cons] at hspace
        simp only [World.setMailboxes, Function.update_self]
        omega
      · simpa [World.setMailboxes, hc] using hspace

end

end LibSpe2
