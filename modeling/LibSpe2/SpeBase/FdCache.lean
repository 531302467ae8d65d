import LibSpe2.SpeBase.FdStep

/-!
# The descriptor cache over all interleavings

The cache keeps its books as long as

* the memory of a new context happens to hold a count of `0` (`_base_spe_context_create` does not
  initialise it),
* `openat` answers a positive descriptor (`0` is not counted),
* a thread whose `openat` failed finds the slot still closed when it reads it again after the unlock,
* fewer than `2^31 - 1` references are held when another one is taken.

## Main results

* `fdCache_account` — under these conditions, the books of every slot in every reachable state;
* `fdCache_breaks` — runs in which a condition is not met and the books are wrong.
-/

namespace LibSpe2

open Conc (Prog Config)

section

variable {t : Tid} {g : FdStage} {x : SlotId} {φ : SlotStage} {a : Fd}

/-! ## The functions -/

/-- What an open does after the unlock. -/
theorem fd_return (hg : (∃ a, g.use = .taking x a) ∨ g.use = .failed x) :
    FdSafe t (do
      let fd ← load (.speFdsArray x.1 x.2)
      note (.openReturned x.1 x.2 fd)
      return fd) g fun _ g' => g' = { g with use := .none } := by
  rcases hg with ⟨a, hg⟩ | hg
  · refine .bind (fd_load_taken hg) ?_
    rintro _ _ ⟨rfl, rfl, ha⟩
    exact .bind (fd_note_returned hg ha) fun _ _ h => h
  · refine .bind (fd_load_failed hg) ?_
    rintro _ _ ⟨rfl, rfl⟩
    exact .bind (fd_note_returned_failed hg) fun _ _ h => h

theorem fd_baseSpeOpenIfClosed (hown : g.own = none) (huse : g.use = .none) :
    FdSafe t (baseSpeOpenIfClosed x.1 x.2 false) g fun _ g' => g' = { g with use := .none } := by
  refine .bind (fd_lock hown) ?_
  rintro _ _ ⟨φ, hφ, rfl, -⟩
  cases hφ with
  | vacant =>
    refine .bind (fd_load (P := (· = -1)) fun _ hs => Vacant.array hs) ?_
    rintro _ _ ⟨rfl, rfl⟩
    refine .bind fd_openat ?_
    rintro (e | a) _ rfl
    · refine .bind fd_store_vacant ?_
      rintro _ _ rfl
      refine .bind (fd_note_openFailed huse) ?_
      rintro _ _ rfl
      refine .bind (fd_load (P := (· = -1)) fun _ hs => Vacant.array hs) ?_
      rintro _ _ ⟨rfl, rfl⟩
      refine .bind (fd_unlock hown .vacant) ?_
      rintro _ _ rfl
      exact fd_return (.inr rfl)
    · refine .bind fd_store_opened ?_
      rintro _ _ rfl
      refine .bind (fd_note_opened huse) ?_
      rintro _ _ ⟨rfl, -⟩
      refine .bind (fd_load (P := fun v => v = a ∧ 0 < v) fun _ hs =>
        ⟨Open.array hs, (Open.array hs).symm ▸ (Open.toCurrent hs).pos⟩) ?_
      rintro _ _ ⟨rfl, rfl, hpos⟩
      simp only [gt_iff_lt, hpos, ↓reduceIte]
      refine .bind (fd_load (P := (· = 0)) fun _ hs => Open.count hs) ?_
      rintro _ _ ⟨rfl, rfl⟩
      refine .bind fd_store_count ?_
      rintro _ _ rfl
      refine .bind (fd_unlock hown (.isOpen Nat.one_pos)) ?_
      rintro _ _ rfl
      exact fd_return (.inl ⟨_, rfl⟩)
  | @isOpen a n hn =>
    refine .bind (fd_load (P := fun v => v = a ∧ 0 < v) fun _ hs =>
      ⟨Open.array hs, (Open.array hs).symm ▸ (Open.toCurrent hs).pos⟩) ?_
    rintro b _ ⟨rfl, rfl, hpos⟩
    have hne : b ≠ -1 := by
      rintro rfl
      exact absurd hpos (by decide)
    rw [if_pos hne]
    refine .bind (fd_load (P := (· = (n : Int))) fun _ hs => Open.count hs) ?_
    rintro _ _ ⟨rfl, rfl⟩
    refine .bind fd_store_count ?_
    rintro _ _ rfl
    refine .bind (fd_note_opened huse) ?_
    rintro _ _ ⟨rfl, hfew⟩
    rw [toInt32_of_range (by omega) (by omega)]
    refine .bind (fd_unlock hown (.isOpen (Nat.succ_pos n))) ?_
    rintro _ _ rfl
    exact fd_return (.inl ⟨_, rfl⟩)

theorem fd_baseSpeCloseIfOpen {b : Fd} (hown : g.own = none) (huse : g.use = .dropping x b) :
    FdSafe t (baseSpeCloseIfOpen x.1 x.2) g fun _ g' => g' = { g with use := .none } := by
  refine .bind (fd_lock hown) ?_
  rintro _ _ ⟨φ, hφ, rfl, hopen⟩
  cases hφ with
  | vacant => exact absurd rfl (hopen b huse)
  | @isOpen a n hn =>
    refine .bind (fd_load (P := fun v => v = a ∧ 0 < v) fun _ hs =>
      ⟨Open.array hs, (Open.array hs).symm ▸ (Open.toCurrent hs).pos⟩) ?_
    rintro a _ ⟨rfl, rfl, hpos⟩
    have hne : a ≠ -1 := by
      rintro rfl
      exact absurd hpos (by decide)
    refine .bind (fd_load (P := fun v => v = (n : Int) ∧ n < 2 ^ 31) fun _ hs =>
      ⟨Open.count hs, Open.few hs⟩) ?_
    rintro _ _ ⟨rfl, rfl, hfew⟩
    by_cases hone : n = 1
    · -- the last reference
      subst hone
      rw [if_pos ⟨hne, rfl⟩]
      refine .bind fd_store_count ?_
      rintro _ _ rfl
      refine .bind (fd_close huse) ?_
      rintro _ _ ⟨rfl, rfl⟩
      refine .bind fd_store_closed ?_
      rintro _ _ rfl
      refine .bind (fd_note_closed_last huse) ?_
      rintro _ _ rfl
      exact fd_unlock hown .vacant
    · obtain ⟨m, rfl⟩ : ∃ m, n = m + 2 := ⟨n - 2, by omega⟩
      rw [if_neg (by push_cast; omega), if_pos (by push_cast; omega)]
      refine .bind fd_store_count ?_
      rintro _ _ rfl
      refine .bind (fd_note_closed huse) ?_
      rintro _ _ rfl
      rw [toInt32_of_range (by push_cast; omega) (by push_cast; omega)]
      have hcount : ((m + 2 : Nat) : Int) - 1 = (m + 1 : Nat) := by push_cast; omega
      rw [hcount]
      exact fd_unlock hown (.isOpen (Nat.succ_pos m))

end

/-! ## All interleavings -/

theorem fdInv_init {s : World} (h : FdInit (fun _ _ => 0) s) : FdInv (fun _ => .idle) s := by
  intro x
  refine ⟨.vacant, ⟨h.closed x.1 x.2, h.count x.1 x.2, ?_, ?_⟩, fun _ => .vacant, fun u => ?_,
    fun u ψ hu => ?_, ?_, ?_, ?_⟩
  · simp [refs, h.hist, History.empty]
  · simp [h.hist, History.empty]
  · simp [h.owner, FdStage.idle]
  · simp [FdStage.idle] at hu
  all_goals exact ⟨by simp [h.hist, History.empty], by simp [h.hist, History.empty, FdStage.idle]⟩

/-- Every call keeps to the protocol. -/
theorem fdSystem_safe (junk : Spe → FdName → Int) (t : Tid) (call : FdCall) :
    FdSafe t ((fdSystem junk).code t call) .idle fun _ g' => g' = .idle := by
  cases call with
  | acquire spe d =>
    exact .bind (fd_baseSpeOpenIfClosed (x := (spe, d)) rfl rfl) fun _ _ h => h
  | release spe d fd =>
    refine .bind (fd_note_closing (x := (spe, d)) rfl) ?_
    rintro _ _ rfl
    exact fd_baseSpeCloseIfOpen (x := (spe, d)) rfl rfl

/-- The books of a slot whose lock is free. -/
structure SlotAccount (x : SlotId) (s : World) : Prop where
  /-- The slot is open exactly while there are references. -/
  isOpen : s.mem (.speFdsArray x.1 x.2) ≠ -1 ↔ 0 < (refs s x).length
  count : s.mem (.speFdsRefcount x.1 x.2) = (refs s x).length
  /-- Every descriptor obtained has been closed, in order, but for the one in the array. -/
  closed : s.hist.obtained x.1 x.2 = s.hist.released x.1 x.2 ++
    if s.mem (.speFdsArray x.1 x.2) = -1 then [] else [s.mem (.speFdsArray x.1 x.2)]

/-- The books of the cache in every state, for all slots. -/
structure FdCache (cfg : Config Cmd Ans Tid World) : Prop where
  account : ∀ x : SlotId, cfg.shared.owner (.fdLock x.1 x.2) = none → SlotAccount x cfg.shared
  /-- Between an open that returns a descriptor and the close that it is paired with, the slot keeps
  the descriptor. -/
  stable : ∀ spe d, ∀ fd ∈ cfg.shared.hist.held spe d, cfg.shared.mem (.speFdsArray spe d) = fd
  /-- `openat` is called only when the slot is closed. -/
  openat : ∀ t spe d k, cfg.threads t = some (.cmd (.openat spe d) k) →
    cfg.shared.mem (.speFdsArray spe d) = -1
  /-- An open returns the descriptor that it took a reference to, or `-1` if `openat` failed. -/
  returns : ∀ t spe d fd k, cfg.threads t = some (.cmd (.note (.openReturned spe d fd)) k) →
    (∃ a, (t, a) ∈ cfg.shared.hist.taking spe d) ∧
      (∀ a, (t, a) ∈ cfg.shared.hist.taking spe d → fd = a ∧ fd ≠ -1) ∨
    t ∈ cfg.shared.hist.failed spe d ∧ fd = -1

theorem SlotShape.account {x : SlotId} {φ : SlotStage} {s : World} (hs : SlotShape x φ s)
    (hφ : φ.Rest) : SlotAccount x s := by
  cases hφ with
  | vacant =>
    have hs : Vacant x s := hs
    exact ⟨by simp [hs.array, hs.refs], by simp [hs.count, hs.refs], by simp [hs.array, hs.obtained]⟩
  | @isOpen a n hn =>
    have hs : Open x a n n s := hs
    have hne : a ≠ -1 := by
      rintro rfl
      exact absurd hs.pos (by decide)
    exact ⟨by simp [hs.array, hs.length, hn, hne], by simp [hs.count, hs.length],
      by simp [hs.array, hs.obtained, hne]⟩

/-! ## Results -/

/-- The world right after the creation of its contexts. -/
def fdWorld (junk : Spe → FdName → Int) : World :=
  { World.boot with mem := fun
      | .speFdsRefcount spe d => junk spe d
      | l => World.boot.mem l }

theorem fdInit_fdWorld (junk : Spe → FdName → Int) : FdInit junk (fdWorld junk) := by
  constructor <;> intros <;> rfl

/-- The first open of a slot, where `openat` answers `5`. -/
def openTrace : List (Sigma Ans) :=
  [⟨.lock (.fdLock 0 .ibox), ()⟩, ⟨.load (.speFdsArray 0 .ibox), (-1 : Int)⟩,
    ⟨.openat 0 .ibox, .ok 5⟩, ⟨.store (.speFdsArray 0 .ibox) 5, ()⟩,
    ⟨.note (.opened 0 .ibox 5), ()⟩, ⟨.load (.speFdsArray 0 .ibox), (5 : Int)⟩,
    ⟨.load (.speFdsRefcount 0 .ibox), (0 : Int)⟩, ⟨.store (.speFdsRefcount 0 .ibox) 1, ()⟩,
    ⟨.unlock (.fdLock 0 .ibox), ()⟩, ⟨.load (.speFdsArray 0 .ibox), (5 : Int)⟩,
    ⟨.note (.openReturned 0 .ibox 5), ()⟩]

/-- The first open of a slot, where `openat` answers `0`. -/
def openZeroTrace : List (Sigma Ans) :=
  [⟨.lock (.fdLock 0 .ibox), ()⟩, ⟨.load (.speFdsArray 0 .ibox), (-1 : Int)⟩,
    ⟨.openat 0 .ibox, .ok 0⟩, ⟨.store (.speFdsArray 0 .ibox) 0, ()⟩,
    ⟨.note (.opened 0 .ibox 0), ()⟩, ⟨.load (.speFdsArray 0 .ibox), (0 : Int)⟩,
    ⟨.unlock (.fdLock 0 .ibox), ()⟩, ⟨.load (.speFdsArray 0 .ibox), (0 : Int)⟩,
    ⟨.note (.openReturned 0 .ibox 0), ()⟩]

def fdConfig (tr : List (Sigma Ans)) : Config Cmd Ans Tid World :=
  ⟨(fdWorld fun _ _ => 0).after 1 tr, fun _ => none⟩

theorem openTrace_reach : (fdSystem fun _ _ => 0).Reach fdOk (fdConfig openTrace) := by
  refine (Conc.System.Reach.init (fdInit_fdWorld _)).solo (t := 1) (c := .acquire 0 .ibox) rfl ?_
    (show machine.play 1 openTrace _ = some _ from rfl) ?_
  · repeat first | exact .ret | refine .cmd ?_
  · exact ⟨trivial, nofun, (by decide : (0 : Int) < 5), trivial, (by decide : 0 + 1 < 2 ^ 31), nofun,
      trivial, trivial, trivial, nofun, trivial, trivial⟩

theorem openZeroTrace_reach : (fdSystem fun _ _ => 0).Reachable (fdConfig openZeroTrace) := by
  refine (Conc.System.Reach.init (fdInit_fdWorld _)).solo (t := 1) (c := .acquire 0 .ibox) rfl ?_
    (show machine.play 1 openZeroTrace _ = some _ from rfl)
    (Conc.Machine.passes_of_forall _ (fun _ _ _ _ => trivial) _ _ _)
  repeat first | exact .ret | refine .cmd ?_

/-- **The descriptor cache.** From contexts whose counts happen to be `0`, in every run whose steps
all meet `fdOk`, the books are in order in every state. -/
theorem fdCache_account {cfg : Config Cmd Ans Tid World}
    (h : (fdSystem fun _ _ => 0).Reach fdOk cfg) : FdCache cfg := by
  have hpre {t c k} (ht : cfg.threads t = some (.cmd c k)) : fdPre t c cfg.shared :=
    Conc.Proto.reach_pre (P := fdProto) (fun _ => fdInv_init) (fdSystem_safe _) h ht
  obtain ⟨γ, hγ, -⟩ := Conc.Proto.reach (P := fdProto) (fun _ => fdInv_init) (fdSystem_safe _) h
  refine ⟨fun x hfree => ?_, fun spe d fd hfd => ?_, fun t spe d k ht => hpre ht,
    fun t spe d fd k ht => hpre ht⟩
  · obtain ⟨φ, hφ⟩ := hγ x
    exact hφ.shape.account (hφ.rest hfree)
  · obtain ⟨φ, hφ⟩ := hγ (spe, d)
    exact (hφ.shape.array (.inr hfd)).1

theorem fdCache_account_open : FdCache (fdConfig openTrace) ∧
    (fdConfig openTrace).shared.hist.held 0 .ibox = [5] :=
  ⟨fdCache_account openTrace_reach, rfl⟩

/-- The books are wrong as soon as `openat` answers `0`, and from the start when the memory of a new
context does not hold a count of `0`. -/
theorem fdCache_breaks : (∃ cfg, (fdSystem fun _ _ => 0).Reachable cfg ∧ ¬ FdCache cfg) ∧
    ∃ cfg, (fdSystem fun _ _ => 1).Reachable cfg ∧ ¬ FdCache cfg := by
  refine ⟨⟨_, openZeroTrace_reach, fun h => ?_⟩, ⟨_, .init (fdInit_fdWorld _), fun h => ?_⟩⟩
  · exact absurd (h.account (0, .ibox) rfl).count (by decide)
  · exact absurd (h.account (0, .ibox) rfl).count (by decide)

end LibSpe2
