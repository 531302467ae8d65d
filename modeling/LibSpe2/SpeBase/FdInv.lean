import LibSpe2.SpeBase.Create
import LibSpe2.Data.Tracks

/-!
# The descriptor cache: its invariant

A slot of `spe_fds_array` is shared by everyone who holds a reference to it, and its fields are only
accessed under the slot's lock, but for one load: `_base_spe_open_if_closed` reads the descriptor that
it returns after the unlock.

* `refs` — the references to a slot: taken by an open that has not returned, returned, or about to be
  dropped by a close;
* `SlotStage`, `SlotShape` — the stages that the holder of the lock takes a slot through;
* `FdInv` — the invariant over all threads and slots.
-/

namespace LibSpe2

open Function (update)

/-- A slot: a context and one of its files. -/
abbrev SlotId := Spe × FdName

/-- The references to a slot. -/
def refs (s : World) (x : SlotId) : List Fd :=
  (s.hist.taking x.1 x.2).map Prod.snd ++ s.hist.held x.1 x.2 ++
    (s.hist.dropping x.1 x.2).map Prod.snd

/-! ## Stages -/

inductive SlotStage where
  | vacant
  /-- Opened, but not yet stored. -/
  | opened (a : Fd)
  /-- Open, with `len` references and a count of `count`. -/
  | isOpen (a : Fd) (len : Nat) (count : Int)
  /-- Closed, with the descriptor still in the array. -/
  | closed (a : Fd)
  /-- Closed, with the last reference still to be dropped. -/
  | cleared

/-- The stages in which the lock may be released. -/
inductive SlotStage.Rest : SlotStage → Prop
  | vacant : Rest .vacant
  | isOpen {a : Fd} {n : Nat} (h : 0 < n) : Rest (.isOpen a n n)

structure Vacant (x : SlotId) (s : World) : Prop where
  array : s.mem (.speFdsArray x.1 x.2) = -1
  count : s.mem (.speFdsRefcount x.1 x.2) = 0
  refs : refs s x = []
  obtained : s.hist.obtained x.1 x.2 = s.hist.released x.1 x.2

/-- `a` is a descriptor of the file of the slot, the last one obtained and not yet closed. -/
structure Current (x : SlotId) (a : Fd) (s : World) : Prop where
  pos : 0 < a
  file : s.fds a = some (.spufs x.1 x.2)
  obtained : s.hist.obtained x.1 x.2 = s.hist.released x.1 x.2 ++ [a]

structure Opened (x : SlotId) (a : Fd) (s : World) : Prop extends Current x a s where
  array : s.mem (.speFdsArray x.1 x.2) = -1
  count : s.mem (.speFdsRefcount x.1 x.2) = 0
  refs : refs s x = []

structure Open (x : SlotId) (a : Fd) (len : Nat) (count : Int) (s : World) : Prop
    extends Current x a s where
  array : s.mem (.speFdsArray x.1 x.2) = a
  count : s.mem (.speFdsRefcount x.1 x.2) = count
  length : (refs s x).length = len
  refs : ∀ b ∈ refs s x, b = a
  few : len < 2 ^ 31

/-- The last reference, which is about to be dropped. -/
structure Last (x : SlotId) (s : World) : Prop where
  count : s.mem (.speFdsRefcount x.1 x.2) = 0
  taking : s.hist.taking x.1 x.2 = []
  held : s.hist.held x.1 x.2 = []
  dropping : (s.hist.dropping x.1 x.2).length = 1
  obtained : s.hist.obtained x.1 x.2 = s.hist.released x.1 x.2

/-- The state of a slot in a stage. -/
def SlotShape (x : SlotId) : SlotStage → World → Prop
  | .vacant, s => Vacant x s
  | .opened a, s => Opened x a s
  | .isOpen a len count, s => Open x a len count s
  | .closed a, s => Last x s ∧ s.mem (.speFdsArray x.1 x.2) = a
  | .cleared, s => Last x s ∧ s.mem (.speFdsArray x.1 x.2) = -1

/-! ## Threads -/

/-- Where a thread is with respect to one slot, whether it holds the lock or not. -/
inductive SlotUse where
  | none
  /-- It has taken a reference and not returned it yet. -/
  | taking (x : SlotId) (a : Fd)
  /-- Its `openat` has failed. -/
  | failed (x : SlotId)
  /-- It has announced to drop a reference. -/
  | dropping (x : SlotId) (a : Fd)

/-- A thread uses no other slot than `x`. -/
def SlotUse.Within (x : SlotId) : SlotUse → Prop
  | .none => True
  | .taking y _ | .failed y | .dropping y _ => y = x

/-- What a thread remembers. -/
structure FdStage where
  use : SlotUse
  /-- The slot whose lock it holds. -/
  own : Option (SlotId × SlotStage)

def FdStage.idle : FdStage := ⟨.none, none⟩

/-- The thread holds the lock of `x`, which is in stage `φ`. -/
def FdStage.hold (g : FdStage) (x : SlotId) (φ : SlotStage) : FdStage := { g with own := some (x, φ) }

@[simp] theorem FdStage.hold_own (g : FdStage) (x : SlotId) (φ : SlotStage) :
    (g.hold x φ).own = some (x, φ) := rfl

@[simp] theorem FdStage.hold_use (g : FdStage) (x : SlotId) (φ : SlotStage) :
    (g.hold x φ).use = g.use := rfl

/-! ## The invariant -/

/-- Slot `x` is in stage `φ`, and the references in transit are those that threads remember. -/
structure InSlot (γ : Tid → FdStage) (s : World) (x : SlotId) (φ : SlotStage) : Prop where
  shape : SlotShape x φ s
  rest : s.owner (.fdLock x.1 x.2) = none → φ.Rest
  holder : ∀ t, s.owner (.fdLock x.1 x.2) = some t ↔ ∃ ψ, (γ t).own = some (x, ψ)
  own : ∀ t ψ, (γ t).own = some (x, ψ) → ψ = φ
  taking : Tracks (s.hist.taking x.1 x.2) fun k => (γ k.1).use = .taking x k.2
  failed : Tracks (s.hist.failed x.1 x.2) fun t => (γ t).use = .failed x
  dropping : Tracks (s.hist.dropping x.1 x.2) fun k => (γ k.1).use = .dropping x k.2

/-- **The invariant** of the descriptor cache. -/
def FdInv (γ : Tid → FdStage) (s : World) : Prop := ∀ x, ∃ φ, InSlot γ s x φ

/-! ## Frames -/

/-- What the shape of slot `x` depends on is the same in `s` and `s'`. -/
structure SlotKeeps (x : SlotId) (s s' : World) : Prop where
  array : s'.mem (.speFdsArray x.1 x.2) = s.mem (.speFdsArray x.1 x.2)
  count : s'.mem (.speFdsRefcount x.1 x.2) = s.mem (.speFdsRefcount x.1 x.2)
  file : ∀ a, s.fds a = some (.spufs x.1 x.2) → s'.fds a = some (.spufs x.1 x.2)
  taking : s'.hist.taking x.1 x.2 = s.hist.taking x.1 x.2
  held : s'.hist.held x.1 x.2 = s.hist.held x.1 x.2
  dropping : s'.hist.dropping x.1 x.2 = s.hist.dropping x.1 x.2
  obtained : s'.hist.obtained x.1 x.2 = s.hist.obtained x.1 x.2
  released : s'.hist.released x.1 x.2 = s.hist.released x.1 x.2

section

variable {γ γ' : Tid → FdStage} {s s' : World} {x x' : SlotId} {φ : SlotStage} {t : Tid} {g : FdStage}

theorem SlotKeeps.refs (hk : SlotKeeps x s s') : refs s' x = refs s x := by
  simp only [LibSpe2.refs, hk.taking, hk.held, hk.dropping]

theorem Current.keeps {a : Fd} (h : Current x a s) (hk : SlotKeeps x s s') : Current x a s' :=
  ⟨h.pos, hk.file a h.file, by rw [hk.obtained, hk.released, h.obtained]⟩

theorem Last.keeps (h : Last x s) (hk : SlotKeeps x s s') : Last x s' :=
  ⟨hk.count.trans h.count, hk.taking.trans h.taking, hk.held.trans h.held,
    by rw [hk.dropping, h.dropping], by rw [hk.obtained, hk.released, h.obtained]⟩

theorem SlotShape.keeps (h : SlotShape x φ s) (hk : SlotKeeps x s s') : SlotShape x φ s' := by
  cases φ with
  | vacant =>
    exact ⟨hk.array.trans h.array, hk.count.trans h.count, hk.refs.trans h.refs,
      by rw [hk.obtained, hk.released, h.obtained]⟩
  | opened a =>
    exact ⟨h.toCurrent.keeps hk, hk.array.trans h.array, hk.count.trans h.count,
      hk.refs.trans h.refs⟩
  | isOpen a len count =>
    exact ⟨h.toCurrent.keeps hk, hk.array.trans h.array, hk.count.trans h.count,
      by rw [hk.refs, h.length], by rw [hk.refs]; exact h.refs, h.few⟩
  | closed a => exact ⟨h.1.keeps hk, hk.array.trans h.2⟩
  | cleared => exact ⟨h.1.keeps hk, hk.array.trans h.2⟩

theorem InSlot.keeps (h : InSlot γ s x φ) (hk : SlotKeeps x s s')
    (howner : s'.owner (.fdLock x.1 x.2) = s.owner (.fdLock x.1 x.2))
    (hfailed : s'.hist.failed x.1 x.2 = s.hist.failed x.1 x.2)
    (hown : ∀ u ψ, (γ' u).own = some (x, ψ) ↔ (γ u).own = some (x, ψ))
    (huse : ∀ u v, ¬ v.Within x' → ((γ' u).use = v ↔ (γ u).use = v)) (hx : x ≠ x') :
    InSlot γ' s' x φ where
  shape := h.shape.keeps hk
  rest ho := h.rest (howner ▸ ho)
  holder u := by simp only [howner, hown, h.holder]
  own u ψ hu := h.own u ψ ((hown u ψ).mp hu)
  taking := hk.taking ▸ h.taking.congr fun k => (huse k.1 (.taking x k.2) hx).symm
  failed := hfailed ▸ h.failed.congr fun u => (huse u (.failed x) hx).symm
  dropping := hk.dropping ▸ h.dropping.congr fun k => (huse k.1 (.dropping x k.2) hx).symm

/-- A step of one thread on one slot: what remains to be shown is the stage of that slot. -/
theorem FdInv.on (hi : FdInv γ s) (x : SlotId) (φ : SlotStage)
    (hk : ∀ y, y ≠ x → SlotKeeps y s s')
    (howner : ∀ y, y ≠ x → s'.owner (.fdLock y.1 y.2) = s.owner (.fdLock y.1 y.2))
    (hfailed : ∀ y, y ≠ x → s'.hist.failed y.1 y.2 = s.hist.failed y.1 y.2)
    (hown : ∀ y, y ≠ x → ∀ ψ, g.own = some (y, ψ) ↔ (γ t).own = some (y, ψ))
    (huse : g.use = (γ t).use ∨ g.use.Within x ∧ (γ t).use.Within x)
    (hx : InSlot (update γ t g) s' x φ) : FdInv (update γ t g) s' := by
  intro y
  by_cases hyx : y = x
  · subst hyx
    exact ⟨φ, hx⟩
  obtain ⟨ψ, hψ⟩ := hi y
  refine ⟨ψ, hψ.keeps (hk y hyx) (howner y hyx) (hfailed y hyx) (fun u χ => ?_) (fun u v hv => ?_) hyx⟩
  · by_cases hut : u = t
    · subst hut
      simpa using hown y hyx χ
    · simp [hut]
  · by_cases hut : u = t
    · subst hut
      rw [Function.update_self]
      rcases huse with h | ⟨h, h'⟩
      · rw [h]
      · constructor
        · rintro rfl
          exact absurd h hv
        · rintro rfl
          exact absurd h' hv
    · simp [hut]

/-- A step of the holder of the lock of `x` that leaves the references alone. -/
structure SlotLocal (x : SlotId) (s s' : World) : Prop where
  others : ∀ y, y ≠ x → SlotKeeps y s s'
  owner : s'.owner = s.owner
  taking : s'.hist.taking = s.hist.taking
  failed : s'.hist.failed = s.hist.failed
  dropping : s'.hist.dropping = s.hist.dropping

theorem FdInv.own (hi : FdInv γ s) (hg : (γ t).own = some (x, φ)) : InSlot γ s x φ := by
  obtain ⟨ψ, hψ⟩ := hi x
  rwa [hψ.own t φ hg]

theorem InSlot.owner (h : InSlot γ s x φ) (hg : (γ t).own = some (x, φ)) :
    s.owner (.fdLock x.1 x.2) = some t := (h.holder t).mpr ⟨φ, hg⟩

theorem use_update (u : Tid) :
    (update γ t g u).use = if u = t then g.use else (γ u).use := by
  by_cases hut : u = t <;> simp [hut]

/-- Only the holder's idea of the stage of `x` changes. -/
theorem InSlot.hold (h : InSlot γ s x φ) {φ' : SlotStage} (hg : (γ t).own = some (x, φ))
    (howner : s'.owner = s.owner) (hg' : g.own = some (x, φ')) (hs : SlotShape x φ' s')
    (htaking : Tracks (s'.hist.taking x.1 x.2) fun k => (update γ t g k.1).use = .taking x k.2)
    (hfailed : Tracks (s'.hist.failed x.1 x.2) fun u => (update γ t g u).use = .failed x)
    (hdropping : Tracks (s'.hist.dropping x.1 x.2) fun k =>
      (update γ t g k.1).use = .dropping x k.2) : InSlot (update γ t g) s' x φ' := by
  have ho := h.owner hg
  refine ⟨hs, fun hn => ?_, fun u => ?_, fun u ψ hu => ?_, htaking, hfailed, hdropping⟩
  · rw [howner, ho] at hn
    cases hn
  · by_cases hut : u = t
    · subst hut
      simp [howner, ho, hg']
    · simp [howner, hut, h.holder]
  · by_cases hut : u = t
    · subst hut
      simpa [hg'] using hu.symm
    · have := (h.holder u).mpr ⟨ψ, by simpa [hut] using hu⟩
      rw [ho] at this
      exact absurd (Option.some.inj this).symm hut

/-- Nobody's idea of the stage of `x` changes. -/
theorem InSlot.same (h : InSlot γ s x φ) (howner : s'.owner = s.owner) (hg : g.own = (γ t).own)
    (hs : SlotShape x φ s')
    (htaking : Tracks (s'.hist.taking x.1 x.2) fun k => (update γ t g k.1).use = .taking x k.2)
    (hfailed : Tracks (s'.hist.failed x.1 x.2) fun u => (update γ t g u).use = .failed x)
    (hdropping : Tracks (s'.hist.dropping x.1 x.2) fun k =>
      (update γ t g k.1).use = .dropping x k.2) : InSlot (update γ t g) s' x φ := by
  have hown (u : Tid) : (update γ t g u).own = (γ u).own := by
    by_cases hut : u = t
    · subst hut
      simp [hg]
    · simp [hut]
  refine ⟨hs, fun hn => h.rest (howner ▸ hn), fun u => ?_, fun u ψ hu => ?_, htaking, hfailed,
    hdropping⟩
  · rw [howner, hown, h.holder]
  · exact h.own u ψ (by rwa [hown] at hu)

/-- **The holder** of a lock keeps the invariant by keeping the shape of the slot. -/
theorem FdInv.local (hi : FdInv γ s) {φ' : SlotStage} (hg : γ t = g.hold x φ)
    (hl : SlotLocal x s s') (hs : SlotShape x φ' s') : FdInv (update γ t (g.hold x φ')) s' := by
  have hx := hi.own (show (γ t).own = some (x, φ) by simp [hg])
  have huse (u : Tid) : (update γ t (g.hold x φ') u).use = (γ u).use := by
    by_cases hut : u = t
    · subst hut
      simp [hg]
    · simp [hut]
  refine hi.on x φ' hl.others (fun _ _ => by rw [hl.owner]) (fun _ _ => by rw [hl.failed])
    (fun y hne ψ => by simp [hg, Ne.symm hne]) (.inl (by simp [hg])) ?_
  exact hx.hold (by simp [hg]) hl.owner rfl hs
    (hl.taking ▸ hx.taking.congr fun k => by rw [huse])
    (hl.failed ▸ hx.failed.congr fun u => by rw [huse])
    (hl.dropping ▸ hx.dropping.congr fun k => by rw [huse])

/-- References may change hands, but for the last one while it is about to be dropped. -/
theorem SlotShape.perm (h : SlotShape x φ s) (hmem : s'.mem = s.mem) (hfds : s'.fds = s.fds)
    (hobtained : s'.hist.obtained = s.hist.obtained) (hreleased : s'.hist.released = s.hist.released)
    (hrefs : (LibSpe2.refs s' x).Perm (LibSpe2.refs s x))
    (hlast : s.hist.taking x.1 x.2 ≠ [] ∨ s.hist.held x.1 x.2 ≠ []) : SlotShape x φ s' := by
  cases φ with
  | vacant =>
    have h : Vacant x s := h
    exact ⟨hmem ▸ h.array, hmem ▸ h.count, List.perm_nil.mp (h.refs ▸ hrefs),
      by rw [hobtained, hreleased, h.obtained]⟩
  | opened a =>
    have h : Opened x a s := h
    exact ⟨⟨h.pos, hfds ▸ h.file, by rw [hobtained, hreleased, h.obtained]⟩, hmem ▸ h.array,
      hmem ▸ h.count, List.perm_nil.mp (h.refs ▸ hrefs)⟩
  | isOpen a len count =>
    have h : Open x a len count s := h
    exact ⟨⟨h.pos, hfds ▸ h.file, by rw [hobtained, hreleased, h.obtained]⟩, hmem ▸ h.array,
      hmem ▸ h.count, hrefs.length_eq.trans h.length, fun b hb => h.refs b (hrefs.mem_iff.mp hb),
      h.few⟩
  | closed a | cleared => exact absurd hlast (by simp [h.1.taking, h.1.held])

end

end LibSpe2
