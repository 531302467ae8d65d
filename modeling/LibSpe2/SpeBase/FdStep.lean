import LibSpe2.SpeBase.FdInv

/-!
# The descriptor cache: one command at a time

Any number of threads open and close slots; a close is paired with an open that has returned before
it. `fdOk` are the conditions under which the cache keeps its books, `fdProto` the protocol that its
threads then keep to, and one rule for each command says what it does to the stages of
`SpeBase/FdInv.lean`.
-/

namespace LibSpe2

open Function (update)

/-! ## The system -/

inductive FdCall where
  | acquire (spe : Spe) (d : FdName)
  /-- A close that is paired with an open which has returned `fd`. -/
  | release (spe : Spe) (d : FdName) (fd : Fd)

/-- The slots as `_base_spe_context_create` leaves them in memory that held `junk`. -/
structure FdInit (junk : Spe → FdName → Int) (s : World) : Prop where
  closed : ∀ spe d, s.mem (.speFdsArray spe d) = -1
  count : ∀ spe d, s.mem (.speFdsRefcount spe d) = junk spe d
  owner : ∀ m, s.owner m = none
  hist : s.hist = .empty

/-- Any number of threads opening and closing slots of any contexts. -/
def fdSystem (junk : Spe → FdName → Int) : Conc.System Cmd Ans Tid World where
  toMachine := machine
  Call := FdCall
  code _
    | .acquire spe d => do let _ ← baseSpeOpenIfClosed spe d false
    | .release spe d fd => do
      note (.closing spe d fd)
      baseSpeCloseIfOpen spe d
  init := FdInit junk

/-- The conditions on the steps. -/
def fdOk (t : Tid) : (c : Cmd) → Ans c → World → Prop
  | .openat _ _, .ok fd, _ => 0 < fd
  | .load (.speFdsArray spe d), _, s => t ∈ s.hist.failed spe d → s.mem (.speFdsArray spe d) = -1
  | .note (.opened spe d _), _, s => (refs s (spe, d)).length + 1 < 2 ^ 31
  | _, _, _ => True

/-- `openat` is called for closed slots only, and an open returns the descriptor that it took a
reference to, or `-1` where it took none. -/
def fdPre (t : Tid) : Cmd → World → Prop
  | .openat spe d, s => s.mem (.speFdsArray spe d) = -1
  | .note (.openReturned spe d fd), s =>
    (∃ a, (t, a) ∈ s.hist.taking spe d) ∧ (∀ a, (t, a) ∈ s.hist.taking spe d → fd = a ∧ fd ≠ -1) ∨
      t ∈ s.hist.failed spe d ∧ fd = -1
  | _, _ => True

def fdProto : Conc.Proto Cmd Tid World FdStage where
  idle := .idle
  inv := FdInv
  pre := fdPre

abbrev FdSafe (t : Tid) {α : Type} (p : Sys α) (g : FdStage) (Q : α → FdStage → Prop) : Prop :=
  fdProto.Safe machine fdOk t p g Q

section

variable {t : Tid} {s s' : World} {g : FdStage} {x : SlotId} {φ : SlotStage} {a : Fd}

/-! ## Steps of the holder of a lock -/

theorem fd_held {cmd : Cmd} {Q : Ans cmd → FdStage → Prop}
    (h : ∀ s, SlotShape x φ s → (∀ b, g.use = .dropping x b → (t, b) ∈ s.hist.dropping x.1 x.2) →
      fdPre t cmd s ∧ ∀ r s', fdOk t cmd r s → exec t cmd r s = some s' →
        ∃ φ', SlotLocal x s s' ∧ SlotShape x φ' s' ∧ Q r (g.hold x φ')) :
    FdSafe t (perform cmd) (g.hold x φ) Q := by
  refine .perform fun γ s hi hg => ?_
  have hx := hi.own (show (γ t).own = some (x, φ) by simp [hg])
  obtain ⟨hp, hr⟩ := h s hx.shape fun b hb => (hx.dropping.mem (t, b)).mpr (by simp [hg, hb])
  refine ⟨hp, fun r s' ho he => ?_⟩
  obtain ⟨φ', hl, hs, hQ⟩ := hr r s' ho he
  exact ⟨_, hi.local hg hl hs, hQ⟩

theorem SlotKeeps.refl (x : SlotId) (s : World) : SlotKeeps x s s :=
  ⟨rfl, rfl, fun _ h => h, rfl, rfl, rfl, rfl, rfl⟩

theorem SlotLocal.refl (x : SlotId) (s : World) : SlotLocal x s s :=
  ⟨fun y _ => .refl y s, rfl, rfl, rfl, rfl⟩

/-- A load tells what the shape says about the member. -/
theorem fd_load {l : Loc} {P : Int → Prop} (h : ∀ s, SlotShape x φ s → P (s.mem l)) :
    FdSafe t (load l) (g.hold x φ) fun v g' => g' = g.hold x φ ∧ P v := by
  refine fd_held fun s hs _ => ⟨trivial, fun v s' _ he => ?_⟩
  obtain ⟨rfl, rfl⟩ := of_guard he
  exact ⟨φ, .refl x s, hs, rfl, h s hs⟩

theorem SlotLocal.setMem {l : Loc} {v : Int}
    (hl : l = .speFdsArray x.1 x.2 ∨ l = .speFdsRefcount x.1 x.2) : SlotLocal x s (s.setMem l v) where
  others y hne := by
    have hne' : ¬ (y.1 = x.1 ∧ y.2 = x.2) := fun h => hne (Prod.ext h.1 h.2)
    refine ⟨?_, ?_, fun _ h => h, rfl, rfl, rfl, rfl, rfl⟩
    · rcases hl with rfl | rfl <;> simp [World.setMem, hne']
    · rcases hl with rfl | rfl <;> simp [World.setMem, hne']
  owner := rfl
  taking := rfl
  failed := rfl
  dropping := rfl

theorem fd_openat :
    FdSafe t (perform (.openat x.1 x.2)) (g.hold x .vacant) fun r g' => match r with
      | .ok a => g' = g.hold x (.opened a)
      | .error _ => g' = g.hold x .vacant := by
  refine fd_held fun s hs _ => ⟨Vacant.array hs, fun r s' ho he => ?_⟩
  have hs : Vacant x s := hs
  cases r with
  | error e =>
    obtain rfl := Option.some.inj he
    exact ⟨.vacant, ⟨fun y _ => ⟨rfl, rfl, fun _ h => h, rfl, rfl, rfl, rfl, rfl⟩, rfl, rfl,
      rfl, rfl⟩, ⟨hs.array, hs.count, hs.refs, hs.obtained⟩, rfl⟩
  | ok a =>
    obtain ⟨⟨-, hfree⟩, rfl⟩ := of_guard he
    refine ⟨.opened a, ⟨fun y hne => ⟨rfl, rfl, fun b hb => ?_, rfl, rfl, rfl,
      update₂_of_ne _ _ hne, rfl⟩, rfl, rfl, rfl, rfl⟩, ?_, rfl⟩
    · have hba : b ≠ a := by
        rintro rfl
        simp [hfree] at hb
      simpa [World.openFd, hba] using hb
    · exact ⟨⟨ho, by simp [World.openFd], by simp [hs.obtained]⟩, hs.array, hs.count, hs.refs⟩

@[simp] theorem refs_setMem (s : World) (l : Loc) (v : Int) (x : SlotId) :
    refs (s.setMem l v) x = refs s x := rfl

theorem fd_store_opened :
    FdSafe t (store (.speFdsArray x.1 x.2) a) (g.hold x (.opened a)) fun _ g' =>
      g' = g.hold x (.isOpen a 0 0) := by
  refine fd_held fun s hs _ => ⟨trivial, fun _ s' _ he => ?_⟩
  have hs : Opened x a s := hs
  obtain rfl := Option.some.inj he
  refine ⟨.isOpen a 0 0, .setMem (.inl rfl), ?_, rfl⟩
  exact ⟨⟨hs.pos, hs.file, hs.obtained⟩, by simp [World.setMem],
    by simpa [World.setMem] using hs.count, by simp [hs.refs], by simp [hs.refs], by decide⟩

theorem fd_store_vacant :
    FdSafe t (store (.speFdsArray x.1 x.2) (-1)) (g.hold x .vacant) fun _ g' =>
      g' = g.hold x .vacant := by
  refine fd_held fun s hs _ => ⟨trivial, fun _ s' _ he => ?_⟩
  have hs : Vacant x s := hs
  obtain rfl := Option.some.inj he
  refine ⟨.vacant, .setMem (.inl rfl), ?_, rfl⟩
  exact ⟨by simp [World.setMem], by simpa [World.setMem] using hs.count, hs.refs, hs.obtained⟩

theorem fd_store_closed :
    FdSafe t (store (.speFdsArray x.1 x.2) (-1)) (g.hold x (.closed a)) fun _ g' =>
      g' = g.hold x .cleared := by
  refine fd_held fun s hs _ => ⟨trivial, fun _ s' _ he => ?_⟩
  have hl : Last x s := hs.1
  obtain rfl := Option.some.inj he
  refine ⟨.cleared, .setMem (.inl rfl), ⟨?_, by simp [World.setMem]⟩, rfl⟩
  exact ⟨by simpa [World.setMem] using hl.count, hl.taking, hl.held, hl.dropping, hl.obtained⟩

theorem fd_store_count {len : Nat} {count v : Int} :
    FdSafe t (store (.speFdsRefcount x.1 x.2) v) (g.hold x (.isOpen a len count)) fun _ g' =>
      g' = g.hold x (.isOpen a len v) := by
  refine fd_held fun s hs _ => ⟨trivial, fun _ s' _ he => ?_⟩
  have hs : Open x a len count s := hs
  obtain rfl := Option.some.inj he
  refine ⟨.isOpen a len v, .setMem (.inr rfl), ?_, rfl⟩
  exact ⟨⟨hs.pos, hs.file, hs.obtained⟩, by simpa [World.setMem] using hs.array,
    by simp [World.setMem], hs.length, hs.refs, hs.few⟩

/-- The last reference is a close's, and it closes the descriptor. -/
theorem fd_close {b : Fd} (hg : g.use = .dropping x b) :
    FdSafe t (perform (.close a)) (g.hold x (.isOpen a 1 0)) fun _ g' =>
      g' = g.hold x (.closed a) ∧ b = a := by
  refine fd_held fun s hs hdrop => ⟨trivial, fun _ s' _ he => ?_⟩
  have hs : Open x a 1 0 s := hs
  obtain rfl := Option.some.inj he
  have hmem := hdrop b hg
  have hlen := hs.length
  have hpos := List.length_pos_of_mem hmem
  have hba : b = a := hs.refs b (List.mem_append_right _ (List.mem_map_of_mem hmem))
  simp only [refs, List.length_append, List.length_map] at hlen
  refine ⟨.closed a, ⟨fun y hne => ?_, ?_, ?_, ?_, ?_⟩, ⟨⟨?_, ?_, ?_, ?_, ?_⟩, ?_⟩, rfl, hba⟩
  all_goals simp only [World.noteClose, hs.file, World.closeFd]
  · refine ⟨rfl, rfl, fun c hc => ?_, rfl, rfl, rfl, rfl, update₂_of_ne _ _ hne⟩
    have hca : c ≠ a := by
      rintro rfl
      rw [hs.file] at hc
      injections h₁ h₂ h₃
      exact hne (Prod.ext h₂.symm h₃.symm)
    simpa [hca] using hc
  · exact hs.count
  · exact List.length_eq_zero_iff.mp (by omega)
  · exact List.length_eq_zero_iff.mp (by omega)
  · omega
  · rw [hs.obtained, update₂_self]
  · exact hs.array

/-! ## Notes of the holder -/

/-- Slots other than the one that a note is about. -/
theorem SlotKeeps.history {y : SlotId} {h : History}
    (ht : h.taking y.1 y.2 = s.hist.taking y.1 y.2) (hh : h.held y.1 y.2 = s.hist.held y.1 y.2)
    (hd : h.dropping y.1 y.2 = s.hist.dropping y.1 y.2)
    (ho : h.obtained = s.hist.obtained)
    (hr : h.released = s.hist.released) : SlotKeeps y s { s with hist := h } :=
  ⟨rfl, rfl, fun _ h => h, ht, hh, hd, by rw [ho], by rw [hr]⟩

/-- A reference is taken. -/
theorem fd_note_opened {len : Nat} {count : Int} (hg : g.use = .none) :
    FdSafe t (note (.opened x.1 x.2 a)) (g.hold x (.isOpen a len count)) fun _ g' =>
      g' = { g with use := .taking x a }.hold x (.isOpen a (len + 1) count) ∧
        len + 1 < 2 ^ 31 := by
  refine .perform fun γ s hi hgt => ⟨trivial, fun _ s' ho he => ⟨_, ?_, rfl, ?_⟩⟩
  on_goal 2 =>
    have hs : Open x a len count s := (hi.own (show (γ t).own = some (x, .isOpen a len count) by
      simp [hgt])).shape
    exact hs.length ▸ ho
  have hown : (γ t).own = some (x, .isOpen a len count) := by simp [hgt]
  have huse : (γ t).use = .none := by simp [hgt, hg]
  have hx := hi.own hown
  have hs : Open x a len count s := hx.shape
  have hfew : (refs s x).length + 1 < 2 ^ 31 := ho
  obtain rfl := Option.some.inj he
  refine hi.on x (.isOpen a (len + 1) count)
    (fun y hne => .history (update₂_of_ne _ _ hne) rfl rfl rfl rfl)
    (fun _ _ => rfl) (fun _ _ => rfl) (fun y hne ψ => by simp [hgt, Ne.symm hne])
    (.inr ⟨rfl, by simp [huse, SlotUse.Within]⟩) ?_
  refine hx.hold hown rfl rfl ?_ ?_ ?_ ?_
  · refine ⟨⟨hs.pos, hs.file, hs.obtained⟩, hs.array, hs.count, ?_, ?_, by rw [← hs.length]; exact hfew⟩
    · simp [refs, ← hs.length]
    · simpa [refs] using hs.refs
  · simp only [update₂_self]
    exact hx.taking.cons (by simp [huse]) fun k => by grind [use_update, FdStage.hold_use]
  · exact hx.failed.congr fun u => by grind [use_update, FdStage.hold_use]
  · exact hx.dropping.congr fun k => by grind [use_update, FdStage.hold_use]

/-- No reference is taken. -/
theorem fd_note_openFailed (hg : g.use = .none) :
    FdSafe t (note (.openFailed x.1 x.2)) (g.hold x .vacant) fun _ g' =>
      g' = { g with use := .failed x }.hold x .vacant := by
  refine .perform fun γ s hi hgt => ⟨trivial, fun _ s' ho he => ⟨_, ?_, rfl⟩⟩
  have hown : (γ t).own = some (x, .vacant) := by simp [hgt]
  have huse : (γ t).use = .none := by simp [hgt, hg]
  have hx := hi.own hown
  have hs : Vacant x s := hx.shape
  obtain rfl := Option.some.inj he
  refine hi.on x .vacant (fun y hne => .history rfl rfl rfl rfl rfl)
    (fun _ _ => rfl) (fun y hne => update₂_of_ne _ _ hne) (fun y hne ψ => by simp [hgt, Ne.symm hne])
    (.inr ⟨rfl, by simp [huse, SlotUse.Within]⟩) ?_
  refine hx.hold hown rfl rfl ⟨hs.array, hs.count, hs.refs, hs.obtained⟩ ?_ ?_ ?_
  · exact hx.taking.congr fun k => by grind [use_update, FdStage.hold_use]
  · simp only [update₂_self]
    exact hx.failed.cons (by simp [huse]) fun u => by grind [use_update, FdStage.hold_use]
  · exact hx.dropping.congr fun k => by grind [use_update, FdStage.hold_use]

theorem refs_erase_dropping {k : Tid × Fd} (hmem : k ∈ s.hist.dropping x.1 x.2) :
    (refs s x).Perm (k.2 :: ((s.hist.taking x.1 x.2).map Prod.snd ++ s.hist.held x.1 x.2 ++
      ((s.hist.dropping x.1 x.2).erase k).map Prod.snd)) := by
  refine List.Perm.trans ?_ List.perm_middle
  exact .append_left _ ((List.perm_cons_erase hmem).map Prod.snd)

/-- A reference other than the last is dropped. -/
theorem fd_note_closed {len : Nat} {count : Int} {b : Fd} (hg : g.use = .dropping x b) :
    FdSafe t (note (.closed x.1 x.2 a)) (g.hold x (.isOpen a (len + 1) count)) fun _ g' =>
      g' = { g with use := .none }.hold x (.isOpen a len count) := by
  refine .perform fun γ s hi hgt => ⟨trivial, fun _ s' ho he => ⟨_, ?_, rfl⟩⟩
  have hown : (γ t).own = some (x, .isOpen a (len + 1) count) := by simp [hgt]
  have huse : (γ t).use = .dropping x b := by simp [hgt, hg]
  have hx := hi.own hown
  have hs : Open x a (len + 1) count s := hx.shape
  have hmem : (t, b) ∈ s.hist.dropping x.1 x.2 := (hx.dropping.mem (t, b)).mpr huse
  obtain rfl : b = a := hs.refs b (List.mem_append_right _ (List.mem_map_of_mem hmem))
  have hperm := refs_erase_dropping hmem
  obtain rfl := Option.some.inj he
  refine hi.on x (.isOpen b len count)
    (fun y hne => .history rfl rfl (update₂_of_ne _ _ hne) rfl rfl)
    (fun _ _ => rfl) (fun _ _ => rfl) (fun y hne ψ => by simp [hgt, Ne.symm hne])
    (.inr ⟨trivial, by simp [huse, SlotUse.Within]⟩) ?_
  refine hx.hold hown rfl rfl ?_ ?_ ?_ ?_
  · have hlen := hperm.length_eq
    rw [hs.length, List.length_cons] at hlen
    refine ⟨⟨hs.pos, hs.file, hs.obtained⟩, hs.array, hs.count, ?_, fun c hc => ?_, by have := hs.few; omega⟩
    · simp only [refs, update₂_self]
      omega
    · simp only [refs, update₂_self] at hc
      exact hs.refs c (hperm.mem_iff.mpr (.tail _ hc))
  · exact hx.taking.congr fun k => by grind [use_update, FdStage.hold_use]
  · exact hx.failed.congr fun u => by grind [use_update, FdStage.hold_use]
  · simp only [update₂_self]
    exact hx.dropping.erase fun k => by grind [use_update, FdStage.hold_use]

/-- The last reference is dropped. -/
theorem fd_note_closed_last {b : Fd} (hg : g.use = .dropping x b) :
    FdSafe t (note (.closed x.1 x.2 b)) (g.hold x .cleared) fun _ g' =>
      g' = { g with use := .none }.hold x .vacant := by
  refine .perform fun γ s hi hgt => ⟨trivial, fun _ s' ho he => ⟨_, ?_, rfl⟩⟩
  have hown : (γ t).own = some (x, .cleared) := by simp [hgt]
  have huse : (γ t).use = .dropping x b := by simp [hgt, hg]
  have hx := hi.own hown
  have hs : Last x s := hx.shape.1
  have harr : s.mem (.speFdsArray x.1 x.2) = -1 := hx.shape.2
  have hmem : (t, b) ∈ s.hist.dropping x.1 x.2 := (hx.dropping.mem (t, b)).mpr huse
  have hone : (s.hist.dropping x.1 x.2).erase (t, b) = [] := by
    refine List.length_eq_zero_iff.mp ?_
    rw [List.length_erase_of_mem hmem, hs.dropping]
  obtain rfl := Option.some.inj he
  refine hi.on x .vacant (fun y hne => .history rfl rfl (update₂_of_ne _ _ hne) rfl rfl)
    (fun _ _ => rfl) (fun _ _ => rfl) (fun y hne ψ => by simp [hgt, Ne.symm hne])
    (.inr ⟨trivial, by simp [huse, SlotUse.Within]⟩) ?_
  refine hx.hold hown rfl rfl ⟨harr, hs.count, ?_, hs.obtained⟩ ?_ ?_ ?_
  · simp [refs, hs.taking, hs.held, hone]
  · exact hx.taking.congr fun k => by grind [use_update, FdStage.hold_use]
  · exact hx.failed.congr fun u => by grind [use_update, FdStage.hold_use]
  · simp only [update₂_self]
    exact hx.dropping.erase fun k => by grind [use_update, FdStage.hold_use]

/-! ## Taking and releasing the lock -/

theorem slotKeeps_setOwner {m : Mutex} {o : Option Tid} (x : SlotId) :
    SlotKeeps x s (s.setOwner m o) :=
  ⟨rfl, rfl, fun _ h => h, rfl, rfl, rfl, rfl, rfl⟩

theorem setOwner_of_ne {y : SlotId} {o : Option Tid} (hne : y ≠ x) :
    (s.setOwner (.fdLock x.1 x.2) o).owner (.fdLock y.1 y.2) = s.owner (.fdLock y.1 y.2) := by
  have hne' : ¬ (y.1 = x.1 ∧ y.2 = x.2) := fun h => hne (Prod.ext h.1 h.2)
  simp [World.setOwner, hne']

/-- Whoever gets the lock finds the slot at rest, and open if it is about to drop a reference. -/
theorem fd_lock (hg : g.own = none) :
    FdSafe t (baseSpeContextLock x.1 x.2) g fun _ g' => ∃ φ : SlotStage, φ.Rest ∧ g' = g.hold x φ ∧
      ∀ b, g.use = .dropping x b → φ ≠ .vacant := by
  refine .perform fun γ s hi hgt => ⟨trivial, fun _ s' _ he => ?_⟩
  obtain ⟨hfree, rfl⟩ := of_guard he
  obtain ⟨φ, hx⟩ := hi x
  have hnone : ∀ u ψ, (γ u).own ≠ some (x, ψ) := fun u ψ hu => by
    have := (hx.holder u).mpr ⟨ψ, hu⟩
    simp [hfree] at this
  refine ⟨g.hold x φ, ?_, φ, hx.rest hfree, rfl, ?_⟩
  · refine hi.on x φ (fun y _ => slotKeeps_setOwner y) (fun y hne => setOwner_of_ne hne)
      (fun _ _ => rfl)
      (fun y hne ψ => by simp [hgt, hg, Ne.symm hne]) (.inl (by simp [hgt])) ?_
    refine ⟨hx.shape.keeps (slotKeeps_setOwner x), fun hn => ?_, fun u => ?_, fun u ψ hu => ?_,
      hx.taking.congr fun k => ?_, hx.failed.congr fun u => ?_, hx.dropping.congr fun k => ?_⟩
    · simp [World.setOwner] at hn
    · by_cases hut : u = t
      · subst hut
        simp [World.setOwner]
      · simp [World.setOwner, hut, hnone u, Ne.symm hut]
    · by_cases hut : u = t
      · subst hut
        simpa using hu.symm
      · exact absurd (by simpa [hut] using hu) (hnone u ψ)
    all_goals grind [use_update, FdStage.hold_use]
  · rintro b hb rfl
    have hs : Vacant x s := hx.shape
    have hmem := (hx.dropping.mem (t, b)).mpr (by rw [hgt, hb])
    have := hs.refs
    simp only [refs, List.append_eq_nil_iff, List.map_eq_nil_iff] at this
    simp [this.2] at hmem

theorem fd_unlock (hg : g.own = none) (hφ : φ.Rest) :
    FdSafe t (baseSpeContextUnlock x.1 x.2) (g.hold x φ) fun _ g' => g' = g := by
  refine .perform fun γ s hi hgt => ⟨trivial, fun _ s' _ he => ⟨g, ?_, rfl⟩⟩
  obtain ⟨ho, rfl⟩ := of_guard he
  have hx := hi.own (show (γ t).own = some (x, φ) by simp [hgt])
  have hothers : ∀ u, u ≠ t → ∀ ψ, (γ u).own ≠ some (x, ψ) := fun u hut ψ hu => by
    have := (hx.holder u).mpr ⟨ψ, hu⟩
    rw [ho] at this
    exact hut (Option.some.inj this).symm
  refine hi.on x φ (fun y _ => slotKeeps_setOwner y) (fun y hne => setOwner_of_ne hne)
      (fun _ _ => rfl)
    (fun y hne ψ => by simp [hgt, hg, Ne.symm hne]) (.inl (by simp [hgt])) ?_
  refine ⟨hx.shape.keeps (slotKeeps_setOwner x), fun _ => hφ, fun u => ?_, fun u ψ hu => ?_,
    hx.taking.congr fun k => ?_, hx.failed.congr fun u => ?_, hx.dropping.congr fun k => ?_⟩
  · by_cases hut : u = t
    · subst hut
      simp [World.setOwner, hg]
    · simp [World.setOwner, hut, hothers u hut]
  · by_cases hut : u = t
    · subst hut
      simp [hg] at hu
    · exact absurd (by simpa [hut] using hu) (hothers u hut ψ)
  all_goals grind [use_update, FdStage.hold_use]

/-! ## Outside the lock -/

/-- Every reference but those about to be dropped is to the descriptor in the array. -/
theorem SlotShape.array (hs : SlotShape x φ s)
    (ha : a ∈ (s.hist.taking x.1 x.2).map Prod.snd ∨ a ∈ s.hist.held x.1 x.2) :
    s.mem (.speFdsArray x.1 x.2) = a ∧ a ≠ -1 := by
  have hmem : a ∈ refs s x := by
    simp only [refs, List.mem_append]
    exact .inl ha
  cases φ with
  | vacant => simp [Vacant.refs hs] at hmem
  | opened b => simp [Opened.refs hs] at hmem
  | isOpen b len count =>
    have hs : Open x b len count s := hs
    obtain rfl := hs.refs a hmem
    refine ⟨hs.array, ?_⟩
    rintro rfl
    exact absurd hs.pos (by decide)
  | closed b | cleared => simp [hs.1.taking, hs.1.held] at ha

/-- An open that took a reference reads its descriptor again. -/
theorem fd_load_taken (hg : g.use = .taking x a) :
    FdSafe t (load (.speFdsArray x.1 x.2)) g fun v g' => g' = g ∧ v = a ∧ a ≠ -1 := by
  refine .perform fun γ s hi hgt => ⟨trivial, fun v s' _ he => ?_⟩
  obtain ⟨rfl, rfl⟩ := of_guard he
  obtain ⟨φ, hx⟩ := hi x
  have hmem := (hx.taking.mem (t, a)).mpr (by rw [hgt, hg])
  refine ⟨g, by rwa [← hgt, Function.update_eq_self], rfl, ?_⟩
  exact hx.shape.array (.inl (List.mem_map_of_mem hmem))

/-- An open that took none finds the slot closed. -/
theorem fd_load_failed (hg : g.use = .failed x) :
    FdSafe t (load (.speFdsArray x.1 x.2)) g fun v g' => g' = g ∧ v = -1 := by
  refine .perform fun γ s hi hgt => ⟨trivial, fun v s' ho he => ?_⟩
  obtain ⟨rfl, rfl⟩ := of_guard he
  obtain ⟨φ, hx⟩ := hi x
  exact ⟨g, by rwa [← hgt, Function.update_eq_self], rfl,
    ho ((hx.failed.mem t).mpr (by rw [hgt, hg]))⟩

/-- A reference is returned. -/
theorem fd_note_returned (hg : g.use = .taking x a) (ha : a ≠ -1) :
    FdSafe t (note (.openReturned x.1 x.2 a)) g fun _ g' => g' = { g with use := .none } := by
  refine .perform fun γ s hi hgt => ?_
  obtain ⟨φ, hx⟩ := hi x
  have huse : (γ t).use = .taking x a := by rw [hgt, hg]
  have hmem := (hx.taking.mem (t, a)).mpr huse
  refine ⟨.inl ⟨⟨a, hmem⟩, fun b hb => ?_⟩, fun _ s' _ he => ⟨_, ?_, rfl⟩⟩
  · have := (hx.taking.mem (t, b)).mp hb
    rw [huse] at this
    injections _ h
    exact ⟨h, ha⟩
  obtain rfl := Option.some.inj he
  have hfailed : t ∉ s.hist.failed x.1 x.2 := by simp [hx.failed.mem, huse]
  refine hi.on x φ (fun y hne => .history (update₂_of_ne _ _ hne) (update₂_of_ne _ _ hne) rfl
    rfl rfl) (fun _ _ => rfl) (fun y hne => update₂_of_ne _ _ hne) (fun y _ ψ => by simp [hgt])
    (.inr ⟨trivial, by simp [huse, SlotUse.Within]⟩) ?_
  refine hx.same rfl (by simp [hgt]) (hx.shape.perm rfl rfl rfl rfl ?_ (.inl ?_)) ?_ ?_ ?_
  · have := (List.perm_cons_erase hmem).map Prod.snd
    simp only [refs, update₂_self, ha, ↓reduceIte, List.append_assoc]
    refine .trans List.perm_middle ?_
    simpa using this.symm.append_right (s.hist.held x.1 x.2 ++ (s.hist.dropping x.1 x.2).map Prod.snd)
  · exact List.ne_nil_of_mem hmem
  · simp only [update₂_self]
    exact hx.taking.erase fun k => by grind [use_update]
  · simp only [update₂_self, List.erase_of_not_mem hfailed]
    exact hx.failed.congr fun u => by grind [use_update]
  · exact hx.dropping.congr fun k => by grind [use_update]

/-- An open that took no reference returns none. -/
theorem fd_note_returned_failed (hg : g.use = .failed x) :
    FdSafe t (note (.openReturned x.1 x.2 (-1))) g fun _ g' => g' = { g with use := .none } := by
  refine .perform fun γ s hi hgt => ?_
  obtain ⟨φ, hx⟩ := hi x
  have huse : (γ t).use = .failed x := by rw [hgt, hg]
  have hmem := (hx.failed.mem t).mpr huse
  refine ⟨.inr ⟨hmem, rfl⟩, fun _ s' _ he => ⟨_, ?_, rfl⟩⟩
  have htaking : (t, (-1 : Fd)) ∉ s.hist.taking x.1 x.2 := by simp [hx.taking.mem, huse]
  obtain rfl := Option.some.inj he
  refine hi.on x φ (fun y hne => .history (update₂_of_ne _ _ hne) (update₂_of_ne _ _ hne) rfl
    rfl rfl) (fun _ _ => rfl) (fun y hne => update₂_of_ne _ _ hne) (fun y _ ψ => by simp [hgt])
    (.inr ⟨trivial, by simp [huse, SlotUse.Within]⟩) ?_
  refine hx.same rfl (by simp [hgt]) ?_ ?_ ?_ ?_
  · refine hx.shape.keeps ⟨rfl, rfl, fun _ h => h, ?_, by simp, rfl, rfl, rfl⟩
    simp [List.erase_of_not_mem htaking]
  · simp only [update₂_self, List.erase_of_not_mem htaking]
    exact hx.taking.congr fun k => by grind [use_update]
  · simp only [update₂_self]
    exact hx.failed.erase fun u => by grind [use_update]
  · exact hx.dropping.congr fun k => by grind [use_update]

/-- A close is announced. -/
theorem fd_note_closing (hg : g.use = .none) :
    FdSafe t (note (.closing x.1 x.2 a)) g fun _ g' => g' = { g with use := .dropping x a } := by
  refine .perform fun γ s hi hgt => ⟨trivial, fun _ s' _ he => ⟨_, ?_, rfl⟩⟩
  obtain ⟨φ, hx⟩ := hi x
  have huse : (γ t).use = .none := by rw [hgt, hg]
  obtain ⟨h, hn, rfl⟩ := Option.map_eq_some_iff.mp he
  obtain ⟨hmem, rfl⟩ := of_guard hn
  refine hi.on x φ (fun y hne => .history rfl (update₂_of_ne _ _ hne) (update₂_of_ne _ _ hne) rfl
    rfl) (fun _ _ => rfl) (fun _ _ => rfl) (fun y _ ψ => by simp [hgt])
    (.inr ⟨rfl, by simp [huse, SlotUse.Within]⟩) ?_
  refine hx.same rfl (by simp [hgt]) (hx.shape.perm rfl rfl rfl rfl ?_ (.inr ?_)) ?_ ?_ ?_
  · have := List.perm_cons_erase hmem
    simp only [refs, update₂_self, List.append_assoc, List.map_cons]
    refine .append_left _ (.trans List.perm_middle ?_)
    exact this.symm.append_right ((s.hist.dropping x.1 x.2).map Prod.snd)
  · exact List.ne_nil_of_mem hmem
  · exact hx.taking.congr fun k => by grind [use_update]
  · exact hx.failed.congr fun u => by grind [use_update]
  · simp only [update₂_self]
    exact hx.dropping.cons (by simp [huse]) fun k => by grind [use_update]

end

end LibSpe2
