import LibSpe2.Data.Tracks
import LibSpe2.SpeBase.FileTable

/-!
# The table of streams under concurrency

`default_c99_handler_tmpfile` changes the table without the mutex, and `default_c99_handler_fclose` looks
its stream up before it takes the mutex to close it.

* `Undisturbed` — the runs in which no thread gets between what another one reads of the table and what
  it stores there, and in which each `fclose` names a handle that is open and that no other one names.
* `Phase`, `Inv` — where a handler is, and what its thread may rely on.

Main results:
* `fileTable_intact` — in such runs handles and streams belong together, and the counter is right.
* `fileTable_race` — two threads in `tmpfile` get the same handle for two streams.
-/

namespace LibSpe2.FileTable

open Conc Function

/-! ## The condition -/

/-- The handle is open: it was returned for a stream that the host has not been asked to close. -/
def IsOpen (s : World) (i : Nat) : Prop := ∃ f, (i, some f) ∈ s.given ∧ f ∉ s.closed

/-- A store, or a second look, finds the cell as the thread has left it; and `fclose` is called for an open
handle that no running `fclose` was given. -/
def Undisturbed (_ : Tid) : (c : Cmd) → Ans c → World → Prop
  | .storeNr read _, _, s => s.nrSpeFilePtrs = read
  | .storeSlot i read _, _, s => s.speFilePtrs i = read
  | .reloadSlot i stored, _, s => s.speFilePtrs i = stored
  | .startFclose i, _, s => IsOpen s i ∧ i ∉ s.closing
  | _, _, _ => True

/-! ## Phases -/

/-- Where a handler is. -/
inductive Phase where
  | idle
  /-- The host has opened `f`. -/
  | opened (f : File)
  /-- `f` is in slot `i` and is not counted yet. -/
  | stored (i : Nat) (f : File)
  | counted (i : Nat) (f : File)
  /-- The handler of `fclose` is to close the handle `i` of `f`. -/
  | closing (i : Nat) (f : File)
  /-- The host has closed `f`. -/
  | closed (i : Nat) (f : File)
  /-- Slot `i` is free and is still counted. -/
  | cleared (i : Nat)
  | ended (i : Nat)

/-- The stream that the handler has opened. -/
def Phase.file : Phase → Option File
  | .opened f | .stored _ f | .counted _ f => some f
  | _ => none

/-- The handle that the handler closes. -/
def Phase.handle : Phase → Option Nat
  | .closing i _ | .closed i _ | .cleared i | .ended i => some i
  | _ => none

def Phase.isStored : Phase → Prop
  | .stored _ _ => True
  | _ => False

def Phase.isCleared : Phase → Prop
  | .cleared _ => True
  | _ => False

/-- A stream that only its opener knows. -/
def Own (f : File) (s : World) : Prop := f ∈ s.opened ∧ f ∉ s.closed ∧ ∀ i, (i, some f) ∉ s.given

/-- What a phase says of the table. -/
def Phase.Holds : Phase → World → Prop
  | .idle, _ => True
  | .opened f, s => Own f s
  | .stored i f, s | .counted i f, s => i ∈ slots ∧ s.speFilePtrs i = some f ∧ Own f s
  | .closing i f, s => (i, some f) ∈ s.given ∧ f ∉ s.closed ∧ i ∈ s.closing
  | .closed i f, s => i ∈ slots ∧ s.speFilePtrs i = some f ∧ f ∈ s.closed ∧ i ∈ s.closing
  | .cleared i, s | .ended i, s => i ∈ s.closing

/-- Handles and streams. -/
structure Books (s : World) : Prop where
  returned : ∀ x ∈ s.given, x.1 ∈ slots ∧ ∃ f ∈ s.opened, x.2 = some f
  once : ∀ i j f, (i, some f) ∈ s.given → (j, some f) ∈ s.given → i = j
  refers : ∀ i f, (i, some f) ∈ s.given → f ∉ s.closed → s.speFilePtrs i = some f
  known : ∀ f ∈ s.closed, f ∈ s.opened
  closed : s.closed.Nodup

/-- The counter, with the threads that have changed a slot and not the counter. -/
def Counted (γ : Tid → Phase) (s : World) : Prop :=
  ∃ up down : List Tid, Tracks up (fun t => (γ t).isStored) ∧ Tracks down (fun t => (γ t).isCleared) ∧
    s.nrSpeFilePtrs + up.length = 3 + s.occupied + down.length

structure Inv (γ : Tid → Phase) (s : World) : Prop where
  books : Books s
  holds : ∀ t, (γ t).Holds s
  files : ∀ t u f, (γ t).file = some f → (γ u).file = some f → t = u
  handles : ∀ t u i, (γ t).handle = some i → (γ u).handle = some i → t = u
  counted : Counted γ s

def proto : Proto Cmd Tid World Phase where
  idle := .idle
  inv := Inv

variable {t : Tid} {g : Phase} {s s' : World} {γ : Tid → Phase}

/-- Thread `t` runs `p` safely. -/
abbrev Safe {α : Type} (t : Tid) (p : Code α) (g : Phase) (Q : α → Phase → Prop) : Prop :=
  Proto.Safe machine Undisturbed proto t p g Q

/-! ## The counter -/

theorem slots_range {i : Nat} (h : i ∈ slots) : i ∈ Finset.range speFopenMax := by
  simp only [slots, List.mem_range'_1, speFopenMin, speFopenMax, Finset.mem_range] at h ⊢
  omega

/-- A slot in use is one more. -/
theorem occupied_store {i : Nat} {f : File} (hi : i ∈ slots) (hfree : s.speFilePtrs i = none)
    (hs : s'.speFilePtrs = update s.speFilePtrs i (some f)) : s'.occupied = s.occupied + 1 := by
  have hinsert : (Finset.range speFopenMax).filter (fun j => (s'.speFilePtrs j).isSome) =
      insert i ((Finset.range speFopenMax).filter fun j => (s.speFilePtrs j).isSome) := by
    ext j
    by_cases hj : j = i
    · simp [hj, hs, slots_range hi, -Finset.mem_range]
    · simp [hj, hs]
  rw [World.occupied, hinsert, Finset.card_insert_of_notMem (by simp [hfree])]
  rfl

theorem occupied_clear {i : Nat} {f : File} (hi : i ∈ slots) (hused : s.speFilePtrs i = some f)
    (hs : s'.speFilePtrs = update s.speFilePtrs i none) : s.occupied = s'.occupied + 1 :=
  occupied_store (f := f) hi (by simp [hs]) (by simp [hs, ← hused])

/-- A step that changes neither the counter nor the slots. -/
theorem Counted.same (h : Counted γ s) (hnr : s'.nrSpeFilePtrs = s.nrSpeFilePtrs)
    (hslots : s'.speFilePtrs = s.speFilePtrs) (hup : g.isStored ↔ (γ t).isStored)
    (hdown : g.isCleared ↔ (γ t).isCleared) : Counted (update γ t g) s' := by
  obtain ⟨up, down, htup, htdown, hcount⟩ := h
  refine ⟨up, down, htup.update_same hup, htdown.update_same hdown, ?_⟩
  rw [hnr, World.occupied, hslots]
  exact hcount

theorem Counted.store {i : Nat} {f : File} (h : Counted γ s) (hγ : γ t = .opened f) (hi : i ∈ slots)
    (hfree : s.speFilePtrs i = none) : Counted (update γ t (.stored i f))
      { s with speFilePtrs := update s.speFilePtrs i (some f) } := by
  obtain ⟨up, down, htup, htdown, hcount⟩ := h
  refine ⟨t :: up, down, htup.update_cons (by rw [hγ]; exact id) trivial,
    htdown.update_same (by rw [hγ]; rfl), ?_⟩
  rw [occupied_store (f := f) hi hfree rfl, List.length_cons]
  show s.nrSpeFilePtrs + _ = _
  omega

theorem Counted.count {i : Nat} {f : File} (h : Counted γ s) (hγ : γ t = .stored i f) :
    Counted (update γ t (.counted i f)) { s with nrSpeFilePtrs := s.nrSpeFilePtrs + 1 } := by
  obtain ⟨up, down, htup, htdown, hcount⟩ := h
  have hlen := (htup.perm_erase (k := t) (by rw [hγ]; trivial)).length_eq
  refine ⟨up.erase t, down, htup.update_erase id, htdown.update_same (by rw [hγ]; rfl), ?_⟩
  rw [List.length_cons] at hlen
  show s.nrSpeFilePtrs + 1 + _ = 3 + s.occupied + _
  omega

theorem Counted.clear {i : Nat} {f : File} (h : Counted γ s) (hγ : γ t = .closed i f) (hi : i ∈ slots)
    (hused : s.speFilePtrs i = some f) : Counted (update γ t (.cleared i))
      { s with speFilePtrs := update s.speFilePtrs i none } := by
  obtain ⟨up, down, htup, htdown, hcount⟩ := h
  have hocc : s.occupied = World.occupied { s with speFilePtrs := update s.speFilePtrs i none } + 1 :=
    occupied_clear hi hused rfl
  refine ⟨up, t :: down, htup.update_same (by rw [hγ]; rfl),
    htdown.update_cons (by rw [hγ]; exact id) trivial, ?_⟩
  rw [List.length_cons]
  show s.nrSpeFilePtrs + _ = _
  omega

theorem Counted.drop {i : Nat} (h : Counted γ s) (hγ : γ t = .cleared i) :
    Counted (update γ t (.ended i)) { s with nrSpeFilePtrs := s.nrSpeFilePtrs - 1 } := by
  obtain ⟨up, down, htup, htdown, hcount⟩ := h
  have hlen := (htdown.perm_erase (k := t) (by rw [hγ]; trivial)).length_eq
  refine ⟨up, down.erase t, htup.update_same (by rw [hγ]; rfl), htdown.update_erase id, ?_⟩
  rw [List.length_cons] at hlen
  show s.nrSpeFilePtrs - 1 + _ = 3 + s.occupied + _
  omega

/-! ## The other threads -/

/-- What a step of one thread must leave for a phase of another one. -/
theorem Phase.Holds.frame (h : g.Holds s) (hown : ∀ f, g.file = some f → Own f s → Own f s')
    (hslot : ∀ i f, Own f s ∨ (f ∈ s.closed ∧ g.handle = some i) → s.speFilePtrs i = some f →
      s'.speFilePtrs i = some f)
    (hlive : ∀ i f, g.handle = some i → (i, some f) ∈ s.given ∧ f ∉ s.closed →
      (i, some f) ∈ s'.given ∧ f ∉ s'.closed)
    (hclosed : ∀ f ∈ s.closed, f ∈ s'.closed)
    (hclosing : ∀ i, g.handle = some i → i ∈ s.closing → i ∈ s'.closing) : g.Holds s' := by
  cases g with
  | idle => trivial
  | opened f => exact hown f rfl h
  | stored i f => exact ⟨h.1, hslot i f (.inl h.2.2) h.2.1, hown f rfl h.2.2⟩
  | counted i f => exact ⟨h.1, hslot i f (.inl h.2.2) h.2.1, hown f rfl h.2.2⟩
  | closing i f =>
    obtain ⟨hgiven, hopen⟩ := hlive i f rfl ⟨h.1, h.2.1⟩
    exact ⟨hgiven, hopen, hclosing i rfl h.2.2⟩
  | closed i f =>
    exact ⟨h.1, hslot i f (.inr ⟨h.2.2.1, rfl⟩) h.2.1, hclosed f h.2.2.1, hclosing i rfl h.2.2.2⟩
  | cleared i => exact hclosing i rfl h
  | ended i => exact hclosing i rfl h

/-- What only one thread has, it still has alone. -/
theorem alone_update {α : Type} {key : Phase → Option α}
    (h : ∀ t u a, key (γ t) = some a → key (γ u) = some a → t = u)
    (hg : ∀ a, key g = some a → key (γ t) = some a ∨ ∀ u, key (γ u) ≠ some a) (u v : Tid) (a : α)
    (hu : key (update γ t g u) = some a) (hv : key (update γ t g v) = some a) : u = v := by
  by_cases hut : u = t <;> by_cases hvt : v = t
  · rw [hut, hvt]
  · rw [hut, update_self] at hu
    rw [update_of_ne hvt] at hv
    exact (hg a hu).elim (fun hu => hut.trans (h t v a hu hv)) fun hno => absurd hv (hno v)
  · rw [update_of_ne hut] at hu
    rw [hvt, update_self] at hv
    exact (hg a hv).elim (fun hv => (h u t a hu hv).trans hvt.symm) fun hno => absurd hu (hno u)
  · rw [update_of_ne hut] at hu
    rw [update_of_ne hvt] at hv
    exact h u v a hu hv

/-- The invariant after a step of `t`. -/
theorem Inv.step (h : Inv γ s) (hbooks : Books s') (hg : g.Holds s') (hothers : ∀ u, u ≠ t → (γ u).Holds s')
    (hfile : ∀ f, g.file = some f → (γ t).file = some f ∨ ∀ u, (γ u).file ≠ some f)
    (hhandle : ∀ i, g.handle = some i → (γ t).handle = some i ∨ ∀ u, (γ u).handle ≠ some i)
    (hcounted : Counted (update γ t g) s') : Inv (update γ t g) s' where
  books := hbooks
  holds u := by
    by_cases hu : u = t
    · rw [hu, update_self]
      exact hg
    · rw [update_of_ne hu]
      exact hothers u hu
  files := alone_update h.files hfile
  handles := alone_update h.handles hhandle
  counted := hcounted

/-- The stream of a phase is its own. -/
theorem Phase.Holds.own {f : File} (h : g.Holds s) (hf : g.file = some f) : Own f s := by
  cases g with
  | opened f' => exact Option.some.inj hf ▸ h
  | stored i f' => exact Option.some.inj hf ▸ h.2.2
  | counted i f' => exact Option.some.inj hf ▸ h.2.2
  | idle | closing | closed | cleared | ended => cases hf

/-- The handle of a phase is being closed. -/
theorem Phase.Holds.isClosing {i : Nat} (h : g.Holds s) (hi : g.handle = some i) : i ∈ s.closing := by
  cases g with
  | closing j f => exact Option.some.inj hi ▸ h.2.2
  | closed j f => exact Option.some.inj hi ▸ h.2.2.2
  | cleared j => exact Option.some.inj hi ▸ h
  | ended j => exact Option.some.inj hi ▸ h
  | idle | opened | stored | counted => cases hi

/-! ## Accesses that change nothing -/

def Cmd.IsNeutral : Cmd → Prop
  | .lock | .unlock | .loadNr | .loadSlot _ => True
  | _ => False

/-- The mutex and a look at the table, in any phase. -/
theorem safe_neutral {c : Cmd} (hc : c.IsNeutral) : Safe t (perform c) g fun _ g' => g' = g := by
  refine .perform fun γ s hi hγ => ⟨trivial, fun r s' _ hs => ⟨g, ?_, rfl⟩⟩
  obtain ⟨owner, rfl⟩ : ∃ owner, s' = { s with owner := owner } := by
    cases c with
    | lock | unlock | loadNr | loadSlot =>
      obtain ⟨-, h'⟩ := Option.ite_none_right_eq_some.mp hs
      obtain rfl := Option.some.inj h'
      exact ⟨_, rfl⟩
    | _ => exact hc.elim
  rw [← hγ, update_eq_self]
  exact ⟨⟨hi.books.returned, hi.books.once, hi.books.refers, hi.books.known, hi.books.closed⟩,
    fun u => (hi.holds u).frame (fun _ _ h => h) (fun _ _ _ h => h) (fun _ _ _ h => h) (fun _ h => h)
      fun _ _ h => h,
    hi.files, hi.handles, hi.counted⟩

/-- The counter is what was read. -/
theorem safe_loadNr : Safe t (perform .loadNr) g fun _ g' => g' = g := safe_neutral trivial

/-- What a slot holds. -/
theorem safe_loadSlot {i : Nat} : Safe t (perform (.loadSlot i)) g fun _ g' => g' = g :=
  safe_neutral trivial

/-! ## Opening a stream -/

variable {i : Nat} {f : File}

/-- The host opens a stream that nobody knows. -/
theorem Inv.open (h : Inv γ s) (hγ : γ t = .idle) (hf : f ∉ s.opened) :
    Inv (update γ t (.opened f)) { s with opened := f :: s.opened } := by
  have hgiven : ∀ i, (i, some f) ∉ s.given := fun i hmem => by
    obtain ⟨-, f', hf', heq⟩ := h.books.returned _ hmem
    exact hf (Option.some.inj heq ▸ hf')
  refine h.step ⟨fun x hx => ?_, h.books.once, h.books.refers,
    fun f' hf' => List.mem_cons_of_mem _ (h.books.known f' hf'), h.books.closed⟩
    ⟨List.mem_cons_self, fun hc => hf (h.books.known f hc), hgiven⟩
    (fun u _ => (h.holds u).frame (fun f' _ ho => ⟨List.mem_cons_of_mem _ ho.1, ho.2⟩)
      (fun _ _ _ hs => hs) (fun _ _ _ hl => hl) (fun _ hc => hc) fun _ _ hc => hc)
    (fun f' hf' => .inr fun u hu => ?_) nofun (h.counted.same rfl rfl (by rw [hγ]; rfl) (by rw [hγ]; rfl))
  · obtain ⟨hi, f', hf', heq⟩ := h.books.returned x hx
    exact ⟨hi, f', List.mem_cons_of_mem _ hf', heq⟩
  · obtain rfl := Option.some.inj hf'
    exact hf ((h.holds u).own hu).1

theorem safe_openStream : Safe t (perform .openStream) .idle fun r g' =>
    g' = r.elim .idle .opened := by
  refine .perform fun γ s hi hγ => ⟨trivial, fun r s' _ hs => ⟨r.elim .idle .opened, ?_, rfl⟩⟩
  cases r with
  | none =>
    obtain rfl := Option.some.inj hs
    show Inv (update γ t .idle) s
    rw [← hγ, update_eq_self]
    exact hi
  | some f =>
    obtain ⟨hf, h'⟩ := Option.ite_none_left_eq_some.mp hs
    obtain rfl := Option.some.inj h'
    exact Inv.open hi hγ hf

/-- A stream goes into a free slot. -/
theorem Inv.store (h : Inv γ s) (hγ : γ t = .opened f) (hi : i ∈ slots) (hfree : s.speFilePtrs i = none) :
    Inv (update γ t (.stored i f)) { s with speFilePtrs := update s.speFilePtrs i (some f) } := by
  have hother : ∀ j f', s.speFilePtrs j = some f' → update s.speFilePtrs i (some f) j = some f' :=
    fun j f' hj => by
      have hji : j ≠ i := fun hji => by rw [hji, hfree] at hj; cases hj
      rw [update_of_ne hji, hj]
  have hown := (h.holds t).own (f := f) (by rw [hγ]; rfl)
  exact h.step ⟨h.books.returned, h.books.once, fun j f' hg hc => hother j f' (h.books.refers j f' hg hc),
      h.books.known, h.books.closed⟩
    ⟨hi, update_self .., hown⟩
    (fun u _ => (h.holds u).frame (fun _ _ ho => ho) (fun j f' _ hj => hother j f' hj)
      (fun _ _ _ hl => hl) (fun _ hc => hc) fun _ _ hc => hc)
    (fun f' hf' => .inl (by rw [hγ]; exact hf')) nofun (h.counted.store hγ hi hfree)

theorem safe_storeSlot (hi : i ∈ slots) : Safe t (perform (.storeSlot i none (some f))) (.opened f)
    fun _ g' => g' = .stored i f := by
  refine .perform fun γ s h hγ => ⟨trivial, fun r s' ho hs => ⟨.stored i f, ?_, rfl⟩⟩
  obtain rfl := Option.some.inj hs
  exact Inv.store h hγ hi ho

/-- `NULL` into a slot that is free. -/
theorem safe_storeNull : Safe t (perform (.storeSlot i none none)) .idle fun _ g' => g' = .idle := by
  refine .perform fun γ s h hγ => ⟨trivial, fun r s' ho hs => ⟨.idle, ?_, rfl⟩⟩
  obtain rfl := Option.some.inj hs
  have hfree : s.speFilePtrs i = none := ho
  show Inv (update γ t .idle) { s with speFilePtrs := update s.speFilePtrs i none }
  rw [← hfree, update_eq_self, ← hγ, update_eq_self]
  exact h

/-- The second look shows what was stored. -/
theorem safe_reloadSlot {x : Option File} : Safe t (perform (.reloadSlot i x)) g fun r g' =>
    g' = g ∧ r = x := by
  refine .perform fun γ s h hγ => ⟨trivial, fun r s' ho hs => ⟨g, ?_, rfl, ?_⟩⟩
  · obtain ⟨-, h'⟩ := Option.ite_none_right_eq_some.mp hs
    obtain rfl := Option.some.inj h'
    rw [← hγ, update_eq_self]
    exact h
  · obtain ⟨hr, -⟩ := Option.ite_none_right_eq_some.mp hs
    exact hr.trans ho

theorem Inv.count (h : Inv γ s) (hγ : γ t = .stored i f) :
    Inv (update γ t (.counted i f)) { s with nrSpeFilePtrs := s.nrSpeFilePtrs + 1 } := by
  have hg := h.holds t
  rw [hγ] at hg
  exact h.step ⟨h.books.returned, h.books.once, h.books.refers, h.books.known, h.books.closed⟩ hg
    (fun u _ => (h.holds u).frame (fun _ _ ho => ho) (fun _ _ _ hj => hj) (fun _ _ _ hl => hl)
      (fun _ hc => hc) fun _ _ hc => hc)
    (fun f' hf' => .inl (by rw [hγ]; exact hf')) nofun (h.counted.count hγ)

theorem safe_storeNr {n : Int} : Safe t (perform (.storeNr n (n + 1))) (.stored i f) fun _ g' =>
    g' = .counted i f := by
  refine .perform fun γ s h hγ => ⟨trivial, fun r s' ho hs => ⟨.counted i f, ?_, rfl⟩⟩
  obtain rfl := Option.some.inj hs
  obtain rfl : s.nrSpeFilePtrs = n := ho
  exact Inv.count h hγ

/-- The handle of a new stream is returned. -/
theorem Inv.give (h : Inv γ s) (hγ : γ t = .counted i f) :
    Inv (update γ t .idle) { s with given := (i, some f) :: s.given } := by
  have hg := h.holds t
  rw [hγ] at hg
  obtain ⟨hi, hslot, hopened, hclosed, hnew⟩ := hg
  refine h.step ⟨fun x hx => ?_, fun j k f' hj hk => ?_, fun j f' hj hc => ?_, h.books.known, h.books.closed⟩
    trivial (fun u hu => (h.holds u).frame (fun f' hf' ho => ⟨ho.1, ho.2.1, fun j hj => ?_⟩)
      (fun _ _ _ hj => hj) (fun _ _ _ hl => ⟨List.mem_cons_of_mem _ hl.1, hl.2⟩) (fun _ hc => hc)
      fun _ _ hc => hc)
    nofun nofun (h.counted.same rfl rfl (by rw [hγ]; rfl) (by rw [hγ]; rfl))
  · rcases List.mem_cons.mp hx with rfl | hx
    · exact ⟨hi, f, hopened, rfl⟩
    · exact h.books.returned x hx
  · -- the stream was not returned before
    rcases List.mem_cons.mp hj with hj | hj <;> rcases List.mem_cons.mp hk with hk | hk
    · rw [(Prod.mk.inj hj).1, (Prod.mk.inj hk).1]
    · exact absurd (Option.some.inj (Prod.mk.inj hj).2 ▸ hk) (hnew k)
    · exact absurd (Option.some.inj (Prod.mk.inj hk).2 ▸ hj) (hnew j)
    · exact h.books.once j k f' hj hk
  · rcases List.mem_cons.mp hj with hj | hj
    · rw [(Prod.mk.inj hj).1, (Prod.mk.inj hj).2]
      exact hslot
    · exact h.books.refers j f' hj hc
  · rcases List.mem_cons.mp hj with hj | hj
    · obtain rfl := Option.some.inj (Prod.mk.inj hj).2
      exact hu (h.files u t f' hf' (by rw [hγ]; rfl))
    · exact ho.2.2 j hj

theorem safe_putHandle (hi : i ∈ slots) : Safe t (perform (.putHandle i (some f))) (.counted i f)
    fun _ g' => g' = .idle := by
  refine .perform fun γ s h hγ => ⟨trivial, fun r s' ho hs => ⟨.idle, ?_, rfl⟩⟩
  obtain rfl := Option.some.inj hs
  have h0 : i ≠ 0 := fun h0 => absurd (h0 ▸ hi) (by decide)
  simp only [h0, if_false]
  exact Inv.give h hγ

/-- A handler that has opened nothing returns `0`. -/
theorem safe_putZero {x : Option File} : Safe t (perform (.putHandle 0 x)) .idle fun _ g' => g' = .idle := by
  refine .perform fun γ s h hγ => ⟨trivial, fun r s' ho hs => ⟨.idle, ?_, rfl⟩⟩
  obtain rfl := Option.some.inj hs
  rw [← hγ, update_eq_self]
  exact h

/-! ## Closing a stream -/

theorem Inv.startClose (h : Inv γ s) (hγ : γ t = .idle) (hgiven : (i, some f) ∈ s.given) (hopen : f ∉ s.closed)
    (hno : i ∉ s.closing) : Inv (update γ t (.closing i f)) { s with closing := i :: s.closing } :=
  h.step ⟨h.books.returned, h.books.once, h.books.refers, h.books.known, h.books.closed⟩
    ⟨hgiven, hopen, List.mem_cons_self⟩
    (fun u _ => (h.holds u).frame (fun _ _ ho => ho) (fun _ _ _ hj => hj) (fun _ _ _ hl => hl)
      (fun _ hc => hc) fun _ _ hc => List.mem_cons_of_mem _ hc)
    nofun
    (fun _ hj => .inr fun u hu => hno ((h.holds u).isClosing (hu.trans hj.symm)))
    (h.counted.same rfl rfl (by rw [hγ]; rfl) (by rw [hγ]; rfl))

theorem safe_startFclose : Safe t (perform (.startFclose i)) .idle fun _ g' =>
    i ∈ slots ∧ ∃ f, g' = .closing i f := by
  refine .perform fun γ s h hγ => ⟨trivial, fun r s' ho hs => ?_⟩
  obtain ⟨⟨f, hgiven, hopen⟩, hno⟩ := ho
  obtain rfl := Option.some.inj hs
  exact ⟨.closing i f, Inv.startClose h hγ hgiven hopen hno, (h.books.returned _ hgiven).1, f, rfl⟩

/-- The slot of a handle that is being closed holds its stream. -/
theorem safe_lookup : Safe t (perform (.loadSlot i)) (.closing i f) fun r g' =>
    g' = .closing i f ∧ r = some f := by
  refine .perform fun γ s h hγ => ⟨trivial, fun r s' _ hs => ⟨.closing i f, ?_, rfl, ?_⟩⟩
  · obtain ⟨-, h'⟩ := Option.ite_none_right_eq_some.mp hs
    obtain rfl := Option.some.inj h'
    rw [← hγ, update_eq_self]
    exact h
  · obtain ⟨hr, -⟩ := Option.ite_none_right_eq_some.mp hs
    have hg := h.holds t
    rw [hγ] at hg
    exact hr.trans (h.books.refers i f hg.1 hg.2.1)

theorem getFile_safe (hi : i ∈ slots) : Safe t (getFile i) (.closing i f) fun r g' =>
    g' = .closing i f ∧ r = some f := by
  have hrange : 4 ≤ i ∧ i < 17 := by
    simpa [slots, List.mem_range'_1, speFopenMin, speFopenMax] using hi
  refine .bind (safe_neutral trivial) ?_
  rintro _ _ rfl
  refine .bind (Q := fun r g' => g' = .closing i f ∧ r = some f) ?_ ?_
  · rw [getFileNolock, if_neg (by omega), if_neg (show ¬speFopenMax ≤ i by simp [speFopenMax]; omega)]
    refine .bind safe_lookup ?_
    rintro _ _ ⟨rfl, rfl⟩
    refine .ret ⟨rfl, ?_⟩
    -- the handles of the standard streams are below
    split <;> first | omega | rfl
  · rintro _ _ ⟨rfl, rfl⟩
    refine .bind (safe_neutral trivial) ?_
    rintro _ _ rfl
    exact .ret ⟨rfl, rfl⟩

/-- The host closes the stream, whatever it returns. -/
theorem Inv.close (h : Inv γ s) (hγ : γ t = .closing i f) :
    Inv (update γ t (.closed i f)) { s with closed := f :: s.closed } := by
  have hg := h.holds t
  rw [hγ] at hg
  obtain ⟨hgiven, hopen, hclosing⟩ := hg
  obtain ⟨hi, f', hopened, hf'⟩ := h.books.returned _ hgiven
  obtain rfl := Option.some.inj hf'
  refine h.step ⟨h.books.returned, h.books.once,
      fun j f' hj hc => h.books.refers j f' hj fun hc' => hc (List.mem_cons_of_mem _ hc'), fun f' hf' => ?_,
      List.nodup_cons.mpr ⟨hopen, h.books.closed⟩⟩
    ⟨hi, h.books.refers i f hgiven hopen, List.mem_cons_self, hclosing⟩
    (fun u hu => (h.holds u).frame (fun f' _ ho => ⟨ho.1, fun hc => ?_, ho.2.2⟩) (fun _ _ _ hj => hj)
      (fun j f' hj hl => ⟨hl.1, fun hc => ?_⟩) (fun _ hc => List.mem_cons_of_mem _ hc) fun _ _ hc => hc)
    nofun (fun j hj => .inl (by rw [hγ]; exact hj))
    (h.counted.same rfl rfl (by rw [hγ]; rfl) (by rw [hγ]; rfl))
  · rcases List.mem_cons.mp hf' with rfl | hf'
    · exact hopened
    · exact h.books.known f' hf'
  · rcases List.mem_cons.mp hc with rfl | hc
    · exact ho.2.2 i hgiven
    · exact ho.2.1 hc
  · rcases List.mem_cons.mp hc with rfl | hc
    · obtain rfl := h.books.once i j f' hgiven hl.1
      exact hu (h.handles u t i hj (by rw [hγ]; rfl))
    · exact hl.2 hc

theorem safe_hostFclose : Safe t (perform (.hostFclose (some f))) (.closing i f) fun _ g' =>
    g' = .closed i f := by
  refine .perform fun γ s h hγ => ⟨trivial, fun r s' _ hs => ⟨.closed i f, ?_, rfl⟩⟩
  obtain rfl := Option.some.inj hs
  exact Inv.close h hγ

/-- The slot of a closed stream is freed. -/
theorem Inv.clear (h : Inv γ s) (hγ : γ t = .closed i f) :
    Inv (update γ t (.cleared i)) { s with speFilePtrs := update s.speFilePtrs i none } := by
  have hg := h.holds t
  rw [hγ] at hg
  obtain ⟨hi, hslot, hclosed, hclosing⟩ := hg
  have hother : ∀ j f', j ≠ i → s.speFilePtrs j = some f' → update s.speFilePtrs i none j = some f' :=
    fun j f' hji hj => by rw [update_of_ne hji, hj]
  -- a stream that is not closed is in another slot
  have hapart : ∀ j f', s.speFilePtrs j = some f' → f' ∉ s.closed → j ≠ i := fun j f' hj hc hji => by
    rw [hji, hslot] at hj
    exact hc (Option.some.inj hj ▸ hclosed)
  refine h.step ⟨h.books.returned, h.books.once, fun j f' hj hc => ?_, h.books.known, h.books.closed⟩ hclosing
    (fun u hu => (h.holds u).frame (fun _ _ ho => ho) (fun j f' hor hj => hother j f' ?_ hj)
      (fun _ _ _ hl => hl) (fun _ hc => hc) fun _ _ hc => hc)
    nofun (fun j hj => .inl (by rw [hγ]; exact hj)) (h.counted.clear hγ hi hslot)
  · have hj := h.books.refers j f' hj hc
    exact hother j f' (hapart j f' hj hc) hj
  · rcases hor with ho | ⟨-, hhandle⟩
    · exact hapart j f' hj ho.2.1
    · rintro rfl
      exact hu (h.handles u t j hhandle (by rw [hγ]; rfl))

theorem safe_clearSlot : Safe t (perform (.storeSlot i (some f) none)) (.closed i f) fun _ g' =>
    g' = .cleared i := by
  refine .perform fun γ s h hγ => ⟨trivial, fun r s' _ hs => ⟨.cleared i, ?_, rfl⟩⟩
  obtain rfl := Option.some.inj hs
  exact Inv.clear h hγ

theorem Inv.drop (h : Inv γ s) (hγ : γ t = .cleared i) :
    Inv (update γ t (.ended i)) { s with nrSpeFilePtrs := s.nrSpeFilePtrs - 1 } := by
  have hg := h.holds t
  rw [hγ] at hg
  exact h.step ⟨h.books.returned, h.books.once, h.books.refers, h.books.known, h.books.closed⟩ hg
    (fun u _ => (h.holds u).frame (fun _ _ ho => ho) (fun _ _ _ hj => hj) (fun _ _ _ hl => hl)
      (fun _ hc => hc) fun _ _ hc => hc)
    nofun (fun j hj => .inl (by rw [hγ]; exact hj)) (h.counted.drop hγ)

theorem safe_dropNr {n : Int} : Safe t (perform (.storeNr n (n - 1))) (.cleared i) fun _ g' =>
    g' = .ended i := by
  refine .perform fun γ s h hγ => ⟨trivial, fun r s' ho hs => ⟨.ended i, ?_, rfl⟩⟩
  obtain rfl := Option.some.inj hs
  obtain rfl : s.nrSpeFilePtrs = n := ho
  exact Inv.drop h hγ

theorem Inv.endClose (h : Inv γ s) (hhandle : (γ t).handle = some i) (hup : ¬(γ t).isStored)
    (hdown : ¬(γ t).isCleared) : Inv (update γ t .idle) { s with closing := s.closing.erase i } := by
  refine h.step ⟨h.books.returned, h.books.once, h.books.refers, h.books.known, h.books.closed⟩ trivial
    (fun u hu => (h.holds u).frame (fun _ _ ho => ho) (fun _ _ _ hj => hj) (fun _ _ _ hl => hl)
      (fun _ hc => hc) fun j hj hc => (List.mem_erase_of_ne ?_).mpr hc)
    nofun nofun (h.counted.same rfl rfl ⟨False.elim, hup⟩ ⟨False.elim, hdown⟩)
  rintro rfl
  exact hu (h.handles u t j hj hhandle)

theorem safe_endFclose {rc : Int} (hg : g = .ended i ∨ ∃ f, g = .closed i f) :
    Safe t (perform (.endFclose i rc)) g fun _ g' => g' = .idle := by
  refine .perform fun γ s h hγ => ⟨trivial, fun r s' _ hs => ⟨.idle, ?_, rfl⟩⟩
  obtain rfl := Option.some.inj hs
  rcases hg with rfl | ⟨f, rfl⟩
  · exact Inv.endClose h (by rw [hγ]; rfl) (by rw [hγ]; exact id) (by rw [hγ]; exact id)
  · exact Inv.endClose h (by rw [hγ]; rfl) (by rw [hγ]; exact id) (by rw [hγ]; exact id)

/-! ## The handlers -/

theorem tmpfileFrom_safe (is : List Nat) (his : ∀ i ∈ is, i ∈ slots) :
    Safe t (tmpfileFrom is) .idle fun _ g' => g' = .idle := by
  induction is with
  | nil => exact safe_putZero
  | cons i is ih =>
    have hi := his i List.mem_cons_self
    refine .bind safe_loadSlot ?_
    rintro x _ rfl
    split
    · refine .bind safe_openStream ?_
      rintro r _ rfl
      cases r with
      | none =>
        refine .bind safe_storeNull ?_
        rintro _ _ rfl
        refine .bind safe_reloadSlot ?_
        rintro _ _ ⟨rfl, rfl⟩
        exact safe_putZero
      | some f =>
        refine .bind (safe_storeSlot hi) ?_
        rintro _ _ rfl
        refine .bind safe_reloadSlot ?_
        rintro _ _ ⟨rfl, rfl⟩
        refine .bind safe_loadNr ?_
        rintro n _ rfl
        refine .bind safe_storeNr ?_
        rintro _ _ rfl
        exact safe_putHandle hi
    · exact ih fun j hj => his j (List.mem_cons_of_mem _ hj)

theorem defaultC99HandlerTmpfile_safe : Safe t defaultC99HandlerTmpfile .idle fun _ g' => g' = .idle := by
  refine .bind safe_loadNr ?_
  rintro n _ rfl
  split
  · exact safe_putZero
  · exact tmpfileFrom_safe slots fun _ h => h

/-- What the loop of `fopen` leaves: a stream that is counted, or nothing. -/
theorem fopenFrom_safe (is : List Nat) (his : ∀ i ∈ is, i ∈ slots) :
    Safe t (fopenFrom is) .idle fun x g' =>
      (x.1 = 0 ∧ g' = .idle) ∨ ∃ f, x.1 ∈ slots ∧ x.2 = some f ∧ g' = .counted x.1 f := by
  induction is with
  | nil => exact .ret (.inl ⟨rfl, rfl⟩)
  | cons i is ih =>
    have hi := his i List.mem_cons_self
    refine .bind safe_loadSlot ?_
    rintro x _ rfl
    split
    · refine .bind safe_openStream ?_
      rintro r _ rfl
      cases r with
      | none => exact .ret (.inl ⟨rfl, rfl⟩)
      | some f =>
        refine .bind (safe_storeSlot hi) ?_
        rintro _ _ rfl
        refine .bind safe_loadNr ?_
        rintro n _ rfl
        refine .bind safe_storeNr ?_
        rintro _ _ rfl
        exact .ret (.inr ⟨f, hi, rfl, rfl⟩)
    · exact ih fun j hj => his j (List.mem_cons_of_mem _ hj)

theorem defaultC99HandlerFopen_safe : Safe t defaultC99HandlerFopen .idle fun _ g' => g' = .idle := by
  refine .bind (safe_neutral trivial) ?_
  rintro _ _ rfl
  refine .bind safe_loadNr ?_
  rintro n _ rfl
  refine .bind (Q := fun x g' =>
    (x.1 = 0 ∧ g' = .idle) ∨ ∃ f, x.1 ∈ slots ∧ x.2 = some f ∧ g' = .counted x.1 f) ?_ ?_
  · split
    · exact fopenFrom_safe slots fun _ h => h
    · exact .ret (.inl ⟨rfl, rfl⟩)
  · rintro ⟨rc, x⟩ g' hx
    refine .bind (safe_neutral trivial) ?_
    rintro _ _ rfl
    rcases hx with ⟨hrc, rfl⟩ | ⟨f, hi, hx, rfl⟩
    · obtain rfl : rc = 0 := hrc
      exact safe_putZero
    · obtain rfl : x = some f := hx
      exact safe_putHandle hi

theorem defaultC99HandlerFclose_safe : Safe t (defaultC99HandlerFclose i) .idle fun _ g' =>
    g' = .idle := by
  refine .bind safe_startFclose ?_
  rintro _ _ ⟨hi, f, rfl⟩
  refine .bind (getFile_safe hi) ?_
  rintro _ _ ⟨rfl, rfl⟩
  refine .bind (safe_neutral trivial) ?_
  rintro _ _ rfl
  refine .bind safe_hostFclose ?_
  rintro rc _ rfl
  split
  · refine .bind safe_clearSlot ?_
    rintro _ _ rfl
    refine .bind safe_loadNr ?_
    rintro n _ rfl
    refine .bind safe_dropNr ?_
    rintro _ _ rfl
    refine .bind (safe_neutral trivial) ?_
    rintro _ _ rfl
    exact safe_endFclose (.inl rfl)
  · refine .bind (safe_neutral trivial) ?_
    rintro _ _ rfl
    exact safe_endFclose (.inr ⟨f, rfl⟩)

/-! ## All interleavings -/

theorem code_safe (c : Call) : Safe t c.code .idle fun _ g' => g' = .idle := by
  cases c with
  | fopen => exact defaultC99HandlerFopen_safe
  | tmpfile => exact defaultC99HandlerTmpfile_safe
  | fclose i => exact defaultC99HandlerFclose_safe

theorem initial_inv : Inv (fun _ => .idle) initial where
  books := ⟨nofun, nofun, nofun, nofun, List.nodup_nil⟩
  holds _ := trivial
  files := nofun
  handles := nofun
  counted := ⟨[], [], ⟨List.nodup_nil, by simp [Phase.isStored]⟩, ⟨List.nodup_nil, by simp [Phase.isCleared]⟩,
    by decide⟩

/-- **The table of streams**, for any number of threads: in every state of a run in which no thread gets
between what another one reads and what it stores, and in which each `fclose` names an open handle that no
other one names, two open streams have different handles, the host closes a stream at most once, an open
handle refers to the stream it was returned for, and while no handler runs the counter is three more than
the number of slots in use. -/
theorem fileTable_intact {cfg : Config Cmd Ans Tid World} (h : system.Reach Undisturbed cfg) :
    (∀ i f f', (i, some f) ∈ cfg.shared.given → f ∉ cfg.shared.closed → (i, some f') ∈ cfg.shared.given →
        f' ∉ cfg.shared.closed → f = f') ∧
      cfg.shared.closed.Nodup ∧
      (∀ i f, (i, some f) ∈ cfg.shared.given → f ∉ cfg.shared.closed →
        cfg.shared.speFilePtrs i = some f) ∧
      ((∀ t, cfg.threads t = none) → cfg.shared.nrSpeFilePtrs = 3 + cfg.shared.occupied) := by
  obtain ⟨γ, hi, hat⟩ := Proto.reach (P := proto) (S := system)
    (fun s (hs : s = initial) => hs ▸ initial_inv) (fun _ c => code_safe c) h
  refine ⟨fun i f f' hf hc hf' hc' => ?_, hi.books.closed, hi.books.refers, fun hquiet => ?_⟩
  · have hslot := hi.books.refers i f hf hc
    rw [hi.books.refers i f' hf' hc'] at hslot
    exact (Option.some.inj hslot).symm
  · have hidle : ∀ t, γ t = .idle := fun t => by
      have := hat t
      rw [hquiet t] at this
      exact this
    obtain ⟨up, down, hup, hdown, hcount⟩ := hi.counted
    have hup : up = [] := List.eq_nil_iff_forall_not_mem.mpr fun t ht => by
      have := (hup.mem t).mp ht
      rw [hidle t] at this
      exact this
    have hdown : down = [] := List.eq_nil_iff_forall_not_mem.mpr fun t ht => by
      have := (hdown.mem t).mp ht
      rw [hidle t] at this
      exact this
    simpa [hup, hdown] using hcount

/-! ## Runs -/

/-- A `fopen` that passes over the slots in use, and is given the stream `n` by the host for the slot `i`. -/
def fopenTrace (used : List (Nat × Nat)) (i n : Nat) (nr : Int) : List (Sigma Ans) :=
  [⟨.lock, ()⟩, ⟨.loadNr, nr⟩] ++ (used.map fun (j, m) => (⟨.loadSlot j, some (.stream m)⟩ : Sigma Ans)) ++
    [⟨.loadSlot i, none⟩, ⟨.openStream, some (.stream n)⟩, ⟨.storeSlot i none (some (.stream n)), ()⟩, ⟨.loadNr, nr⟩,
      ⟨.storeNr nr (nr + 1), ()⟩, ⟨.unlock, ()⟩, ⟨.putHandle i (some (.stream n)), ()⟩]

/-- `fclose` of the handle 4, up to the first unlock, and from then on. -/
def findTrace (n : Nat) : List (Sigma Ans) :=
  [⟨.startFclose 4, ()⟩, ⟨.lock, ()⟩, ⟨.loadSlot 4, some (.stream n)⟩, ⟨.unlock, ()⟩]

def closeTrace (n : Nat) (nr : Int) : List (Sigma Ans) :=
  [⟨.lock, ()⟩, ⟨.hostFclose (some (.stream n)), (0 : Int)⟩, ⟨.storeSlot 4 (some (.stream n)) none, ()⟩, ⟨.loadNr, nr⟩,
    ⟨.storeNr nr (nr - 1), ()⟩, ⟨.unlock, ()⟩, ⟨.endFclose 4 0, ()⟩]

def findCode : Code (Option File) := do
  perform (.startFclose 4)
  getFile 4

def closeCode (stream : Option File) : Code Unit := do
  perform .lock
  let rc ← perform (.hostFclose stream)
  if rc = 0 then
    perform (.storeSlot 4 stream none)
    let n ← perform .loadNr
    perform (.storeNr n (n - 1))
  perform .unlock
  perform (.endFclose 4 rc)

theorem findCode_ends (n : Nat) : findCode.Ends (findTrace n) (some (.stream n)) := .cmd (.cmd (.cmd (.cmd .ret)))

theorem closeCode_ends (n : Nat) (nr : Int) : (closeCode (some (.stream n))).Ends (closeTrace n nr) () :=
  .cmd (.cmd (.cmd (.cmd (.cmd (.cmd (.cmd .ret))))))

theorem fopen_first : defaultC99HandlerFopen.Ends (fopenTrace [] 4 0 3) () := by
  repeat first | exact .ret | refine .cmd ?_

theorem fopen_second : defaultC99HandlerFopen.Ends (fopenTrace [(4, 0)] 5 1 4) () := by
  repeat first | exact .ret | refine .cmd ?_

/-- The table with the stream 0 in slot 4. -/
def oneOpen : World where
  owner := none
  nrSpeFilePtrs := 4
  speFilePtrs := update (fun _ => none) 4 (some (.stream 0))
  opened := [.stream 0, .stdin, .stdout, .stderr]
  closed := []
  given := [(4, some (.stream 0))]
  closing := []

/-- Thread 1 is closing it, and the stream 1 is in slot 5. -/
def bothOpen : World where
  owner := none
  nrSpeFilePtrs := 5
  speFilePtrs := update oneOpen.speFilePtrs 5 (some (.stream 1))
  opened := [.stream 1, .stream 0, .stdin, .stdout, .stderr]
  closed := []
  given := [(5, some (.stream 1)), (4, some (.stream 0))]
  closing := [4]

def firstClosed : World :=
  { bothOpen with
    nrSpeFilePtrs := 4, speFilePtrs := update bothOpen.speFilePtrs 4 none, closed := [.stream 0], closing := [] }

theorem oneOpen_reach : system.Reach Undisturbed ⟨oneOpen, fun _ => none⟩ :=
  (System.Reach.init (s := initial) rfl).solo (t := 1) (c := Call.fopen) rfl fopen_first
    (show machine.play 1 (fopenTrace [] 4 0 3) initial = some oneOpen from rfl)
    ⟨trivial, trivial, trivial, trivial, rfl, trivial, rfl, trivial, trivial, trivial⟩

/-- Thread 1 opens a file and closes it, and while it is between the two sections of `fclose`, thread 2 opens
another one. -/
theorem fileTable_intact_overlap : ∃ cfg : Config Cmd Ans Tid World,
    cfg.shared.given = [(5, some (.stream 1)), (4, some (.stream 0))] ∧ cfg.shared.closed = [.stream 0] ∧
      cfg.shared.speFilePtrs 5 = some (.stream 1) ∧ cfg.shared.nrSpeFilePtrs = 3 + cfg.shared.occupied := by
  have hopen : IsOpen oneOpen 4 ∧ 4 ∉ oneOpen.closing :=
    ⟨⟨.stream 0, List.mem_cons_self, List.not_mem_nil⟩, List.not_mem_nil⟩
  -- thread 1 has found the stream of the handle 4
  have h₁ := oneOpen_reach.begins (t := 1) (c := Call.fclose 4) (f := closeCode) rfl rfl (findCode_ends 0)
    (show machine.play 1 (findTrace 0) oneOpen = some { oneOpen with closing := [4] } from rfl)
    ⟨hopen, trivial, trivial, trivial, trivial⟩
  -- thread 2 opens a stream of its own, and returns
  have h₂ := System.Reach.solo (S := system) (t := 2) (c := Call.fopen) h₁ rfl fopen_second
    (show machine.play 2 (fopenTrace [(4, 0)] 5 1 4) _ = some bothOpen from rfl)
    ⟨trivial, trivial, trivial, trivial, trivial, rfl, trivial, rfl, trivial, trivial, trivial⟩
  -- thread 1 goes on
  rw [← Prog.bind_ret (closeCode _)] at h₂
  have h₃ := System.Reach.play (S := system) (t := 1) h₂ (closeCode_ends 0 5)
    (show machine.play 1 (closeTrace 0 5) bothOpen = some firstClosed from rfl)
    ⟨trivial, trivial, rfl, trivial, rfl, trivial, trivial, trivial⟩
  have h := h₃.step (.finish (t := 1) (update_self ..))
  rw [update_idem] at h
  obtain ⟨-, -, hrefers, hcount⟩ := fileTable_intact h
  refine ⟨_, rfl, rfl, hrefers 5 (.stream 1) List.mem_cons_self ?_, hcount fun t => by simp⟩
  show File.stream 1 ∉ [File.stream 0]
  decide

/-- A `tmpfile` that finds slot 4 free, and 3 in the counter, and is given the stream `n` by the host. -/
def lookTrace (n : Nat) : List (Sigma Ans) :=
  [⟨.loadNr, 3⟩, ⟨.loadSlot 4, none⟩, ⟨.openStream, some (.stream n)⟩]

/-- The rest of it, with `nr` in the counter by then. -/
def storeTrace (n : Nat) (nr : Int) : List (Sigma Ans) :=
  [⟨.storeSlot 4 none (some (.stream n)), ()⟩, ⟨.reloadSlot 4 (some (.stream n)), some (.stream n)⟩,
    ⟨.loadNr, nr⟩, ⟨.storeNr nr (nr + 1), ()⟩, ⟨.putHandle 4 (some (.stream n)), ()⟩]

/-- The rest of `tmpfile`. -/
def storeCode (n : Nat) : Code Unit := do
  perform (.storeSlot 4 none (some (.stream n)))
  if (← perform (.reloadSlot 4 (some (.stream n)))) ≠ none then
    let nr ← perform .loadNr
    perform (.storeNr nr (nr + 1))
    perform (.putHandle 4 (some (.stream n)))
  else perform (.putHandle 0 (some (.stream n)))

theorem storeCode_ends (n : Nat) (nr : Int) : (storeCode n).Ends (storeTrace n nr) () :=
  .cmd (.cmd (.cmd (.cmd (.cmd .ret))))

theorem tmpfile_ends (n : Nat) (nr : Int) :
    defaultC99HandlerTmpfile.Ends (lookTrace n ++ storeTrace n nr) () :=
  .cmd (.cmd (.cmd (storeCode_ends n nr)))

/-- Two threads are in `tmpfile`: both find slot 4 free, and both are returned the handle 4. It refers to
one of the two streams, and the counter is one more than the slots in use account for. -/
theorem fileTable_race : ∃ cfg : Config Cmd Ans Tid World, system.Reachable cfg ∧
    (4, some (.stream 0)) ∈ cfg.shared.given ∧ (4, some (.stream 1)) ∈ cfg.shared.given ∧
      cfg.shared.closed = [] ∧ cfg.shared.speFilePtrs 4 = some (.stream 0) ∧
        (∀ t, cfg.threads t = none) ∧ cfg.shared.nrSpeFilePtrs = 3 + cfg.shared.occupied + 1 := by
  have hok (t tr s) : machine.Passes (System.always Cmd Ans Tid World) t tr s :=
    machine.passes_of_forall (fun _ _ _ _ => trivial) t tr s
  -- thread 1 has been given its stream
  have h₁ : system.Reachable ⟨{ initial with opened := .stream 0 :: initial.opened },
      update (fun _ => none) 1 (some (storeCode 0))⟩ := by
    have h₀ : system.Reachable ⟨initial, fun _ => none⟩ := .init rfl
    have h := (((h₀.step (.call (t := 1) Call.tmpfile rfl)).step
        (.act (t := 1) (c := .loadNr) (r := (3 : Int)) rfl trivial rfl)).step
          (.act (t := 1) (c := .loadSlot 4) (r := (none : Option File)) rfl trivial rfl)).step
            (.act (t := 1) (c := .openStream) (r := some (File.stream 0)) rfl trivial rfl)
    rw [update_idem, update_idem, update_idem] at h
    exact h
  rw [← Prog.bind_ret (storeCode 0)] at h₁
  -- thread 2 opens a stream of its own, and returns
  have h₂ := System.Reach.solo (S := system) (t := 2) (c := Call.tmpfile) h₁ rfl (tmpfile_ends 1 3)
    (show machine.play 2 (lookTrace 1 ++ storeTrace 1 3) _ = some _ from rfl) (hok ..)
  have h₃ := System.Reach.play (S := system) (t := 1) (f := .ret) h₂ (storeCode_ends 0 4)
    (show machine.play 1 (storeTrace 0 4) _ = some _ from rfl) (hok ..)
  have h₄ := h₃.step (.finish (t := 1) (update_self ..))
  rw [update_idem] at h₄
  exact ⟨_, h₄, by simp, by simp, rfl, rfl, fun t => by simp, rfl⟩

end LibSpe2.FileTable
