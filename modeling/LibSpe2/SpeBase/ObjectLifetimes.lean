import LibSpe2.SpeBase.Objects

/-!
# Every resource is given back once

Whatever the threads do and whatever fails: a thread that is not in a call holds no block, descriptor or mapping, a
live object holds what it is made of, and what is freed, closed or unmapped is held by the thread that does it.

A thread's phase is the list of resources that it has in hand, so each function gets a specification that says with
what in hand it starts and ends (`safe_imageOpen`, `safe_imageClose`, …), and `Ledger.Sound` is the invariant.

## Main results

* `lifetimes` — so it is in every reachable configuration.
-/

namespace LibSpe2.Objects

open Conc (Prog Proto Config)
open Conc.Proto (Safe)

/-! ## The system -/

inductive Call where
  /-- `spe_image_open` and `spe_open_image` of libspe 1.2. -/
  | imageOpen (filename : String)
  | imageClose (ih : Option ImageHandle)
  | gangContextCreate (flags : UInt32)
  | gangContextDestroy (gctx : Option GangContext)
  | eventHandlerCreate
  | eventHandlerDestroy (evhandler : Option EventHandler)

/-- The caller has got an object, or `NULL`. -/
def receive {α : Type} (object : α → Object) : Option α → Lib Unit
  | none => return ()
  | some a => perform (.made (object a))

/-- The caller gives an object away, if it is not `NULL`. -/
def claim {α : Type} (object : α → Object) : Option α → Lib Unit
  | none => return ()
  | some a => perform (.claim (object a))

def code : Call → Lib Unit
  | .imageOpen filename => do receive .image (← baseSpeImageOpen filename)
  | .imageClose ih => do
    claim .image ih
    let _ ← baseSpeImageClose ih
  | .gangContextCreate flags => do receive .gang (← baseSpeGangContextCreate flags)
  | .gangContextDestroy gctx => do
    claim .gang gctx
    let _ ← speGangContextDestroy gctx
  | .eventHandlerCreate => do receive .handler (← eventSpeEventHandlerCreate)
  | .eventHandlerDestroy evhandler => do
    claim .handler evhandler
    let _ ← eventSpeEventHandlerDestroy evhandler

def objectSystem : Conc.System Cmd Ans Tid World where
  exec := exec
  Call := Call
  code _ := code
  init s := s.ledger = .empty

/-- What the C library and the kernel promise. -/
def hostOk : Tid → (c : Cmd) → Ans c → World → Prop
  | _, .malloc, .ok ptr, _ => ptr ≠ 0
  | _, .openFd _, .ok fd, _ => 0 ≤ fd
  -- nothing is mapped without a length, or at an address that is taken for a failure
  | _, .mmap len _, .ok addr, _ => len ≠ 0 ∧ addr ≠ 0 ∧ addr ≠ mapFailed
  -- a mapping can be undone as a whole
  | _, .munmap addr len, r, s => s.ledger.holder (.mapping addr len) ≠ none → r = .ok ()
  | _, _, _, _ => True

/-- What a command gives back. -/
def Cmd.releases : Cmd → Option Resource
  | .munmap addr len => some (.mapping addr len)
  | .close fd => some (.fd fd)
  | .free ptr => some (.block ptr)
  | _ => none

/-- The phase of a thread is what it has in hand. -/
def hands : Proto Cmd Tid World (List Resource) where
  idle := []
  inv γ s := Ledger.Sound Object.parts γ s.ledger ∧ ∀ o ∈ s.ledger.live, o.Valid
  pre t c s := ∀ r, c.releases = some r → s.ledger.holder r = some (.thread t)

/-! ## Rules -/

abbrev SafeHands (t : Tid) {α : Type} (p : Lib α) (g : List Resource) (Q : α → List Resource → Prop) : Prop :=
  Safe objectSystem.toMachine hostOk hands t p g Q

variable {t : Tid} {α : Type} {g : List Resource} {Q : α → List Resource → Prop}

/-- A command that nobody gets or gives back anything by. -/
theorem safe_still {c : Cmd} {k : Ans c → Lib α} (hc : c.releases = none)
    (hexec : ∀ r s s', exec t c r s = some s' → s'.ledger = s.ledger) (hk : ∀ r, SafeHands t (k r) g Q) :
    SafeHands t (.cmd c k) g Q := by
  intro γ s hinv hg
  refine ⟨by simp [hands, hc], fun r s' _ he => ⟨g, ?_, hk r⟩⟩
  subst hg
  rw [Function.update_eq_self]
  simp only [hands, hexec r s s' he]
  exact hinv

/-- A call that hands out a resource, or fails. -/
theorem safe_take {c : Cmd} {k : Ans c → Lib α} (hc : c.releases = none)
    (hk : ∀ r s s', exec t c r s = some s' → hostOk t c r s →
      (s'.ledger = s.ledger ∧ SafeHands t (k r) g Q) ∨
      ∃ res, s.ledger.holder res = none ∧ s'.ledger = s.ledger.acquire t res ∧ SafeHands t (k r) (res :: g) Q) :
    SafeHands t (.cmd c k) g Q := by
  intro γ s hinv hg
  refine ⟨by simp [hands, hc], fun r s' hok he => ?_⟩
  subst hg
  obtain ⟨hs, hsafe⟩ | ⟨res, hfree, hs, hsafe⟩ := hk r s s' he hok
  · refine ⟨γ t, ?_, hsafe⟩
    rw [Function.update_eq_self]
    simp only [hands, hs]
    exact hinv
  · refine ⟨res :: γ t, ?_, hsafe⟩
    simp only [hands, hs]
    exact ⟨hinv.1.acquire hfree, hinv.2⟩

/-- A call that gives back something that the thread has in hand. -/
theorem safe_drop {c : Cmd} {k : Ans c → Lib α} {res : Resource} {rest : List Resource} (hc : c.releases = some res)
    (hg : g.Perm (res :: rest))
    (hk : ∀ r s s', s.ledger.holder res = some (.thread t) → exec t c r s = some s' → hostOk t c r s →
      s'.ledger = s.ledger.release res ∧ SafeHands t (k r) rest Q) :
    SafeHands t (.cmd c k) g Q := by
  intro γ s hinv hγ
  have hheld : s.ledger.holder res = some (.thread t) := by
    rw [hinv.1.thread, hγ]
    exact hg.mem_iff.mpr List.mem_cons_self
  refine ⟨fun r hr => ?_, fun r s' hok he => ?_⟩
  · rw [hc] at hr
    cases hr
    exact hheld
  · obtain ⟨hs, hsafe⟩ := hk r s s' hheld he hok
    refine ⟨rest, ?_, hsafe⟩
    simp only [hands, hs]
    exact ⟨hinv.1.release (hγ ▸ hg), hinv.2⟩

theorem take_eq {s s' : World} {res : Resource} (h : s.take t res = some s') :
    s.ledger.holder res = none ∧ s'.ledger = s.ledger.acquire t res := by
  unfold World.take at h
  split at h
  next hfree => exact ⟨hfree, Option.some.inj h ▸ rfl⟩
  next => cases h

@[simp] theorem note_ledger {β : Type} {s : World} (r : Except ℤ β) : (s.note t r).ledger = s.ledger := by
  cases r <;> rfl

theorem safe_malloc {k : Ans .malloc → Lib α} (hnull : ∀ e, SafeHands t (k (.error e)) g Q)
    (hptr : ∀ ptr, ptr ≠ 0 → SafeHands t (k (.ok ptr)) (.block ptr :: g) Q) :
    SafeHands t (.cmd .malloc k) g Q := by
  refine safe_take rfl fun r s s' he hok => ?_
  cases r with
  | error e =>
    obtain rfl := Option.some.inj he
    exact .inl ⟨rfl, hnull e⟩
  | ok ptr =>
    obtain ⟨hfree, hs⟩ := take_eq he
    exact .inr ⟨_, hfree, hs, hptr ptr hok⟩

theorem safe_mmap {len : UInt32} {fd : ℤ} {k : Ans (.mmap len fd) → Lib α}
    (hfail : ∀ e, SafeHands t (k (.error e)) g Q)
    (hmap : ∀ addr, len ≠ 0 → addr ≠ 0 → addr ≠ mapFailed → SafeHands t (k (.ok addr)) (.mapping addr len :: g) Q) :
    SafeHands t (.cmd (.mmap len fd) k) g Q := by
  refine safe_take rfl fun r s s' he hok => ?_
  cases r with
  | error e =>
    obtain rfl := Option.some.inj he
    exact .inl ⟨rfl, hfail e⟩
  | ok addr =>
    obtain ⟨hfree, hs⟩ := take_eq he
    exact .inr ⟨_, hfree, hs, hmap addr hok.1 hok.2.1 hok.2.2⟩

theorem safe_openFd {call : FdCall} {k : Ans (.openFd call) → Lib α} (hfail : ∀ e, SafeHands t (k (.error e)) g Q)
    (hfd : ∀ fd, 0 ≤ fd → SafeHands t (k (.ok fd)) (.fd fd :: g) Q) : SafeHands t (.cmd (.openFd call) k) g Q := by
  refine safe_take rfl fun r s s' he hok => ?_
  cases r with
  | error e =>
    obtain rfl := Option.some.inj he
    exact .inl ⟨rfl, hfail e⟩
  | ok fd =>
    obtain ⟨hfree, hs⟩ := take_eq he
    exact .inr ⟨_, hfree, hs, hfd fd hok⟩

theorem safe_free {ptr : ℕ} {k : Unit → Lib α} {rest : List Resource} (hg : g.Perm (.block ptr :: rest))
    (hk : SafeHands t (k ()) rest Q) : SafeHands t (.cmd (.free ptr) k) g Q := by
  refine safe_drop rfl hg fun _ s s' _ he _ => ?_
  obtain rfl := Option.some.inj he
  exact ⟨rfl, hk⟩

theorem safe_close {fd : ℤ} {k : Except ℤ Unit → Lib α} {rest : List Resource} (hg : g.Perm (.fd fd :: rest))
    (hk : ∀ r, SafeHands t (k r) rest Q) : SafeHands t (.cmd (.close fd) k) g Q := by
  refine safe_drop rfl hg fun r s s' _ he _ => ?_
  obtain rfl := Option.some.inj he
  exact ⟨note_ledger r, hk r⟩

/-- What is in hand is unmapped as a whole, so that cannot fail. -/
theorem safe_munmap {addr : ℕ} {len : UInt32} {k : Except ℤ Unit → Lib α} {rest : List Resource}
    (hg : g.Perm (.mapping addr len :: rest)) (hk : SafeHands t (k (.ok ())) rest Q) :
    SafeHands t (.cmd (.munmap addr len) k) g Q := by
  refine safe_drop rfl hg fun r s s' hheld he hok => ?_
  obtain rfl : r = .ok () := hok (by simp [hheld])
  obtain rfl := Option.some.inj he
  exact ⟨rfl, hk⟩

/-- The whole of what is in hand becomes an object. -/
theorem safe_made {o : Object} (hg : g.Perm o.parts) (hv : o.Valid) :
    SafeHands t (perform (.made o)) g fun _ g' => g' = [] := by
  refine Safe.perform fun γ s hinv hγ => ⟨by simp [hands, Cmd.releases], fun _ s' _ he => ?_⟩
  obtain rfl := Option.some.inj he
  have hne : o.parts ≠ [] := by cases o <;> simp [Object.parts]
  exact ⟨[], ⟨hinv.1.publish (hγ ▸ hg) hne, List.forall_mem_cons.mpr ⟨hv, hinv.2⟩⟩, rfl⟩

/-- A thread with empty hands gets what the object that it was passed is made of. -/
theorem safe_claim {o : Object} :
    SafeHands t (perform (.claim o)) [] fun _ g' => g' = o.parts ∧ o.Valid := by
  refine Safe.perform fun γ s hinv hγ => ⟨by simp [hands, Cmd.releases], fun _ s' _ he => ?_⟩
  obtain ⟨ho, hs⟩ : o ∈ s.ledger.live ∧ s' = _ := by
    simp only [objectSystem, exec] at he
    split at he
    next ho => exact ⟨ho, (Option.some.inj he).symm⟩
    next => cases he
  subst hs
  refine ⟨o.parts, ⟨hinv.1.giveUp ho hγ, fun o' ho' => hinv.2 o' (List.mem_of_mem_erase ho')⟩, rfl, hinv.2 o ho⟩

/-! ## What each function starts and ends with -/

/-- A constructor ends with the parts of a valid object, or with nothing. -/
def Built {α : Type} (object : α → Object) : Option α → List Resource → Prop
  | none, g => g = []
  | some a, g => g.Perm (object a).parts ∧ (object a).Valid

/-- What `ret_err` gives back. -/
def errParts (ih : ImageHandle) (binfd : ℤ) : List Resource :=
  (if ih.elfImage ≠ mapFailed then [.mapping ih.elfImage ih.mapSize] else []) ++
    (if binfd ≥ 0 then [.fd binfd] else []) ++ [.block ih.ptr]

theorem safe_imageRetErr {ih : ImageHandle} {binfd : ℤ} (hg : g = errParts ih binfd) :
    SafeHands t (imageRetErr ih binfd) g (Built .image) := by
  subst hg
  have hfree : SafeHands t (.cmd (.free ih.ptr) fun _ => .ret none) [.block ih.ptr] (Built .image) :=
    safe_free (.refl _) rfl
  unfold imageRetErr errParts
  by_cases hmap : ih.elfImage ≠ mapFailed
  · rw [if_pos hmap, if_pos hmap]
    refine safe_munmap (.refl _) ?_
    split
    · exact safe_close (.refl _) fun _ => hfree
    · exact hfree
  · rw [if_neg hmap, if_neg hmap]
    split
    · exact safe_close (.refl _) fun _ => hfree
    · exact hfree

/-- `toe_shadow` is there if and only if the checks say so and there is memory. -/
theorem safe_toeEar {ih : ImageHandle} (hih : ih.toeShadow = 0) :
    SafeHands t (baseSpeToeEar ih) g fun r g' => (r.1 ≠ 0 → r.2 = ih ∧ g' = g) ∧
      (r.1 = 0 → ∃ toeShadow, r.2 = { ih with toeShadow } ∧ g' = r.2.shadowBlock ++ g) := by
  refine safe_still rfl (fun r s s' he => ?_) fun ⟨ret, toeSize⟩ => ?_
  · obtain rfl := Option.some.inj he
    split <;> rfl
  · simp only [Prog.ret_bind]
    split
    next hret =>
      refine safe_malloc (fun e => ?_) fun ptr hptr => ?_
      · refine safe_still rfl (fun r s s' he => Option.some.inj he ▸ rfl) fun _ => ?_
        exact ⟨fun _ => ⟨rfl, rfl⟩, by simp⟩
      · exact ⟨fun hne => absurd hret.1 hne, fun _ => ⟨ptr, rfl, by simp [ImageHandle.shadowBlock, hptr]⟩⟩
    next => exact ⟨fun _ => ⟨rfl, rfl⟩, fun _ => ⟨0, by simp [← hih], by simp [ImageHandle.shadowBlock, hih]⟩⟩

theorem safe_imageOpen (filename : String) :
    SafeHands t (baseSpeImageOpen filename) [] (Built .image) := by
  refine safe_still rfl (fun r s s' he => Option.some.inj he ▸ rfl) fun ps => ?_
  refine safe_malloc (fun e => rfl) fun ptr hptr => ?_
  refine safe_openFd (fun e => ?_) fun binfd hfd => ?_
  · exact safe_imageRetErr (by simp [errParts] : [Resource.block ptr] = errParts ⟨ptr, mapFailed, 0, 0⟩ (-1))
  refine safe_still rfl (fun r s s' he => Option.some.inj he ▸ note_ledger r) fun statbuf => ?_
  have hopened (mapSize : UInt32) : [Resource.fd binfd, .block ptr] = errParts ⟨ptr, mapFailed, 0, mapSize⟩ binfd := by
    simp [errParts, hfd]
  cases statbuf with
  | error e => exact safe_imageRetErr (hopened 0)
  | ok statbuf =>
    simp only [Prog.ret_bind]
    split
    · refine safe_still rfl (fun r s s' he => Option.some.inj he ▸ rfl) fun _ => ?_
      exact safe_imageRetErr (hopened 0)
    · refine safe_mmap (fun e => safe_imageRetErr (hopened _)) fun elfImage hlen haddr hmapped => ?_
      have hfail (shadow : ℕ) : [.mapping elfImage (mapSizeOf statbuf.size ps), .fd binfd, .block ptr] =
          errParts ⟨ptr, elfImage, shadow, mapSizeOf statbuf.size ps⟩ binfd := by
        simp [errParts, hfd, hmapped]
      refine safe_still rfl (fun r s s' he => Option.some.inj he ▸ note_ledger r) fun verdict => ?_
      cases verdict with
      | error e => exact safe_imageRetErr (hfail 0)
      | ok _ =>
        refine (safe_toeEar rfl).bind fun r g' hr => ?_
        obtain ⟨rc, ih⟩ := r
        simp only []
        split
        next hrc =>
          obtain ⟨rfl, rfl⟩ := hr.1 hrc
          exact safe_imageRetErr (hfail 0)
        next hrc =>
          obtain ⟨shadow, hih, hg'⟩ := hr.2 (not_not.mp hrc)
          obtain rfl : ih = _ := hih
          subst hg'
          let image : ImageHandle := ⟨ptr, elfImage, shadow, mapSizeOf statbuf.size ps⟩
          let mapping : Resource := .mapping elfImage image.mapSize
          have hclose : (image.shadowBlock ++ [mapping, .fd binfd, .block ptr]).Perm
              (.fd binfd :: (image.shadowBlock ++ [mapping, .block ptr])) :=
            ((List.Perm.swap ..).append_left _).trans List.perm_middle
          refine safe_close hclose fun _ => ⟨?_, haddr, hlen⟩
          have hrest : (image.shadowBlock ++ [mapping, .block ptr]).Perm ([mapping, .block ptr] ++ image.shadowBlock) :=
            List.perm_append_comm
          exact hrest.trans (.swap ..)

theorem safe_imageClose (ih : Option ImageHandle) : SafeHands t (do
      claim .image ih
      let _ ← baseSpeImageClose ih) [] fun _ g' => g' = [] := by
  cases ih with
  | none => exact safe_still rfl (fun r s s' he => Option.some.inj he ▸ rfl) fun _ => rfl
  | some ih =>
    refine safe_claim.bind fun _ g' ⟨hg, himage, hsize⟩ => ?_
    subst hg
    have hmapped : SafeHands t (.cmd (.munmap ih.elfImage ih.mapSize) fun _ => .cmd (.free ih.ptr) fun _ => .ret ())
        [.block ih.ptr, .mapping ih.elfImage ih.mapSize] fun _ g' => g' = [] :=
      safe_munmap (.swap ..) (safe_free (.refl _) rfl)
    unfold baseSpeImageClose
    simp only [himage, hsize, or_self, if_false]
    by_cases hshadow : ih.toeShadow ≠ 0
    · rw [if_pos hshadow]
      have hparts : (Object.image ih).parts =
          [.block ih.ptr, .mapping ih.elfImage ih.mapSize, .block ih.toeShadow] := by
        simp [Object.parts, ImageHandle.shadowBlock, hshadow]
      rw [hparts]
      exact safe_free (((List.Perm.swap ..).cons _).trans (.swap ..)) hmapped
    · rw [if_neg hshadow]
      have hparts : (Object.image ih).parts = [.block ih.ptr, .mapping ih.elfImage ih.mapSize] := by
        simp [Object.parts, ImageHandle.shadowBlock, hshadow]
      rw [hparts]
      exact hmapped

theorem safe_freeGang {gctx : GangContext} (hg : g.Perm ((if gctx.fdGangDir ≥ 0 then [.fd gctx.fdGangDir] else []) ++
      [.block gctx.basePrivate, .block gctx.ptr])) :
    SafeHands t (freeSpeGangContext gctx) g fun _ g' => g' = [] := by
  have hfree {g : List Resource} (hg : g.Perm [.block gctx.basePrivate, .block gctx.ptr]) :
      SafeHands t (.cmd (.free gctx.basePrivate) fun _ => .cmd (.free gctx.ptr) fun _ => .ret (0 : ℤ)) g
        fun _ g' => g' = [] :=
    safe_free hg (safe_free (.refl _) rfl)
  unfold freeSpeGangContext
  by_cases hfd : gctx.fdGangDir ≥ 0
  · rw [if_pos hfd] at hg ⊢
    exact safe_close hg fun _ => hfree (.refl _)
  · rw [if_neg hfd] at hg ⊢
    exact hfree hg

theorem safe_gangCreate (flags : UInt32) :
    SafeHands t (baseSpeGangContextCreate flags) [] (Built .gang) := by
  refine safe_malloc (fun e => rfl) fun gctx _ => ?_
  refine safe_malloc (fun e => safe_free (.refl _) rfl) fun pgctx _ => ?_
  refine safe_still rfl (fun r s s' he => Option.some.inj he ▸ rfl) fun pid => ?_
  refine safe_openFd (fun e => ?_) fun fdGangDir hfd => ?_
  · refine (safe_freeGang (.refl _)).bind fun _ g' hg' => ?_
    exact safe_still rfl (fun r s s' he => Option.some.inj he ▸ rfl) fun _ => hg'
  · exact ⟨List.reverse_perm [Resource.block gctx, .block pgctx, .fd fdGangDir], hfd⟩

theorem safe_gangDestroy (gctx : Option GangContext) : SafeHands t (do
      claim .gang gctx
      let _ ← speGangContextDestroy gctx) [] fun _ g' => g' = [] := by
  cases gctx with
  | none => exact safe_still rfl (fun r s s' he => Option.some.inj he ▸ rfl) fun _ => rfl
  | some gctx =>
    refine safe_claim.bind fun _ g' ⟨hg, hfd⟩ => ?_
    subst hg
    refine (safe_freeGang ?_).bind fun _ g' hg' => hg'
    have hopen : gctx.fdGangDir ≥ 0 := hfd
    rw [if_pos hopen]
    exact (List.reverse_perm [Resource.block gctx.ptr, .block gctx.basePrivate, .fd gctx.fdGangDir]).symm

theorem safe_handlerCreate : SafeHands t eventSpeEventHandlerCreate [] (Built .handler) := by
  refine safe_malloc (fun e => rfl) fun evhandler _ => ?_
  refine safe_openFd (fun e => safe_free (.refl _) rfl) fun epfd _ => ?_
  exact ⟨.swap .., trivial⟩

theorem safe_handlerDestroy (evhandler : Option EventHandler) : SafeHands t (do
      claim .handler evhandler
      let _ ← eventSpeEventHandlerDestroy evhandler) [] fun _ g' => g' = [] := by
  cases evhandler with
  | none => exact safe_still rfl (fun r s s' he => Option.some.inj he ▸ rfl) fun _ => rfl
  | some evhandler =>
    refine safe_claim.bind fun _ g' ⟨hg, _⟩ => ?_
    subst hg
    exact safe_close (.swap ..) fun _ => safe_free (.refl _) rfl

/-- The caller keeps what it got. -/
theorem safe_receive {α : Type} {object : α → Object} {p : Lib (Option α)}
    (hp : SafeHands t p [] (Built object)) :
    SafeHands t (do receive object (← p)) [] fun _ g' => g' = [] := by
  refine hp.bind fun a g' hg => ?_
  cases a with
  | none => exact hg
  | some a => exact safe_made hg.1 hg.2

theorem safe_code (c : Call) : SafeHands t (code c) [] fun _ g' => g' = [] := by
  cases c with
  | imageOpen filename => exact safe_receive (safe_imageOpen filename)
  | imageClose ih => exact safe_imageClose ih
  | gangContextCreate flags => exact safe_receive (safe_gangCreate flags)
  | gangContextDestroy gctx => exact safe_gangDestroy gctx
  | eventHandlerCreate => exact safe_receive safe_handlerCreate
  | eventHandlerDestroy evhandler => exact safe_handlerDestroy evhandler

/-! ## Runs -/

/-- Who holds what in a configuration. -/
structure Accounted (cfg : Config Cmd Ans Tid World) : Prop where
  /-- A thread that is not in a call has nothing, so no call leaves anything behind. -/
  idle : ∀ t, cfg.threads t = none → ∀ r, cfg.shared.ledger.holder r ≠ some (.thread t)
  objects : ∀ r o, cfg.shared.ledger.holder r = some (.object o) ↔ o ∈ cfg.shared.ledger.live ∧ r ∈ o.parts
  live : ∀ o ∈ cfg.shared.ledger.live, o.Valid ∧ o.parts.Nodup
  /-- Nothing is freed, closed or unmapped twice, or while an object or another thread holds it. -/
  releases : ∀ t c k r, cfg.threads t = some (.cmd c k) → c.releases = some r →
    cfg.shared.ledger.holder r = some (.thread t)

/-- **Lifetimes**: in every reachable configuration threads outside of calls hold nothing, live objects hold what
they are made of, and a thread that gives something back holds it. -/
theorem lifetimes {cfg : Config Cmd Ans Tid World} (h : objectSystem.Reach hostOk cfg) : Accounted cfg := by
  have hinit (s : World) (hs : objectSystem.init s) : hands.inv (fun _ => hands.idle) s := by
    show Ledger.Sound _ _ s.ledger ∧ _
    rw [show s.ledger = .empty from hs]
    exact ⟨Ledger.sound_empty _, nofun⟩
  obtain ⟨γ, ⟨hsound, hvalid⟩, hat⟩ := Proto.reach hinit (fun t c => safe_code c) h
  constructor
  · intro t ht r hr
    have hidle : γ t = hands.idle := by simpa [Proto.At, ht] using hat t
    simp only [hands] at hidle
    rw [hsound.thread, hidle] at hr
    cases hr
  · exact hsound.object
  · exact fun o ho => ⟨hvalid o ho, hsound.owned_nodup o ho⟩
  · intro t c k r ht hr
    exact Proto.reach_pre hinit (fun t c => safe_code c) h ht r hr

/-- A thread has got an event handler, and another one is about to close its descriptor. -/
theorem lifetimes_handler : ∃ cfg k, cfg.threads 2 = some (.cmd (.close 5) k) ∧
    cfg.shared.ledger.holder (.fd 5) = some (.thread 2) ∧ Accounted cfg := by
  let evhandler : EventHandler := ⟨4096, 5⟩
  let events : List (Sigma Ans) := [⟨.malloc, .ok 4096⟩, ⟨.openFd (.epollCreate speEpollSize), .ok 5⟩,
    ⟨.made (.handler evhandler), ()⟩]
  let s₀ : World := ⟨.empty, fun _ => 0⟩
  let s₁ : World :=
    ⟨((Ledger.empty.acquire 1 (.block 4096)).acquire 1 (.fd 5)).publish Object.parts (.handler evhandler), fun _ => 0⟩
  let s₂ : World := ⟨s₁.ledger.giveUp Object.parts 2 (.handler evhandler), fun _ => 0⟩
  have hends : (objectSystem.code 1 Call.eventHandlerCreate).Ends events () := .cmd (.cmd (.cmd .ret))
  have hplay : objectSystem.toMachine.play 1 events s₀ = some s₁ := rfl
  have hpasses : objectSystem.toMachine.Passes hostOk 1 events s₀ :=
    ⟨Nat.succ_ne_zero _, Int.natCast_nonneg 5, trivial, trivial⟩
  have hclaim : objectSystem.exec 2 (.claim (.handler evhandler)) () s₁ = some s₂ := rfl
  have h₁ := (Conc.System.Reach.init rfl : objectSystem.Reach hostOk ⟨s₀, fun _ => none⟩).solo rfl hends hplay hpasses
  have h₂ := h₁.step (.call (t := 2) (Call.eventHandlerDestroy (some evhandler)) rfl)
  have h₃ := h₂.step (.act (Function.update_self ..) trivial hclaim)
  have haccounted := lifetimes h₃
  exact ⟨_, _, rfl, haccounted.releases 2 (.close 5) _ _ rfl rfl, haccounted⟩

end LibSpe2.Objects
