import LibSpe2.Context.Shared

/-!
# The counts of the slots of a shared context

Only the thread that holds the lock of a slot touches its members, and the books change with them. So
while nobody looks after a slot its count is the number of references that the books have for it; for
the slots of the signals, which a call closes even where it could not open them, it is no larger.

* `Inv` — the invariant, by what each thread is doing (`Phase`).
* `counts_openIfClosed`, `counts_closeIfOpen` — the two functions that count.
-/

namespace LibSpe2.Shared

open Conc Function
open Ctx (BasePriv Code Op)

/-! ## The invariant -/

/-- The slots of the signals. -/
def IsSignal (d : FdName) : Prop := d = .sig1 ∨ d = .sig2

/-- The members of a slot, and the references that the books have for it. -/
structure Held where
  array : Int
  count : Int
  total : Nat

def held (spe : Spe) (x : World × Books) (d : FdName) : Held where
  array := x.1.mem (.speFdsArray spe d)
  count := x.1.mem (.speFdsRefcount spe d)
  total := (x.2.refs d).total

/-- A slot that nobody looks after. -/
structure Held.Rest (d : FdName) (k : Held) : Prop where
  isOpen : k.array = -1 ∧ k.count = 0 ∨ 0 < k.array ∧ 0 < k.count
  le : k.count ≤ k.total
  eq : ¬IsSignal d → k.count = k.total

/-- What a thread is doing. -/
inductive Phase where
  /-- Nothing. -/
  | idle
  /-- It is in a call. -/
  | busy
  /-- It looks after a slot, whose lock it holds. -/
  | holds (d : FdName) (k : Held)

/-- **The invariant** of the slots. -/
structure Inv (spe : Spe) (γ : Tid → Phase) (x : World × Books) : Prop where
  own : ∀ t d k, γ t = .holds d k → x.1.owner (.fdLock spe d) = some t ∧ held spe x d = k
  rest : ∀ d, (∀ t k, γ t ≠ .holds d k) → (held spe x d).Rest d
  few : ∀ d, (x.2.refs d).total < 2 ^ 31
  /-- References are in the hands of threads that are in a call. -/
  hands : ∀ d, ∀ t ∈ (x.2.refs d).hands, γ t ≠ .idle
  entries : ∀ h fd d, (x.1.epoll h fd).bind (source spe) = some d → (h, fd) ∈ (x.2.refs d).live
  /-- No event comes from a signal. -/
  signals : ∀ d, IsSignal d → (x.2.refs d).live = []

theorem inv_created {spe : Spe} {x : World × Books} (h : Created spe x.1 ∧ x.2 = .new) :
    Inv spe (fun _ => .idle) x := by
  obtain ⟨hs, hb⟩ := h
  have hrefs (d : FdName) : x.2.refs d = .none := by
    rw [hb]
    rfl
  constructor
  case own => exact nofun
  case rest =>
    intro d _
    have hcount : (held spe x d).count = 0 := hs.count d
    have htotal : (held spe x d).total = 0 := congrArg References.total (hrefs d)
    exact ⟨.inl ⟨hs.closed d, hcount⟩, by omega, fun _ => by omega⟩
  case few =>
    intro d
    rw [hrefs d]
    decide
  case hands =>
    intro d t ht
    rw [hrefs d] at ht
    exact absurd ht List.not_mem_nil
  case entries =>
    intro h fd d hd
    obtain ⟨e, he, hsource⟩ := Option.bind_eq_some_iff.mp hd
    rw [source, if_neg (hs.epoll h fd e he)] at hsource
    cases hsource
  case signals =>
    intro d _
    rw [hrefs d]
    rfl

theorem not_isSignal_source {spe : Spe} {e : EpollEntry} {d : FdName} (h : source spe e = some d) :
    ¬IsSignal d := by
  unfold source at h
  split at h
  · cases htype : e.type <;> rw [htype] at h <;> cases h <;> simp [IsSignal]
  · cases h

section

variable {spe : Spe} {priv : BasePriv} {γ : Tid → Phase} {x x' : World × Books} {t : Tid} {g : Phase}
  {d : FdName} {k : Held} {α β : Type}

/-! ## Steps -/

/-- What the invariant says about everything but locks and members. -/
structure Keeps (spe : Spe) (t : Tid) (x x' : World × Books) : Prop where
  few : ∀ d, (x'.2.refs d).total < 2 ^ 31
  hands : ∀ d, ∀ u ∈ (x'.2.refs d).hands, u ∈ (x.2.refs d).hands ∨ u = t
  entries : ∀ h fd d, (x'.1.epoll h fd).bind (source spe) = some d → (h, fd) ∈ (x'.2.refs d).live
  signals : ∀ d, IsSignal d → (x'.2.refs d).live = []

/-- The books are left alone, and so is `epoll`, unless entries disappear. -/
theorem Inv.keeps (hi : Inv spe γ x) (hrefs : x'.2.refs = x.2.refs)
    (hepoll : ∀ h fd e, x'.1.epoll h fd = some e → x.1.epoll h fd = some e) : Keeps spe t x x' where
  few d := hrefs ▸ hi.few d
  hands d u hu := .inl (hrefs ▸ hu)
  entries h fd d hd := by
    obtain ⟨e, he, hsource⟩ := Option.bind_eq_some_iff.mp hd
    rw [hrefs]
    exact hi.entries h fd d (Option.bind_eq_some_iff.mpr ⟨e, hepoll h fd e he, hsource⟩)
  signals d hd := hrefs ▸ hi.signals d hd

/-- A step that leaves the slots and their locks alone. -/
theorem Inv.same (hi : Inv spe γ x) (hk : Keeps spe t x x') (ht : γ t ≠ .idle)
    (howner : ∀ d, x'.1.owner (.fdLock spe d) = x.1.owner (.fdLock spe d))
    (hheld : ∀ d, held spe x' d = held spe x d) : Inv spe γ x' where
  own u d k hu := by
    rw [howner, hheld]
    exact hi.own u d k hu
  rest d hd := hheld d ▸ hi.rest d hd
  few := hk.few
  hands d u hu := by
    rcases hk.hands d u hu with hmem | rfl
    · exact hi.hands d u hmem
    · exact ht
  entries := hk.entries
  signals := hk.signals

/-- The holder of a lock does something to its slot. -/
theorem Inv.local (hi : Inv spe γ x) (hg : γ t = .holds d k) (hk : Keeps spe t x x')
    (howner : ∀ d, x'.1.owner (.fdLock spe d) = x.1.owner (.fdLock spe d))
    (hheld : ∀ d', d' ≠ d → held spe x' d' = held spe x d') :
    Inv spe (update γ t (.holds d (held spe x' d))) x' where
  own u d' k' hu := by
    rw [howner]
    by_cases hut : u = t
    · subst hut
      rw [update_self] at hu
      injection hu with hd hk'
      subst hd
      exact ⟨(hi.own u d k hg).1, hk'⟩
    · rw [update_of_ne hut] at hu
      have hown := hi.own u d' k' hu
      have hne : d' ≠ d := by
        rintro rfl
        exact hut (Option.some.inj (hown.1.symm.trans (hi.own t d' k hg).1))
      exact ⟨hown.1, (hheld d' hne).trans hown.2⟩
  rest d' hd' := by
    have hne : d' ≠ d := by
      rintro rfl
      exact hd' t _ (update_self ..)
    rw [hheld d' hne]
    apply hi.rest
    intro u k' hu
    apply hd' u k'
    have hut : u ≠ t := by
      rintro rfl
      rw [hg] at hu
      injection hu with hd _
      exact hne hd.symm
    rwa [update_of_ne hut]
  few := hk.few
  hands d' u hu := by
    by_cases hut : u = t
    · rw [hut, update_self]
      nofun
    · rw [update_of_ne hut]
      exact hi.hands d' u ((hk.hands d' u hu).resolve_right hut)
  entries := hk.entries
  signals := hk.signals

/-- Nobody looks after a slot whose lock is free. -/
theorem Inv.rest_of_free (hi : Inv spe γ x) (hfree : x.1.owner (.fdLock spe d) = none) :
    (held spe x d).Rest d := by
  apply hi.rest
  intro u k hu
  rw [(hi.own u d k hu).1] at hfree
  cases hfree

/-- A thread in a call takes or gives back a lock and does not look after a slot for it. -/
theorem Inv.setOwner {m : Mutex} {o : Option Tid} (hi : Inv spe γ x) (hg : γ t = .busy)
    (hm : ∀ u, x.1.owner m = some u → u = t) : Inv spe γ (x.1.setOwner m o, x.2) where
  own u d k hu := by
    have hown := hi.own u d k hu
    have hne : Mutex.fdLock spe d ≠ m := by
      intro heq
      obtain rfl := hm u (heq ▸ hown.1)
      rw [hg] at hu
      cases hu
    exact ⟨(update_of_ne hne ..).trans hown.1, hown.2⟩
  rest := hi.rest
  few := hi.few
  hands := hi.hands
  entries := hi.entries
  signals := hi.signals

/-- It takes the lock of a slot to look after it. -/
theorem Inv.acquire (hi : Inv spe γ x) (hg : γ t = .busy) (hfree : x.1.owner (.fdLock spe d) = none) :
    Inv spe (update γ t (.holds d (held spe x d))) (x.1.setOwner (.fdLock spe d) (some t), x.2) where
  own u d' k' hu := by
    by_cases hut : u = t
    · subst hut
      rw [update_self] at hu
      injection hu with hd hk'
      subst hd
      exact ⟨update_self .., hk'⟩
    · rw [update_of_ne hut] at hu
      have hown := hi.own u d' k' hu
      have hne : Mutex.fdLock spe d' ≠ .fdLock spe d := by
        intro heq
        rw [heq, hfree] at hown
        cases hown.1
      exact ⟨(update_of_ne hne ..).trans hown.1, hown.2⟩
  rest d' hd' := by
    apply hi.rest
    intro u k' hu
    apply hd' u k'
    have hut : u ≠ t := by
      rintro rfl
      rw [hg] at hu
      cases hu
    rwa [update_of_ne hut]
  few := hi.few
  hands d' u hu := by
    by_cases hut : u = t
    · rw [hut, update_self]
      nofun
    · rw [update_of_ne hut]
      exact hi.hands d' u hu
  entries := hi.entries
  signals := hi.signals

/-- It gives the lock back, with the slot in order. -/
theorem Inv.release (hi : Inv spe γ x) (hg : γ t = .holds d k) (hk : k.Rest d) :
    Inv spe (update γ t .busy) (x.1.setOwner (.fdLock spe d) none, x.2) where
  own u d' k' hu := by
    have hut : u ≠ t := by
      rintro rfl
      rw [update_self] at hu
      cases hu
    rw [update_of_ne hut] at hu
    have hown := hi.own u d' k' hu
    have hne : Mutex.fdLock spe d' ≠ .fdLock spe d := by
      intro heq
      rw [heq] at hown
      exact hut (Option.some.inj (hown.1.symm.trans (hi.own t d k hg).1))
    exact ⟨(update_of_ne hne ..).trans hown.1, hown.2⟩
  rest d' hd' := by
    by_cases hdd : d' = d
    · subst hdd
      exact (hi.own t d' k hg).2.symm ▸ hk
    · apply hi.rest
      intro u k' hu
      apply hd' u k'
      have hut : u ≠ t := by
        rintro rfl
        rw [hg] at hu
        injection hu with hd _
        exact hdd hd.symm
      rwa [update_of_ne hut]
  few := hi.few
  hands d' u hu := by
    by_cases hut : u = t
    · rw [hut, update_self]
      nofun
    · rw [update_of_ne hut]
      exact hi.hands d' u hu
  entries := hi.entries
  signals := hi.signals

/-! ## Commands -/

def proto (spe : Spe) : Proto (Marked Ctx.Cmd Mark) Tid (World × Books) Phase where
  idle := .idle
  inv := Inv spe

/-- A program keeps the books, under the conditions that make them right. -/
abbrev Counts (spe : Spe) (priv : BasePriv) (t : Tid) (p : Code α) (g : Phase)
    (Q : α → Phase → Prop) : Prop :=
  (proto spe).Safe ((machine spe priv).observed (observer spe)) (Accountable spe) t p.marked g Q

theorem Counts.perform {c : Ctx.Cmd} {Q : Ctx.Ans c → Phase → Prop}
    (h : ∀ γ s b, Inv spe γ (s, b) → γ t = g → ∀ r s', Accountable spe t (.cmd c) r (s, b) →
      exec spe priv t c r s = some s' →
        ∃ g', Inv spe (update γ t g') (s', (observer spe).cmd t c r s b) ∧ Q r g') :
    Counts spe priv t (Ctx.perform c) g Q :=
  .observed fun γ s b hi hg => ⟨trivial, fun r s' hok he => h γ s b hi hg r s' hok he⟩

/-- The commands that have nothing to do with slots, locks and events. -/
def Plain : Ctx.Cmd → Prop
  | .store (.speFdsArray _ _) _ | .store (.speFdsRefcount _ _) _ => False
  | .sys (.store _ _) | .sys (.lock _) | .sys (.unlock _) | .dma .lock | .dma .unlock => False
  | .sys (.note (.opened _ _ _)) | .sys (.note (.closed _ _ _)) => False
  | .sys (.epollAdd _ _ _) | .sys (.epollDel _ _) => False
  | _ => True

/-- The commands of `Sys` behind them. -/
def PlainSys : LibSpe2.Cmd → Prop
  | .store (.speFdsArray _ _) _ | .store (.speFdsRefcount _ _) _ => False
  | .lock _ | .unlock _ | .epollAdd _ _ _ | .epollDel _ _ => False
  | _ => True

theorem Plain.observer {c : Ctx.Cmd} (hc : Plain c) {r : Ctx.Ans c} {s : World} {b : Books} :
    (observer spe).cmd t c r s b = b := by
  cases c with
  | sys c =>
    cases c with
    | note n =>
      cases n with
      | opened | closed => exact hc.elim
      | _ => rfl
    | epollAdd | epollDel => exact hc.elim
    | _ => rfl
  | _ => rfl

theorem exec_plain {c : Ctx.Cmd} (hc : Plain c) {r : Ctx.Ans c} {s s' : World}
    (he : exec spe priv t c r s = some s') :
    s' = s ∨ ∃ c' r', PlainSys c' ∧ LibSpe2.exec t c' r' s = some s' := by
  cases c with
  | load l => exact .inr ⟨.load l, r, trivial, he⟩
  | store l v =>
    cases l with
    | speFdsArray | speFdsRefcount => exact hc.elim
    | stopEventPipe spe i => exact .inr ⟨.store (.stopEventPipe spe i) v, r, trivial, he⟩
    | stopEventHandlerCount spe => exact .inr ⟨.store (.stopEventHandlerCount spe) v, r, trivial, he⟩
    | stopEventBufferCount spe => exact .inr ⟨.store (.stopEventBufferCount spe) v, r, trivial, he⟩
  | openat dir filename mode =>
    simp only [exec] at he
    split at he
    · next d _ => exact .inr ⟨.openat spe d, r, trivial, he⟩
    · exact .inl (Option.some.inj he).symm
  | close fd => exact .inr ⟨.close fd, r, trivial, he⟩
  | pipe => exact .inr ⟨.pipe spe, r, trivial, he⟩
  | base => exact .inl (of_guard he).2.symm
  | sys c =>
    have hsys (h : PlainSys c) (h' : LibSpe2.exec t c r s = some s') :
        s' = s ∨ ∃ c' r', PlainSys c' ∧ LibSpe2.exec t c' r' s = some s' := .inr ⟨c, r, h, h'⟩
    cases c with
    | store | lock | unlock | epollAdd | epollDel => exact hc.elim
    | readMboxStat | readOutMbox | writeInMbox => exact .inl (Option.some.inj he).symm
    | _ => exact hsys trivial he
  | dma c =>
    cases c with
    | lock | unlock => exact hc.elim
    | _ => exact .inl (Option.some.inj he).symm
  | _ => exact .inl (Option.some.inj he).symm

/-- They leave the members and the locks alone. -/
theorem PlainSys.slots {c : LibSpe2.Cmd} (hc : PlainSys c) {r : LibSpe2.Ans c} {s s' : World}
    (he : LibSpe2.exec t c r s = some s') :
    s'.owner = s.owner ∧ ∀ d, s'.mem (.speFdsArray spe d) = s.mem (.speFdsArray spe d) ∧
      s'.mem (.speFdsRefcount spe d) = s.mem (.speFdsRefcount spe d) := by
  have howner : s'.owner = s.owner := by
    refine exec_same (p := .owner) ?_ he
    cases c with
    | lock | unlock => exact hc.elim
    | note n => cases n <;> exact id
    | _ => exact id
  have hsame (hmem : ¬c.Touches .mem) (l : Loc) : s'.mem l = s.mem l :=
    congrFun (exec_same (p := .mem) hmem he) l
  refine ⟨howner, fun d => ?_⟩
  cases c with
  | store l v =>
    obtain rfl := Option.some.inj he
    cases l with
    | speFdsArray | speFdsRefcount => exact hc.elim
    | _ => constructor <;> simp [World.setMem]
  | note n =>
    have hmem : ¬(Cmd.note n).Touches .mem := by cases n <;> exact id
    exact ⟨hsame hmem _, hsame hmem _⟩
  | _ => exact ⟨hsame id _, hsame id _⟩

/-- At most, they make entries disappear. -/
theorem PlainSys.epoll {c : LibSpe2.Cmd} (hc : PlainSys c) {r : LibSpe2.Ans c} {s s' : World}
    (he : LibSpe2.exec t c r s = some s') {h : Handler} {fd : Fd} {e : EpollEntry}
    (hentry : s'.epoll h fd = some e) : s.epoll h fd = some e := by
  have hsame (hepoll : ¬c.Touches .epoll) : s.epoll h fd = some e := by
    have hsame : s'.epoll = s.epoll := exec_same (p := .epoll) hepoll he
    rwa [hsame] at hentry
  cases c with
  | epollAdd | epollDel => exact hc.elim
  | close fd' =>
    obtain rfl := Option.some.inj he
    have hsame : (s.noteClose fd').epoll = s.epoll := content_noteClose (p := .epoll) fd'
    have hentry : update ((s.noteClose fd').epoll h) fd' none fd = some e := hentry
    by_cases hfd : fd = fd'
    · rw [hfd, update_self] at hentry
      cases hentry
    · rwa [update_of_ne hfd, hsame] at hentry
  | note n => exact hsame (by cases n <;> exact id)
  | _ => exact hsame id

/-- **Plain commands**: a thread in a call goes on. -/
theorem Inv.plain {c : Ctx.Cmd} (hc : Plain c) {r : Ctx.Ans c} {s s' : World} {b : Books}
    (hi : Inv spe γ (s, b)) (ht : γ t ≠ .idle) (he : exec spe priv t c r s = some s') :
    Inv spe γ (s', (observer spe).cmd t c r s b) := by
  rw [hc.observer]
  rcases exec_plain hc he with rfl | ⟨c', r', hc', he'⟩
  · exact hi
  · obtain ⟨howner, hslots⟩ : s'.owner = s.owner ∧
        ∀ d, s'.mem (.speFdsArray spe d) = s.mem (.speFdsArray spe d) ∧
          s'.mem (.speFdsRefcount spe d) = s.mem (.speFdsRefcount spe d) := hc'.slots he'
    have hkeeps : Keeps spe t (s, b) (s', b) := hi.keeps rfl fun h fd e => hc'.epoll he'
    apply hi.same hkeeps ht
    · intro d
      exact congrFun howner _
    · intro d
      simp only [held, hslots d]

theorem counts_plain {c : Ctx.Cmd} (hc : Plain c) (hg : g ≠ .idle) :
    Counts spe priv t (Ctx.perform c) g fun _ g' => g' = g := by
  apply Counts.perform
  intro γ s b hi hgt r s' _ he
  refine ⟨g, ?_, rfl⟩
  rw [← hgt, update_eq_self]
  exact hi.plain hc (hgt ▸ hg) he

/-- A step that leaves the world's slots and locks alone, and the books' totals. -/
theorem Inv.books {s s' : World} {b b' : Books} (hi : Inv spe γ (s, b))
    (hk : Keeps spe t (s, b) (s', b')) (ht : γ t ≠ .idle) (howner : s'.owner = s.owner)
    (hmem : s'.mem = s.mem) (htotal : ∀ d, (b'.refs d).total = (b.refs d).total) :
    Inv spe γ (s', b') := by
  apply hi.same hk ht
  · intro d
    exact congrFun howner _
  · intro d
    simp only [held, hmem, htotal]

theorem setEpoll_of_ne {s : World} {h h' : Handler} {fd fd' : Fd} {e : Option EpollEntry}
    (hne : ¬(h' = h ∧ fd' = fd)) : (s.setEpoll h fd e).epoll h' fd' = s.epoll h' fd' := by
  by_cases hh : h' = h
  · have hf : fd' ≠ fd := fun hf => hne ⟨hh, hf⟩
    simp [World.setEpoll, hh, hf]
  · simp [World.setEpoll, hh]

/-- The references to one slot change. -/
theorem Inv.keeps_set {s s' : World} {b : Books} {y : References Tid (Handler × Fd)}
    (hi : Inv spe γ (s, b)) (hfew : y.total < 2 ^ 31)
    (hhands : ∀ u ∈ y.hands, u ∈ (b.refs d).hands ∨ u = t)
    (hentries : ∀ h fd d', (s'.epoll h fd).bind (source spe) = some d' →
      (h, fd) ∈ (if d' = d then y else b.refs d').live)
    (hsignals : IsSignal d → y.live = []) : Keeps spe t (s, b) (s', b.set d y) := by
  have hrefs (d' : FdName) : (b.set d y).refs d' = if d' = d then y else b.refs d' := by
    split
    · next hd => rw [hd, Books.set_refs_self]
    · next hd => rw [Books.set_refs_of_ne b y hd]
  constructor
  case few =>
    intro d'
    rw [hrefs]
    split
    · exact hfew
    · exact hi.few d'
  case hands =>
    intro d' u hu
    rw [hrefs] at hu
    split at hu
    · next hd => exact hd ▸ hhands u hu
    · exact .inl hu
  case entries =>
    intro h fd d' hd
    rw [hrefs]
    exact hentries h fd d' hd
  case signals =>
    intro d' hd
    rw [hrefs]
    split
    · next hdd => exact hsignals (hdd ▸ hd)
    · exact hi.signals d' hd

theorem Books.total_set {b : Books} {y : References Tid (Handler × Fd)}
    (hy : y.total = (b.refs d).total) (d' : FdName) :
    ((b.set d y).refs d').total = (b.refs d').total := by
  by_cases hd : d' = d
  · rw [hd, Books.set_refs_self, hy]
  · rw [Books.set_refs_of_ne b y hd]

theorem observer_epollAdd {h : Handler} {fd : Fd} {e : EpollEntry} {u : Unit} {s : World} {b : Books} :
    (observer spe).cmd t (.sys (.epollAdd h fd e)) (.ok u) s b =
      (source spe e).elim b fun d => b.set d ((b.refs d).register t (h, fd)) := by
  cases hsource : source spe e <;> simp [observer, hsource]

theorem observer_epollDel {h : Handler} {fd : Fd} {u : Unit} {s : World} {b : Books} :
    (observer spe).cmd t (.sys (.epollDel h fd)) (.ok u) s b =
      ((s.epoll h fd).bind (source spe)).elim b fun d => b.set d ((b.refs d).unregister (h, fd)) := by
  cases hsource : (s.epoll h fd).bind (source spe) <;> simp [observer, hsource]

/-- An event is registered: the reference of the call becomes that of the registration. -/
theorem counts_epollAdd {h : Handler} {fd : Fd} {e : EpollEntry} (hg : g ≠ .idle) :
    Counts spe priv t (Ctx.perform (.sys (.epollAdd h fd e))) g fun _ g' => g' = g := by
  apply Counts.perform
  intro γ s b hi hgt r s' hok he
  refine ⟨g, ?_, rfl⟩
  rw [← hgt, update_eq_self]
  have ht : γ t ≠ .idle := hgt ▸ hg
  cases r with
  | error err =>
    obtain rfl := Option.some.inj he
    exact hi.books (hi.keeps rfl fun _ _ _ => id) ht rfl rfl fun _ => rfl
  | ok u =>
    obtain ⟨-, rfl⟩ := of_guard he
    have hentry (h' : Handler) (fd' : Fd) (d : FdName)
        (hd : ((s.setEpoll h fd (some e)).epoll h' fd').bind (source spe) = some d) :
        (h', fd') = (h, fd) ∧ source spe e = some d ∨ (h', fd') ∈ (b.refs d).live := by
      by_cases hsame : h' = h ∧ fd' = fd
      · obtain ⟨rfl, rfl⟩ := hsame
        exact .inl ⟨rfl, by simpa [World.setEpoll] using hd⟩
      · refine .inr (hi.entries h' fd' d ?_)
        rwa [← setEpoll_of_ne (s := s) (e := some e) hsame]
    rw [observer_epollAdd]
    cases hsource : source spe e with
    | none =>
      refine hi.books ⟨hi.few, fun _ _ => .inl, fun h' fd' d hd => ?_, hi.signals⟩ ht rfl rfl fun _ => rfl
      rcases hentry h' fd' d hd with ⟨-, hnone⟩ | hmem
      · rw [hsource] at hnone
        cases hnone
      · exact hmem
    | some d =>
      have htotal := References.total_register (k := (h, fd)) (hok d hsource)
      refine hi.books (hi.keeps_set (htotal ▸ hi.few d) ?_ ?_ ?_) ht rfl rfl (Books.total_set htotal)
      · intro u hu
        exact .inl (List.mem_of_mem_erase hu)
      · intro h' fd' d' hd
        rcases hentry h' fd' d' hd with ⟨heq, hd'⟩ | hlive
        · rw [if_pos (Option.some.inj (hd'.symm.trans hsource)), heq]
          exact List.mem_cons_self ..
        · split
          · next hdd => exact List.mem_cons_of_mem _ (hdd ▸ hlive)
          · exact hlive
      · intro hd
        exact absurd hd (not_isSignal_source hsource)

/-- An event is removed, and the reference of its registration is left. -/
theorem counts_epollDel {h : Handler} {fd : Fd} (hg : g ≠ .idle) :
    Counts spe priv t (Ctx.perform (.sys (.epollDel h fd))) g fun _ g' => g' = g := by
  apply Counts.perform
  intro γ s b hi hgt r s' hok he
  refine ⟨g, ?_, rfl⟩
  rw [← hgt, update_eq_self]
  have ht : γ t ≠ .idle := hgt ▸ hg
  cases r with
  | error err =>
    obtain rfl := Option.some.inj he
    exact hi.books (hi.keeps rfl fun _ _ _ => id) ht rfl rfl fun _ => rfl
  | ok u =>
    obtain ⟨-, rfl⟩ := of_guard he
    have hentry (h' : Handler) (fd' : Fd) (d : FdName)
        (hd : ((s.setEpoll h fd none).epoll h' fd').bind (source spe) = some d) :
        (h', fd') ≠ (h, fd) ∧ (h', fd') ∈ (b.refs d).live := by
      by_cases hsame : h' = h ∧ fd' = fd
      · obtain ⟨rfl, rfl⟩ := hsame
        simp [World.setEpoll] at hd
      · refine ⟨fun heq => hsame (Prod.mk.inj heq), hi.entries h' fd' d ?_⟩
        rwa [← setEpoll_of_ne (s := s) (e := none) hsame]
    rw [observer_epollDel]
    cases hsource : (s.epoll h fd).bind (source spe) with
    | none =>
      refine hi.books ⟨hi.few, fun _ _ => .inl, fun h' fd' d hd => ?_, hi.signals⟩ ht rfl rfl fun _ => rfl
      exact (hentry h' fd' d hd).2
    | some d =>
      have htotal := References.total_unregister (hi.entries h fd d hsource)
      refine hi.books (hi.keeps_set (htotal ▸ hi.few d) (fun _ => .inl) ?_ ?_) ht rfl rfl
        (Books.total_set htotal)
      · intro h' fd' d' hd
        obtain ⟨hne, hlive⟩ := hentry h' fd' d' hd
        split
        · next hdd => exact References.mem_unregister hne (hdd ▸ hlive)
        · exact hlive
      · intro hd
        exact References.unregister_nil (hi.signals d hd)

end

end LibSpe2.Shared
