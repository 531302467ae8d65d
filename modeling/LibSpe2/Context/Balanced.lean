import LibSpe2.Conc.Solo
import LibSpe2.Context.RefCount

/-!
# Balanced counts

From a context whose counts are `0`, in every run whose steps are `Accountable`, the count of a slot is
the number of the references that the books have for it, whenever nobody looks after the slot. Whether
these are the references of the live registrations and one more is another matter: most calls leave a
reference to every slot that they open, each time, and an event that is deregistered leaves two. In the
runs that are also `Thrifty` they leave one at most.

## Main results

* `account` — the count of every slot, at rest;
* `balanced` — where no reference is left twice;
* `unbalanced` — a mailbox that is read twice, and an event that is registered and deregistered.
-/

namespace LibSpe2.Shared

open Conc Function
open Ctx (BasePriv Code Op)

section

variable {spe : Spe} {priv : BasePriv} {t : Tid} {g : Phase} {d : FdName} {k : Held} {a : Fd}
  {α β : Type}

/-! ## Looking after a slot -/

/-- A program of `Sys` keeps the books. -/
abbrev SysCounts (spe : Spe) (priv : BasePriv) (t : Tid) (p : Sys α) (g : Phase)
    (Q : α → Phase → Prop) : Prop := Counts spe priv t (Ctx.sys p) g Q

theorem SysCounts.bind {p : Sys α} {f : α → Sys β} {Q : α → Phase → Prop} {Q' : β → Phase → Prop}
    (hp : SysCounts spe priv t p g Q) (hf : ∀ a g', Q a g' → SysCounts spe priv t (f a) g' Q') :
    SysCounts spe priv t (p.bind f) g Q' := by
  unfold SysCounts Ctx.sys
  rw [Prog.interp_bind]
  exact Proto.Safe.marked_bind hp hf

/-- One command of `Sys`, and the command that carries it out. -/
theorem sysCounts_perform {c : LibSpe2.Cmd} {Q : LibSpe2.Ans c → Phase → Prop}
    (h : Counts spe priv t (Ctx.implSys (Ctx.perform (.sys (.baseRun 0))) c) g Q) :
    SysCounts spe priv t (LibSpe2.perform c) g Q := by
  unfold SysCounts Ctx.sys
  rw [Prog.interp_perform]
  exact h

/-- Whoever looks after a slot knows its members. -/
theorem counts_load {l : Loc} {P : Int → Prop} (h : ∀ x, held spe x d = k → P (x.1.mem l)) :
    SysCounts spe priv t (load l) (.holds d k) fun v g' => g' = .holds d k ∧ P v := by
  apply sysCounts_perform
  apply Counts.perform (c := .load l)
  intro γ s b hi hg v s' _ he
  obtain ⟨rfl, rfl⟩ := of_guard he
  refine ⟨.holds d k, ?_, rfl, h (s, b) (hi.own t d k hg).2⟩
  rw [← hg, update_eq_self]
  exact hi

theorem counts_loadArray : SysCounts spe priv t (load (.speFdsArray spe d)) (.holds d k) fun v g' =>
    g' = .holds d k ∧ v = k.array :=
  counts_load fun _ hk => congrArg Held.array hk

theorem counts_loadCount : SysCounts spe priv t (load (.speFdsRefcount spe d)) (.holds d k) fun v g' =>
    g' = .holds d k ∧ v = k.count :=
  counts_load fun _ hk => congrArg Held.count hk

/-- A member of the slot is stored. -/
theorem counts_store {l : Loc} {v : Int} {k' : Held}
    (hl : l = .speFdsArray spe d ∨ l = .speFdsRefcount spe d)
    (h : ∀ s b, held spe (s, b) d = k → held spe (s.setMem l v, b) d = k') :
    SysCounts spe priv t (store l v) (.holds d k) fun _ g' => g' = .holds d k' := by
  apply sysCounts_perform
  apply Counts.perform (c := .store l v)
  intro γ s b hi hg _ s' _ he
  obtain rfl := Option.some.inj he
  refine ⟨_, ?_, congrArg (Phase.holds d) (h s b (hi.own t d k hg).2)⟩
  refine hi.local hg (hi.keeps rfl fun _ _ _ => id) (fun _ => rfl) fun d' hd => ?_
  rcases hl with rfl | rfl <;> simp [held, World.setMem, hd]

theorem counts_storeArray {v : Int} : SysCounts spe priv t (store (.speFdsArray spe d) v) (.holds d k)
    fun _ g' => g' = .holds d { k with array := v } := by
  apply counts_store (.inl rfl)
  rintro s b rfl
  simp [held, World.setMem]

theorem counts_storeCount {v : Int} :
    SysCounts spe priv t (store (.speFdsRefcount spe d) v) (.holds d k)
      fun _ g' => g' = .holds d { k with count := v } := by
  apply counts_store (.inr rfl)
  rintro s b rfl
  simp [held, World.setMem]

theorem counts_openat (hg : g ≠ .idle) : SysCounts spe priv t (LibSpe2.perform (.openat spe d)) g
    fun r g' => g' = g ∧ ∀ a, r = .ok a → 0 < a := by
  apply sysCounts_perform
  apply Proto.Safe.marked_bind (counts_plain (c := .base) trivial hg)
  rintro base _ rfl
  apply Counts.perform (c := .openat base.fdSpeDir (Ctx.speFdAttr d).1 (Ctx.speFdAttr d).2)
  intro γ s b hi hgt r s' hok he
  refine ⟨_, ?_, rfl, ?_⟩
  · rw [← hgt, update_eq_self]
    exact hi.plain (c := .openat base.fdSpeDir (Ctx.speFdAttr d).1 (Ctx.speFdAttr d).2) trivial (hgt ▸ hg) he
  · rintro a rfl
    exact hok

/-- A note says that the references to the slot change. -/
theorem Inv.note {γ : Tid → Phase} {n : Note} {s s' : World} {b : Books}
    {y : References Tid (Handler × Fd)} (hi : Inv spe γ (s, b)) (hg : γ t = .holds d k)
    (he : LibSpe2.exec t (.note n) () s = some s') (hfew : y.total < 2 ^ 31)
    (hhands : ∀ u ∈ y.hands, u ∈ (b.refs d).hands ∨ u = t) (hlive : y.live = (b.refs d).live) :
    Inv spe (update γ t (.holds d { k with total := y.total })) (s', b.set d y) := by
  obtain ⟨h, -, rfl⟩ := Option.map_eq_some_iff.mp he
  have hk : held spe ({ s with hist := h }, b.set d y) d = { k with total := y.total } := by
    rw [← (hi.own t d k hg).2]
    simp [held]
  rw [← hk]
  refine hi.local hg (hi.keeps_set hfew hhands ?_ ?_) (fun _ => rfl) fun d' hd => ?_
  · intro h' fd d' hd
    split
    · next hdd => exact hlive ▸ hdd ▸ hi.entries h' fd d' hd
    · exact hi.entries h' fd d' hd
  · intro hd
    exact hlive ▸ hi.signals d hd
  · simp only [held, Books.set_refs_of_ne b y hd]

/-- A reference is taken. -/
theorem counts_opened : SysCounts spe priv t (note (.opened spe d a)) (.holds d k) fun _ g' =>
    g' = .holds d { k with total := k.total + 1 } ∧ k.total + 1 < 2 ^ 31 := by
  apply sysCounts_perform
  apply Counts.perform (c := .sys (.note (.opened spe d a)))
  intro γ s b hi hg _ s' hok he
  have htotal : (b.refs d).total = k.total := congrArg Held.total (hi.own t d k hg).2
  have he : LibSpe2.exec t (.note (.opened spe d a)) () s = some s' := he
  have hfew : (b.refs d).total + 1 < 2 ^ 31 := hok
  show ∃ g', Inv spe (update γ t g')
    (s', b.set d (if b.caching t then (b.refs d).cache else (b.refs d).take t)) ∧ _
  split
  · have hcache : (b.refs d).cache.total = k.total + 1 := by rw [References.total_cache, htotal]
    refine ⟨_, hi.note hg he ?_ (fun _ => .inl) rfl, ?_, htotal ▸ hfew⟩
    · rwa [References.total_cache]
    · rw [hcache]
  · have htake : ((b.refs d).take t).total = k.total + 1 := by rw [References.total_take, htotal]
    refine ⟨_, hi.note hg he ?_ (fun u hu => ?_) rfl, ?_, htotal ▸ hfew⟩
    · rwa [References.total_take]
    · exact (List.mem_cons.mp hu).symm
    · rw [htake]

/-- A reference is given back, if the call has one. -/
theorem counts_closed : SysCounts spe priv t (note (.closed spe d a)) (.holds d k) fun _ g' =>
    ∃ n, k.total ≤ n + 1 ∧ g' = .holds d { k with total := n } := by
  apply sysCounts_perform
  apply Counts.perform (c := .sys (.note (.closed spe d a)))
  intro γ s b hi hg _ s' _ he
  have htotal : (b.refs d).total = k.total := congrArg Held.total (hi.own t d k hg).2
  have he : LibSpe2.exec t (.note (.closed spe d a)) () s = some s' := he
  refine ⟨_, hi.note (y := (b.refs d).drop t) hg he ?_ (fun u hu => ?_) rfl,
    ((b.refs d).drop t).total, ?_, rfl⟩
  · exact References.total_drop_le.trans_lt (hi.few d)
  · exact .inl (List.mem_of_mem_erase hu)
  · exact htotal ▸ References.total_drop

theorem counts_lock : SysCounts spe priv t (baseSpeContextLock spe d) .busy fun _ g' =>
    ∃ k : Held, k.Rest d ∧ k.total < 2 ^ 31 ∧ g' = .holds d k := by
  apply sysCounts_perform
  apply Counts.perform (c := .sys (.lock (.fdLock spe d)))
  intro γ s b hi hg _ s' _ he
  obtain ⟨hfree, rfl⟩ := of_guard he
  exact ⟨_, hi.acquire hg hfree, held spe (s, b) d, hi.rest_of_free hfree, hi.few d, rfl⟩

theorem counts_unlock (hk : k.Rest d) :
    SysCounts spe priv t (baseSpeContextUnlock spe d) (.holds d k) fun _ g' => g' = .busy := by
  apply sysCounts_perform
  apply Counts.perform (c := .sys (.unlock (.fdLock spe d)))
  intro γ s b hi hg _ s' _ he
  obtain ⟨-, rfl⟩ := of_guard he
  exact ⟨.busy, hi.release hg hk, rfl⟩

/-! ## Opening and closing a slot -/

theorem counts_sys {c : LibSpe2.Cmd} (hc : Plain (.sys c))
    (himpl : Ctx.implSys (Ctx.perform (.sys (.baseRun 0))) c = Ctx.perform (.sys c)) (hg : g ≠ .idle) :
    SysCounts spe priv t (LibSpe2.perform c) g fun _ g' => g' = g := by
  apply sysCounts_perform
  rw [himpl]
  exact counts_plain hc hg

/-- An open gives the lock back and reads the descriptor that it returns. -/
theorem counts_openReturn (hk : k.Rest d) : SysCounts spe priv t (do
      baseSpeContextUnlock spe d
      let fd ← load (.speFdsArray spe d)
      note (.openReturned spe d fd)
      return fd) (.holds d k) fun _ g' => g' = .busy := by
  refine .bind (counts_unlock hk) ?_
  rintro _ _ rfl
  refine .bind (sysCounts_perform (counts_plain (c := .load _) trivial nofun)) ?_
  rintro fd _ rfl
  refine .bind (counts_sys (c := .note (.openReturned spe d fd)) trivial rfl nofun) ?_
  rintro _ _ rfl
  exact Proto.Safe.ret rfl

theorem counts_openIfClosed :
    SysCounts spe priv t (baseSpeOpenIfClosed spe d false) .busy fun _ g' => g' = .busy := by
  refine .bind counts_lock ?_
  rintro _ _ ⟨k, hk, hfew, rfl⟩
  refine .bind counts_loadArray ?_
  rintro _ _ ⟨rfl, rfl⟩
  have hle := hk.le
  have heq := hk.eq
  rcases hk.isOpen with ⟨harray, hcount⟩ | ⟨harray, hcount⟩
  · rw [if_neg (not_not.mpr harray)]
    refine .bind (counts_openat nofun) ?_
    rintro (e | a) _ ⟨rfl, hpos⟩
    · refine .bind counts_storeArray ?_
      rintro _ _ rfl
      refine .bind (counts_sys (c := .note (.openFailed spe d)) trivial rfl nofun) ?_
      rintro _ _ rfl
      refine .bind counts_loadArray ?_
      rintro _ _ ⟨rfl, rfl⟩
      exact counts_openReturn ⟨.inl ⟨rfl, hcount⟩, hle, heq⟩
    · have hpos := hpos a rfl
      refine .bind counts_storeArray ?_
      rintro _ _ rfl
      refine .bind counts_opened ?_
      rintro _ _ ⟨rfl, hfew⟩
      refine .bind counts_loadArray ?_
      rintro _ _ ⟨rfl, rfl⟩
      rw [if_pos hpos]
      refine .bind counts_loadCount ?_
      rintro _ _ ⟨rfl, rfl⟩
      refine .bind counts_storeCount ?_
      rintro _ _ rfl
      rw [hcount] at heq ⊢
      refine counts_openReturn ⟨.inr ⟨hpos, Int.one_pos⟩, ?_, fun hd => ?_⟩
      · show (1 : Int) ≤ (k.total + 1 : Nat)
        omega
      · show (1 : Int) = (k.total + 1 : Nat)
        have := heq hd
        omega
  · have hne : k.array ≠ -1 := by omega
    rw [if_pos hne]
    refine .bind counts_loadCount ?_
    rintro _ _ ⟨rfl, rfl⟩
    refine .bind counts_storeCount ?_
    rintro _ _ rfl
    refine .bind counts_opened ?_
    rintro _ _ ⟨rfl, hfew⟩
    have hfew : k.total + 1 < 2 ^ 31 := hfew
    rw [toInt32_of_range (by omega) (by omega)]
    refine counts_openReturn ⟨.inr ⟨harray, ?_⟩, ?_, fun hd => ?_⟩
    · show 0 < k.count + 1
      omega
    · show k.count + 1 ≤ (k.total + 1 : Nat)
      omega
    · show k.count + 1 = (k.total + 1 : Nat)
      have := heq hd
      omega

/-- A close finds the slot open or not: the thread may have failed to open it. -/
theorem counts_closeIfOpen (hd : IsSignal d) :
    SysCounts spe priv t (baseSpeCloseIfOpen spe d) .busy fun _ g' => g' = .busy := by
  -- with the members in order, the reference is given back and so is the lock
  have finish {k : Held} {fd : Fd} (hopen : k.array = -1 ∧ k.count = 0 ∨ 0 < k.array ∧ 0 < k.count)
      (hle : k.count + 1 ≤ k.total ∨ k.count = 0) : SysCounts spe priv t (do
        note (.closed spe d fd)
        baseSpeContextUnlock spe d) (.holds d k) fun _ g' => g' = .busy := by
    refine .bind counts_closed ?_
    rintro _ _ ⟨n, hn, rfl⟩
    refine counts_unlock ⟨hopen, ?_, fun hnot => absurd hd hnot⟩
    show k.count ≤ (n : Int)
    omega
  refine .bind counts_lock ?_
  rintro _ _ ⟨k, hk, hfew, rfl⟩
  refine .bind counts_loadArray ?_
  rintro _ _ ⟨rfl, rfl⟩
  refine .bind counts_loadCount ?_
  rintro _ _ ⟨rfl, rfl⟩
  have hle := hk.le
  split
  · next hlast =>
    refine .bind counts_storeCount ?_
    rintro _ _ rfl
    refine .bind (sysCounts_perform (counts_plain (c := .close k.array) trivial nofun)) ?_
    rintro _ _ rfl
    refine .bind counts_storeArray ?_
    rintro _ _ rfl
    rw [hlast.2]
    exact finish (.inl ⟨rfl, rfl⟩) (.inr rfl)
  · next hlast =>
    split
    · next hpos =>
      obtain ⟨harray, -⟩ := hk.isOpen.resolve_left fun h => by omega
      have hcount : k.count ≠ 1 := fun hone => hlast ⟨by omega, hone⟩
      refine .bind counts_storeCount ?_
      rintro _ _ rfl
      rw [toInt32_of_range (by omega) (by omega)]
      refine finish (.inr ⟨harray, ?_⟩) (.inl ?_)
      · show 0 < k.count - 1
        omega
      · show k.count - 1 + 1 ≤ (k.total : Int)
        omega
    · next hpos =>
      have hclosed := hk.isOpen.resolve_right fun h => hpos h.2
      exact finish (.inl hclosed) (.inr hclosed.2)

/-! ## Calls -/

/-- A command of `Sys` that is carried out by plain commands. -/
def PlainImpl (c : LibSpe2.Cmd) : Prop := (Ctx.implSys (Ctx.perform (.sys (.baseRun 0))) c).All Plain

theorem plain_pipeCloseEnd {i : Fin 2} : (stopEventPipeCloseEnd spe i).All PlainImpl := by
  refine .bind (.perform (.perform trivial)) fun fd => ?_
  split
  · exact .bind (.perform (.perform trivial)) fun _ => .perform (.perform trivial)
  · trivial

theorem plain_pipeClose : (stopEventPipeClose spe).All PlainImpl :=
  .bind plain_pipeCloseEnd fun _ => .bind plain_pipeCloseEnd fun _ => trivial

theorem plain_pipeOpen : (stopEventPipeOpen spe).All PlainImpl := by
  refine .bind (.perform (.perform trivial)) fun r => ?_
  split
  · trivial
  refine .bind (.perform (.perform trivial)) fun _ => .bind (.perform (.perform trivial)) fun _ => ?_
  refine .bind (.perform (.perform trivial)) fun fd => .bind (.perform (.perform trivial)) fun r => ?_
  split
  · refine .bind (.perform (.perform trivial)) fun fd => .bind (.perform (.perform trivial)) fun r => ?_
    split
    · trivial
    · exact .bind plain_pipeClose fun _ => trivial
  · exact .bind plain_pipeClose fun _ => trivial

theorem plain_pipeAcquire : (stopEventPipeAcquire spe).All PlainImpl := by
  have count : Prog.All PlainImpl (do
      let count ← load (.stopEventHandlerCount spe)
      store (.stopEventHandlerCount spe) (count + 1)
      return (0 : Int)) :=
    .bind (.perform (.perform trivial)) fun _ => .bind (.perform (.perform trivial)) fun _ => trivial
  refine .bind (.perform (.perform trivial)) fun n => ?_
  split
  · refine .bind plain_pipeOpen fun rc => ?_
    split
    · trivial
    · exact .bind (.perform (.perform trivial)) fun _ => count
  · exact count

theorem plain_pipeRelease : (stopEventPipeRelease spe).All PlainImpl := by
  refine .bind (.perform (.perform trivial)) fun n => .bind (.perform (.perform trivial)) fun _ => ?_
  refine .bind (.perform (.perform trivial)) fun n => ?_
  split
  · exact .bind plain_pipeClose fun _ => trivial
  · trivial

theorem counts_plainImpl {p : Sys α} (hp : p.All PlainImpl) :
    Counts spe priv t (Ctx.sys p) .busy fun _ g' => g' = .busy :=
  Proto.Safe.marked_all (hp.interp fun _ hc => hc) fun _ hc => counts_plain hc nofun

/-- A thread in a call waits for a lock, and has it without looking after a slot. -/
theorem counts_sysLock {m : Mutex} :
    Counts spe priv t (Ctx.perform (.sys (.lock m))) .busy fun _ g' => g' = .busy := by
  apply Counts.perform
  intro γ s b hi hg _ s' _ he
  obtain ⟨hfree, rfl⟩ := of_guard he
  refine ⟨.busy, ?_, rfl⟩
  rw [← hg, update_eq_self]
  refine hi.setOwner hg fun u hu => ?_
  rw [hfree] at hu
  cases hu

theorem counts_sysUnlock {m : Mutex} :
    Counts spe priv t (Ctx.perform (.sys (.unlock m))) .busy fun _ g' => g' = .busy := by
  apply Counts.perform
  intro γ s b hi hg _ s' _ he
  obtain ⟨hown, rfl⟩ := of_guard he
  refine ⟨.busy, ?_, rfl⟩
  rw [← hg, update_eq_self]
  refine hi.setOwner hg fun u hu => ?_
  exact (Option.some.inj (hown.symm.trans hu)).symm

/-- The lock that the proxy DMA takes is that of the slot. -/
theorem counts_dma {c : Dma.Cmd} :
    Counts spe priv t (Ctx.perform (.dma c)) .busy fun _ g' => g' = .busy := by
  cases c with
  | lock => exact counts_sysLock (m := .fdLock spe .mfc)
  | unlock => exact counts_sysUnlock (m := .fdLock spe .mfc)
  | _ => exact counts_plain trivial nofun

theorem counts_base : Counts spe priv t (Ctx.perform .base) .busy fun b g' => g' = .busy ∧ b = priv := by
  apply Counts.perform
  intro γ s b hi hg r s' _ he
  obtain ⟨rfl, rfl⟩ := of_guard he
  refine ⟨.busy, ?_, rfl, rfl⟩
  rw [← hg, update_eq_self]
  exact hi

theorem counts_ordinary {c : LibSpe2.Cmd} (hc : Ctx.Ordinary priv.flags c) :
    Counts spe priv t (Ctx.perform (.sys c)) .busy fun _ g' => g' = .busy := by
  cases c with
  | store => exact hc.elim
  | lock m => exact counts_sysLock
  | unlock m => exact counts_sysUnlock
  | epollAdd h fd e => exact counts_epollAdd nofun
  | epollDel h fd => exact counts_epollDel nofun
  | note n =>
    cases n with
    | opened | closed => exact hc.elim
    | _ => exact counts_plain trivial nofun
  | _ => exact counts_plain trivial nofun

/-- Keeping the books can be followed through a call. -/
theorem countsRules :
    Ctx.Rules priv.flags spe fun _ p => Counts spe priv t p .busy fun _ g' => g' = .busy where
  ret _ := .ret rfl
  bind hp hf := hp.marked_bind fun a g' hg' => hg' ▸ hf a
  repeats hb := by
    unfold Counts
    rw [Prog.marked_repeats]
    refine .repeats (fun _ g' => g' = .busy) rfl ?_
    rintro j _ rfl
    refine (hb j).mono ?_
    rintro x _ rfl
    cases x <;> rfl
  base hf := counts_base.marked_bind fun b g' h => h.1 ▸ hf b (congrArg BasePriv.flags h.2)
  load _ := counts_plain trivial nofun
  sys hc := counts_ordinary hc
  dma _ := counts_dma
  access _ _ := counts_plain trivial nofun
  setErrno _ := counts_plain trivial nofun
  someWord := counts_plain trivial nofun
  openIfClosed _ := counts_openIfClosed
  closeIfOpen hd := counts_closeIfOpen hd
  acquire _ := counts_plainImpl plain_pipeAcquire
  release _ := counts_plainImpl plain_pipeRelease

/-- A thread that looks after no slot begins a call, or returns. -/
theorem Inv.switch {γ : Tid → Phase} {s : World} {b b' : Books} (hi : Inv spe γ (s, b))
    (hγ : ∀ d k, γ t ≠ .holds d k) (hg : ∀ d k, g ≠ .holds d k)
    (htotal : ∀ d, (b'.refs d).total = (b.refs d).total)
    (hlive : ∀ d, (b'.refs d).live = (b.refs d).live)
    (hhands : ∀ d, ∀ u ∈ (b'.refs d).hands, u ∈ (b.refs d).hands ∧ (u = t → g ≠ .idle)) :
    Inv spe (update γ t g) (s, b') := by
  have hholds (u : Tid) (d : FdName) (k : Held) : update γ t g u = .holds d k ↔ γ u = .holds d k := by
    by_cases hut : u = t
    · rw [hut, update_self]
      exact ⟨fun h => absurd h (hg d k), fun h => absurd h (hγ d k)⟩
    · rw [update_of_ne hut]
  have hheld (d : FdName) : held spe (s, b') d = held spe (s, b) d := by simp only [held, htotal]
  constructor
  case own =>
    intro u d k hu
    rw [hheld]
    exact hi.own u d k ((hholds u d k).mp hu)
  case rest =>
    intro d hd
    rw [hheld]
    exact hi.rest d fun u k hu => hd u k ((hholds u d k).mpr hu)
  case few =>
    intro d
    rw [htotal]
    exact hi.few d
  case hands =>
    intro d u hu
    obtain ⟨hmem, hne⟩ := hhands d u hu
    by_cases hut : u = t
    · rw [hut, update_self]
      exact hne hut
    · rw [update_of_ne hut]
      exact hi.hands d u hmem
  case entries =>
    intro h fd d hd
    rw [hlive]
    exact hi.entries h fd d hd
  case signals =>
    intro d hd
    rw [hlive]
    exact hi.signals d hd

/-- **Calls**: each of them keeps the books. -/
theorem counted_safe (op : { op : Op // op.Plain }) :
    (proto spe).Safe (counted spe priv).toMachine (Accountable spe) t ((counted spe priv).code t op) .idle
      fun _ g' => g' = .idle := by
  refine .bind (Q := fun _ g' => g' = .busy) (.mark fun γ s b hi hg => ?_) ?_
  · refine ⟨trivial, .busy, ?_, rfl⟩
    exact hi.switch (by rw [hg]; nofun) nofun (fun _ => rfl) (fun _ => rfl) fun _ u hu => ⟨hu, nofun⟩
  rintro _ _ rfl
  refine .bind (countsRules.op op.2) ?_
  rintro _ _ rfl
  refine .mark fun γ s b hi hg => ?_
  refine ⟨trivial, .idle, ?_, rfl⟩
  refine hi.switch (by rw [hg]; nofun) nofun (fun _ => References.total_leave) (fun _ => rfl) fun d u hu => ?_
  obtain ⟨hmem, hne⟩ := References.mem_leave.mp hu
  exact ⟨hmem, fun heq => absurd heq hne⟩

end

/-! ## Runs -/

/-- No thread is in a call. -/
def Quiescent (cfg : Config (Marked Ctx.Cmd Mark) (Marked.Ans Ctx.Ans) Tid (World × Books)) : Prop :=
  ∀ t, cfg.threads t = none

/-- What a slot is like between calls. -/
structure Account (spe : Spe) (x : World × Books) (d : FdName) : Prop where
  /-- The count is that of the references of live registrations and of those that were left. -/
  eq : ¬IsSignal d → x.1.mem (.speFdsRefcount spe d) = (x.2.refs d).live.length + (x.2.refs d).cached
  /-- Where a signal is written, nothing else counts. -/
  signal : IsSignal d → (x.2.refs d).live = [] ∧ 0 ≤ x.1.mem (.speFdsRefcount spe d) ∧
    x.1.mem (.speFdsRefcount spe d) ≤ (x.2.refs d).cached

variable {spe : Spe} {priv : BasePriv}
  {cfg : Config (Marked Ctx.Cmd Mark) (Marked.Ans Ctx.Ans) Tid (World × Books)}

/-- **The count of every slot**: between calls it is the number of the references that are left. -/
theorem account (h : (counted spe priv).Reach (Accountable spe) cfg) (hq : Quiescent cfg) (d : FdName) :
    Account spe cfg.shared d := by
  obtain ⟨γ, hi, hat⟩ := Proto.reach (P := proto spe) (fun _ => inv_created)
    (fun t op => counted_safe op) h
  have hidle (t : Tid) : γ t = .idle := by
    have ht := hat t
    rw [hq t] at ht
    exact ht
  have hhands : (cfg.shared.2.refs d).hands = [] := by
    apply List.eq_nil_iff_forall_not_mem.mpr
    intro t ht
    exact hi.hands d t ht (hidle t)
  have hrest := hi.rest d fun t k ht => by
    rw [hidle t] at ht
    cases ht
  have htotal : (held spe cfg.shared d).total =
      (cfg.shared.2.refs d).live.length + (cfg.shared.2.refs d).cached := by
    simp [held, References.total, hhands]
  constructor
  · intro hd
    have heq := hrest.eq hd
    rw [htotal] at heq
    exact_mod_cast heq
  · intro hd
    have hle := hrest.le
    have hlive := hi.signals d hd
    rw [htotal, hlive, List.length_nil, Nat.zero_add] at hle
    refine ⟨hlive, ?_, hle⟩
    rcases hrest.isOpen with h | h
    · exact h.2.ge
    · exact h.2.le

/-- Between calls, the references to a slot are those of the live registrations and one more at most. -/
def Balanced (spe : Spe) (x : World × Books) : Prop :=
  ∀ d, ∃ c : Nat, c ≤ 1 ∧ x.1.mem (.speFdsRefcount spe d) = (x.2.refs d).live.length + c

/-- In a thrifty step no second reference is left. -/
theorem cached_step {t : Tid} {c : Marked Ctx.Cmd Mark} {r : Marked.Ans Ctx.Ans c} {x x' : World × Books}
    (hx : ∀ d, (x.2.refs d).cached ≤ 1) (hok : Thrifty spe t c r x)
    (he : (counted spe priv).exec t c r x = some x') (d : FdName) : (x'.2.refs d).cached ≤ 1 := by
  have hset (d' : FdName) (y : References Tid (Handler × Fd)) (hy : d = d' → y.cached ≤ 1) :
      ((x.2.set d' y).refs d).cached ≤ 1 := by
    by_cases hd : d = d'
    · rw [hd, Books.set_refs_self]
      exact hy hd
    · rw [Books.set_refs_of_ne _ _ hd]
      exact hx d
  cases c with
  | mark m =>
    obtain rfl := Option.some.inj he
    cases m with
    | begins caches => exact hx d
    | returned => exact hok d
  | cmd c =>
    obtain ⟨s', -, rfl⟩ := Option.map_eq_some_iff.mp he
    show (((observer spe).cmd t c r x.1 x.2).refs d).cached ≤ 1
    unfold observer
    dsimp only
    split
    · next d' _ _ _ =>
      apply hset
      rintro rfl
      split
      · next hcaching => exact (congrArg (· + 1) (hok hcaching)).le
      · exact hx d
    · next d' _ _ _ =>
      apply hset
      rintro rfl
      exact hx d
    · split
      · next d' _ =>
        apply hset
        rintro rfl
        exact hx d
      · exact hx d
    · split
      · next d' hsource =>
        have hnone : (x.1.epoll _ _).bind (source spe) = none := hok
        rw [hsource] at hnone
        cases hnone
      · exact hx d
    · exact hx d

/-- **Balance**: in the runs that leave no reference twice, between calls the count of every slot is the
number of its live registrations and one more at most. -/
theorem balanced
    (h : (counted spe priv).Reach (fun t c r x => Accountable spe t c r x ∧ Thrifty spe t c r x) cfg)
    (hq : Quiescent cfg) : Balanced spe cfg.shared := by
  intro d
  have haccount := account (h.mono fun _ _ _ _ hok => hok.1) hq d
  have hcached : (cfg.shared.2.refs d).cached ≤ 1 := by
    refine System.Reach.invariant (I := fun x => ∀ d, (x.2.refs d).cached ≤ 1) ?_ ?_ h d
    · intro x hx d
      rw [hx.2]
      exact Nat.zero_le 1
    · intro t c r x x' hx hok he
      exact cached_step hx hok.2 he
  by_cases hd : IsSignal d
  · obtain ⟨hlive, hpos, hle⟩ := haccount.signal hd
    refine ⟨(cfg.shared.1.mem (.speFdsRefcount spe d)).toNat, by omega, ?_⟩
    rw [hlive, List.length_nil]
    omega
  · exact ⟨(cfg.shared.2.refs d).cached, hcached, haccount.eq hd⟩

/-! ## Three calls

Thread `1` reads the mailbox twice, or registers an event and removes it, on a context without
`SPE_MAP_PS`. -/

def spufsPriv : BasePriv where
  fdSpeDir := 3
  flags := speEventsEnable
  entry := 0
  emulatedEntry := 0
  loadedProgram := none
  memMmapBase := none
  psmapMmapBase := none
  mssyncMmapBase := none
  mfcMmapBase := none
  cntlMmapBase := none
  signal1MmapBase := none
  signal2MmapBase := none

abbrev Exchange := Sigma (Marked.Ans (K := Mark) Ctx.Ans)

/-- A slot is opened for the first time. -/
def firstOpen (d : FdName) (fd : Fd) : List Exchange :=
  [⟨.cmd (.sys (.lock (.fdLock 0 d))), ()⟩, ⟨.cmd (.load (.speFdsArray 0 d)), (-1 : Int)⟩,
    ⟨.cmd .base, spufsPriv⟩, ⟨.cmd (.openat 3 (Ctx.speFdAttr d).1 (Ctx.speFdAttr d).2), .ok fd⟩,
    ⟨.cmd (.store (.speFdsArray 0 d) fd), ()⟩, ⟨.cmd (.sys (.note (.opened 0 d fd))), ()⟩,
    ⟨.cmd (.load (.speFdsArray 0 d)), fd⟩, ⟨.cmd (.load (.speFdsRefcount 0 d)), (0 : Int)⟩,
    ⟨.cmd (.store (.speFdsRefcount 0 d) 1), ()⟩, ⟨.cmd (.sys (.unlock (.fdLock 0 d))), ()⟩,
    ⟨.cmd (.load (.speFdsArray 0 d)), fd⟩, ⟨.cmd (.sys (.note (.openReturned 0 d fd))), ()⟩]

/-- A slot is open already, with one reference. -/
def openAgain (d : FdName) (fd : Fd) : List Exchange :=
  [⟨.cmd (.sys (.lock (.fdLock 0 d))), ()⟩, ⟨.cmd (.load (.speFdsArray 0 d)), fd⟩,
    ⟨.cmd (.load (.speFdsRefcount 0 d)), (1 : Int)⟩, ⟨.cmd (.store (.speFdsRefcount 0 d) 2), ()⟩,
    ⟨.cmd (.sys (.note (.opened 0 d fd))), ()⟩, ⟨.cmd (.sys (.unlock (.fdLock 0 d))), ()⟩,
    ⟨.cmd (.load (.speFdsArray 0 d)), fd⟩, ⟨.cmd (.sys (.note (.openReturned 0 d fd))), ()⟩]

def readOp : { op : Op // op.Plain } := ⟨.outMboxRead (some [0, 0, 0, 0]) 1, trivial⟩

def readTrace (opening : List Exchange) : List Exchange :=
  [⟨.mark (.begins true), ()⟩, ⟨.cmd .base, spufsPriv⟩] ++ opening ++
    [⟨.cmd (.sys (.read 5 4)), .ok [0, 0, 0, 1]⟩, ⟨.mark .returned, ()⟩]

def registerOp : { op : Op // op.Plain } := ⟨.eventHandlerRegister (some 7) (some (1, 9)), trivial⟩

def registerTrace : List Exchange :=
  [⟨.mark (.begins false), ()⟩, ⟨.cmd .base, spufsPriv⟩, ⟨.cmd (.sys (.lock (.lock 0))), ()⟩] ++
    firstOpen .ibox 5 ++
    [⟨.cmd (.sys (.storeRecord 0 .outIntrMbox 1 9)), ()⟩,
      ⟨.cmd (.sys (.epollAdd 7 5 ⟨false, 0, .outIntrMbox, 9⟩)), .ok ()⟩,
      ⟨.cmd (.sys (.unlock (.lock 0))), ()⟩, ⟨.mark .returned, ()⟩]

def deregisterOp : { op : Op // op.Plain } := ⟨.eventHandlerDeregister (some 7) (some (1, 9)), trivial⟩

def deregisterTrace : List Exchange :=
  [⟨.mark (.begins true), ()⟩, ⟨.cmd .base, spufsPriv⟩, ⟨.cmd (.sys (.lock (.lock 0))), ()⟩] ++
    openAgain .ibox 5 ++
    [⟨.cmd (.sys (.epollDel 7 5)), .ok ()⟩, ⟨.cmd (.sys (.clearRecord 0 .outIntrMbox)), ()⟩,
      ⟨.cmd (.sys (.unlock (.lock 0))), ()⟩, ⟨.mark .returned, ()⟩]

/-- The world and the books after thread `1` has executed a trace. -/
def afterTrace (x : World × Books) (tr : List Exchange) : World × Books :=
  ((counted 0 spufsPriv).play 1 tr x).getD x

def start : World × Books := (.boot, .new)

def readTwice : World × Books :=
  afterTrace (afterTrace start (readTrace (firstOpen .mbox 5))) (readTrace (openAgain .mbox 5))

def registered : World × Books := afterTrace start registerTrace

def deregistered : World × Books := afterTrace registered deregisterTrace

theorem created_start : (counted 0 spufsPriv).init start :=
  ⟨⟨fun _ => rfl, fun _ => rfl, fun _ => rfl, nofun⟩, rfl⟩

theorem registered_reach : (counted 0 spufsPriv).Reach
    (fun t c r x => Accountable 0 t c r x ∧ Thrifty 0 t c r x) ⟨registered, fun _ => none⟩ := by
  refine (System.Reach.init created_start).solo (t := 1) (c := registerOp) rfl ?_
    (show (counted 0 spufsPriv).play 1 registerTrace _ = some _ from rfl) ?_
  · repeat first | exact .ret | refine .cmd ?_
  · have plain : True ∧ True := ⟨trivial, trivial⟩
    refine ⟨plain, plain, plain, plain, plain, plain, ⟨(by decide : (0 : Int) < 5), trivial⟩, plain,
      ⟨(by decide : 0 + 1 < 2 ^ 31), nofun⟩, plain, plain, plain, plain, plain, plain, plain, ⟨?_, trivial⟩,
      plain, ⟨trivial, fun d => by cases d <;> decide⟩, trivial⟩
    intro d hd
    cases hd
    exact List.mem_cons_self ..

theorem balanced_registered :
    Balanced 0 registered ∧ (registered.2.refs .ibox).live = [(7, 5)] :=
  ⟨balanced registered_reach fun _ => rfl, rfl⟩

/-- A mailbox that is read twice has a count of `2`, and so has the slot of an event that has been
registered and deregistered. -/
theorem unbalanced :
    (∃ cfg, (counted 0 spufsPriv).Reach (Accountable 0) cfg ∧ Quiescent cfg ∧
      cfg.shared.1.mem (.speFdsRefcount 0 .mbox) = 2 ∧ ¬Balanced 0 cfg.shared) ∧
    ∃ cfg, (counted 0 spufsPriv).Reach (Accountable 0) cfg ∧ Quiescent cfg ∧
      (cfg.shared.2.refs .ibox).live = [] ∧ cfg.shared.1.mem (.speFdsRefcount 0 .ibox) = 2 ∧
      ¬Balanced 0 cfg.shared := by
  have few : 0 + 1 < 2 ^ 31 := by decide
  have few' : 1 + 1 < 2 ^ 31 := by decide
  constructor
  · refine ⟨⟨readTwice, fun _ => none⟩, ?_, fun _ => rfl, rfl, fun h => ?_⟩
    · have honce : (counted 0 spufsPriv).Reach (Accountable 0)
          ⟨afterTrace start (readTrace (firstOpen .mbox 5)), fun _ => none⟩ := by
        refine (System.Reach.init created_start).solo (t := 1) (c := readOp) rfl ?_
          (show (counted 0 spufsPriv).play 1 (readTrace (firstOpen .mbox 5)) _ = some _ from rfl) ?_
        · repeat first | exact .ret | refine .cmd ?_
        · exact ⟨trivial, trivial, trivial, trivial, trivial, (by decide : (0 : Int) < 5), trivial, few,
            trivial, trivial, trivial, trivial, trivial, trivial, trivial, trivial, trivial⟩
      refine honce.solo (t := 1) (c := readOp) rfl ?_
        (show (counted 0 spufsPriv).play 1 (readTrace (openAgain .mbox 5)) _ = some _ from rfl) ?_
      · repeat first | exact .ret | refine .cmd ?_
      · exact ⟨trivial, trivial, trivial, trivial, trivial, trivial, few', trivial, trivial, trivial,
          trivial, trivial, trivial⟩
    · obtain ⟨c, hc, hcount⟩ := h .mbox
      have hcount : (2 : Int) = 0 + c := hcount
      omega
  · refine ⟨⟨deregistered, fun _ => none⟩, ?_, fun _ => rfl, rfl, rfl, fun h => ?_⟩
    · refine (registered_reach.mono fun _ _ _ _ hok => hok.1).solo (t := 1) (c := deregisterOp) rfl ?_
        (show (counted 0 spufsPriv).play 1 deregisterTrace _ = some _ from rfl) ?_
      · repeat first | exact .ret | refine .cmd ?_
      · exact ⟨trivial, trivial, trivial, trivial, trivial, trivial, trivial, few', trivial, trivial,
          trivial, trivial, trivial, trivial, trivial, trivial⟩
    · obtain ⟨c, hc, hcount⟩ := h .ibox
      have hcount : (2 : Int) = 0 + c := hcount
      omega

end LibSpe2.Shared
