import LibSpe2.Sys.Frame
import LibSpe2.SpeEvent.Event

/-!
# The records of the event types

An epoll entry points to the record `events[]` of its context and event type, which all handlers share
and which register and deregister rewrite; `spe_event_wait` copies the record when the entry is
reported. What it hands out is therefore the registration that the entry was made by only as long as
nobody has rewritten the record for another one. `recordOk` says that: a record is written only

* while no handler has a live registration for it and no report of it is waiting to be copied, or
* with what it holds already.

`RecInv` is the invariant of the runs all of whose steps are like that. A thread remembers
(`RecStage`) whose lock it holds, which record it has written and what was reported to it; the rules
`rec_*` say how each command moves it.
-/

namespace LibSpe2

open Function (update)
open Conc (Prog Config)

/-- The unit that the registration behind an entry asked for. -/
def EpollEntry.expected (e : EpollEntry) : EventUnit := ⟨e.type.bit, e.spe, e.reg⟩

/-- No entry of any set, and no report to any thread, points to the record. -/
def Unreferenced (c : Spe) (k : EventType) (s : World) : Prop :=
  (∀ h fd e, s.epoll h fd = some e → (e.spe, e.type) ≠ (c, k)) ∧
    ∀ t, ∀ e ∈ s.hist.pending t, (e.spe, e.type) ≠ (c, k)

/-- The condition on the steps. -/
def recordOk (_t : Tid) : (cmd : Cmd) → Ans cmd → World → Prop
  | .storeRecord c k events data, _, s => Unreferenced c k s ∨ s.records c k = ⟨events, c, data⟩
  | .clearRecord c k, _, s => Unreferenced c k s
  | _, _, _ => True

/-! ## The invariant -/

/-- What a thread remembers. -/
structure RecStage where
  /-- The context whose lock it holds. -/
  ctx : Option Spe
  /-- The record of that context that it has written. -/
  wrote : Option (Spe × EventType × UInt64)
  /-- The entries reported to it that it has not copied. -/
  todo : List EpollEntry

def RecStage.idle : RecStage := ⟨none, none, []⟩

structure RecInv (γ : Tid → RecStage) (s : World) : Prop where
  spe : ∀ c k, (s.records c k).spe = c
  live : ∀ h fd e, s.epoll h fd = some e → s.records e.spe e.type = e.expected
  pending : ∀ t, s.hist.pending t = (γ t).todo
  todo : ∀ t, ∀ e ∈ (γ t).todo, s.records e.spe e.type = e.expected
  owner : ∀ t c, (γ t).ctx = some c → s.owner (.lock c) = some t
  wrote : ∀ t c k data, (γ t).wrote = some (c, k, data) →
    (γ t).ctx = some c ∧ s.records c k = ⟨k.bit, c, data⟩
  delivered : ∀ d ∈ s.hist.delivered, d.unit = d.entry.expected

def recProto : Conc.Proto Cmd Tid World RecStage where
  idle := .idle
  inv := RecInv

abbrev RecSafe (t : Tid) {α : Type} (p : Sys α) (g : RecStage) (Q : α → RecStage → Prop) : Prop :=
  recProto.Safe machine recordOk t p g Q

/-- A step that writes no record and makes no entry. -/
structure Calm (s s' : World) : Prop where
  records : s'.records = s.records
  epoll : ∀ h fd e, s'.epoll h fd = some e → s.epoll h fd = some e
  owner : ∀ c, s'.owner (.lock c) = s.owner (.lock c)
  pending : s'.hist.pending = s.hist.pending
  delivered : s'.hist.delivered = s.hist.delivered

/-- The commands that are `Calm` in every state. -/
def Cmd.Neutral : Cmd → Prop
  | .lock (.lock _) | .unlock (.lock _) => False
  | .storeRecord _ _ _ _ | .clearRecord _ _ => False
  | .epollAdd _ _ _ | .epollWait _ _ => False
  | .note (.delivered _ _ _) => False
  | _ => True

section

variable {t : Tid} {γ : Tid → RecStage} {s s' : World} {g : RecStage} {c : Spe} {k : EventType}
  {data : UInt64}

theorem Calm.of_same (hr : s'.records = s.records) (he : s'.epoll = s.epoll)
    (ho : s'.owner = s.owner) (hh : s'.hist.pending = s.hist.pending)
    (hd : s'.hist.delivered = s.hist.delivered) : Calm s s' :=
  ⟨hr, fun h fd e h' => by rwa [he] at h', fun _ => by rw [ho], hh, hd⟩

theorem Cmd.Neutral.untouched {cmd : Cmd} (hc : cmd.Neutral) :
    ¬ cmd.Touches .records ∧ ¬ cmd.Touches .reports := by
  cases cmd with
  | note n => cases n <;> first | exact hc.elim | exact ⟨id, id⟩
  | _ => first | exact hc.elim | exact ⟨id, id⟩

/-- Closing a descriptor and removing an entry leave the others. -/
theorem epoll_of_neutral {cmd : Cmd} (hc : cmd.Neutral) {r : Ans cmd}
    (he : exec t cmd r s = some s') {h : Handler} {fd : Fd} {e : EpollEntry}
    (hs : s'.epoll h fd = some e) : s.epoll h fd = some e := by
  have hsame (hp : ¬ cmd.Touches .epoll) : s.epoll h fd = some e := by
    rw [← show s'.epoll = s.epoll from exec_same hp he]
    exact hs
  cases cmd with
  | close fd' =>
    obtain rfl := Option.some.inj he
    rw [← show (s.noteClose fd').epoll = s.epoll from content_noteClose (p := .epoll) fd']
    by_cases hfd : fd = fd'
    · simp [World.closeFd, hfd] at hs
    · simpa [World.closeFd, hfd] using hs
  | epollDel h' fd' =>
    cases r with
    | error =>
      obtain rfl := Option.some.inj he
      exact hs
    | ok =>
      obtain ⟨-, rfl⟩ := of_guard he
      by_cases hh : h = h'
      · subst hh
        by_cases hfd : fd = fd'
        · simp [World.setEpoll, hfd] at hs
        · simpa [World.setEpoll, hfd] using hs
      · simpa [World.setEpoll, hh] using hs
  | epollAdd => exact hc.elim
  | note n => exact hsame (by cases n <;> exact id)
  | _ => exact hsame id

theorem owner_of_neutral {cmd : Cmd} (hc : cmd.Neutral) {r : Ans cmd}
    (he : exec t cmd r s = some s') (c : Spe) : s'.owner (.lock c) = s.owner (.lock c) := by
  have hsame (hp : ¬ cmd.Touches .owner) : s'.owner (.lock c) = s.owner (.lock c) :=
    congrFun (exec_same hp he) (.lock c)
  cases cmd with
  | lock m | unlock m =>
    obtain ⟨-, rfl⟩ := of_guard he
    cases m with
    | lock => exact hc.elim
    | _ => simp [World.setOwner]
  | note n => exact hsame (by cases n <;> exact id)
  | _ => exact hsame id

theorem calm_of_neutral {cmd : Cmd} (hc : cmd.Neutral) {r : Ans cmd}
    (he : exec t cmd r s = some s') : Calm s s' := by
  have hrep := exec_same hc.untouched.2 he
  exact ⟨exec_same hc.untouched.1 he, fun _ _ _ hs => epoll_of_neutral hc he hs,
    owner_of_neutral hc he, congrArg Prod.fst hrep, congrArg Prod.snd hrep⟩

theorem RecInv.calm (hi : RecInv γ s) (hq : Calm s s') : RecInv γ s' where
  spe c k := by rw [hq.records, hi.spe]
  live h fd e he := by rw [hq.records, hi.live h fd e (hq.epoll h fd e he)]
  pending u := by rw [hq.pending, hi.pending]
  todo u e he := by rw [hq.records, hi.todo u e he]
  owner u c hu := by rw [hq.owner, hi.owner u c hu]
  wrote u c k data hu := by rw [hq.records]; exact hi.wrote u c k data hu
  delivered d hd := hi.delivered d (hq.delivered ▸ hd)

theorem rec_neutral {cmd : Cmd} (hc : cmd.Neutral) :
    RecSafe t (perform cmd) g fun _ g' => g' = g := by
  refine .perform fun γ s hi hg => ⟨trivial, fun r s' _ he => ⟨g, ?_, rfl⟩⟩
  rw [← hg, Function.update_eq_self]
  exact hi.calm (calm_of_neutral hc he)

/-! ## The commands that touch records and entries -/

/-- What thread `u` remembers after `t` has moved to `g`. -/
theorem update_cases {P : RecStage → Prop} {u : Tid} (h : P (update γ t g u)) :
    u = t ∧ P g ∨ u ≠ t ∧ P (γ u) := by
  by_cases hut : u = t
  · exact .inl ⟨hut, by simpa [hut] using h⟩
  · exact .inr ⟨hut, by simpa [hut] using h⟩

/-- What `t` has not changed by moving to `g`. -/
theorem update_same {β : Type} (f : RecStage → β) (hg : f g = f (γ t)) (u : Tid) :
    f (update γ t g u) = f (γ u) := by
  by_cases hut : u = t <;> simp [hut, hg]

theorem rec_lock (hwrote : g.wrote = none) :
    RecSafe t (eventSpeContextLock c) g fun _ g' => g' = { g with ctx := some c } := by
  refine .perform fun γ s hi hg => ⟨trivial, fun _ s' _ he => ⟨_, ?_, rfl⟩⟩
  obtain ⟨hfree, rfl⟩ := of_guard he
  have htodo := update_same (γ := γ) (t := t) (g := { g with ctx := some c }) RecStage.todo (by simp [hg])
  refine ⟨hi.spe, hi.live, fun u => ?_, fun u => ?_, fun u c' hu₀ => ?_, fun u c' k data hu₀ => ?_,
    hi.delivered⟩
  · exact (hi.pending u).trans (htodo u).symm
  · rw [htodo]
    exact hi.todo u
  · rcases update_cases (P := fun g => g.ctx = some c') hu₀ with ⟨rfl, hu⟩ | ⟨hut, hu⟩
    · obtain rfl := Option.some.inj hu
      simp [World.setOwner]
    · have ho := hi.owner u c' hu
      have hne : c' ≠ c := by
        rintro rfl
        simp [hfree] at ho
      simpa [World.setOwner, hne] using ho
  · rcases update_cases (P := fun g => g.wrote = some (c', k, data)) hu₀ with ⟨rfl, hu⟩ | ⟨hut, hu⟩
    · simp [hwrote] at hu
    · simpa [hut, World.setOwner] using hi.wrote u c' k data hu

theorem rec_unlock (hctx : g.ctx = some c) :
    RecSafe t (eventSpeContextUnlock c) g fun _ g' => g' = { g with ctx := none, wrote := none } := by
  refine .perform fun γ s hi hg => ⟨trivial, fun _ s' _ he => ⟨_, ?_, rfl⟩⟩
  obtain ⟨ho, rfl⟩ := of_guard he
  have htodo := update_same (γ := γ) (t := t) (g := { g with ctx := none, wrote := none })
    RecStage.todo (by simp [hg])
  refine ⟨hi.spe, hi.live, fun u => ?_, fun u => ?_, fun u c' hu₀ => ?_, fun u c' k data hu₀ => ?_,
    hi.delivered⟩
  · exact (hi.pending u).trans (htodo u).symm
  · rw [htodo]
    exact hi.todo u
  · rcases update_cases (P := fun g => g.ctx = some c') hu₀ with ⟨rfl, hu⟩ | ⟨hut, hu⟩
    · cases hu
    · have ho' := hi.owner u c' hu
      have hne : c' ≠ c := by
        rintro rfl
        rw [ho] at ho'
        exact hut (Option.some.inj ho').symm
      simpa [World.setOwner, hne] using ho'
  · rcases update_cases (P := fun g => g.wrote = some (c', k, data)) hu₀ with ⟨rfl, hu⟩ | ⟨hut, hu⟩
    · cases hu
    · simpa [hut, World.setOwner] using hi.wrote u c' k data hu

/-- A record is rewritten while nothing refers to it, or with what it holds; the writers of other
records are not affected, nor is there another writer of this one. -/
theorem RecInv.write (hi : RecInv γ s) {u : EventUnit} (hspe : u.spe = c)
    (hfree : Unreferenced c k s ∨ s.records c k = u) (hctx : (γ t).ctx = some c)
    (hg : g.ctx = some c) (htodo : g.todo = (γ t).todo)
    (hwrote : ∀ c' k' data', g.wrote = some (c', k', data') →
      (c', k') = (c, k) ∧ u = ⟨k.bit, c, data'⟩) :
    RecInv (update γ t g) (s.setRecord c k u) := by
  have htodo := update_same RecStage.todo htodo
  have hother {c' k'} (h : (c', k') ≠ (c, k) ∨ s.records c k = u) :
      (s.setRecord c k u).records c' k' = s.records c' k' := by
    by_cases hne : (c', k') = (c, k)
    · obtain ⟨rfl, rfl⟩ := Prod.mk.inj hne
      simpa [World.setRecord] using (h.resolve_left (not_not_intro rfl)).symm
    · exact update₂_of_ne _ _ hne
  refine ⟨fun c' k' => ?_, fun h fd e he => ?_, fun v => ?_, fun v e he => ?_, fun v c' hv₀ => ?_,
    fun v c' k' data' hv₀ => ?_, hi.delivered⟩
  · by_cases hck : (c', k') = (c, k)
    · obtain ⟨rfl, rfl⟩ := Prod.mk.inj hck
      simp [World.setRecord, hspe]
    · simpa only [World.setRecord, update₂_of_ne _ _ hck] using hi.spe c' k'
  · rw [hother (hfree.imp_left fun hf => hf.1 h fd e he), hi.live h fd e he]
  · exact (hi.pending v).trans (htodo v).symm
  · rw [htodo] at he
    rw [hother (hfree.imp_left fun hf => hf.2 v e (by rwa [hi.pending])), hi.todo v e he]
  · rcases update_cases (P := fun g => g.ctx = some c') hv₀ with ⟨rfl, hv⟩ | ⟨-, hv⟩
    · rw [hg] at hv
      exact hi.owner v c' (hctx.trans hv)
    · exact hi.owner v c' hv
  · rcases update_cases (P := fun g => g.wrote = some (c', k', data')) hv₀ with ⟨rfl, hv⟩ | ⟨hvt, hv⟩
    · obtain ⟨hck, rfl⟩ := hwrote c' k' data' hv
      obtain ⟨rfl, rfl⟩ := Prod.mk.inj hck
      simp [World.setRecord, hg]
    · obtain ⟨hc', hr⟩ := hi.wrote v c' k' data' hv
      have hne : c' ≠ c := by
        rintro rfl
        have := (hi.owner v c' hc').symm.trans (hi.owner t c' hctx)
        exact hvt (Option.some.inj this)
      rw [hother (.inl fun h => hne (Prod.mk.inj h).1)]
      exact ⟨by simpa [hvt] using hc', hr⟩

theorem rec_store (hctx : g.ctx = some c) :
    RecSafe t (perform (.storeRecord c k k.bit data)) g fun _ g' =>
      g' = { g with wrote := some (c, k, data) } := by
  refine .perform fun γ s hi hg => ⟨trivial, fun _ s' ho he => ⟨_, ?_, rfl⟩⟩
  have hu : ({ s.records c k with events := k.bit, data := data } : EventUnit) = ⟨k.bit, c, data⟩ :=
    congrArg (EventUnit.mk k.bit · data) (hi.spe c k)
  obtain rfl := Option.some.inj he
  rw [hu]
  refine hi.write rfl ho (by rw [hg, hctx]) hctx (by simp [hg]) fun c' k' data' h => ?_
  obtain ⟨rfl, rfl, rfl⟩ : c = c' ∧ k = k' ∧ data = data' := by simpa using h
  exact ⟨rfl, rfl⟩

theorem rec_clear (hctx : g.ctx = some c) :
    RecSafe t (perform (.clearRecord c k)) g fun _ g' => g' = { g with wrote := none } := by
  refine .perform fun γ s hi hg => ⟨trivial, fun _ s' ho he => ⟨_, ?_, rfl⟩⟩
  obtain rfl := Option.some.inj he
  exact hi.write (hi.spe c k) (.inl ho) (by rw [hg, hctx]) hctx (by simp [hg]) nofun

/-- An entry is made for the record that the thread has just written. -/
theorem rec_epollAdd {h : Handler} {fd : Fd} {out : Bool} (hwrote : g.wrote = some (c, k, data)) :
    RecSafe t (perform (.epollAdd h fd ⟨out, c, k, data⟩)) g fun _ g' => g' = g := by
  refine .perform fun γ s hi hg => ⟨trivial, fun r s' _ he => ⟨g, ?_, rfl⟩⟩
  rw [← hg, Function.update_eq_self]
  cases r with
  | error e =>
    obtain rfl := Option.some.inj he
    exact hi.calm (.of_same rfl rfl rfl rfl rfl)
  | ok u =>
    obtain ⟨-, rfl⟩ := of_guard he
    obtain ⟨-, hr⟩ := hi.wrote t c k data (by rw [hg, hwrote])
    refine ⟨hi.spe, fun h' fd' e he => ?_, hi.pending, hi.todo, hi.owner, hi.wrote, hi.delivered⟩
    by_cases hh : h' = h ∧ fd' = fd
    · obtain ⟨rfl, rfl⟩ := hh
      obtain rfl : _ = e := by simpa [World.setEpoll] using he
      exact hr
    · refine hi.live h' fd' e ?_
      by_cases hh' : h' = h
      · have hfd : fd' ≠ fd := fun hfd => hh ⟨hh', hfd⟩
        subst hh'
        simpa [World.setEpoll, hfd] using he
      · simpa [World.setEpoll, hh'] using he

/-- What `epoll_wait` reports are live entries. -/
theorem rec_epollWait {h : Handler} {m : Nat} (htodo : g.todo = []) :
    RecSafe t (perform (.epollWait h m)) g fun r g' => match r with
      | .ok l => g' = { g with todo := l.map Prod.snd }
      | .error _ => g' = g := by
  refine .perform fun γ s hi hg => ⟨trivial, fun r s' _ he => ?_⟩
  cases r with
  | error e =>
    obtain rfl := Option.some.inj he
    refine ⟨g, ?_, rfl⟩
    rw [← hg, Function.update_eq_self]
    exact hi.calm (.of_same rfl rfl rfl rfl rfl)
  | ok l =>
    obtain ⟨⟨-, -, hlive⟩, rfl⟩ := of_guard he
    refine ⟨{ g with todo := l.map Prod.snd }, ?_, rfl⟩
    refine ⟨hi.spe, hi.live, fun u => ?_, fun u e hmem => ?_, fun u c' => ?_, fun u c' k' data' => ?_,
      hi.delivered⟩
    · by_cases hut : u = t
      · subst hut
        simp [hi.pending, hg, htodo]
      · simp [hut, hi.pending]
    · rcases update_cases (P := fun g => e ∈ g.todo) hmem with ⟨-, hmem⟩ | ⟨-, hmem⟩
      · obtain ⟨x, hx, rfl⟩ := List.mem_map.mp hmem
        exact hi.live h x.1 x.2 (hlive x hx)
      · exact hi.todo u e hmem
    · rw [update_same RecStage.ctx (by rw [hg])]
      exact hi.owner u c'
    · rw [update_same RecStage.ctx (by rw [hg]), update_same RecStage.wrote (by rw [hg])]
      exact hi.wrote u c' k' data'

/-- The record of a reported entry. -/
theorem rec_loadRecord {e : EpollEntry} (he : e ∈ g.todo) :
    RecSafe t (perform (.loadRecord e.spe e.type)) g fun u g' => g' = g ∧ u = e.expected := by
  refine .perform fun γ s hi hg => ⟨trivial, fun r s' _ hex => ⟨g, ?_, rfl, ?_⟩⟩
  · obtain ⟨-, rfl⟩ := of_guard hex
    rwa [← hg, Function.update_eq_self]
  · obtain ⟨rfl, -⟩ := of_guard hex
    exact hi.todo t e (hg ▸ he)

theorem rec_note_delivered {h : Handler} {e : EpollEntry} {rest : List EpollEntry}
    (htodo : g.todo = e :: rest) :
    RecSafe t (note (.delivered h e e.expected)) g fun _ g' => g' = { g with todo := rest } := by
  refine .perform fun γ s hi hg => ⟨trivial, fun _ s' _ he => ⟨_, ?_, rfl⟩⟩
  obtain rfl := Option.some.inj he
  refine ⟨hi.spe, hi.live, fun u => ?_, fun u e' hmem => ?_, fun u c' => ?_, fun u c' k' data' => ?_,
    fun d hd => ?_⟩
  · by_cases hut : u = t
    · subst hut
      simp [hi.pending, hg, htodo]
    · simp [hut, hi.pending]
  · rcases update_cases (P := fun g => e' ∈ g.todo) hmem with ⟨-, hmem⟩ | ⟨-, hmem⟩
    · exact hi.todo t e' (by rw [hg, htodo]; exact .tail _ hmem)
    · exact hi.todo u e' hmem
  · rw [update_same RecStage.ctx (by rw [hg])]
    exact hi.owner u c'
  · rw [update_same RecStage.ctx (by rw [hg]), update_same RecStage.wrote (by rw [hg])]
    exact hi.wrote u c' k' data'
  · rcases List.mem_append.mp hd with hd | hd
    · exact hi.delivered d hd
    · obtain rfl := List.mem_singleton.mp hd
      rfl

end

end LibSpe2
