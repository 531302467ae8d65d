import LibSpe2.SpeEvent.Event
import LibSpe2.Sys.Frame
import LibSpe2.Conc.Marked
import LibSpe2.Data.Slot

/-!
# The last stop info (`stop_event_buffer`)

While a context has no stop-event pipe, the stop info of a run stays behind in a buffer for one, from
which `spe_stop_info_read` takes it. What is expected of the buffer is a `Slot`: a run whose locked step
finds the pipe closed puts its stop info into it, a read that finds it closed takes what is there, and
opening the pipe drops it.

* `Doing`, `Seen`, `see` — the slots, followed beside a run, and each read with what was in the slot at its
  locked step.
* `observedSystem` — the event layer with its reads marked; `observed_reachable_iff`, the same states are reached
  with the marks and without.
* `View`, `Inv` — the buffer, the count and the two ends of the pipe, as the holder of the lock knows them.

Main result:
* `stop_info_slot` — every read returns what is in the slot, or fails with `EAGAIN` if it is empty.
-/

namespace LibSpe2

open Conc (Prog Proto Marked Observer)
open Function (update)

namespace StopBuffer

/-! ## What is observed -/

/-- The pipe of a context is closed. -/
def Closed (spe : Spe) (s : World) : Prop := ∀ i, s.mem (.stopEventPipe spe i) = -1

instance (spe : Spe) (s : World) : Decidable (Closed spe s) := inferInstanceAs (Decidable (∀ _, _))

/-- What a thread is doing. -/
structure Doing where
  /-- The stop info of its run, until the locked step that puts it somewhere is over. -/
  ran : Option StopInfo
  /-- It is in a read, whose locked step is not over. -/
  reading : Bool
  /-- The context whose lock it has taken, and whether the pipe was closed when it did. -/
  saw : Option (Spe × Bool)
  /-- What was in the slot at the locked step of its read, if the pipe was closed. -/
  due : Option (Option StopInfo)

def Doing.nothing : Doing := ⟨none, false, none, none⟩

/-- What a locked step that finds the pipe closed does to the slot. -/
def Doing.effect (d : Doing) (x : Slot StopInfo) : Slot StopInfo :=
  match d.ran with
  | some info => x.store info
  | none => if d.reading then x.take else x

/-- The marks of a read: it begins, and it returns. -/
inductive Mark where
  | asks
  | returns (spe : Spe) (rc : Int) (bytes : List UInt8)

/-- A read that found the pipe closed: what was in the slot, and what it has returned. -/
structure Answer where
  spe : Spe
  slot : Option StopInfo
  rc : Int
  bytes : List UInt8
  errno : Errno

/-- It returned what was in the slot. -/
def Answer.Right (a : Answer) : Prop :=
  match a.slot with
  | some info => a.rc = 0 ∧ a.bytes = info.bytes
  | none => a.rc = -1 ∧ a.errno = .EAGAIN

structure Seen where
  doing : Tid → Doing
  slots : Spe → Slot StopInfo
  answers : List Answer

def Seen.start : Seen := ⟨fun _ => .nothing, fun _ => .empty, []⟩

def Seen.setDoing (x : Seen) (t : Tid) (d : Doing) : Seen := { x with doing := update x.doing t d }

def Seen.setSlot (x : Seen) (spe : Spe) (y : Slot StopInfo) : Seen :=
  { x with slots := update x.slots spe y }

/-- The locked step of a thread is over. -/
def Seen.leave (x : Seen) (t : Tid) (spe : Spe) : Seen :=
  let d := x.doing t
  if d.saw = some (spe, true) then
    (x.setSlot spe (d.effect (x.slots spe))).setDoing t
      { Doing.nothing with due := if d.reading then some (x.slots spe).content else none }
  else x.setDoing t .nothing

/-- What is seen of a command of thread `t`, answered by `r` in `s`. -/
def see (t : Tid) : (c : Cmd) → Ans c → World → Seen → Seen
  | .baseRun _, r, _, x => x.setDoing t { x.doing t with ran := some r.2 }
  | .lock (.stopEventLock spe), _, s, x =>
    x.setDoing t { x.doing t with saw := some (spe, decide (Closed spe s)) }
  -- the last step of `stop_event_pipe_open`
  | .fcntlSetfl _ _, .ok _, _, x =>
    match (x.doing t).saw with
    | some (spe, _) => x.setSlot spe (x.slots spe).drop
    | none => x
  | .unlock (.stopEventLock spe), _, _, x => x.leave t spe
  | _, _, _, x => x

/-- What is seen of a mark. -/
def seeMark (t : Tid) : Mark → World → Seen → Seen
  | .asks, _, x => x.setDoing t { Doing.nothing with reading := true }
  | .returns spe rc bytes, s, x =>
    let x' := x.setDoing t .nothing
    match (x.doing t).due with
    | some slot => { x' with answers := x.answers ++ [⟨spe, slot, rc, bytes, s.errno t⟩] }
    | none => x'

def observer : Observer Cmd Ans Tid World Mark Seen := ⟨see, seeMark⟩

/-- The code of a call, with its marks. -/
def code (t : Tid) : EventCall → Prog (Marked Cmd Mark) (Marked.Ans Ans) Unit
  | .stopInfoRead spe => do
    Prog.mark .asks
    let r ← (eventSpeStopInfoRead spe).marked
    Prog.mark (.returns spe r.1 r.2)
  | c => (eventSystem.code t c).marked

/-- The event layer and its observer. -/
def observedSystem : Conc.System (Marked Cmd Mark) (Marked.Ans Ans) Tid (World × Seen) where
  toMachine := machine.observed observer
  Call := EventCall
  code := code
  init x := EventInit x.1 ∧ x.2 = .start

/-- Without the marks it is the event layer. -/
theorem code_erase (t : Tid) (c : EventCall) : (code t c).erase = eventSystem.code t c := by
  cases c with
  | stopInfoRead spe =>
    show Prog.erase ((Prog.mark Mark.asks).bind fun _ =>
      (eventSpeStopInfoRead spe).marked.bind fun r => Prog.mark (.returns spe r.1 r.2)) = _
    rw [Prog.erase_bind, Prog.erase_bind, Prog.erase_marked]
    rfl
  | _ => exact Prog.erase_marked _

theorem observes : observedSystem.Observes eventSystem observer where
  machine := rfl
  code t c := .inl ⟨c, code_erase t c⟩
  init _ h := h.1

theorem covers : observedSystem.Covers eventSystem where
  code t c := ⟨c, code_erase t c⟩
  init _ hs := ⟨.start, hs, rfl⟩

/-- The observer has no influence on what the event layer can reach. -/
theorem observed_reachable_iff (s : World) :
    (∃ x th, observedSystem.Reachable ⟨(s, x), th⟩) ↔ ∃ th, eventSystem.Reachable ⟨s, th⟩ :=
  observes.reachable_iff covers s

/-! ## The invariant -/

/-- What the holder of the lock of a context knows. -/
structure View where
  pipe : Fin 2 → Int
  count : Int
  buffer : StopInfo
  content : Option StopInfo

/-- The buffer holds what is in the slot, and the pipe is open at both ends or closed. -/
structure View.Good (v : View) : Prop where
  pipe : (∀ i, v.pipe i = -1) ∨ ∀ i, v.pipe i ≠ -1
  count : v.count = if v.content.isSome then 1 else 0
  buffer : ∀ info, v.content = some info → v.buffer = info

def view (spe : Spe) (s : World) (x : Seen) : View where
  pipe i := s.mem (.stopEventPipe spe i)
  count := s.mem (.stopEventBufferCount spe)
  buffer := s.buffer spe
  content := (x.slots spe).content

/-- What a thread remembers between two commands. -/
structure Stage where
  doing : Doing
  held : Option (Spe × View)
  /-- Its `errno` is `EAGAIN`. -/
  eagain : Bool

def Stage.idle : Stage := ⟨.nothing, none, false⟩

def Stage.hold (g : Stage) (spe : Spe) (v : View) : Stage :=
  { g with held := some (spe, v), eagain := false }

structure Inv (γ : Tid → Stage) (s : World) (x : Seen) : Prop where
  doing : ∀ t, x.doing t = (γ t).doing
  eagain : ∀ t, (γ t).eagain → s.errno t = .EAGAIN
  holder : ∀ t spe, s.owner (.stopEventLock spe) = some t ↔ ∃ v, (γ t).held = some (spe, v)
  known : ∀ t spe v, (γ t).held = some (spe, v) → view spe s x = v
  rest : ∀ spe, s.owner (.stopEventLock spe) = none → (view spe s x).Good
  answers : ∀ a ∈ x.answers, a.Right
  slots : ∀ spe, (x.slots spe).Sound

def proto : Proto (Marked Cmd Mark) Tid (World × Seen) Stage where
  idle := .idle
  inv γ x := Inv γ x.1 x.2

abbrev Safe (t : Tid) {α : Type} (p : Prog (Marked Cmd Mark) (Marked.Ans Ans) α) (g : Stage)
    (Q : α → Stage → Prop) : Prop :=
  proto.Safe (machine.observed observer)
    (Conc.System.always (Marked Cmd Mark) (Marked.Ans Ans) Tid (World × Seen)) t p g Q

variable {t : Tid} {γ : Tid → Stage} {s s' : World} {x x' : Seen} {g g' : Stage} {spe : Spe} {v v' : View}

/-- **A step that takes and leaves no lock**: the thread knows what has become of what it holds, and the
rest is as before. -/
theorem Inv.step (hi : Inv γ s x) (hg : γ t = g) (hdoing : x'.doing = update x.doing t g'.doing)
    (heagain : g'.eagain → s'.errno t = .EAGAIN) (herrno : ∀ u, u ≠ t → s'.errno u = s.errno u)
    (howner : ∀ spe, s'.owner (.stopEventLock spe) = s.owner (.stopEventLock spe))
    (hheld : g'.held.map Prod.fst = g.held.map Prod.fst)
    (hown : ∀ spe v, g'.held = some (spe, v) → view spe s' x' = v)
    (hothers : ∀ spe, g.held.map Prod.fst ≠ some spe → view spe s' x' = view spe s x)
    (hanswers : ∀ a ∈ x'.answers, a.Right) (hslots : ∀ spe, (x'.slots spe).Sound) :
    Inv (update γ t g') s' x' where
  doing u := by
    by_cases hu : u = t
    · subst hu
      rw [hdoing, Function.update_self, Function.update_self]
    · rw [hdoing, Function.update_of_ne hu, Function.update_of_ne hu, hi.doing]
  eagain u hu := by
    by_cases hut : u = t
    · subst hut
      rw [Function.update_self] at hu
      exact heagain hu
    · rw [Function.update_of_ne hut] at hu
      rw [herrno u hut, hi.eagain u hu]
  holder u spe := by
    rw [howner, hi.holder]
    by_cases hut : u = t
    · subst hut
      rw [Function.update_self, hg]
      have hfst (g : Stage) : (∃ v, g.held = some (spe, v)) ↔ g.held.map Prod.fst = some spe := by
        constructor
        · rintro ⟨v, hv⟩
          rw [hv]
          rfl
        · intro h
          obtain ⟨⟨_, v⟩, hv, rfl⟩ := Option.map_eq_some_iff.mp h
          exact ⟨v, hv⟩
      rw [hfst, hfst, hheld]
    · rw [Function.update_of_ne hut]
  known u spe v hv := by
    by_cases hut : u = t
    · subst hut
      rw [Function.update_self] at hv
      exact hown spe v hv
    · rw [Function.update_of_ne hut] at hv
      rw [hothers spe, hi.known u spe v hv]
      intro hmine
      obtain ⟨⟨_, w⟩, hw, rfl⟩ := Option.map_eq_some_iff.mp hmine
      have hu := (hi.holder u _).mpr ⟨v, hv⟩
      rw [(hi.holder t _).mpr ⟨w, hg ▸ hw⟩] at hu
      exact hut (Option.some.inj hu).symm
  rest spe hnone := by
    rw [howner] at hnone
    rw [hothers spe]
    · exact hi.rest spe hnone
    · intro hmine
      obtain ⟨⟨_, w⟩, hw, rfl⟩ := Option.map_eq_some_iff.mp hmine
      have ht := (hi.holder t _).mpr ⟨w, hg ▸ hw⟩
      rw [hnone] at ht
      cases ht
  answers := hanswers
  slots := hslots

/-! ## Commands -/

/-- The commands that have nothing to do with a buffer, its pipe and their lock. -/
def Neutral : Cmd → Prop
  | .lock (.stopEventLock _) | .unlock (.stopEventLock _) => False
  | .store (.stopEventPipe _ _) _ | .store (.stopEventBufferCount _) _ => False
  | .storeBuffer _ _ | .fcntlSetfl _ _ | .baseRun _ => False
  | _ => True

theorem see_neutral {c : Cmd} (hc : Neutral c) (r : Ans c) : see t c r s x = x := by
  cases c with
  | lock m | unlock m => cases m <;> first | rfl | exact hc.elim
  | fcntlSetfl | baseRun => exact hc.elim
  | _ => rfl

theorem owner_neutral {c : Cmd} (hc : Neutral c) {r : Ans c} (he : exec t c r s = some s') :
    s'.owner (.stopEventLock spe) = s.owner (.stopEventLock spe) := by
  cases c with
  | lock m | unlock m =>
    obtain ⟨-, rfl⟩ := of_guard he
    cases m with
    | stopEventLock => exact hc.elim
    | _ => simp [World.setOwner]
  | note n => exact congrFun (exec_same (p := .owner) (by cases n <;> exact id) he) _
  | _ => exact congrFun (exec_same (p := .owner) id he) _

theorem buffer_neutral {c : Cmd} (hc : Neutral c) {r : Ans c} (he : exec t c r s = some s') :
    s'.buffer = s.buffer := by
  cases c with
  | storeBuffer => exact hc.elim
  | note n => exact exec_same (p := .buffer) (by cases n <;> exact id) he
  | _ => exact exec_same (p := .buffer) id he

theorem mem_neutral {c : Cmd} (hc : Neutral c) {r : Ans c} (he : exec t c r s = some s') :
    ∀ spe, (∀ i, s'.mem (.stopEventPipe spe i) = s.mem (.stopEventPipe spe i)) ∧
      s'.mem (.stopEventBufferCount spe) = s.mem (.stopEventBufferCount spe) := by
  intro spe
  cases c with
  | store l =>
    obtain rfl := Option.some.inj he
    cases l with
    | stopEventPipe | stopEventBufferCount => exact hc.elim
    | _ => simp [World.setMem]
  | note n =>
    have hmem := exec_same (p := .mem) (by cases n <;> exact id) he
    exact ⟨fun i => congrFun hmem _, congrFun hmem _⟩
  | _ =>
    have hmem := exec_same (p := .mem) id he
    exact ⟨fun i => congrFun hmem _, congrFun hmem _⟩

theorem view_neutral {c : Cmd} (hc : Neutral c) {r : Ans c} (he : exec t c r s = some s') :
    view spe s' x = view spe s x := by
  obtain ⟨hpipe, hcount⟩ := mem_neutral hc he spe
  unfold view
  rw [hcount, buffer_neutral hc he, funext hpipe]

/-- The thread no longer relies on its `errno`. -/
def Stage.calm (g : Stage) : Stage := { g with eagain := false }

theorem Inv.neutral (hi : Inv γ s x) (hg : γ t = g) {c : Cmd} (hc : Neutral c) {r : Ans c}
    (he : exec t c r s = some s') : Inv (update γ t g.calm) s' x := by
  refine hi.step hg ?_ nofun (fun u hu => exec_errno he hu) (fun spe => owner_neutral hc he) rfl ?_
    (fun spe _ => view_neutral hc he) hi.answers hi.slots
  · rw [show g.calm.doing = x.doing t by rw [hi.doing, hg]; rfl, Function.update_eq_self]
  · intro spe v hv
    rw [view_neutral hc he]
    exact hi.known t spe v (hg ▸ hv)

theorem safe_neutral {c : Cmd} (hc : Neutral c) (hg : g.eagain = false) :
    Safe t (Prog.perform c).marked g fun _ g' => g' = g := by
  refine Proto.Safe.observed fun γ s x hi hγ => ⟨trivial, fun r s' _ he => ⟨g.calm, ?_, ?_⟩⟩
  · show Inv _ s' (see t c r s x)
    rw [see_neutral hc]
    exact hi.neutral hγ hc he
  · unfold Stage.calm
    rw [← hg]

theorem safe_neutral_all {α : Type} {p : Sys α} (hp : p.All Neutral) (hg : g.eagain = false) :
    Safe t p.marked g fun _ g' => g' = g :=
  Proto.Safe.marked_all hp fun _ hc => safe_neutral hc hg

/-- A command that only looks at what the thread holds. -/
theorem safe_look {c : Cmd} (hc : Neutral c) {R : Ans c → Prop} (hg : g.eagain = false)
    (h : ∀ γ s x r s', Inv γ s x → γ t = g → exec t c r s = some s' → R r) :
    Safe t (Prog.perform c).marked g fun r g' => R r ∧ g' = g := by
  refine Proto.Safe.observed fun γ s x hi hγ => ⟨trivial, fun r s' _ he => ⟨g.calm, ?_, ?_, ?_⟩⟩
  · show Inv _ s' (see t c r s x)
    rw [see_neutral hc]
    exact hi.neutral hγ hc he
  · exact h γ s x r s' hi hγ he
  · unfold Stage.calm
    rw [← hg]

theorem safe_loadPipe (i : Fin 2) : Safe t (load (.stopEventPipe spe i)).marked (g.hold spe v)
    fun r g' => r = v.pipe i ∧ g' = g.hold spe v := by
  refine safe_look (c := .load (.stopEventPipe spe i)) (R := fun r => r = v.pipe i) trivial rfl ?_
  intro γ s x r s' hi hγ he
  obtain ⟨rfl, -⟩ := of_guard he
  exact congrFun (congrArg View.pipe (hi.known t spe v (hγ ▸ rfl))) i

theorem safe_loadCount : Safe t (load (.stopEventBufferCount spe)).marked (g.hold spe v)
    fun r g' => r = v.count ∧ g' = g.hold spe v := by
  refine safe_look (c := .load (.stopEventBufferCount spe)) (R := fun r => r = v.count) trivial rfl ?_
  intro γ s x r s' hi hγ he
  obtain ⟨rfl, -⟩ := of_guard he
  exact congrArg View.count (hi.known t spe v (hγ ▸ rfl))

theorem safe_loadBuffer : Safe t (perform (.loadBuffer spe)).marked (g.hold spe v)
    fun r g' => r = v.buffer ∧ g' = g.hold spe v := by
  refine safe_look (c := .loadBuffer spe) (R := fun r => r = v.buffer) trivial rfl ?_
  intro γ s x r s' hi hγ he
  obtain ⟨rfl, -⟩ := of_guard he
  exact congrArg View.buffer (hi.known t spe v (hγ ▸ rfl))

/-- Both ends that `pipe` returns are descriptors. -/
theorem safe_pipe : Safe t (perform (.pipe spe)).marked (g.hold spe v) fun r g' =>
    (match r with
      | .ok (a, b) => a ≠ -1 ∧ b ≠ -1
      | .error _ => True) ∧ g' = g.hold spe v := by
  refine safe_look (c := .pipe spe) trivial rfl ?_
  intro γ s x r s' hi hγ he
  cases r with
  | error e => trivial
  | ok ab =>
    obtain ⟨a, b⟩ := ab
    obtain ⟨⟨⟨ha, -⟩, ⟨hb, -⟩, -⟩, -⟩ := of_guard he
    have hne {fd : Int} (h : 0 ≤ fd) : fd ≠ -1 := fun h' => absurd (h' ▸ h) (by decide)
    exact ⟨hne ha, hne hb⟩

/-- **The holder** of a lock changes what it holds. -/
theorem Inv.hold (hi : Inv γ s x) (hg : γ t = g.hold spe v) (hdoing : x'.doing = x.doing)
    (herrno : s'.errno = s.errno) (howner : s'.owner = s.owner) (hview : view spe s' x' = v')
    (hothers : ∀ spe', spe' ≠ spe → view spe' s' x' = view spe' s x) (hanswers : x'.answers = x.answers)
    (hslots : ∀ spe, (x'.slots spe).Sound) : Inv (update γ t (g.hold spe v')) s' x' := by
  refine hi.step hg ?_ nofun (fun u _ => congrFun herrno u) (fun spe => congrFun howner _) rfl ?_ ?_
    (hanswers ▸ hi.answers) hslots
  · rw [hdoing, show (g.hold spe v').doing = x.doing t by rw [hi.doing, hg]; rfl, Function.update_eq_self]
  · intro spe' w hw
    obtain ⟨rfl, rfl⟩ := Prod.mk.inj (Option.some.inj hw)
    exact hview
  · intro spe' hne
    exact hothers spe' fun h => hne (by rw [h]; rfl)

theorem safe_storePipe (i : Fin 2) (a : Int) : Safe t (store (.stopEventPipe spe i) a).marked
    (g.hold spe v) fun _ g' => g' = g.hold spe { v with pipe := update v.pipe i a } := by
  refine Proto.Safe.observed fun γ s x hi hγ => ⟨trivial, fun r s' _ he => ⟨_, ?_, rfl⟩⟩
  obtain rfl := Option.some.inj he
  have hv := hi.known t spe v (hγ ▸ rfl)
  refine hi.hold hγ rfl rfl rfl ?_ (fun spe' hne => ?_) rfl hi.slots
  · subst hv
    unfold view
    congr 1
    funext j
    show update s.mem _ a _ = update (fun i => s.mem (.stopEventPipe spe i)) i a j
    by_cases hj : j = i
    · rw [hj, Function.update_self, Function.update_self]
    · rw [Function.update_of_ne (by simp [hj]), Function.update_of_ne hj]
  · unfold view
    congr 1
    funext j
    exact Function.update_of_ne (by simp [hne]) ..

theorem safe_storeCount (n : Int) : Safe t (store (.stopEventBufferCount spe) n).marked (g.hold spe v)
    fun _ g' => g' = g.hold spe { v with count := n } := by
  refine Proto.Safe.observed fun γ s x hi hγ => ⟨trivial, fun r s' _ he => ⟨_, ?_, rfl⟩⟩
  obtain rfl := Option.some.inj he
  have hv := hi.known t spe v (hγ ▸ rfl)
  refine hi.hold hγ rfl rfl rfl ?_ (fun spe' hne => ?_) rfl hi.slots
  · subst hv
    unfold view
    congr 1
    exact Function.update_self ..
  · unfold view
    congr 1
    exact Function.update_of_ne (by simp [hne]) ..

theorem safe_storeBuffer (info : StopInfo) : Safe t (perform (.storeBuffer spe info)).marked
    (g.hold spe v) fun _ g' => g' = g.hold spe { v with buffer := info } := by
  refine Proto.Safe.observed fun γ s x hi hγ => ⟨trivial, fun r s' _ he => ⟨_, ?_, rfl⟩⟩
  obtain rfl := Option.some.inj he
  have hv := hi.known t spe v (hγ ▸ rfl)
  refine hi.hold hγ rfl rfl rfl ?_ (fun spe' hne => ?_) rfl hi.slots
  · subst hv
    unfold view
    congr 1
    exact Function.update_self ..
  · unfold view
    congr 1
    exact Function.update_of_ne hne ..

/-- The pipe is open from the last `fcntl` on, and the slot is empty. -/
theorem safe_setfl {fd : Fd} {nb : Bool} {b : Bool} (hsaw : g.doing.saw = some (spe, b)) :
    Safe t (perform (.fcntlSetfl fd nb)).marked (g.hold spe v) fun r g' => g' = g.hold spe
      (match r with
        | .ok _ => { v with content := none }
        | .error _ => v) := by
  refine Proto.Safe.observed fun γ s x hi hγ => ⟨trivial, fun r s' _ he => ⟨_, ?_, rfl⟩⟩
  have hv := hi.known t spe v (hγ ▸ rfl)
  cases r with
  | error e =>
    obtain rfl := Option.some.inj he
    refine hi.step hγ ?_ nofun (fun u hu => Function.update_of_ne hu ..) (fun _ => rfl) rfl ?_ (fun _ _ => rfl)
      hi.answers hi.slots
    · rw [show (g.hold spe v).doing = x.doing t by rw [hi.doing, hγ], Function.update_eq_self]
      rfl
    · intro spe' w hw
      obtain ⟨rfl, rfl⟩ := Prod.mk.inj (Option.some.inj hw)
      exact hv
  | ok u =>
    have hsee : see t (.fcntlSetfl fd nb) (.ok u) s x = x.setSlot spe (x.slots spe).drop := by
      have hd : (x.doing t).saw = some (spe, b) := by rw [hi.doing, hγ]; exact hsaw
      show (match (x.doing t).saw with
        | some (spe, _) => x.setSlot spe (x.slots spe).drop
        | none => x) = _
      rw [hd]
    show Inv _ s' (see t (.fcntlSetfl fd nb) (.ok u) s x)
    rw [hsee]
    have hsame : s'.mem = s.mem ∧ s'.buffer = s.buffer ∧ s'.owner = s.owner ∧ s'.errno = s.errno := by
      simp only [machine, exec] at he
      split at he
      · obtain rfl := Option.some.inj he
        exact ⟨rfl, rfl, rfl, rfl⟩
      · cases he
    obtain ⟨hmem, hbuffer, howner, herrno⟩ := hsame
    refine hi.hold hγ rfl herrno howner ?_ (fun spe' hne => ?_) rfl (fun spe' => ?_)
    · subst hv
      unfold view
      rw [hmem, hbuffer]
      congr 1
      show (update x.slots spe _ spe).content = none
      rw [Function.update_self]
      rfl
    · unfold view
      rw [hmem, hbuffer]
      congr 2
      exact Function.update_of_ne hne ..
    · show (update x.slots spe _ spe').Sound
      by_cases hs : spe' = spe
      · subst hs
        rw [Function.update_self]
        exact (hi.slots spe').drop
      · rw [Function.update_of_ne hs]
        exact hi.slots spe'

/-- The run is over, and its stop info is to be put somewhere. -/
theorem safe_run (hg : g.held = none) : Safe t (perform (.baseRun spe)).marked g fun r g' =>
    g' = { g with doing := { g.doing with ran := some r.2 }, eagain := false } := by
  refine Proto.Safe.observed fun γ s x hi hγ => ⟨trivial, fun r s' _ he => ⟨_, ?_, rfl⟩⟩
  obtain rfl := Option.some.inj he
  refine hi.step hγ ?_ nofun (fun _ _ => rfl) (fun _ => rfl) rfl ?_ (fun _ _ => rfl) hi.answers hi.slots
  · show update x.doing t _ = _
    rw [hi.doing, hγ]
  · intro spe w hw
    rw [show _ = g.held from rfl, hg] at hw
    cases hw

/-- The thread that gets the lock finds the buffer in order, and sees whether the pipe is closed. -/
theorem safe_lock (hg : g.held = none) : Safe t (stopEventLock spe).marked g fun _ g' =>
    ∃ v : View, v.Good ∧ g' =
      { doing := { g.doing with saw := some (spe, decide (∀ i, v.pipe i = -1)) }
        held := some (spe, v), eagain := false } := by
  refine Proto.Safe.observed fun γ s x hi hγ => ⟨trivial, fun r s' _ he => ?_⟩
  obtain ⟨hfree, rfl⟩ := of_guard he
  refine ⟨_, ?_, view spe s x, hi.rest spe hfree, rfl⟩
  have hnone : (γ t).held = none := hγ ▸ hg
  constructor
  · intro u
    show update x.doing t { x.doing t with saw := _ } u = _
    by_cases hu : u = t
    · subst hu
      rw [Function.update_self, Function.update_self, hi.doing, hγ]
      rfl
    · rw [Function.update_of_ne hu, Function.update_of_ne hu, hi.doing]
  · intro u hu
    by_cases hut : u = t
    · subst hut
      rw [Function.update_self] at hu
      cases hu
    · rw [Function.update_of_ne hut] at hu
      exact hi.eagain u hu
  · intro u spe'
    show update s.owner _ _ _ = _ ↔ _
    by_cases hs : spe' = spe
    · subst hs
      rw [Function.update_self]
      by_cases hut : u = t
      · subst hut
        simp
      · rw [Function.update_of_ne hut, ← hi.holder, hfree]
        exact iff_of_false (fun h => hut (Option.some.inj h).symm) nofun
    · rw [Function.update_of_ne (by simp [hs]), hi.holder]
      by_cases hut : u = t
      · subst hut
        simp [hnone, Ne.symm hs]
      · rw [Function.update_of_ne hut]
  · intro u spe' w hw
    by_cases hut : u = t
    · subst hut
      rw [Function.update_self] at hw
      obtain ⟨rfl, rfl⟩ := Prod.mk.inj (Option.some.inj hw)
      rfl
    · rw [Function.update_of_ne hut] at hw
      exact hi.known u spe' w hw
  · intro spe' ho
    refine hi.rest spe' ?_
    by_cases hs : spe' = spe
    · rw [hs]
      exact hfree
    · rw [show (s.setOwner (.stopEventLock spe) (some t)).owner (.stopEventLock spe') =
        s.owner (.stopEventLock spe') from Function.update_of_ne (by simp [hs]) ..] at ho
      exact ho
  · exact hi.answers
  · exact hi.slots

/-- What the end of a locked step makes of the content of the slot. -/
def Doing.content (d : Doing) (spe : Spe) (content : Option StopInfo) : Option StopInfo :=
  if d.saw = some (spe, true) then
    match d.ran with
    | some info => some info
    | none => if d.reading then none else content
  else content

/-- What a thread is doing after its locked step. -/
def Doing.left (d : Doing) (spe : Spe) (content : Option StopInfo) : Doing :=
  if d.saw = some (spe, true) ∧ d.reading then { Doing.nothing with due := some content }
  else .nothing

theorem leave_doing : (x.leave t spe).doing =
    update x.doing t ((x.doing t).left spe (x.slots spe).content) := by
  unfold Seen.leave Doing.left
  by_cases hsaw : (x.doing t).saw = some (spe, true)
  · rw [if_pos hsaw]
    by_cases hreading : (x.doing t).reading
    · rw [if_pos hreading, if_pos (show _ ∧ _ from ⟨hsaw, hreading⟩)]
      rfl
    · rw [if_neg hreading, if_neg fun h : _ ∧ _ => hreading h.2]
      rfl
  · rw [if_neg hsaw, if_neg fun h : _ ∧ _ => hsaw h.1]
    rfl

theorem leave_content : ((x.leave t spe).slots spe).content =
    (x.doing t).content spe (x.slots spe).content := by
  unfold Seen.leave Doing.content
  by_cases hsaw : (x.doing t).saw = some (spe, true)
  · rw [if_pos hsaw, if_pos hsaw]
    show (update x.slots spe _ spe).content = _
    rw [Function.update_self]
    unfold Doing.effect
    cases (x.doing t).ran with
    | some info => rfl
    | none =>
      by_cases hreading : (x.doing t).reading
      · rw [if_pos hreading, if_pos hreading]
        rfl
      · rw [if_neg hreading, if_neg hreading]
  · rw [if_neg hsaw, if_neg hsaw]
    rfl

theorem leave_slots {spe' : Spe} (hne : spe' ≠ spe) : (x.leave t spe).slots spe' = x.slots spe' := by
  unfold Seen.leave
  by_cases hsaw : (x.doing t).saw = some (spe, true)
  · rw [if_pos hsaw]
    exact Function.update_of_ne hne ..
  · rw [if_neg hsaw]
    rfl

theorem leave_sound (h : ∀ spe, (x.slots spe).Sound) (spe' : Spe) : ((x.leave t spe).slots spe').Sound := by
  by_cases hs : spe' = spe
  · subst hs
    unfold Seen.leave
    by_cases hsaw : (x.doing t).saw = some (spe', true)
    · rw [if_pos hsaw]
      show (update x.slots spe' _ spe').Sound
      rw [Function.update_self]
      unfold Doing.effect
      cases (x.doing t).ran with
      | some info => exact (h spe').store
      | none =>
        show Slot.Sound (if _ then _ else _)
        split
        · exact (h spe').take
        · exact h spe'
    · rw [if_neg hsaw]
      exact h spe'
  · rw [leave_slots hs]
    exact h spe'

theorem leave_answers : (x.leave t spe).answers = x.answers := by
  unfold Seen.leave
  by_cases hsaw : (x.doing t).saw = some (spe, true)
  · rw [if_pos hsaw]
    rfl
  · rw [if_neg hsaw]
    rfl

/-- The thread leaves the buffer in order, as the slot is after its locked step. -/
theorem safe_unlock (hg : g.held = some (spe, v))
    (hgood : ({ v with content := g.doing.content spe v.content } : View).Good) :
    Safe t (stopEventUnlock spe).marked g fun _ g' =>
      g' = ⟨g.doing.left spe v.content, none, g.eagain⟩ := by
  refine Proto.Safe.observed fun γ s x hi hγ => ⟨trivial, fun r s' _ he => ⟨_, ?_, rfl⟩⟩
  obtain ⟨hmine, rfl⟩ := of_guard he
  have hv := hi.known t spe v (hγ ▸ hg)
  have hcontent : (x.slots spe).content = v.content := congrArg View.content hv
  have hdoing : x.doing t = g.doing := by rw [hi.doing, hγ]
  show Inv _ _ (x.leave t spe)
  constructor
  · intro u
    rw [leave_doing]
    by_cases hu : u = t
    · subst hu
      rw [Function.update_self, Function.update_self, hdoing, hcontent]
    · rw [Function.update_of_ne hu, Function.update_of_ne hu, hi.doing]
  · intro u hu
    refine hi.eagain u ?_
    by_cases hut : u = t
    · subst hut
      rw [Function.update_self] at hu
      rw [hγ]
      exact hu
    · rwa [Function.update_of_ne hut] at hu
  · intro u spe'
    show update s.owner _ _ _ = _ ↔ _
    by_cases hs : spe' = spe
    · subst hs
      rw [Function.update_self]
      by_cases hut : u = t
      · subst hut
        simp
      · rw [Function.update_of_ne hut, ← hi.holder, hmine]
        exact iff_of_false nofun fun h => hut (Option.some.inj h).symm
    · rw [Function.update_of_ne (by simp [hs]), hi.holder]
      by_cases hut : u = t
      · subst hut
        simp [hγ, hg, Ne.symm hs]
      · rw [Function.update_of_ne hut]
  · intro u spe' w hw
    by_cases hut : u = t
    · subst hut
      rw [Function.update_self] at hw
      cases hw
    · rw [Function.update_of_ne hut] at hw
      have hs : spe' ≠ spe := by
        rintro rfl
        have hu := (hi.holder u spe').mpr ⟨w, hw⟩
        rw [hmine] at hu
        exact hut (Option.some.inj hu).symm
      rw [← hi.known u spe' w hw]
      unfold view
      rw [leave_slots hs]
      rfl
  · intro spe' ho
    by_cases hs : spe' = spe
    · subst hs
      have hview : view spe' (s.setOwner (.stopEventLock spe') none) (x.leave t spe') =
          { v with content := g.doing.content spe' v.content } := by
        rw [← hv]
        unfold view
        rw [leave_content, hdoing]
        rfl
      rw [hview]
      exact hgood
    · rw [show (s.setOwner (.stopEventLock spe) none).owner (.stopEventLock spe') =
        s.owner (.stopEventLock spe') from Function.update_of_ne (by simp [hs]) ..] at ho
      have hrest := hi.rest spe' ho
      unfold view at hrest ⊢
      rw [leave_slots hs]
      exact hrest
  · rw [leave_answers]
    exact hi.answers
  · exact leave_sound hi.slots

/-! ## The pipe -/

theorem safe_closeEnd (i : Fin 2) : Safe t (stopEventPipeCloseEnd spe i).marked (g.hold spe v)
    fun _ g' => g' = g.hold spe { v with pipe := update v.pipe i (-1) } := by
  unfold stopEventPipeCloseEnd
  refine .marked_bind (safe_loadPipe i) ?_
  rintro fd _ ⟨rfl, rfl⟩
  by_cases hfd : v.pipe i = -1
  · rw [if_neg (not_not.mpr hfd), ← hfd, Function.update_eq_self]
    exact .ret rfl
  · rw [if_pos hfd]
    refine .marked_bind (safe_neutral trivial rfl) ?_
    rintro _ _ rfl
    exact safe_storePipe i (-1)

theorem safe_close : Safe t (stopEventPipeClose spe).marked (g.hold spe v) fun _ g' =>
    g' = g.hold spe { v with pipe := fun _ => -1 } := by
  unfold stopEventPipeClose
  refine .marked_bind (safe_closeEnd 0) ?_
  rintro _ _ rfl
  refine .marked_bind (safe_closeEnd 1) ?_
  rintro _ _ rfl
  refine .ret ?_
  congr 2
  funext i
  show update (update v.pipe 0 (-1)) 1 (-1) i = -1
  by_cases hi : i = 1
  · rw [hi, Function.update_self]
  · rw [Function.update_of_ne hi, show i = 0 by omega, Function.update_self]

/-- What `stop_event_pipe_open` leaves behind: a pipe and an empty slot, or what there was, closed. -/
structure Opened (v v' : View) (ret : Int) : Prop where
  count : v'.count = v.count
  opened : ret = 0 → (∀ i, v'.pipe i ≠ -1) ∧ v'.content = none
  failed : ret ≠ 0 → ret = -1 ∧ v'.content = v.content ∧ v'.buffer = v.buffer ∧
    (v'.pipe = v.pipe ∨ ∀ i, v'.pipe i = -1)

theorem safe_open {b : Bool} (hsaw : g.doing.saw = some (spe, b)) :
    Safe t (stopEventPipeOpen spe).marked (g.hold spe v) fun ret g' =>
      ∃ v', Opened v v' ret ∧ g' = g.hold spe v' := by
  have hfail {v' : View} (hcount : v'.count = v.count) (hcontent : v'.content = v.content)
      (hbuffer : v'.buffer = v.buffer) : Safe t (do
        let _ ← stopEventPipeClose spe
        return -1 : Sys Int).marked (g.hold spe v') fun ret g' =>
          ∃ v', Opened v v' ret ∧ g' = g.hold spe v' := by
    refine .marked_bind safe_close ?_
    rintro _ _ rfl
    exact .ret ⟨{ v' with pipe := fun _ => -1 },
      ⟨hcount, nofun, fun _ => ⟨rfl, hcontent, hbuffer, .inr fun _ => rfl⟩⟩, rfl⟩
  unfold stopEventPipeOpen
  refine .marked_bind safe_pipe ?_
  rintro ends _ ⟨hends, rfl⟩
  cases ends with
  | error e =>
    exact .ret ⟨v, ⟨rfl, nofun, fun _ => ⟨rfl, rfl, rfl, .inl rfl⟩⟩, rfl⟩
  | ok ends =>
    obtain ⟨r, w⟩ := ends
    obtain ⟨hr, hw⟩ := hends
    dsimp only
    refine .marked_bind (safe_storePipe 0 r) ?_
    rintro _ _ rfl
    refine .marked_bind (safe_storePipe 1 w) ?_
    rintro _ _ rfl
    refine .marked_bind (safe_neutral trivial rfl) ?_
    rintro fd _ rfl
    refine .marked_bind (safe_neutral trivial rfl) ?_
    rintro flags _ rfl
    cases flags with
    | error e => exact hfail rfl rfl rfl
    | ok nb =>
      dsimp only
      refine .marked_bind (safe_neutral trivial rfl) ?_
      rintro fd _ rfl
      refine .marked_bind (safe_setfl hsaw) ?_
      rintro set _ rfl
      cases set with
      | error e => exact hfail rfl rfl rfl
      | ok u =>
        refine .ret ⟨{ v with pipe := update (update v.pipe 0 r) 1 w, content := none },
          ⟨rfl, fun _ => ⟨fun i => ?_, rfl⟩, fun h => absurd rfl h⟩, rfl⟩
        show update (update v.pipe 0 r) 1 w i ≠ -1
        by_cases hi : i = 1
        · rw [hi, Function.update_self]
          exact hw
        · rw [Function.update_of_ne hi, show i = 0 by omega, Function.update_self]
          exact hr

theorem safe_acquire {b : Bool} (hsaw : g.doing.saw = some (spe, b)) (hv : v.Good) :
    Safe t (stopEventPipeAcquire spe).marked (g.hold spe v) fun _ g' =>
      ∃ v' : View, v'.Good ∧ g' = g.hold spe v' := by
  have hcount {v' : View} (hv' : v'.Good) : Safe t (do
      let count ← load (.stopEventHandlerCount spe)
      store (.stopEventHandlerCount spe) (count + 1)
      return 0 : Sys Int).marked (g.hold spe v') fun _ g' => ∃ v' : View, v'.Good ∧ g' = g.hold spe v' := by
    refine .marked_bind (safe_neutral trivial rfl) ?_
    rintro n _ rfl
    refine .marked_bind (safe_neutral trivial rfl) ?_
    rintro _ _ rfl
    exact .ret ⟨v', hv', rfl⟩
  unfold stopEventPipeAcquire
  refine .marked_bind (safe_neutral trivial rfl) ?_
  rintro n _ rfl
  by_cases hn : n = 0
  · rw [if_pos hn]
    refine .marked_bind (safe_open hsaw) ?_
    rintro ret _ ⟨v₁, hopened, rfl⟩
    by_cases hret : ret = -1
    · rw [if_pos hret]
      obtain ⟨-, hcontent, hbuffer, hpipe⟩ := hopened.failed (by rw [hret]; decide)
      refine .ret ⟨v₁, ⟨?_, ?_, ?_⟩, rfl⟩
      · rcases hpipe with hpipe | hpipe
        · rw [hpipe]
          exact hv.pipe
        · exact .inl hpipe
      · rw [hopened.count, hcontent]
        exact hv.count
      · rw [hcontent, hbuffer]
        exact hv.buffer
    · rw [if_neg hret]
      obtain ⟨hpipe, hcontent⟩ := hopened.opened (Decidable.byContradiction fun h => hret (hopened.failed h).1)
      refine .marked_bind (safe_storeCount 0) ?_
      rintro _ _ rfl
      refine hcount ⟨.inr hpipe, ?_, ?_⟩
      · show (0 : Int) = if v₁.content.isSome then 1 else 0
        rw [hcontent]
        rfl
      · intro info hinfo
        rw [show v₁.content = some info from hinfo] at hcontent
        cases hcontent
  · rw [if_neg hn]
    exact hcount hv

theorem safe_release (hv : v.Good) : Safe t (stopEventPipeRelease spe).marked (g.hold spe v)
    fun _ g' => ∃ v' : View, v'.Good ∧ g' = g.hold spe v' := by
  unfold stopEventPipeRelease
  refine .marked_bind (safe_neutral trivial rfl) ?_
  rintro n _ rfl
  refine .marked_bind (safe_neutral trivial rfl) ?_
  rintro _ _ rfl
  refine .marked_bind (safe_neutral trivial rfl) ?_
  rintro n _ rfl
  split
  · refine .marked_bind safe_close ?_
    rintro _ _ rfl
    exact .ret ⟨{ v with pipe := fun _ => -1 }, ⟨.inl fun _ => rfl, hv.count, hv.buffer⟩, rfl⟩
  · exact .ret ⟨v, hv, rfl⟩

/-! ## Calls -/

/-- A thread that is in no read and no run, and may have a lock. -/
theorem Doing.content_other {d : Doing} {content : Option StopInfo} (hran : d.ran = none)
    (hreading : d.reading = false) : d.content spe content = content := by
  unfold Doing.content
  rw [hran, hreading]
  split <;> rfl

theorem Doing.left_other {d : Doing} {content : Option StopInfo} (hreading : d.reading = false) :
    d.left spe content = .nothing := by
  unfold Doing.left
  rw [if_neg]
  rintro ⟨-, h⟩
  rw [hreading] at h
  cases h

/-- What the content of the slot is after the locked step of a thread that saw the pipe open. -/
theorem Doing.content_open {d : Doing} {content : Option StopInfo} (hsaw : d.saw = some (spe, false)) :
    d.content spe content = content := by
  unfold Doing.content
  rw [hsaw, if_neg (by simp)]

theorem Doing.left_open {d : Doing} {content : Option StopInfo} (hsaw : d.saw = some (spe, false)) :
    d.left spe content = .nothing := by
  unfold Doing.left
  rw [hsaw, if_neg (by simp)]

theorem Doing.content_run {d : Doing} {content : Option StopInfo} {info : StopInfo}
    (hsaw : d.saw = some (spe, true)) (hran : d.ran = some info) : d.content spe content = some info := by
  unfold Doing.content
  rw [if_pos hsaw, hran]

theorem Doing.content_read {d : Doing} {content : Option StopInfo} (hsaw : d.saw = some (spe, true))
    (hran : d.ran = none) (hreading : d.reading) : d.content spe content = none := by
  unfold Doing.content
  rw [if_pos hsaw, hran]
  exact if_pos hreading

theorem Doing.left_read {d : Doing} {content : Option StopInfo} (hsaw : d.saw = some (spe, true))
    (hreading : d.reading) : d.left spe content = { Doing.nothing with due := some content } := if_pos ⟨hsaw, hreading⟩

/-- The unlock, where it is known what becomes of the slot and of the thread. -/
theorem safe_leave {content : Option StopInfo} {d : Doing} (hg : g.held = some (spe, v))
    (hcontent : g.doing.content spe v.content = content) (hleft : g.doing.left spe v.content = d)
    (hgood : ({ v with content := content } : View).Good) :
    Safe t (stopEventUnlock spe).marked g fun _ g' => g' = ⟨d, none, g.eagain⟩ := by
  rw [← hcontent] at hgood
  rw [← hleft]
  exact safe_unlock hg hgood

/-- The unlock of a step that has left the slot alone. -/
theorem safe_unlock_same (hcontent : g.doing.content spe v.content = v.content)
    (hleft : g.doing.left spe v.content = .nothing) (hv : v.Good) :
    Safe t (stopEventUnlock spe).marked (g.hold spe v) fun _ g' => g' = .idle := by
  exact safe_leave rfl hcontent hleft hv

/-- Registration for `SPE_EVENT_SPE_STOPPED`. -/
theorem registerSpeStopped_safe {h : Handler} {data : UInt64} :
    Safe t (registerSpeStopped h spe data).marked .idle fun _ g' => g' = .idle := by
  unfold registerSpeStopped
  refine .marked_bind (safe_lock rfl) ?_
  rintro _ _ ⟨v, hv, rfl⟩
  generalize hd : ({ Stage.idle.doing with saw := some (spe, decide (∀ i, v.pipe i = -1)) } : Doing) = d
  have hsaw : d.saw = some (spe, decide (∀ i, v.pipe i = -1)) := by rw [← hd]
  have hran : d.ran = none := by rw [← hd]; rfl
  have hreading : d.reading = false := by rw [← hd]; rfl
  have hunlock {v' : View} (hv' : v'.Good) (ret : Bool) : Safe t (do
      stopEventUnlock spe
      return ret : Sys Bool).marked (Stage.hold ⟨d, none, false⟩ spe v') fun _ g' => g' = .idle := by
    refine .marked_bind (safe_unlock_same (Doing.content_other hran hreading) (Doing.left_other hreading) hv') ?_
    rintro _ _ rfl
    exact .ret rfl
  refine .marked_bind (safe_acquire (g := ⟨d, none, false⟩) hsaw hv) ?_
  rintro ret _ ⟨v₁, hv₁, rfl⟩
  split
  · exact hunlock hv₁ false
  refine .marked_bind (safe_neutral trivial rfl) ?_
  rintro fd _ rfl
  refine .marked_bind (safe_neutral trivial rfl) ?_
  rintro _ _ rfl
  refine .marked_bind (safe_neutral trivial rfl) ?_
  rintro added _ rfl
  cases added with
  | ok u =>
    dsimp only
    refine .marked_bind (safe_neutral trivial rfl) ?_
    rintro _ _ rfl
    exact hunlock hv₁ true
  | error e =>
    dsimp only
    refine .marked_bind (safe_release hv₁) ?_
    rintro _ _ ⟨v₂, hv₂, rfl⟩
    exact hunlock hv₂ false

theorem deregisterSpeStopped_safe {h : Handler} :
    Safe t (deregisterSpeStopped h spe).marked .idle fun _ g' => g' = .idle := by
  unfold deregisterSpeStopped
  refine .marked_bind (safe_lock rfl) ?_
  rintro _ _ ⟨v, hv, rfl⟩
  generalize hd : ({ Stage.idle.doing with saw := some (spe, decide (∀ i, v.pipe i = -1)) } : Doing) = d
  have hran : d.ran = none := by rw [← hd]; rfl
  have hreading : d.reading = false := by rw [← hd]; rfl
  have hunlock {v' : View} (hv' : v'.Good) (ret : Bool) : Safe t (do
      stopEventUnlock spe
      return ret : Sys Bool).marked (Stage.hold ⟨d, none, false⟩ spe v') fun _ g' => g' = .idle := by
    refine .marked_bind (safe_unlock_same (Doing.content_other hran hreading) (Doing.left_other hreading) hv') ?_
    rintro _ _ rfl
    exact .ret rfl
  show Safe t _ (Stage.hold ⟨d, none, false⟩ spe v) _
  refine .marked_bind (safe_neutral trivial rfl) ?_
  rintro fd _ rfl
  refine .marked_bind (safe_neutral trivial rfl) ?_
  rintro removed _ rfl
  cases removed with
  | error e => exact hunlock hv false
  | ok u =>
    dsimp only
    refine .marked_bind (safe_neutral trivial rfl) ?_
    rintro _ _ rfl
    refine .marked_bind (safe_neutral trivial rfl) ?_
    rintro _ _ rfl
    refine .marked_bind (safe_release hv) ?_
    rintro _ _ ⟨v₂, hv₂, rfl⟩
    exact hunlock hv₂ true

theorem baseSpeOpenIfClosed_neutral {d : FdName} : (baseSpeOpenIfClosed spe d false).All Neutral := by
  show (do
    baseSpeContextLock spe d
    _ : Sys Fd).All _
  repeat' first
    | trivial
    | refine .bind (.perform trivial) fun _ => ?_
    | split

/-- The blocks of the other events have nothing to do with the pipe. -/
theorem registerSource_neutral {h : Handler} {k : EventType} {d : FdName} {out : Bool} {data : UInt64}
    {check : Sys Bool} (hcheck : check.All Neutral) :
    (registerSource h spe k d out data check).All Neutral := by
  refine .bind baseSpeOpenIfClosed_neutral fun fd => ?_
  split
  · trivial
  refine .bind hcheck fun ok => ?_
  split
  · refine .bind (.perform trivial) fun _ => .bind (.perform trivial) fun r => ?_
    cases r <;> trivial
  · trivial

theorem deregisterSource_neutral {h : Handler} {k : EventType} {d : FdName} :
    (deregisterSource h spe k d).All Neutral := by
  refine .bind baseSpeOpenIfClosed_neutral fun fd => ?_
  split
  · trivial
  refine .bind (.perform trivial) fun r => ?_
  cases r with
  | error e => trivial
  | ok u => exact .bind (.perform trivial) fun _ => trivial

/-- Blocks that leave the thread idle, one after the other. -/
theorem ifEvent_safe {events : UInt32} {k : EventType} {block : Sys Bool}
    (h : Safe t block.marked .idle fun _ g' => g' = .idle) :
    Safe t (ifEvent events k block).marked .idle fun _ g' => g' = .idle := by
  unfold ifEvent
  split
  · exact h
  · exact .ret rfl

theorem andThen_safe {block rest : Sys Bool} (hblock : Safe t block.marked .idle fun _ g' => g' = .idle)
    (hrest : Safe t rest.marked .idle fun _ g' => g' = .idle) :
    Safe t (andThen block rest).marked .idle fun _ g' => g' = .idle := by
  refine .marked_bind hblock ?_
  rintro ok _ rfl
  cases ok with
  | true => exact hrest
  | false => exact .ret rfl

theorem underContextLock_safe {blocks : Sys Bool}
    (h : Safe t blocks.marked .idle fun _ g' => g' = .idle) :
    Safe t (underContextLock spe blocks).marked .idle fun _ g' => g' = .idle := by
  refine .marked_bind (safe_neutral trivial rfl) ?_
  rintro _ _ rfl
  refine .marked_bind h ?_
  rintro ok _ rfl
  refine .marked_bind (safe_neutral trivial rfl) ?_
  rintro _ _ rfl
  exact .ret rfl

theorem fail_neutral {e : Errno} : (fail e).All Neutral :=
  .bind (p := perform (.setErrno e)) (.perform trivial) fun _ => trivial

theorem withEventArgs_safe {h : Option Handler} {ev : Option EventArg}
    {k : Handler → Spe → EventArg → Sys Int}
    (hk : ∀ h spe ev, Safe t (k h spe ev).marked .idle fun _ g' => g' = .idle) :
    Safe t (withEventArgs h ev k).marked .idle fun _ g' => g' = .idle := by
  have hfail (e : Errno) : Safe t (fail e).marked .idle fun _ g' => g' = .idle :=
    safe_neutral_all fail_neutral rfl
  unfold withEventArgs
  split
  · exact hfail _
  · exact hfail _
  · split
    · exact hfail _
    · refine .marked_bind (safe_neutral trivial rfl) ?_
      rintro fl _ rfl
      split
      · exact hfail _
      split
      · exact hfail _
      · exact hk ..

theorem register_safe {h : Option Handler} {ev : Option EventArg} :
    Safe t (eventSpeEventHandlerRegister h ev).marked .idle fun _ g' => g' = .idle := by
  refine withEventArgs_safe fun h spe ev => underContextLock_safe ?_
  refine andThen_safe (ifEvent_safe (safe_neutral_all (registerSource_neutral trivial) rfl)) ?_
  refine andThen_safe (ifEvent_safe (safe_neutral_all (registerSource_neutral trivial) rfl)) ?_
  refine andThen_safe (ifEvent_safe (safe_neutral_all (registerSource_neutral ?_) rfl))
    (ifEvent_safe registerSpeStopped_safe)
  refine .bind (.perform trivial) fun fl => ?_
  split
  · exact .bind (.perform trivial) fun _ => trivial
  · trivial

theorem deregister_safe {h : Option Handler} {ev : Option EventArg} :
    Safe t (eventSpeEventHandlerDeregister h ev).marked .idle fun _ g' => g' = .idle := by
  refine withEventArgs_safe fun h spe ev => underContextLock_safe ?_
  refine andThen_safe (ifEvent_safe (safe_neutral_all deregisterSource_neutral rfl)) ?_
  refine andThen_safe (ifEvent_safe (safe_neutral_all deregisterSource_neutral rfl)) ?_
  exact andThen_safe (ifEvent_safe (safe_neutral_all deregisterSource_neutral rfl))
    (ifEvent_safe deregisterSpeStopped_safe)

theorem copyEvents_neutral {h : Handler} {l : List (Fd × EpollEntry)} : (copyEvents h l).All Neutral := by
  induction l with
  | nil => trivial
  | cons e l ih =>
    exact .bind (.perform trivial) fun _ => .bind (.perform trivial) fun _ => .bind (.perform trivial) fun _ =>
      .bind (.perform trivial) fun _ => .bind (.perform trivial) fun _ => .bind ih fun _ => trivial

theorem wait_safe {h : Option Handler} {events : Bool} {maxEvents timeout : Int} :
    Safe t (eventSpeEventWait h events maxEvents timeout).marked .idle fun _ g' => g' = .idle := by
  refine safe_neutral_all ?_ rfl
  unfold eventSpeEventWait
  cases h with
  | none => exact .bind fail_neutral fun _ => trivial
  | some h =>
    dsimp only
    split
    · exact .bind fail_neutral fun _ => trivial
    refine .bind (.perform trivial) fun ok => ?_
    split
    · refine Prog.all_repeats.mpr fun _ => .bind (.perform trivial) fun r => ?_
      cases r with
      | error e =>
        cases e with
        | EINTR =>
          dsimp only
          split <;> trivial
        | _ => trivial
      | ok l => exact .bind copyEvents_neutral fun _ => trivial
    · trivial

theorem stopInfoReadRest_neutral {fd : Fd} {got : List UInt8} :
    (stopInfoReadRest fd got).All Neutral := by
  refine Prog.all_repeats.mpr fun got => ?_
  split
  · refine .bind (.perform trivial) fun r => ?_
    cases r with
    | error e => cases e <;> trivial
    | ok n =>
      dsimp only
      split
      · refine .bind (.perform trivial) fun r => ?_
        cases r with
        | error e => cases e <;> trivial
        | ok bytes => trivial
      · trivial
  · trivial

/-! ## Reading -/

/-- What a read leaves behind, which is what its mark looks at. -/
inductive Returned : Int × List UInt8 → Stage → Prop
  | opened (r : Int × List UInt8) : Returned r .idle
  | taken (info : StopInfo) :
      Returned (0, info.bytes) ⟨{ Doing.nothing with due := some (some info) }, none, false⟩
  | empty (bytes : List UInt8) : Returned (-1, bytes) ⟨{ Doing.nothing with due := some none }, none, true⟩

theorem safe_setErrno {e : Errno} (he : e = .EAGAIN) : Safe t (perform (.setErrno e)).marked
    (g.hold spe v) fun _ g' => g' = { g.hold spe v with eagain := true } := by
  refine Proto.Safe.observed fun γ s x hi hγ => ⟨trivial, fun r s' _ hs => ⟨_, ?_, rfl⟩⟩
  obtain rfl := Option.some.inj hs
  refine hi.step hγ ?_ (fun _ => ?_) (fun u hu => Function.update_of_ne hu ..) (fun _ => rfl) rfl ?_
    (fun _ _ => rfl) hi.answers hi.slots
  · show x.doing = update x.doing t g.doing
    rw [show g.doing = x.doing t by rw [hi.doing, hγ]; rfl, Function.update_eq_self]
  · rw [← he]
    exact Function.update_self ..
  · intro spe' w hw
    exact hi.known t spe' w (hγ ▸ hw)

theorem stopInfoRead_safe : Safe t (eventSpeStopInfoRead spe).marked
    ⟨{ Doing.nothing with reading := true }, none, false⟩ Returned := by
  unfold eventSpeStopInfoRead
  refine .marked_bind (safe_lock rfl) ?_
  rintro _ _ ⟨v, hv, rfl⟩
  show Safe t _ (Stage.hold ⟨⟨none, true, some (spe, decide (∀ i, v.pipe i = -1)), none⟩, none, false⟩ spe v) _
  refine .marked_bind (safe_loadPipe 0) ?_
  rintro fd _ ⟨rfl, rfl⟩
  by_cases hfd : v.pipe 0 = -1
  · have hclosed : ∀ i, v.pipe i = -1 := hv.pipe.resolve_right fun h => h 0 hfd
    rw [if_pos hfd, decide_eq_true hclosed]
    refine .marked_bind safe_loadCount ?_
    rintro n _ ⟨rfl, rfl⟩
    have hcount := hv.count
    cases hcontent : v.content with
    | none =>
      rw [hcontent] at hcount
      rw [if_neg (fun h => h hcount)]
      refine .marked_bind (safe_setErrno rfl) ?_
      rintro _ _ rfl
      refine .marked_bind (safe_leave rfl (Doing.content_read rfl rfl rfl) (Doing.left_read rfl rfl)
        ⟨.inl hclosed, hcount, nofun⟩) ?_
      rintro _ _ rfl
      rw [hcontent]
      exact .ret (.empty [])
    | some info =>
      rw [hcontent] at hcount
      have hone : v.count = 1 := hcount
      rw [if_pos (by rw [hone]; decide)]
      refine .marked_bind safe_loadBuffer ?_
      rintro buf _ ⟨rfl, rfl⟩
      refine .marked_bind (safe_storeCount _) ?_
      rintro _ _ rfl
      refine .marked_bind (safe_leave rfl (Doing.content_read rfl rfl rfl) (Doing.left_read rfl rfl)
        ⟨.inl hclosed, by show v.count - 1 = 0; rw [hone]; rfl, nofun⟩) ?_
      rintro _ _ rfl
      rw [hcontent, hv.buffer info hcontent]
      exact .ret (.taken info)
  · rw [if_neg hfd, decide_eq_false fun h => hfd (h 0)]
    have hunlock (ret : Int × List UInt8) : Safe t (do
        stopEventUnlock spe
        return ret : Sys (Int × List UInt8)).marked
          (Stage.hold ⟨⟨none, true, some (spe, false), none⟩, none, false⟩ spe v) Returned := by
      refine .marked_bind (safe_unlock_same (Doing.content_open rfl) (Doing.left_open rfl) hv) ?_
      rintro _ _ rfl
      exact .ret (.opened ret)
    refine .marked_bind (safe_neutral trivial rfl) ?_
    rintro bytes _ rfl
    cases bytes with
    | error e => exact hunlock (-1, [])
    | ok bytes =>
      dsimp only
      refine .marked_bind (safe_neutral_all stopInfoReadRest_neutral rfl) ?_
      rintro ⟨failed, got⟩ _ rfl
      dsimp only
      split
      · exact hunlock (-1, got)
      · refine .marked_bind (safe_neutral trivial rfl) ?_
        rintro _ _ rfl
        exact hunlock (0, got)

/-! ## Running -/

theorem contextRun_safe : Safe t (eventSpeContextRun spe).marked .idle fun _ g' => g' = .idle := by
  unfold eventSpeContextRun
  refine .marked_bind (safe_run rfl) ?_
  rintro ⟨rc, info⟩ _ rfl
  refine .marked_bind (safe_neutral trivial rfl) ?_
  rintro errno _ rfl
  refine .marked_bind (safe_lock rfl) ?_
  rintro _ _ ⟨v, hv, rfl⟩
  show Safe t _ (Stage.hold ⟨⟨some info, false, some (spe, decide (∀ i, v.pipe i = -1)), none⟩, none, false⟩ spe v) _
  refine .marked_bind (safe_loadPipe 1) ?_
  rintro fd _ ⟨rfl, rfl⟩
  by_cases hfd : v.pipe 1 = -1
  · have hclosed : ∀ i, v.pipe i = -1 := hv.pipe.resolve_right fun h => h 1 hfd
    rw [if_pos hfd, decide_eq_true hclosed]
    refine .marked_bind (safe_storeBuffer info) ?_
    rintro _ _ rfl
    refine .marked_bind (safe_storeCount 1) ?_
    rintro _ _ rfl
    refine .marked_bind (safe_leave rfl (Doing.content_run rfl rfl) (Doing.left_other rfl)
      ⟨.inl hclosed, rfl, fun _ h => Option.some.inj h⟩) ?_
    rintro _ _ rfl
    exact .ret rfl
  · rw [if_neg hfd, decide_eq_false fun h => hfd (h 1)]
    refine .marked_bind (safe_acquire (g := ⟨⟨some info, false, some (spe, false), none⟩, none, false⟩) rfl hv) ?_
    rintro ret _ ⟨v₁, hv₁, rfl⟩
    refine .marked_bind (safe_neutral trivial rfl) ?_
    rintro _ _ rfl
    refine .marked_bind (safe_unlock_same (Doing.content_open rfl) (Doing.left_open rfl) hv₁) ?_
    rintro _ _ rfl
    refine .marked_bind (safe_neutral trivial rfl) ?_
    rintro written _ rfl
    refine .marked_bind (safe_lock rfl) ?_
    rintro _ _ ⟨v₂, hv₂, rfl⟩
    refine .marked_bind (safe_neutral trivial rfl) ?_
    rintro _ _ rfl
    refine .marked_bind (safe_release (g := ⟨⟨none, false, some (spe, _), none⟩, none, false⟩) hv₂) ?_
    rintro _ _ ⟨v₃, hv₃, rfl⟩
    refine .marked_bind (safe_unlock_same (Doing.content_other rfl rfl) (Doing.left_other rfl) hv₃) ?_
    rintro _ _ rfl
    refine .marked_bind (safe_neutral trivial rfl) ?_
    rintro _ _ rfl
    exact .ret rfl

/-! ## All interleavings -/

theorem asks_safe : Safe t (Prog.mark .asks) .idle fun _ g' =>
    g' = ⟨{ Doing.nothing with reading := true }, none, false⟩ := by
  refine Proto.Safe.mark fun γ s x hi hγ => ⟨trivial, _, ?_, rfl⟩
  exact hi.step hγ rfl nofun (fun _ _ => rfl) (fun _ => rfl) rfl nofun (fun _ _ => rfl) hi.answers hi.slots

theorem returns_safe {r : Int × List UInt8} (h : Returned r g) :
    Safe t (Prog.mark (.returns spe r.1 r.2)) g fun _ g' => g' = .idle := by
  refine Proto.Safe.mark fun γ s x hi hγ => ⟨trivial, _, ?_, rfl⟩
  have hheld : g.held = none := by cases h <;> rfl
  have hdue : (x.doing t).due = g.doing.due := by rw [hi.doing, hγ]
  have hstep {answers : List Answer} (ha : ∀ a ∈ answers, a.Right) : Inv (update γ t .idle) s
      { x.setDoing t .nothing with answers := answers } := by
    refine hi.step hγ rfl nofun (fun _ _ => rfl) (fun _ => rfl) ?_ nofun (fun _ _ => rfl) ha hi.slots
    rw [hheld]
    rfl
  have hsame (hnone : (x.doing t).due = none) :
      seeMark t (.returns spe r.1 r.2) s x = x.setDoing t .nothing := by
    show (match (x.doing t).due with | some _ => _ | none => _) = _
    rw [hnone]
  have hmore {slot : Option StopInfo} (hsome : (x.doing t).due = some slot) :
      seeMark t (.returns spe r.1 r.2) s x = { x.setDoing t .nothing with
        answers := x.answers ++ [⟨spe, slot, r.1, r.2, s.errno t⟩] } := by
    show (match (x.doing t).due with | some _ => _ | none => _) = _
    rw [hsome]
  have hsnoc {a : Answer} (ha : a.Right) : ∀ a' ∈ x.answers ++ [a], a'.Right :=
    List.forall_mem_append.mpr ⟨hi.answers, List.forall_mem_singleton.mpr ha⟩
  show Inv _ s (seeMark t (.returns spe r.1 r.2) s x)
  cases h with
  | opened =>
    rw [hsame hdue]
    exact hstep hi.answers
  | taken info =>
    rw [hmore hdue]
    exact hstep (hsnoc (show 0 = 0 ∧ _ from ⟨rfl, rfl⟩))
  | empty bytes =>
    rw [hmore hdue]
    have herrno : s.errno t = .EAGAIN := hi.eagain t (by rw [hγ])
    exact hstep (hsnoc (show -1 = -1 ∧ _ from ⟨rfl, herrno⟩))

theorem code_safe (t : Tid) (c : EventCall) : Safe t (code t c) .idle fun _ g' => g' = .idle := by
  have drop {α : Type} {p : Sys α} (hp : Safe t p.marked .idle fun _ g' => g' = .idle) :
      Safe t (do let _ ← p : Sys Unit).marked .idle fun _ g' => g' = .idle := .marked_bind hp fun _ _ h => h
  cases c with
  | register h ev => exact drop register_safe
  | deregister h ev => exact drop deregister_safe
  | wait h events maxEvents timeout => exact drop wait_safe
  | run spe => exact drop contextRun_safe
  | stopInfoRead spe =>
    refine .bind asks_safe ?_
    rintro _ _ rfl
    exact .bind stopInfoRead_safe fun r g' hr => returns_safe hr

theorem init_inv {y : World × Seen} (h : observedSystem.init y) : proto.inv (fun _ => .idle) y := by
  obtain ⟨s, x⟩ := y
  obtain ⟨hs, rfl⟩ := h
  constructor
  · exact fun _ => rfl
  · nofun
  · intro t spe
    rw [hs.owner]
    exact iff_of_false nofun nofun
  · nofun
  · intro spe _
    exact ⟨.inl fun i => hs.pipe spe i, hs.buffer spe, nofun⟩
  · nofun
  · exact fun _ => Slot.sound_empty

/-- **The last stop info**, in every state that any number of threads can reach: each read whose locked
step finds the pipe closed returns the stop info in the slot, which is that of the latest run whose locked
step found it closed, unless it was taken or the pipe was opened since; or it fails with `EAGAIN` where
there is none. The stop infos returned so are among those put there, each once and in their order. -/
theorem stop_info_slot {cfg : Conc.Config (Marked Cmd Mark) (Marked.Ans Ans) Tid (World × Seen)}
    (h : observedSystem.Reachable cfg) :
    (∀ a ∈ cfg.shared.2.answers, a.Right) ∧
      ∀ spe, (cfg.shared.2.slots spe).taken.Sublist (cfg.shared.2.slots spe).put := by
  obtain ⟨γ, hi, -⟩ := Proto.reach (P := proto) (S := observedSystem) (fun _ => init_inv)
    (fun t c => code_safe t c) h
  exact ⟨hi.answers, fun spe => (hi.slots spe).taken⟩

/-- Exchanges without marks. -/
def unmarked (tr : List (Sigma Ans)) : List (Sigma (Marked.Ans (K := Mark) Ans)) :=
  tr.map fun x => ⟨.cmd x.1, x.2⟩

/-- A run of context `0`, which has no pipe. -/
def runClosed : List (Sigma (Marked.Ans (K := Mark) Ans)) :=
  unmarked [⟨.baseRun 0, (0, .fill 1)⟩, ⟨.errno, Errno.EINVAL⟩, ⟨.lock (.stopEventLock 0), ()⟩,
    ⟨.load (.stopEventPipe 0 1), (-1 : Int)⟩, ⟨.storeBuffer 0 (.fill 1), ()⟩,
    ⟨.store (.stopEventBufferCount 0) 1, ()⟩, ⟨.unlock (.stopEventLock 0), ()⟩]

/-- A read of its stop info. -/
def readClosed : List (Sigma (Marked.Ans (K := Mark) Ans)) :=
  ⟨.mark .asks, ()⟩ :: unmarked [⟨.lock (.stopEventLock 0), ()⟩, ⟨.load (.stopEventPipe 0 0), (-1 : Int)⟩,
    ⟨.load (.stopEventBufferCount 0), (1 : Int)⟩, ⟨.loadBuffer 0, StopInfo.fill 1⟩,
    ⟨.store (.stopEventBufferCount 0) 0, ()⟩, ⟨.unlock (.stopEventLock 0), ()⟩] ++
    [⟨.mark (.returns 0 0 (StopInfo.fill 1).bytes), ()⟩]

/-- The configuration in which it has been read. -/
def closedConfig : Conc.Config (Marked Cmd Mark) (Marked.Ans Ans) Tid (World × Seen) :=
  let ran := (observedSystem.play 1 runClosed (World.boot, .start)).getD (World.boot, .start)
  ⟨(observedSystem.play 2 readClosed ran).getD ran, fun _ => none⟩

theorem closed_reach : observedSystem.Reachable closedConfig := by
  have h₀ : observedSystem.Reachable ⟨(World.boot, Seen.start), fun _ => none⟩ := .init ⟨eventInit_boot, rfl⟩
  have h₁ := h₀.solo (t := 1) (c := EventCall.run 0) rfl
    (by repeat first | exact .ret | refine .cmd ?_)
    (show observedSystem.play 1 runClosed _ = some _ from rfl)
    (observedSystem.passes_of_forall (fun _ _ _ _ => trivial) ..)
  refine h₁.solo (t := 2) (c := EventCall.stopInfoRead 0) rfl ?_
    (show observedSystem.play 2 readClosed _ = some _ from rfl)
    (observedSystem.passes_of_forall (fun _ _ _ _ => trivial) ..)
  repeat first | exact .ret | refine .cmd ?_

theorem stop_info_slot_read : (∀ a ∈ closedConfig.shared.2.answers, a.Right) ∧
    closedConfig.shared.2.answers = [⟨0, some (.fill 1), 0, (StopInfo.fill 1).bytes, Errno.EINVAL⟩] :=
  ⟨(stop_info_slot closed_reach).1, rfl⟩

end StopBuffer

end LibSpe2
