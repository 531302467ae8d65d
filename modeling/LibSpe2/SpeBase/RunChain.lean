import LibSpe2.Conc.Phase
import LibSpe2.Data.Linked
import LibSpe2.SpeBase.RunResume

/-!
# The chain of active contexts (`spebase/run.c`)

Each `_base_spe_context_run` puts a record on its stack into a list that starts at the thread's
`__spe_current_active_context`, for the debugger. A library callback may call it again, so the runs of
a thread are nested; and a run may end by being unwound, which leaves the pop to the cleanup of the record.

* `chainExec` — what a run does to the list.
* `Step` — a thread with its runs, the innermost first: calls, steps, returns and unwinding in any order.
* `Phase` — how far a run is with its record, `contextRun_fits` — the order in which the code goes through
  them.

Main result:
* `chain_law` — what a debugger finds, at every moment of every such thread.
-/

namespace LibSpe2.Run

open Conc Function

/-! ## The list -/

/-- The address of a record. -/
abbrev Addr := Nat

/-- `struct spe_context_info`. -/
structure SpeContextInfo where
  speId : Int
  npc : UInt32
  status : UInt32
  prev : Option Addr

/-- `__spe_current_active_context` and the memory that holds the records. -/
structure Debug where
  active : Option Addr
  info : Addr → SpeContextInfo

namespace Debug

variable (s : Debug)

/-- The records that a debugger finds. -/
def Chain (l : List Addr) : Prop := Linked (fun a => (s.info a).prev) s.active l

/-- Store to the members of a record. -/
def modify (a : Addr) (f : SpeContextInfo → SpeContextInfo) : Debug :=
  { s with info := update s.info a (f (s.info a)) }

/-- Leave a trail of breadcrumbs for the debugger to follow. -/
def push (this : Addr) : Debug :=
  match s.active with
  | none => { (s.modify this fun i => { i with prev := none }) with active := some this }
  | some newest => { (s.modify this fun i => { i with prev := some newest }) with active := some this }

end Debug

/-- The effect on the list of a command of the run with the record at `this`; following a null pointer has
none. -/
def chainExec (this : Addr) : (c : Cmd) → Ans c → Debug → Option Debug
  | .enterActive speId, _, s =>
    let s := s.push this
    s.active.map fun a => s.modify a fun i => { i with speId := speId }
  | .activeNpc npc, _, s => s.active.map fun a => s.modify a fun i => { i with npc := npc }
  | .activeStatus status, _, s => s.active.map fun a => s.modify a fun i => { i with status := status }
  | .freespeinfo, _, s => s.active.map fun a => { s with active := (s.info a).prev }
  | .cleanupspeinfo, _, s => some { s with active := (s.info this).prev }
  | _, _, s => some s

/-! ## Nested runs -/

/-- A run that has not ended: its record, the list when it was called, and what is left of it. -/
structure Active where
  this : Addr
  entry : Debug
  rest : Code Result

/-- A thread: the list, and its runs, the innermost first. -/
structure Nest where
  debug : Debug
  runs : List Active

/-- The run is in a library callback. -/
def Active.InCallback (f : Active) : Prop :=
  ∃ callnum npc k, f.rest = .cmd (.handleLibraryCallback callnum npc) k

/-- The run is in `spu_run`. -/
def Active.InSpuRun (f : Active) : Prop := ∃ npc k, f.rest = .cmd (.spuRun npc) k

/-- What can happen next. -/
inductive Step : Nest → Nest → Prop
  /-- The first run, or one from a callback; its record is not that of another run. -/
  | call {s : Debug} {fs : List Active} (this : Addr) (spe : Context)
      (entry emulatedEntry runflags : UInt32) (argp envp : UInt64)
      (hfrom : ∀ f ∈ fs.head?, f.InCallback) (hnew : ∀ f ∈ fs, f.this ≠ this) :
      Step ⟨s, fs⟩ ⟨s, ⟨this, s, contextRun spe entry emulatedEntry runflags argp envp⟩ :: fs⟩
  /-- A command of the innermost run, with any answer. -/
  | act {s s' : Debug} {fs : List Active} {this : Addr} {entry : Debug} {c : Cmd} {k : Ans c → Code Result}
      {r : Ans c} (hs : chainExec this c r s = some s') :
      Step ⟨s, ⟨this, entry, .cmd c k⟩ :: fs⟩ ⟨s', ⟨this, entry, k r⟩ :: fs⟩
  | unroll {s : Debug} {fs : List Active} {this : Addr} {entry : Debug} {ι β : Type}
      {body : ι → Code (ι ⊕ β)} {i : ι} {k : β → Code Result} :
      Step ⟨s, ⟨this, entry, .loop body i k⟩ :: fs⟩ ⟨s, ⟨this, entry, (body i).bind (Prog.next body k)⟩ :: fs⟩
  | ret {s : Debug} {fs : List Active} {this : Addr} {entry : Debug} {res : Result} :
      Step ⟨s, ⟨this, entry, .ret res⟩ :: fs⟩ ⟨s, fs⟩
  /-- The innermost run is unwound out of `spu_run` or a callback. -/
  | unwind {s s' : Debug} {fs : List Active} {f : Active} (hin : f.InSpuRun ∨ f.InCallback)
      (hs : chainExec f.this .cleanupspeinfo () s = some s') : Step ⟨s, f :: fs⟩ ⟨s', fs⟩
  /-- Memory that is no record of a run is used for something else. -/
  | reuse {s : Debug} {fs : List Active} {info : Addr → SpeContextInfo}
      (hinfo : ∀ f ∈ fs, info f.this = s.info f.this) : Step ⟨s, fs⟩ ⟨{ s with info := info }, fs⟩

/-- What a thread comes to that starts without a run. -/
inductive Reached : Nest → Prop
  | init {info : Addr → SpeContextInfo} : Reached ⟨⟨none, info⟩, []⟩
  | step {n n' : Nest} (h : Reached n) (hs : Step n n') : Reached n'

/-! ## The phases of a run -/

/-- How far a run is with its record. -/
inductive Phase where
  | setup | active | popped | done
  deriving DecidableEq

/-- The phase after a command, if it may be issued. -/
def Phase.next : Cmd → Phase → Option Phase
  | .readUserRegs, .setup => some .setup
  | .storeTrampoline _, .setup => some .setup
  | .enterActive _, .setup => some .active
  | .activeNpc _, .active => some .active
  | .activeStatus _, .active => some .active
  | .spuRun _, .active => some .active
  | .handleLibraryCallback _ _, .active => some .active
  | .programLoadComplete, .active => some .active
  | .storeRunCntl _, .active => some .active
  | .setErrno _, .active => some .active
  | .freespeinfo, .active => some .popped
  | .cleanupspeinfo, .popped => some .done
  | _, _ => none

def phaseMachine : Machine Cmd Ans Unit Phase := ⟨fun _ c _ => Phase.next c⟩

def phaseProto : Proto Cmd Unit Phase Phase where
  idle := .setup
  inv γ g := γ () = g
  pre _ c g := (Phase.next c g).isSome

/-- What is left of a run goes through the phases from `g` on. -/
abbrev Fits {α : Type} (p : Code α) (g : Phase) (Q : α → Phase → Prop) : Prop :=
  Proto.Safe phaseMachine (System.always Cmd Ans Unit Phase) phaseProto () p g Q

variable {α : Type} {g g' : Phase} {spe : Context} {runflags : UInt32}

theorem fits_cmd {c : Cmd} {k : Ans c → Code α} {Q : α → Phase → Prop} :
    Fits (.cmd c k) g Q ↔ ∃ g', Phase.next c g = some g' ∧ ∀ r, Fits (k r) g' Q := by
  constructor
  · intro h
    obtain ⟨hpre, hk⟩ := h (fun _ => g) g rfl rfl
    obtain ⟨g', hg'⟩ := Option.isSome_iff_exists.mp hpre
    refine ⟨g', hg', fun r => ?_⟩
    obtain ⟨g'', hinv, hfits⟩ := hk r g' trivial hg'
    obtain rfl : g'' = g' := by simpa [phaseProto] using hinv
    exact hfits
  · rintro ⟨g', hg', hk⟩ γ s hinv hγ
    obtain rfl : g = s := hγ.symm.trans hinv
    refine ⟨Option.isSome_iff_exists.mpr ⟨g', hg'⟩, fun r s' _ hs => ?_⟩
    obtain rfl := Option.some.inj (hg'.symm.trans hs)
    exact ⟨g', by simp [phaseProto], hk r⟩

theorem fits_perform {c : Cmd} (h : Phase.next c g = some g') :
    Fits (perform c) g fun _ g'' => g'' = g' := fits_cmd.mpr ⟨g', h, fun _ => rfl⟩

/-- The commands of a round. -/
def Cmd.OfRound (c : Cmd) : Prop := Phase.next c .active = some .active

theorem doRun_ofRound (f : Frame) : (doRun spe runflags f).All Cmd.OfRound := by
  have hrest (run : SpuRun) : (afterRun spe runflags run f).All Cmd.OfRound := by
    apply (afterRun_all run f).imp
    intro c hc
    cases c with
    | readUserRegs | storeTrampoline | enterActive | spuRun | freespeinfo | cleanupspeinfo => exact hc.elim
    | _ => rfl
  exact ⟨rfl, fun _ => ⟨rfl, hrest⟩⟩

theorem fits_setupArguments {tmpEntry : UInt32} {argp envp : UInt64} :
    Fits (setupArguments spe runflags tmpEntry argp envp) .setup fun x g => x.1 = 0 ∧ g = .setup := by
  have hregs : Fits (startRegs spe runflags tmpEntry argp envp) .setup fun _ g => g = .setup := by
    unfold startRegs
    dsimp only
    split
    · apply Proto.Safe.bind (fits_perform rfl)
      rintro x g rfl
      rfl
    · rfl
  unfold setupArguments
  split
  · apply Proto.Safe.bind hregs
    rintro regs g rfl
    apply Proto.Safe.bind (fits_perform rfl)
    rintro u g rfl
    exact ⟨rfl, rfl⟩
  · exact ⟨rfl, rfl⟩

/-- **The order of the code**: a run pushes its record, makes its rounds, pops the record, and lets the cleanup pop
it again. -/
theorem contextRun_fits (spe : Context) (entry emulatedEntry runflags : UInt32) (argp envp : UInt64) :
    Fits (contextRun spe entry emulatedEntry runflags argp envp) .setup fun _ g => g = .done := by
  apply Proto.Safe.bind fits_setupArguments
  rintro ⟨rc, start⟩ g ⟨hrc, rfl⟩
  obtain rfl : rc = 0 := hrc
  apply Proto.Safe.bind (fits_perform rfl)
  rintro u g rfl
  have hrounds : Fits (Prog.repeats (doRun spe runflags) ⟨start, entry, emulatedEntry, .untouched⟩) .active
      fun _ g => g = .active := by
    apply Proto.Safe.repeats (fun _ g => g = .active) rfl
    rintro f g rfl
    apply Proto.Safe.mono (Proto.Safe.all (doRun_ofRound f) fun c hc => fits_perform hc)
    rintro x g rfl
    cases x <;> rfl
  apply Proto.Safe.bind hrounds
  rintro res g rfl
  apply Proto.Safe.bind (fits_perform rfl)
  rintro u g rfl
  apply Proto.Safe.bind (fits_perform rfl)
  rintro u g rfl
  rfl

/-! ## The list in each phase -/

variable {s s' : Debug} {this : Addr} {outer l : List Addr}

theorem Debug.Chain.modify {f : SpeContextInfo → SpeContextInfo} {a : Addr} (h : s.Chain l)
    (hf : (f (s.info a)).prev = (s.info a).prev) : (s.modify a f).Chain l := by
  apply Linked.congr h
  intro b _
  by_cases hb : b = a
  · subst hb
    simpa [Debug.modify] using hf
  · simp [Debug.modify, hb]

/-- The list during a run: its record is on top of the enclosing ones while the run is active, and popping it
again makes no difference. -/
structure Holds (g : Phase) (this : Addr) (outer : List Addr) (s : Debug) : Prop where
  chain : s.Chain (if g = .active then this :: outer else outer)
  fresh : this ∉ outer
  again : g = .popped → (s.info this).prev = s.active

theorem Holds.top (h : Holds .active this outer s) :
    s.active = some this ∧ Linked (fun a => (s.info a).prev) (s.info this).prev outer := h.chain

theorem Debug.push_eq : s.push this =
    { (s.modify this fun i => { i with prev := s.active }) with active := some this } := by
  unfold push
  cases hactive : s.active with
  | none => rfl
  | some newest => rfl

theorem Holds.push (h : Holds .setup this outer s) (speId : Int) :
    Holds .active this outer ((s.push this).modify this fun i => { i with speId := speId }) := by
  have hchain : (s.push this).Chain (this :: outer) := by
    rw [Debug.push_eq]
    refine ⟨rfl, ?_⟩
    have hprev : (update s.info this { s.info this with prev := s.active } this).prev = s.active := by
      rw [update_self]
    show Linked _ (update s.info this { s.info this with prev := s.active } this).prev outer
    rw [hprev]
    apply Linked.congr h.chain
    intro a ha
    show (update s.info this _ a).prev = _
    have hne : a ≠ this := fun heq => h.fresh (heq ▸ ha)
    rw [update_of_ne hne]
  exact ⟨hchain.modify rfl, h.fresh, nofun⟩

theorem Holds.pop (h : Holds .active this outer s) :
    Holds .popped this outer { s with active := (s.info this).prev } :=
  ⟨h.top.2, h.fresh, fun _ => rfl⟩

theorem Holds.cleanup (h : Holds .popped this outer s) : chainExec this .cleanupspeinfo () s = some s := by
  show some { s with active := (s.info this).prev } = some s
  rw [h.again rfl]

theorem Holds.modify (h : Holds .active this outer s) {f : SpeContextInfo → SpeContextInfo}
    (hf : ∀ i, (f i).prev = i.prev) : Holds .active this outer (s.modify this f) :=
  ⟨h.chain.modify (hf _), h.fresh, nofun⟩

/-- **One command** of a run in phase `g`: no null pointer is followed, and the list is that of the next phase. -/
theorem Holds.exec {c : Cmd} (h : Holds g this outer s) (hg : Phase.next c g = some g') (r : Ans c) :
    ∃ s', chainExec this c r s = some s' ∧ Holds g' this outer s' := by
  have hstore (f : SpeContextInfo → SpeContextInfo) (h : Holds .active this outer s) :
      s.active.map (fun a => s.modify a f) = some (s.modify this f) := by
    rw [h.top.1]
    rfl
  cases c with
  | enterActive speId =>
    cases g with
    | setup =>
      obtain rfl := Option.some.inj hg
      refine ⟨_, ?_, h.push speId⟩
      have hactive : (s.push this).active = some this := by rw [Debug.push_eq]
      show (s.push this).active.map _ = _
      rw [hactive]
      rfl
    | _ => cases hg
  | activeNpc npc =>
    cases g with
    | active =>
      obtain rfl := Option.some.inj hg
      exact ⟨_, hstore _ h, h.modify fun _ => rfl⟩
    | _ => cases hg
  | activeStatus status =>
    cases g with
    | active =>
      obtain rfl := Option.some.inj hg
      exact ⟨_, hstore _ h, h.modify fun _ => rfl⟩
    | _ => cases hg
  | freespeinfo =>
    cases g with
    | active =>
      obtain rfl := Option.some.inj hg
      refine ⟨_, ?_, h.pop⟩
      show s.active.map _ = _
      rw [h.top.1]
      rfl
    | _ => cases hg
  | cleanupspeinfo =>
    cases g with
    | popped =>
      obtain rfl := Option.some.inj hg
      exact ⟨s, h.cleanup, h.chain, h.fresh, nofun⟩
    | _ => cases hg
  | readUserRegs | storeTrampoline | spuRun | handleLibraryCallback | programLoadComplete | storeRunCntl |
    setErrno =>
    refine ⟨s, rfl, ?_⟩
    cases g with
    | setup | active =>
      cases hg
      try exact h
    | _ => cases hg

/-! ## The runs of a thread -/

/-- The records of runs. -/
def records (fs : List Active) : List Addr := fs.map Active.this

/-- The runs that enclose the innermost one: each is in a callback, and the list when it was called was that of
the runs that enclose it. -/
def Enclosing : List Active → Prop
  | [] => True
  | f :: fs => f.InCallback ∧ Fits f.rest .active (fun _ g => g = .done) ∧ f.entry.Chain (records fs) ∧
    f.this ∉ records fs ∧ Enclosing fs

/-- The innermost run is in some phase, with the list of that phase. -/
def Inv (n : Nest) : Prop :=
  match n.runs with
  | [] => n.debug.Chain []
  | f :: fs => ∃ g, Fits f.rest g (fun _ g => g = .done) ∧ Holds g f.this (records fs) n.debug ∧
    f.entry.Chain (records fs) ∧ Enclosing fs

/-- Back in the callback of an enclosing run. -/
theorem Enclosing.resumes {fs : List Active} (h : Enclosing fs) (hs : s.Chain (records fs)) : Inv ⟨s, fs⟩ := by
  cases fs with
  | nil => exact hs
  | cons f fs =>
    obtain ⟨-, hfits, hentry, hfresh, hrest⟩ := h
    exact ⟨.active, hfits, ⟨hs, hfresh, nofun⟩, hentry, hrest⟩

/-- A run that is in `spu_run` or in a callback is active. -/
theorem Fits.busy {f : Active} (hfits : Fits f.rest g fun _ g => g = .done) (h : f.InSpuRun ∨ f.InCallback) :
    g = .active := by
  obtain ⟨npc, k, hrest⟩ | ⟨callnum, npc, k, hrest⟩ := h
  all_goals
    rw [hrest] at hfits
    obtain ⟨g', hg', -⟩ := fits_cmd.mp hfits
    cases g with
    | active => rfl
    | _ => cases hg'

/-- A run that returns has restored the list. -/
theorem Holds.returned (h : Holds .done this outer s) : s.Chain outer := h.chain

/-- A run that is unwound restores the list. -/
theorem Holds.unwound (h : Holds .active this outer s)
    (hs : chainExec this .cleanupspeinfo () s = some s') : s'.Chain outer := by
  obtain rfl := Option.some.inj hs
  exact h.top.2

theorem Holds.reuse {info : Addr → SpeContextInfo} (h : Holds g this outer s)
    (hinfo : ∀ a ∈ this :: outer, info a = s.info a) : Holds g this outer { s with info := info } := by
  obtain ⟨hthis, houter⟩ := List.forall_mem_cons.mp hinfo
  refine ⟨?_, h.fresh, fun hg => ?_⟩
  · apply Linked.congr h.chain
    intro a ha
    have hmem : a ∈ this :: outer := by
      split at ha
      · exact ha
      · exact List.mem_cons_of_mem _ ha
    show (info a).prev = _
    rw [hinfo a hmem]
  · show (info this).prev = s.active
    rw [hthis]
    exact h.again hg

/-- While the innermost run is in `spu_run` or in a callback, the list is that of all runs. -/
theorem Inv.nested {n : Nest} (h : Inv n) (hbusy : ∀ f ∈ n.runs.head?, f.InSpuRun ∨ f.InCallback) :
    n.debug.Chain (records n.runs) := by
  obtain ⟨s, fs⟩ := n
  cases fs with
  | nil => exact h
  | cons f fs =>
    obtain ⟨g, hfits, hholds, -⟩ := h
    obtain rfl := hfits.busy (hbusy f rfl)
    exact hholds.chain

/-- **Calls**: the new run starts with a record of which nothing is known. -/
theorem Inv.call {fs : List Active} (h : Inv ⟨s, fs⟩) (hfrom : ∀ f ∈ fs.head?, f.InCallback)
    (hnew : ∀ f ∈ fs, f.this ≠ this) (spe : Context) (entry emulatedEntry runflags : UInt32) (argp envp : UInt64) :
    Inv ⟨s, ⟨this, s, contextRun spe entry emulatedEntry runflags argp envp⟩ :: fs⟩ := by
  have hchain : s.Chain (records fs) := h.nested fun f hf => .inr (hfrom f hf)
  have hfresh : this ∉ records fs := by
    intro hmem
    obtain ⟨f, hf, hthis⟩ := List.mem_map.mp hmem
    exact hnew f hf hthis
  have henclosing : Enclosing fs := by
    cases fs with
    | nil => trivial
    | cons f fs =>
      obtain ⟨g, hfits, hholds, hentry, hrest⟩ := h
      have hin := hfrom f rfl
      obtain rfl := hfits.busy (.inr hin)
      exact ⟨hin, hfits, hentry, hholds.fresh, hrest⟩
  exact ⟨.setup, contextRun_fits .., ⟨hchain, hfresh, nofun⟩, hchain, henclosing⟩

theorem Inv.step {n n' : Nest} (h : Inv n) (hs : Step n n') : Inv n' := by
  cases hs with
  | call this spe entry emulatedEntry runflags argp envp hfrom hnew => exact h.call hfrom hnew ..
  | @act s s' fs this entry c k r hexec =>
    obtain ⟨g, hfits, hholds, hentry, hrest⟩ := h
    obtain ⟨g', hg', hk⟩ := fits_cmd.mp hfits
    obtain ⟨s₁, hs₁, hholds'⟩ := hholds.exec hg' r
    obtain rfl := Option.some.inj (hs₁.symm.trans hexec)
    exact ⟨g', hk r, hholds', hentry, hrest⟩
  | unroll =>
    obtain ⟨g, hfits, hinv⟩ := h
    exact ⟨g, hfits.unroll, hinv⟩
  | ret =>
    obtain ⟨g, hfits, hholds, -, hrest⟩ := h
    obtain rfl : g = .done := hfits
    exact hrest.resumes hholds.returned
  | unwind hin hexec =>
    obtain ⟨g, hfits, hholds, -, hrest⟩ := h
    obtain rfl := hfits.busy hin
    exact hrest.resumes (hholds.unwound hexec)
  | @reuse s fs info hinfo =>
    cases fs with
    | nil => exact h
    | cons f fs =>
      obtain ⟨g, hfits, hholds, hinv⟩ := h
      refine ⟨g, hfits, hholds.reuse ?_, hinv⟩
      intro a ha
      obtain ⟨f', hf', rfl⟩ := List.mem_map.mp (show a ∈ (f :: fs).map Active.this from ha)
      exact hinfo f' hf'

theorem Reached.inv {n : Nest} (h : Reached n) : Inv n := by
  induction h with
  | init => rfl
  | step _ hs ih => exact ih.step hs

/-! ## The law -/

/-- What a debugger finds in the list. -/
structure ChainLaw (n : Nest) : Prop where
  /-- During `spu_run` and callbacks: the innermost run, then exactly those that enclose it. -/
  nested : ∀ f ∈ n.runs.head?, f.InSpuRun ∨ f.InCallback → n.debug.Chain (records n.runs)
  /-- When a run ends, however that is: the records that were there at its call. -/
  balanced : ∀ f fs s', n.runs = f :: fs → Step n ⟨s', fs⟩ → ∃ l, f.entry.Chain l ∧ s'.Chain l
  /-- At every moment: records of runs that have not ended. -/
  live : ∃ l, n.debug.Chain l ∧ ∀ a ∈ l, ∃ f ∈ n.runs, f.this = a
  /-- A run never follows a null pointer. -/
  defined : ∀ f fs c k, n.runs = f :: fs → f.rest = .cmd c k →
    ∀ r, (chainExec f.this c r n.debug).isSome

/-- **The chain of active contexts**, in everything that a thread comes to by calls, steps, returns and
unwinding. -/
theorem chain_law {n : Nest} (h : Reached n) : ChainLaw n := by
  have hinv := h.inv
  constructor
  · intro f hf hbusy
    apply hinv.nested
    intro f' hf'
    obtain rfl := Option.some.inj (hf.symm.trans hf')
    exact hbusy
  · intro f fs s' hruns hstep
    have hafter : Inv ⟨s', fs⟩ := hinv.step hstep
    obtain ⟨s, runs⟩ := n
    obtain rfl := hruns
    obtain ⟨g, -, -, hentry, hrest⟩ := hinv
    refine ⟨records fs, hentry, hafter.nested fun f' hf' => .inr ?_⟩
    cases fs with
    | nil => cases hf'
    | cons f₁ fs =>
      obtain rfl := Option.some.inj hf'
      exact hrest.1
  · obtain ⟨s, fs⟩ := n
    cases fs with
    | nil => exact ⟨[], hinv, nofun⟩
    | cons f fs =>
      obtain ⟨g, hfits, hholds, -⟩ := hinv
      refine ⟨_, hholds.chain, fun a ha => ?_⟩
      have hmem : a ∈ records (f :: fs) := by
        split at ha
        · exact ha
        · exact List.mem_cons_of_mem _ ha
      exact List.mem_map.mp hmem
  · intro f fs c k hruns hrest r
    obtain ⟨s, runs⟩ := n
    obtain rfl := hruns
    obtain ⟨g, hfits, hholds, -⟩ := hinv
    rw [hrest] at hfits
    obtain ⟨g', hg', -⟩ := fits_cmd.mp hfits
    obtain ⟨s', hs', -⟩ := hholds.exec hg' r
    rw [hs']
    rfl

/-- A stop for library call 1. -/
def libraryStop : SpuRun := ⟨0x21010002, 0x100, 0, 0⟩

/-- A run with its record at 1 whose library callback calls another, with its record at 2, which comes to
`spu_run`. -/
theorem chain_law_nested : ∃ n, Reached n ∧ records n.runs = [2, 1] ∧ ChainLaw n := by
  have houter : Reached ⟨_, [⟨1, _, contextRun plain 0 0 0 0 0⟩]⟩ :=
    .step (.init : Reached ⟨⟨none, fun _ => ⟨0, 0, 0, none⟩⟩, []⟩) (.call 1 plain 0 0 0 0 0 nofun nofun)
  have hactive := (houter.step (.act (r := ()) rfl)).step .unroll
  have hran := (hactive.step (.act (r := ()) rfl)).step (.act (r := libraryStop) rfl)
  have hstopped := (hran.step (.act (r := ()) rfl)).step (.act (r := ()) rfl)
  have hinner := hstopped.step (.call 2 plain 0 0 0 0 0 (fun f hf => ?_) (fun f hf => ?_))
  · have hpushed := (hinner.step (.act (r := ()) rfl)).step .unroll
    have hrunning := hpushed.step (.act (r := ()) rfl)
    exact ⟨_, hrunning, rfl, chain_law hrunning⟩
  · obtain rfl := Option.some.inj hf
    exact ⟨_, _, _, rfl⟩
  · obtain rfl := List.mem_singleton.mp hf
    decide

end LibSpe2.Run
