import LibSpe2.SpeBase.Callbacks
import LibSpe2.SpeBase.RunResume

/-!
# Library callbacks of runs (`spebase/run.c`, `spebase/lib_builtin.c`)

A program calls the table while runs are at work, also from the functions that a run calls. Each run asks for a
library callback where a stop is one, and for no other.

* `seen`, `Serves` — what a run shows, and the callbacks that belong to it.
* `Deed`, `History` — calls of the program and steps of runs, in any order.
* `registered` — what the successful calls of a history have registered.
* `Lawful` — the table is this map, and a run calls the function that is registered.

Main result:
* `callbacks_lawful` — every history is lawful.
-/

namespace LibSpe2.Callback

open Conc
open Run (Context SpuRun Ans Code Args Result Frame kind stops stopCode has perform)

/-! ## What a run shows -/

/-- The results of `spu_run`, and the library callbacks that a run asks for, with their results. -/
inductive Seen where
  | ran (run : SpuRun)
  | asked (callnum npc : UInt32) (rc : Int)

def seenOf : Sigma Ans → Option Seen
  | ⟨.spuRun _, run⟩ => some (.ran run)
  | ⟨.handleLibraryCallback callnum npc, rc⟩ => some (.asked callnum npc rc)
  | _ => none

def seen (tr : List (Sigma Ans)) : List Seen := tr.filterMap seenOf

section

variable (spe : Context) (runflags : UInt32)

/-- The npc that a callback is given after a stop. -/
def npcAfter (run : SpuRun) : UInt32 := if has spe.flags speIsolateEmulate then 0 else run.npc

/-- A library call, and no other stop, is followed by the callback of its number, which is the last thing that
the run shows if its result is not 0. -/
def Serves : List Seen → Prop
  | [] => True
  | .ran run :: .asked callnum npc rc :: l =>
    kind spe runflags run = .libraryCall ∧ callnum = stopCode run.rc &&& 0xff ∧ npc = npcAfter spe run ∧
      (rc ≠ 0 → l = []) ∧ Serves l
  | .ran run :: l => (kind spe runflags run = .libraryCall → l = []) ∧ Serves l
  | .asked _ _ _ :: _ => False

/-- What a run that has returned shows last: no library call, or a callback that it reports. -/
def Left (res : Result) : Seen → Prop
  | .ran run => kind spe runflags run ≠ .libraryCall
  | .asked _ _ rc => rc ≠ 0 ∧ res.retval = -1 ∧
      res.frame.stopinfo.recorded = (some .callbackError, some (.speCallbackError rc))

end

/-! ## Histories -/

variable {U : Type}

/-- What happens: a call of the program with its reply, a library callback of the run `k`, or another step of
this run. -/
inductive Deed (U : Type) where
  | call (c : Call U) (reply : Reply U)
  | callback (k : Nat) (callnum npc : UInt32) (out : Served U)
  | step (k : Nat) (e : Sigma Ans)

/-- What a run is started with. -/
structure Launch where
  spe : Context
  args : Args
  emulatedEntry : UInt32

def Launch.code (r : Launch) : Code Result := r.args.code r.spe r.emulatedEntry

/-- The exchange of the run `k`. -/
def exchange (k : Nat) (ds : List (Deed U)) : List (Sigma Ans) := ds.filterMap fun
  | .call _ _ => none
  | .callback k' callnum npc out => if k' = k then some ⟨.handleLibraryCallback callnum npc, out.rc⟩ else none
  | .step k' e => if k' = k then some e else none

/-- The table after a deed. -/
def Deed.after (handlers : Handlers U) : Deed U → Handlers U
  | .call c _ => (c.run handlers).2
  | _ => handlers

/-- What the code answers. -/
def Deed.Possible (launch : Nat → Launch) (handlers : Handlers U) : Deed U → Prop
  | .call c reply => reply = (c.run handlers).1
  | .callback k callnum npc out => ∃ rc, out = handleLibraryCallback handlers (launch k).spe callnum npc rc
  | .step _ e => ∀ callnum npc, e.1 ≠ .handleLibraryCallback callnum npc

/-- Each deed is possible where it happens. -/
def Follows (launch : Nat → Launch) : Handlers U → List (Deed U) → Prop
  | _, [] => True
  | handlers, d :: ds => d.Possible launch handlers ∧ Follows launch (d.after handlers) ds

/-- The table after some deeds. -/
def handlersAfter (ds : List (Deed U)) : Handlers U := ds.foldl Deed.after initial

/-- **A history**: the deeds follow each other, and those of each run are an execution of the code up to some
point. -/
structure History (launch : Nat → Launch) (ds : List (Deed U)) : Prop where
  follows : Follows launch initial ds
  run : ∀ k, (launch k).code.Starts (exchange k ds)

/-! ## The law -/

/-- What a deed registers. -/
def Deed.registers (m : Map U) : Deed U → Map U
  | .call c reply => if reply.ok then c.effect m else m
  | _ => m

/-- What is registered after some deeds, by those calls that returned success. -/
def registered (ds : List (Deed U)) : Map U := ds.foldl Deed.registers (toMap initial)

/-- The callback calls the function that is registered, and fails if there is none. -/
def Invokes (spe : Context) (npc : UInt32) (out : Served U) : Option (Handler U) → Prop
  | some handler => out.invoked =
      some ⟨handler, spe.memMmapBase, if has spe.flags speIsolateEmulate then speEmulateParamBuffer else npc⟩
  | none => out.invoked = none ∧ out.rc = -1

/-- **The law of the callbacks**, at every point of a history. -/
structure Lawful (launch : Nat → Launch) (ds : List (Deed U)) : Prop where
  table : ∀ pre post, ds = pre ++ post → toMap (handlersAfter pre) = registered pre
  call : ∀ pre c reply post, ds = pre ++ .call c reply :: post →
    Refines (handlersAfter pre) c ∧ (reply.ok = true ↔ c.Succeeds (registered pre))
  reserved : ∀ pre post, ds = pre ++ post → ∀ n < reserved,
    (registered pre n).isSome = (toMap (initial : Handlers U) n).isSome
  callback : ∀ pre k callnum npc out post, ds = pre ++ .callback k callnum npc out :: post →
    Invokes (launch k).spe npc out (registered pre callnum)
  serves : ∀ k, Serves (launch k).spe (launch k).args.runflags (seen (exchange k ds))
  left : ∀ k res, (launch k).code.Ends (exchange k ds) res → ∃ s, (seen (exchange k ds)).getLast? = some s ∧
    Left (launch k).spe (launch k).args.runflags res s

/-! ## One round -/

section

variable {spe : Context} {runflags : UInt32} {f : Frame} {run : SpuRun} {tr : List (Sigma Ans)}

theorem seen_append (tr₁ tr₂ : List (Sigma Ans)) : seen (tr₁ ++ tr₂) = seen tr₁ ++ seen tr₂ :=
  List.filterMap_append

theorem seen_aside (h : ∀ e ∈ tr, e.1.Aside) : seen tr = [] := by
  apply List.filterMap_eq_nil_iff.mpr
  intro ⟨c, r⟩ he
  have haside : c.Aside := h _ he
  cases c with
  | spuRun | handleLibraryCallback => exact haside.elim
  | _ => rfl

/-- After a stop that is no library call, a round asks for no callback. -/
theorem seen_afterRun (hk : kind spe runflags run ≠ .libraryCall)
    (h : ∀ e ∈ tr, Run.AfterRun spe runflags run e.1) : seen tr = [] := by
  apply seen_aside
  intro ⟨c, r⟩ he
  have hafter : Run.AfterRun spe runflags run c := h _ he
  cases c with
  | handleLibraryCallback => exact absurd hafter hk
  | spuRun => exact hafter.elim
  | _ => trivial

/-- A library call, as it is recognised. -/
theorem libraryCall_iff : kind spe runflags run = .libraryCall ↔ stops spe run = true ∧
    stopCode run.rc &&& 0xff00 = Run.speProgramLibraryCall ∧ has runflags Run.speNoCallbacks = false := by
  unfold kind
  split
  · next h => simp [h]
  next h =>
  split
  · next hcall => simpa [h] using hcall
  next hcall =>
  apply iff_of_false
  · repeat' split
    all_goals exact nofun
  · exact fun h => hcall h.2

/-- What a round does after a library call. -/
theorem afterRun_libraryCall (hk : kind spe runflags run = .libraryCall) :
    Run.afterRun spe runflags run f = (perform (.activeNpc run.npc)).bind fun _ =>
      (perform (.activeStatus run.status)).bind fun _ =>
        (perform (.handleLibraryCallback (stopCode run.rc &&& 0xff) (npcAfter spe run))).bind fun rc =>
          if rc ≠ 0 then Run.failWith ((f.ran spe run).report (.speCallbackError rc)) Run.efault
          else .ret (.inl { f.ran spe run with tmpEntry := (f.ran spe run).tmpEntry + 4 }) := by
  obtain ⟨hstops, hcall⟩ := libraryCall_iff.mp hk
  obtain ⟨hrc, hinv, hev, hst⟩ := of_decide_eq_true hstops
  unfold Run.afterRun Run.stopped
  simp only [hrc, hinv, hev, hst, if_false, if_true, Bool.false_eq_true, if_pos hcall]
  rfl

/-- What a round shows. -/
inductive RoundSeen (spe : Context) (runflags : UInt32) : List Seen → Prop
  | nothing : RoundSeen spe runflags []
  | ran (run : SpuRun) : RoundSeen spe runflags [.ran run]
  | asked (run : SpuRun) (rc : Int) (hk : kind spe runflags run = .libraryCall) :
    RoundSeen spe runflags [.ran run, .asked (stopCode run.rc &&& 0xff) (npcAfter spe run) rc]

theorem RoundSeen.serves {l : List Seen} (h : RoundSeen spe runflags l) : Serves spe runflags l := by
  cases h with
  | nothing => trivial
  | ran run => exact ⟨fun _ => rfl, trivial⟩
  | asked run rc hk => exact ⟨hk, rfl, rfl, fun _ => rfl, trivial⟩

/-- What a round that may not have ended shows. -/
theorem doRun_seen (h : (Run.doRun spe runflags f).Starts tr) : RoundSeen spe runflags (seen tr) := by
  rw [Run.doRun_eq] at h
  obtain rfl | ⟨u, tr₁, rfl, h₁⟩ := h.perform
  · exact .nothing
  obtain rfl | ⟨run, tr₂, rfl, h₂⟩ := h₁.perform
  · exact .nothing
  show RoundSeen spe runflags (.ran run :: seen tr₂)
  by_cases hk : kind spe runflags run = .libraryCall
  · rw [afterRun_libraryCall hk] at h₂
    obtain rfl | ⟨u, tr₃, rfl, h₃⟩ := h₂.perform
    · exact .ran run
    obtain rfl | ⟨u, tr₄, rfl, h₄⟩ := h₃.perform
    · exact .ran run
    obtain rfl | ⟨rc, tr₅, rfl, h₅⟩ := h₄.perform
    · exact .ran run
    have haside : seen tr₅ = [] := by
      apply seen_aside
      refine Prog.All.starts ?_ h₅
      split
      · exact .bind (.perform trivial) fun _ => trivial
      · trivial
    show RoundSeen spe runflags (.ran run :: .asked _ _ rc :: seen tr₅)
    rw [haside]
    exact .asked run rc hk
  · rw [seen_afterRun hk ((Run.afterRun_all run f).starts h₂)]
    exact .ran run

/-- How a round ends: it goes on or leaves after a stop that is no library call, goes on after a callback that
returns 0, and leaves after one that does not. -/
inductive RoundEnd (spe : Context) (runflags : UInt32) : List Seen → Frame ⊕ Result → Prop
  | other (run : SpuRun) (hk : kind spe runflags run ≠ .libraryCall) (x : Frame ⊕ Result) :
    RoundEnd spe runflags [.ran run] x
  | served (run : SpuRun) (hk : kind spe runflags run = .libraryCall) (f' : Frame) :
    RoundEnd spe runflags [.ran run, .asked (stopCode run.rc &&& 0xff) (npcAfter spe run) 0] (.inl f')
  | failed (run : SpuRun) (rc : Int) (res : Result)
      (hleft : Left spe runflags res (.asked (stopCode run.rc &&& 0xff) (npcAfter spe run) rc)) :
    RoundEnd spe runflags [.ran run, .asked (stopCode run.rc &&& 0xff) (npcAfter spe run) rc] (.inr res)

theorem doRun_end {x : Frame ⊕ Result} (h : (Run.doRun spe runflags f).Ends tr x) :
    RoundEnd spe runflags (seen tr) x := by
  rw [Run.doRun_eq] at h
  obtain ⟨u, tr₁, rfl, h₁⟩ := h.perform
  obtain ⟨run, tr₂, rfl, h₂⟩ := h₁.perform
  show RoundEnd spe runflags (.ran run :: seen tr₂) x
  by_cases hk : kind spe runflags run = .libraryCall
  · rw [afterRun_libraryCall hk] at h₂
    obtain ⟨u, tr₃, rfl, h₃⟩ := h₂.perform
    obtain ⟨u, tr₄, rfl, h₄⟩ := h₃.perform
    obtain ⟨rc, tr₅, rfl, h₅⟩ := h₄.perform
    show RoundEnd spe runflags (.ran run :: .asked _ _ rc :: seen tr₅) x
    split at h₅
    · next hrc =>
      obtain ⟨u, tr₆, rfl, h₆⟩ := h₅.perform
      obtain ⟨rfl, rfl⟩ := Prog.ends_ret.mp h₆
      exact .failed run rc _ ⟨hrc, rfl, rfl⟩
    · next hrc =>
      obtain rfl := not_not.mp hrc
      obtain ⟨rfl, rfl⟩ := Prog.ends_ret.mp h₅
      exact .served run hk _
  · rw [seen_afterRun hk ((Run.afterRun_all run f).ends h₂)]
    exact .other run hk x

/-! ## All rounds -/

/-- Whatever is served after these rounds is served with them. -/
def Continues (spe : Context) (runflags : UInt32) (l : List Seen) : Prop :=
  ∀ l', Serves spe runflags l' → Serves spe runflags (l ++ l')

theorem serves_cons_ran (hk : kind spe runflags run ≠ .libraryCall) {l : List Seen}
    (h : Serves spe runflags l) : Serves spe runflags (.ran run :: l) := by
  cases l with
  | nil => exact ⟨fun _ => rfl, trivial⟩
  | cons s l =>
    cases s with
    | ran run' => exact ⟨fun h => absurd h hk, h⟩
    | asked => exact h.elim

theorem Continues.append {l₁ l₂ : List Seen} {f' : Frame} (h : Continues spe runflags l₁)
    (hround : RoundEnd spe runflags l₂ (.inl f')) : Continues spe runflags (l₁ ++ l₂) := by
  intro l' hl'
  rw [List.append_assoc]
  apply h
  cases hround with
  | other run hk => exact serves_cons_ran hk hl'
  | served run hk => exact ⟨hk, rfl, rfl, fun h => absurd rfl h, hl'⟩

theorem rounds_serve (h : (Prog.repeats (Run.doRun spe runflags) f).Starts tr) :
    Serves spe runflags (seen tr) := by
  have hnil : Continues spe runflags (seen []) := fun _ hl' => hl'
  obtain ⟨f', tr₁, tr₂, htr, hcont, hlast⟩ := h.repeats_rule (J := fun _ tr => Continues spe runflags (seen tr))
    hnil fun _ _ _ _ h h₁ => by
      rw [seen_append]
      exact h.append (doRun_end h₁)
  have hstarts : (Run.doRun spe runflags f').Starts tr₂ := by
    obtain h | ⟨b, h⟩ := hlast
    · exact h
    · exact h.starts
  obtain rfl : tr = tr₁ ++ tr₂ := htr
  rw [seen_append]
  exact hcont _ (doRun_seen hstarts).serves

theorem rounds_left {res : Result} (h : (Prog.repeats (Run.doRun spe runflags) f).Ends tr res) :
    ∃ s, (seen tr).getLast? = some s ∧ Left spe runflags res s := by
  show ∃ s, (seen ([] ++ tr)).getLast? = some s ∧ Left spe runflags res s
  refine Prog.Ends.repeats_rule (J := fun _ _ => True)
    (Q := fun tr res => ∃ s, (seen tr).getLast? = some s ∧ Left spe runflags res s)
    h trivial (fun _ _ _ _ _ _ => trivial) ?_
  intro f' tr₀ tr₁ res _ h₁
  rw [seen_append, List.getLast?_append]
  have hround := doRun_end h₁
  generalize seen tr₁ = l at hround
  cases hround with
  | other run hk => exact ⟨.ran run, rfl, hk⟩
  | failed run rc _ hleft => exact ⟨_, rfl, hleft⟩

/-! ## Whole runs -/

theorem run_serves {r : Launch} (h : r.code.Starts tr) : Serves r.spe r.args.runflags (seen tr) := by
  obtain hsetup | ⟨tr₀, tr₁, ⟨rc, start⟩, rfl, h₀, h₁⟩ := Prog.starts_bind h
  · rw [seen_aside (Run.setupArguments_aside.starts hsetup)]
    trivial
  obtain ⟨-, hrc⟩ := Run.setupArguments_ends h₀
  obtain rfl : rc = 0 := hrc
  rw [seen_append, seen_aside (Run.setupArguments_aside.ends h₀)]
  obtain rfl | ⟨u, tr₂, rfl, h₂⟩ := (show Prog.Starts (perform (.enterActive r.spe.fdSpeDir) >>= _) tr₁
    from h₁).perform
  · trivial
  show Serves r.spe r.args.runflags (seen tr₂)
  obtain hrounds | ⟨tr₃, tr₄, res, rfl, h₃, h₄⟩ := Prog.starts_bind h₂
  · exact rounds_serve hrounds
  · have haside : ∀ e ∈ tr₄, e.1.Aside := by
      refine Prog.All.starts ?_ h₄
      exact .bind (.perform trivial) fun _ => .bind (.perform trivial) fun _ => trivial
    rw [seen_append, seen_aside haside, List.append_nil]
    exact rounds_serve h₃.starts

theorem run_left {r : Launch} {res : Result} (h : r.code.Ends tr res) :
    ∃ s, (seen tr).getLast? = some s ∧ Left r.spe r.args.runflags res s := by
  obtain ⟨tr₀, tr₁, ⟨rc, start⟩, rfl, h₀, h₁⟩ := Prog.ends_bind.mp h
  obtain ⟨-, hrc⟩ := Run.setupArguments_ends h₀
  obtain rfl : rc = 0 := hrc
  obtain ⟨u, tr₂, rfl, h₂⟩ := (show Prog.Ends (perform (.enterActive r.spe.fdSpeDir) >>= _) tr₁ res
    from h₁).perform
  obtain ⟨tr₃, tr₄, res', rfl, h₃, h₄⟩ := Prog.ends_bind.mp h₂
  obtain ⟨u', tr₅, rfl, h₅⟩ := h₄.perform
  obtain ⟨u'', tr₆, rfl, h₆⟩ := h₅.perform
  obtain ⟨rfl, rfl⟩ := Prog.ends_ret.mp h₆
  have hseen : seen (tr₀ ++ ⟨.enterActive r.spe.fdSpeDir, u⟩ ::
      (tr₃ ++ [⟨.freespeinfo, u'⟩, ⟨.cleanupspeinfo, u''⟩])) = seen tr₃ := by
    rw [seen_append, seen_aside (Run.setupArguments_aside.ends h₀)]
    show seen (tr₃ ++ _) = _
    rw [seen_append]
    exact List.append_nil _
  rw [hseen]
  exact rounds_left h₃

/-- The callbacks that belong to a run are for numbers of the table. -/
theorem Serves.callnum_le {l : List Seen} (h : Serves spe runflags l) {callnum npc : UInt32} {rc : Int}
    (hmem : .asked callnum npc rc ∈ l) : callnum ≤ maxCallnum := by
  fun_induction Serves spe runflags l with
  | case1 => cases hmem
  | case2 run callnum' npc' rc' l ih =>
    obtain ⟨-, hnum, -, -, hl⟩ := h
    rcases List.mem_cons.mp hmem with heq | hmem
    · cases heq
    rcases List.mem_cons.mp hmem with heq | hmem
    · obtain ⟨rfl, rfl, rfl⟩ := Seen.asked.inj heq
      rw [hnum, UInt32.le_iff_toNat_le, UInt32.toNat_and]
      exact Nat.and_le_right
    · exact ih hl hmem
  | case3 run l hl ih =>
    rcases List.mem_cons.mp hmem with heq | hmem
    · cases heq
    · exact ih h.2 hmem
  | case4 => exact h.elim

end

/-! ## The map -/

section

variable {launch : Nat → Launch} {ds pre post : List (Deed U)}

theorem handlersAfter_concat (d : Deed U) : handlersAfter (pre ++ [d]) = d.after (handlersAfter pre) := by
  rw [handlersAfter, List.foldl_append]
  rfl

theorem registered_concat (d : Deed U) : registered (pre ++ [d]) = d.registers (registered pre) := by
  rw [registered, List.foldl_append]
  rfl

theorem Follows.possible {handlers : Handlers U} {d : Deed U} (h : Follows launch handlers (pre ++ d :: post)) :
    d.Possible launch (pre.foldl Deed.after handlers) := by
  induction pre generalizing handlers with
  | nil => exact h.1
  | cons d₀ pre ih => exact ih h.2

theorem History.possible (h : History launch ds) {d : Deed U} (hds : ds = pre ++ d :: post) :
    d.Possible launch (handlersAfter pre) := by
  subst hds
  exact h.follows.possible

/-- One deed keeps the table and the map together. -/
theorem after_registers {handlers : Handlers U} {d : Deed U} (h : d.Possible launch handlers) :
    toMap (d.after handlers) = d.registers (toMap handlers) := by
  cases d with
  | call c reply =>
    obtain rfl : reply = (c.run handlers).1 := h
    show toMap (c.run handlers).2 = if (c.run handlers).1.ok then c.effect (toMap handlers) else toMap handlers
    cases hok : (c.run handlers).1.ok with
    | true => exact (run_refines handlers c).effect hok
    | false => exact congrArg toMap ((run_refines handlers c).failed hok)
  | callback | step => rfl

/-- **The table is the map**, after any part of a history. -/
theorem History.table (h : History launch ds) : ∀ pre post, ds = pre ++ post →
    toMap (handlersAfter pre) = registered pre := by
  intro pre
  induction pre using List.reverseRecOn with
  | nil => exact fun _ _ => rfl
  | append_singleton pre d ih =>
    intro post hds
    rw [List.append_assoc] at hds
    rw [handlersAfter_concat, registered_concat, after_registers (h.possible hds), ih _ hds]

theorem History.reserved (h : History launch ds) : ∀ pre post, ds = pre ++ post → ∀ n < reserved,
    (registered pre n).isSome = (toMap (initial : Handlers U) n).isSome := by
  intro pre
  induction pre using List.reverseRecOn with
  | nil => exact fun _ _ _ _ => rfl
  | append_singleton pre d ih =>
    intro post hds n hn
    rw [List.append_assoc] at hds
    rw [registered_concat, ← ih _ hds n hn, ← h.table pre _ hds]
    have hpossible := h.possible hds
    cases d with
    | call c reply =>
      obtain rfl : reply = (c.run (handlersAfter pre)).1 := hpossible
      show ((if _ then _ else _ : Map U) n).isSome = _
      split
      · next hok => exact effect_reserved hn ((run_refines _ c).ok_iff.mp hok)
      · rfl
    | callback | step => rfl

theorem mem_exchange {k : Nat} {callnum npc : UInt32} {out : Served U}
    (h : .callback k callnum npc out ∈ ds) : ⟨.handleLibraryCallback callnum npc, out.rc⟩ ∈ exchange k ds :=
  List.mem_filterMap.mpr ⟨_, h, if_pos rfl⟩

/-- A callback calls what is registered. -/
theorem handleLibraryCallback_invokes {handlers : Handlers U} {spe : Context} {callnum npc : UInt32} {rc : Int}
    (hn : callnum ≤ maxCallnum) :
    Invokes spe npc (handleLibraryCallback handlers spe callnum npc rc) (toMap handlers callnum) := by
  rw [toMap_of_le hn]
  unfold handleLibraryCallback
  cases handlers (place callnum) with
  | none => exact ⟨rfl, rfl⟩
  | some handler =>
    dsimp only
    split <;> rfl

theorem callbacks_lawful (launch : Nat → Launch) (ds : List (Deed U)) (h : History launch ds) :
    Lawful launch ds where
  table := h.table
  reserved := h.reserved
  call pre c reply post hds := by
    have hpossible : reply = (c.run (handlersAfter pre)).1 := h.possible hds
    have hrefines := run_refines (handlersAfter pre) c
    rw [hpossible, ← h.table pre _ hds]
    exact ⟨hrefines, hrefines.ok_iff⟩
  callback pre k callnum npc out post hds := by
    obtain ⟨rc, rfl⟩ := h.possible hds
    rw [← h.table pre _ hds]
    apply handleLibraryCallback_invokes
    have hmem : .callback k callnum npc _ ∈ ds := hds ▸ List.mem_append_right pre List.mem_cons_self
    exact (run_serves (h.run k)).callnum_le (List.mem_filterMap.mpr ⟨_, mem_exchange hmem, rfl⟩)
  serves k := run_serves (h.run k)
  left k res hends := run_left hends

/-- A function is registered for the number 10, a run stops for this number, and calls it. -/
def userCall : List (Deed Unit) :=
  [.call (.register (some (.user ())) 10 speCallbackNew) (.int 0 0), .step 0 ⟨.enterActive 3, ()⟩,
    .step 0 ⟨.activeNpc 0x100, ()⟩, .step 0 ⟨.spuRun 0x100, ⟨0x210a0002, 0x200, 0, 0⟩⟩,
    .step 0 ⟨.activeNpc 0x200, ()⟩, .step 0 ⟨.activeStatus 0, ()⟩,
    .callback 0 10 0x200 ⟨some ⟨.user (), 0, 0x200⟩, 0, none⟩]

theorem userCall_lawful : Lawful (fun _ => ⟨Run.plain, ⟨0x100, 0, 0, 0⟩, 0⟩) userCall := by
  apply callbacks_lawful
  constructor
  · have hstep {c : Run.Cmd} (h : c.Aside) : ∀ callnum npc, c ≠ .handleLibraryCallback callnum npc :=
      fun _ _ heq => (heq ▸ h : (Run.Cmd.handleLibraryCallback _ _).Aside)
    exact ⟨rfl, hstep trivial, hstep trivial, fun _ _ => nofun, hstep trivial, hstep trivial, ⟨0, rfl⟩, trivial⟩
  · intro k
    by_cases hk : k = 0
    · subst hk
      exact .cmd (.inside (.cmd (.cmd (.cmd (.cmd (.cmd .nil))))))
    · have hnil : exchange k userCall = [] := by simp [exchange, userCall, Ne.symm hk]
      rw [hnil]
      exact .nil

end

end LibSpe2.Callback
