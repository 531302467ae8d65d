import LibSpe2.SpeBase.DmaProtocol
import LibSpe2.Conc.Marked

/-!
# The mask of a tag status read

A caller asks for the tags of its mask. What it may expect is kept in a ledger beside the MFC: a tag is
*owed* once its commands have completed, until a status that holds it is returned to a caller who asked for
it, or the tag is used again. The registers say of every tag whether commands are outstanding, as often as
they are read; the spufs file hands every completion out once, to whoever reads it.

* `Seen`, `see`, `seeMark` — the MFC and the ledger, followed beside a run; a completion is a step of its own.
* `observed_reachable_iff` — the same states are reached with the ledger and without.
* `Documented` — how the registers and the file answer.
* `Answer.Honours` — what a status is to be.

Main result:
* `tag_status_mask` — through the registers every status honours its mask. Through the file it does in the
  runs in which every read of the file finds tags of its own mask only; the mask is not looked at there.
-/

namespace LibSpe2.Dma

open Conc
open Function (update update_self update_of_ne)

namespace TagMask

/-! ## Sets of tags -/

/-- The tags of `a` are in `b`. -/
def Sub (a b : UInt32) : Prop := ∀ i < 32, holds a i → holds b i

instance (a b : UInt32) : Decidable (Sub a b) := inferInstanceAs (Decidable (∀ _, _))

variable {a b c : UInt32} {i : Nat}

@[simp] theorem holds_and : holds (a &&& b) i = (holds a i && holds b i) := by simp [holds]

@[simp] theorem holds_or : holds (a ||| b) i = (holds a i || holds b i) := by simp [holds]

@[simp] theorem holds_compl (hi : i < 32) : holds (~~~a) i = !holds a i := by simp [holds, hi]

@[simp] theorem holds_zero : holds 0 i = false := by simp [holds]

theorem Sub.refl (a : UInt32) : Sub a a := fun _ _ h => h

theorem sub_zero (a : UInt32) : Sub 0 a := by
  intro i _ h
  rw [holds_zero] at h
  cases h

/-! ## What is observed -/

/-- The arguments of a tag status read. -/
structure Query where
  mask : UInt32
  behavior : UInt32
  deriving DecidableEq

/-- The tags asked for; the mask 0 asks for all. -/
def Query.scope (q : Query) : UInt32 := if q.mask = 0 then 0xffffffff else q.mask

/-- A status returned, and what was owed when the MFC was last asked for it. -/
structure Answer where
  query : Query
  status : UInt32
  owed : UInt32

/-- It holds tags of the mask only, all of them or at least one if that is asked for, and every tag of the
mask that was owed. -/
structure Answer.Honours (x : Answer) : Prop where
  within : Sub x.status x.query.mask
  all : x.query.behavior = speTagAll → x.status = x.query.mask
  any : x.query.behavior = speTagAny → x.status ≠ 0
  reports : Sub (x.owed &&& x.query.mask) x.status

/-- The MFC and the ledger. -/
structure Seen where
  /-- The tags with outstanding commands. -/
  pending : UInt32
  /-- The tags used through the file whose completion it has not handed out. -/
  waiting : UInt32
  owed : UInt32
  asks : Tid → Option Query
  /-- What was owed when the MFC was last asked for the call of a thread. -/
  sampled : Tid → UInt32
  answers : List Answer

def Seen.start : Seen := ⟨0, 0, 0, fun _ => none, fun _ => 0, []⟩

/-- What the file hands out. -/
def Seen.ready (x : Seen) : UInt32 := x.waiting &&& ~~~x.pending

/-- The tags that the MFC says are complete. -/
def Seen.complete (spe : Context) (x : Seen) : UInt32 := if spe.mapPs then ~~~x.pending else x.ready

/-- A command of a tag is accepted. -/
def Seen.issue (x : Seen) (tag : UInt32) : Seen :=
  { x with pending := x.pending ||| tag, owed := x.owed &&& ~~~tag }

def Seen.sample (x : Seen) (t : Tid) : Seen := { x with sampled := update x.sampled t x.owed }

/-- A status is taken for the call of thread `t`. -/
def Seen.report (x : Seen) (t : Tid) (status : UInt32) : Seen :=
  match x.asks t with
  | some q => { x with owed := x.owed &&& ~~~(status &&& q.scope) }
  | none => x

/-- What is seen of a command of thread `t`, answered by `r` in `s`. -/
def see (t : Tid) : (c : Cmd) → Ans c → World → Seen → Seen
  | .writeClassIdCmd _, r, s, x => if r &&& 3 = 0 then x.issue (tagBit s.regs.sizeTag) else x
  | .writeFile _ parm, r, _, x =>
    let tag := tagBit parm.tag.toUInt32
    if 0 ≤ r then { x.issue tag with waiting := x.waiting ||| tag } else x
  | .readTagStatus _, _, _, x => x.sample t
  | .poll _, _, _, x => x.sample t
  | .readFile _, r, _, x =>
    let x' := x.sample t
    if r.1 = 4 then { x'.report t r.2 with waiting := x.waiting &&& ~~~r.2 } else x'
  | .noteReported status, _, _, x => x.report t status
  | _, _, _, x => x

inductive Mark where
  | asks (q : Query)
  | returns (rc : Int) (status : Option UInt32)
  /-- Some outstanding commands complete. -/
  | completes (tags : UInt32)

def seeMark (t : Tid) : Mark → World → Seen → Seen
  | .asks q, _, x => { x with asks := update x.asks t (some q) }
  | .returns rc status, _, x =>
    let x' := { x with asks := update x.asks t none, sampled := update x.sampled t 0 }
    match x.asks t, status with
    | some q, some status =>
      if rc = 0 ∧ q.mask ≠ 0 then { x' with answers := x.answers ++ [⟨q, status, x.sampled t⟩] } else x'
    | _, _ => x'
  | .completes tags, _, x =>
    { x with pending := x.pending &&& ~~~tags, owed := x.owed ||| (x.pending &&& tags) }

def observer : Observer Cmd Ans Tid World Mark Seen := ⟨see, seeMark⟩

inductive Event where
  | call (c : Call)
  | completes (tags : UInt32)

def Event.code (spe : Context) : Event → Prog (Marked Cmd Mark) (Marked.Ans Ans) Unit
  | .call (.tagStatusRead mask behavior tagStatus) => do
    Prog.mark (.asks ⟨mask, behavior⟩)
    let r ← (baseSpeMfcioTagStatusRead spe mask behavior tagStatus).marked
    Prog.mark (.returns r.1 r.2)
  | .call c => (c.code spe).marked
  | .completes tags => Prog.mark (.completes tags)

/-- Any number of threads that use one context, and its MFC. -/
def observedSystem (spe : Context) : System (Marked Cmd Mark) (Marked.Ans Ans) Tid (World × Seen) where
  toMachine := machine.observed observer
  Call := Event
  code _ := Event.code spe
  init y := Created y.1 ∧ y.2 = .start

/-- How the MFC and the kernel answer: the tag status is that of the tags of the query mask with nothing
outstanding; the file can be read when there is something to hand out, and hands out all there is. -/
def Documented : Tid → (c : Marked Cmd Mark) → Marked.Ans Ans c → World × Seen → Prop
  | _, .cmd (.readTagStatus _), status, y => status = y.1.queryMask &&& ~~~y.2.pending
  | _, .cmd (.poll _), r, y => 0 ≤ r.1 → (0 < r.1 ∧ r.2 = true ↔ y.2.ready ≠ 0)
  | _, .cmd (.readFile _), r, y => r.1 = 4 → r.2 = y.2.ready ∧ r.2 ≠ 0
  | _, _, _, _ => True

/-- What the file has for a caller is what it asks for. -/
def Met (t : Tid) : (c : Marked Cmd Mark) → Marked.Ans Ans c → World × Seen → Prop
  | .cmd (.poll _), r, y => ∀ q, y.2.asks t = some q → r.1 < 0 → r.2 = false → y.2.ready &&& q.mask = 0
  | .cmd (.readFile _), r, y => ∀ q, y.2.asks t = some q → q.mask ≠ 0 → r.1 = 4 →
    Sub y.2.ready q.mask ∧ (q.behavior = speTagAll → y.2.ready = q.mask)
  | _, _, _ => True

/-! ## The query mask -/

/-- The calls are those of the threads. -/
theorem call_erase (spe : Context) (c : Call) : (Event.code spe (.call c)).erase = c.code spe := by
  cases c with
  | tagStatusRead mask behavior tagStatus =>
    show Prog.erase ((Prog.mark (Mark.asks ⟨mask, behavior⟩)).bind fun _ =>
      (baseSpeMfcioTagStatusRead spe mask behavior tagStatus).marked.bind fun r =>
        Prog.mark (.returns r.1 r.2)) = _
    rw [Prog.erase_bind, Prog.erase_bind, Prog.erase_marked]
    rfl
  | _ => exact Prog.erase_marked _

theorem observes (spe : Context) : (observedSystem spe).Observes (system spe) observer where
  machine := rfl
  code t c := by
    cases c with
    | completes tags => exact .inr rfl
    | call c => exact .inl ⟨c, call_erase spe c⟩
  init y hy := hy.1

theorem covers (spe : Context) : (observedSystem spe).Covers (system spe) where
  code _ c := ⟨.call c, call_erase spe c⟩
  init _ hs := ⟨.start, hs, rfl⟩

/-- The ledger has no influence on what the threads can reach. -/
theorem observed_reachable_iff (spe : Context) (s : World) :
    (∃ x th, (observedSystem spe).Reachable ⟨(s, x), th⟩) ↔ ∃ th, (system spe).Reachable ⟨s, th⟩ :=
  (observes spe).reachable_iff (covers spe) s

/-- The mask of the registers is that of the call. -/
def Asked : Tid → (c : Marked Cmd Mark) → Marked.Ans Ans c → World × Seen → Prop
  | _, .cmd (.readTagStatus mask), _, y => y.1.queryMask = mask
  | _, _, _, _ => True

/-- A sample is taken under the lock that protects the query mask. -/
theorem reach_asked {spe : Context} {ok : Tid → (c : Marked Cmd Mark) → Marked.Ans Ans c → World × Seen → Prop}
    {cfg : Config (Marked Cmd Mark) (Marked.Ans Ans) Tid (World × Seen)}
    (h : (observedSystem spe).Reach ok cfg) :
    (observedSystem spe).Reach (fun t c r y => ok t c r y ∧ Asked t c r y) cfg := by
  apply h.also
  intro t c r y y' th hexec hreach
  cases c with
  | mark k => trivial
  | cmd c =>
    cases c with
    | readTagStatus mask =>
      obtain ⟨th₀, h₀, -⟩ := hreach.erase (observes spe)
      obtain ⟨γ, hi, -⟩ := Proto.reach (P := proto) (S := system spe) (fun _ hs => created_inv hs)
        (fun t c => code_safe c) h₀
      obtain rfl := Option.some.inj hexec
      have hsample : (mask, y.1.queryMask) ∈ y.1.samples ++ [(mask, y.1.queryMask)] :=
        List.mem_append_right _ (List.mem_singleton_self _)
      exact (hi.samples _ hsample).symm
    | _ => trivial

/-! ## The invariant -/

/-- What a thread knows of its query. -/
structure Phase where
  ask : Option Query
  sampled : UInt32

structure Inv (spe : Context) (γ : Tid → Phase) (x : Seen) : Prop where
  ask : ∀ t, x.asks t = (γ t).ask
  sampled : ∀ t, x.sampled t = (γ t).sampled
  answers : ∀ a ∈ x.answers, a.Honours
  /-- What is owed has completed. -/
  owed : ∀ i < 32, holds x.owed i → holds x.pending i = false
  /-- What has been used through the file and is owed or outstanding will be handed out. -/
  waiting : spe.mapPs = false → ∀ i < 32, holds x.owed i ∨ holds x.pending i → holds x.waiting i

def proto (spe : Context) : Proto (Marked Cmd Mark) Tid (World × Seen) Phase where
  idle := ⟨none, 0⟩
  inv γ y := Inv spe γ y.2

/-- The runs that `tag_status_mask` is about. -/
def Honest (spe : Context) (t : Tid) (c : Marked Cmd Mark) (r : Marked.Ans Ans c) (y : World × Seen) : Prop :=
  Documented t c r y ∧ (spe.mapPs = false → Met t c r y)

variable {spe : Context} {t : Tid} {g : Phase} {q : Query} {γ : Tid → Phase} {s : World} {x : Seen}

/-- Thread `t` runs `p` safely. -/
abbrev Safe {α : Type} (spe : Context) (t : Tid) (p : Prog (Marked Cmd Mark) (Marked.Ans Ans) α) (g : Phase)
    (Q : α → Phase → Prop) : Prop :=
  Proto.Safe (machine.observed observer) (fun t c r y => Honest spe t c r y ∧ Asked t c r y) (proto spe) t p g Q

/-! ## One step -/

theorem Inv.issue (h : Inv spe γ x) (hps : spe.mapPs) (tag : UInt32) : Inv spe γ (x.issue tag) := by
  refine ⟨h.ask, h.sampled, h.answers, ?_, fun hfile => absurd (hps.symm.trans hfile) (by decide)⟩
  intro i hi howed
  have ho := h.owed i hi
  simp only [Seen.issue, holds_and, holds_or, holds_compl hi] at howed ⊢
  grind

theorem Inv.issueFile (h : Inv spe γ x) (tag : UInt32) :
    Inv spe γ { x.issue tag with waiting := x.waiting ||| tag } := by
  refine ⟨h.ask, h.sampled, h.answers, ?_, ?_⟩
  · intro i hi howed
    have ho := h.owed i hi
    simp only [Seen.issue, holds_and, holds_or, holds_compl hi] at howed ⊢
    grind
  · intro hfile i hi hused
    have hw := h.waiting hfile i hi
    simp only [Seen.issue, holds_and, holds_or, holds_compl hi] at hused ⊢
    grind

theorem Inv.completes (h : Inv spe γ x) (t : Tid) (s : World) (tags : UInt32) :
    Inv spe γ (seeMark t (.completes tags) s x) := by
  refine ⟨h.ask, h.sampled, h.answers, ?_, ?_⟩
  · intro i hi howed
    have ho := h.owed i hi
    simp only [seeMark, holds_and, holds_or, holds_compl hi] at howed ⊢
    grind
  · intro hfile i hi hused
    have hw := h.waiting hfile i hi
    simp only [seeMark, holds_and, holds_or, holds_compl hi] at hused ⊢
    grind

/-- A status is taken: less is owed. -/
theorem Inv.report (h : Inv spe γ x) (t : Tid) (status : UInt32) : Inv spe γ (x.report t status) := by
  unfold Seen.report
  split
  · refine ⟨h.ask, h.sampled, h.answers, ?_, ?_⟩
    · intro i hi howed
      have ho := h.owed i hi
      simp only [holds_and] at howed
      grind
    · intro hfile i hi hused
      have hw := h.waiting hfile i hi
      simp only [holds_and] at hused
      grind
  · exact h

/-- The MFC and what is owed are the same. -/
structure SameTags (x x' : Seen) : Prop where
  owed : x'.owed = x.owed
  pending : x'.pending = x.pending
  waiting : x'.waiting = x.waiting

/-- Only what is kept for thread `t` changes. -/
theorem Inv.set {x' : Seen} (h : Inv spe γ x) (hsame : SameTags x x') (hask : x'.asks = update x.asks t g.ask)
    (hsampled : x'.sampled = update x.sampled t g.sampled) (ha : ∀ a ∈ x'.answers, a.Honours) :
    Inv spe (update γ t g) x' := by
  have hfield {α : Type} (f : Tid → α) (p : Phase → α) (hf : ∀ u, f u = p (γ u)) (u : Tid) :
      update f t (p g) u = p (update γ t g u) := by
    by_cases hu : u = t
    · rw [hu, update_self, update_self]
    · rw [update_of_ne hu, update_of_ne hu, hf]
  constructor
  · rw [hask]
    exact hfield x.asks Phase.ask h.ask
  · rw [hsampled]
    exact hfield x.sampled Phase.sampled h.sampled
  · exact ha
  · rw [hsame.owed, hsame.pending]
    exact h.owed
  · rw [hsame.owed, hsame.pending, hsame.waiting]
    exact h.waiting

theorem Inv.sample (h : Inv spe γ x) (hg : γ t = g) :
    Inv spe (update γ t { g with sampled := x.owed }) (x.sample t) := by
  refine h.set ⟨rfl, rfl, rfl⟩ ?_ rfl h.answers
  rw [← hg, ← h.ask, Function.update_eq_self]
  rfl

/-- What is owed, the file will hand out. -/
theorem Inv.ready (h : Inv spe γ x) (hfile : spe.mapPs = false) : Sub x.owed x.ready := by
  intro i hi howed
  have hw := h.waiting hfile i hi (.inl howed)
  have hp := h.owed i hi howed
  simp only [Seen.ready, holds_and, holds_compl hi, hw, hp]
  rfl

theorem holds_scope (h : q.mask ≠ 0 → Sub x.ready q.mask) {i : Nat} (hi : i < 32) (hready : holds x.ready i) :
    holds q.scope i := by
  unfold Query.scope
  split
  · have hall : ∀ i < 32, holds 0xffffffff i = true := by decide
    exact hall i hi
  · next hmask => exact h hmask i hi hready

/-- The file hands out tags that were asked for. -/
theorem Inv.hand (h : Inv spe γ x) (hfile : spe.mapPs = false) (hask : x.asks t = some q)
    (hmask : q.mask ≠ 0 → Sub x.ready q.mask) :
    Inv spe γ { x.report t x.ready with waiting := x.waiting &&& ~~~x.ready } := by
  have hreport := h.report t x.ready
  refine ⟨hreport.ask, hreport.sampled, hreport.answers, hreport.owed, fun _ i hi hused => ?_⟩
  have hpending : holds x.pending i → holds x.waiting i := fun hp => h.waiting hfile i hi (.inr hp)
  have hready := h.ready hfile i hi
  have hscope : holds x.ready i → holds q.scope i := holds_scope hmask hi
  have hdef : holds x.ready i = (holds x.waiting i && !holds x.pending i) := by
    rw [Seen.ready, holds_and, holds_compl hi]
  simp only [Seen.report, hask, holds_and, holds_compl hi] at hused ⊢
  grind

/-! ## The commands -/

/-- A command of which nothing is seen. -/
def Unseen (c : Cmd) : Prop := ∀ t r s x, see t c r s x = x

theorem safe_unseen {c : Cmd} (hc : Unseen c) : Safe spe t (Prog.perform c).marked g fun _ g' => g' = g := by
  apply Proto.Safe.observed
  intro γ s x hi hg
  refine ⟨trivial, fun r s' _ _ => ⟨g, ?_, rfl⟩⟩
  rw [← hg, Function.update_eq_self]
  show Inv spe γ (see t c r s x)
  rw [hc]
  exact hi

theorem safe_unseen_all {α : Type} {p : Code α} (hp : p.All Unseen) :
    Safe spe t p.marked g fun _ g' => g' = g := .marked_all hp fun _ hc => safe_unseen hc

/-- A command that the phase does not depend on. -/
theorem safe_keep {c : Cmd} (h : ∀ γ r s x, Inv spe γ x → Inv spe γ (see t c r s x)) :
    Safe spe t (Prog.perform c).marked g fun _ g' => g' = g := by
  apply Proto.Safe.observed
  intro γ s x hi hg
  refine ⟨trivial, fun r s' _ _ => ⟨g, ?_, rfl⟩⟩
  rw [← hg, Function.update_eq_self]
  exact h γ r s x hi

theorem safe_writeClassIdCmd (hps : spe.mapPs) (v : UInt32) :
    Safe spe t (perform (.writeClassIdCmd v)).marked g fun _ g' => g' = g := by
  apply safe_keep
  intro γ r s x hi
  show Inv spe γ (if r &&& 3 = 0 then _ else x)
  split
  · exact hi.issue hps _
  · exact hi

theorem safe_writeFile (fd : Fd) (parm : MfcCommandParameterArea) :
    Safe spe t (perform (.writeFile fd parm)).marked g fun _ g' => g' = g := by
  apply safe_keep
  intro γ r s x hi
  show Inv spe γ (if 0 ≤ r then _ else x)
  split
  · exact hi.issueFile _
  · exact hi

theorem safe_noteReported (status : UInt32) :
    Safe spe t (perform (.noteReported status)).marked g fun _ g' => g' = g :=
  safe_keep fun _ _ _ _ hi => hi.report t status

/-- A sample of the registers. -/
theorem safe_readTagStatus (mask : UInt32) : Safe spe t (perform (.readTagStatus mask)).marked g fun status g' =>
    g'.ask = g.ask ∧ Sub status mask ∧ Sub (g'.sampled &&& mask) status := by
  apply Proto.Safe.observed
  intro γ s x hi hg
  refine ⟨trivial, fun status s' hok _ => ⟨{ g with sampled := x.owed }, hi.sample hg, rfl, ?_, ?_⟩⟩
  all_goals
    obtain ⟨⟨hstatus, -⟩, hasked⟩ := hok
    have hstatus : status = s.queryMask &&& ~~~x.pending := hstatus
    have hasked : s.queryMask = mask := hasked
    subst hstatus hasked
    intro i hi' hheld
    have ho := hi.owed i hi'
    simp only [holds_and, holds_compl hi'] at hheld ⊢
    grind

/-- A poll that finds nothing. -/
theorem safe_poll (fd : Fd) (hfile : spe.mapPs = false) (hask : g.ask = some q) :
    Safe spe t (perform (.poll fd)).marked g fun r g' => g'.ask = some q ∧
      (r.1 = 0 ∨ r.2 = false → Sub (g'.sampled &&& q.mask) 0) := by
  apply Proto.Safe.observed
  intro γ s x hi hg
  refine ⟨trivial, fun r s' hok _ => ⟨_, hi.sample hg, hask, fun hnone i hi' hheld => ?_⟩⟩
  obtain ⟨⟨hdoc, hmet⟩, -⟩ := hok
  have hdoc : 0 ≤ r.1 → (0 < r.1 ∧ r.2 = true ↔ x.ready ≠ 0) := hdoc
  have hask : x.asks t = some q := by rw [hi.ask, hg, hask]
  rw [holds_and, Bool.and_eq_true] at hheld
  have hready : holds x.ready i := hi.ready hfile i hi' hheld.1
  by_cases hret : r.1 < 0
  · have hr : r.2 = false := hnone.resolve_left (by omega)
    have hnothing : x.ready &&& q.mask = 0 := hmet hfile q hask hret hr
    rw [← hnothing, holds_and, hready, hheld.2]
    rfl
  · have hne : x.ready ≠ 0 := by
      intro h
      rw [h, holds_zero] at hready
      cases hready
    obtain ⟨hpos, hin⟩ := (hdoc (by omega)).mpr hne
    rcases hnone with h | h
    · omega
    · rw [hin] at h
      cases h

/-- A read of the file. -/
theorem safe_readFile (fd : Fd) (hfile : spe.mapPs = false) (hask : g.ask = some q) :
    Safe spe t (perform (.readFile fd)).marked g fun r g' => g'.ask = some q ∧
      (r.1 = 4 → q.mask ≠ 0 → (⟨q, r.2, g'.sampled⟩ : Answer).Honours) := by
  apply Proto.Safe.observed
  intro γ s x hi hg
  refine ⟨trivial, fun r s' hok _ => ⟨{ g with sampled := x.owed }, ?_, hask, fun hread hmask => ?_⟩⟩
  all_goals
    obtain ⟨⟨hdoc, hmet⟩, -⟩ := hok
    have hdoc : r.1 = 4 → r.2 = x.ready ∧ r.2 ≠ 0 := hdoc
    have hasks : x.asks t = some q := by rw [hi.ask, hg, hask]
    have hmet : q.mask ≠ 0 → r.1 = 4 → Sub x.ready q.mask ∧ (q.behavior = speTagAll → x.ready = q.mask) :=
      hmet hfile q hasks
  · show Inv spe _ (if r.1 = 4 then _ else x.sample t)
    split
    · next hread =>
      rw [(hdoc hread).1]
      exact (hi.sample hg).hand hfile hasks fun hmask => (hmet hmask hread).1
    · exact hi.sample hg
  · obtain ⟨hready, hne⟩ := hdoc hread
    obtain ⟨hwithin, hall⟩ := hmet hmask hread
    constructor
    · exact hready ▸ hwithin
    · exact fun hb => hready.trans (hall hb)
    · exact fun _ => hne
    · intro i hi' hheld
      rw [holds_and, Bool.and_eq_true] at hheld
      show holds r.2 i
      rw [hready]
      exact hi.ready hfile i hi' hheld.1

/-! ## Queries -/

/-- What a thread knows of the result of its query. -/
def Told (q : Query) (r : Int × Option UInt32) (g : Phase) : Prop :=
  g.ask = some q ∧ (r.1 = 0 → q.mask ≠ 0 → ∀ status, r.2 = some status →
    (⟨q, status, g.sampled⟩ : Answer).Honours)

theorem told_failed (hask : g.ask = some q) {r : Option UInt32} : Told q (-1, r) g := ⟨hask, nofun⟩

theorem readStatusFile_safe (fd : Fd) (hfile : spe.mapPs = false) (hask : g.ask = some q) :
    Safe spe t (readStatusFile fd).marked g (Told q) := by
  apply Proto.Safe.marked_bind (safe_readFile fd hfile hask)
  rintro r g' ⟨hask', hhonours⟩
  apply Proto.Safe.ret
  show Told q (if r.1 = 4 then (0, some r.2) else (-1, none)) g'
  split
  · next hread =>
    refine ⟨hask', fun _ hmask status hstatus => ?_⟩
    obtain rfl := Option.some.inj hstatus
    exact hhonours hread hmask
  · exact told_failed hask'

theorem sampleTagStatus_safe (mask : UInt32) : Safe spe t (sampleTagStatus mask).marked g fun status g' =>
    g'.ask = g.ask ∧ Sub status mask ∧ Sub (g'.sampled &&& mask) status := by
  apply Proto.Safe.marked_bind (safe_readTagStatus mask)
  intro status g' h
  apply Proto.Safe.marked_bind (safe_unseen fun _ _ _ _ => rfl)
  rintro active _ rfl
  apply Proto.Safe.marked_bind (safe_unseen fun _ _ _ _ => rfl)
  rintro _ _ rfl
  exact .ret h

/-- A query around its samples. -/
theorem query_safe {mask : UInt32} {p : Code UInt32}
    (hp : ∀ g : Phase, g.ask = some q → Safe spe t p.marked g fun status g' => Told q (0, some status) g')
    (hask : g.ask = some q) :
    Safe spe t (do
      perform .lock
      perform (.writeQueryMask mask)
      let status ← p
      perform (.noteReported status)
      perform .unlock
      return ((0, some status) : Int × Option UInt32) : Code (Int × Option UInt32)).marked g (Told q) := by
  apply Proto.Safe.marked_bind (safe_unseen fun _ _ _ _ => rfl)
  rintro _ _ rfl
  apply Proto.Safe.marked_bind (safe_unseen fun _ _ _ _ => rfl)
  rintro _ _ rfl
  apply Proto.Safe.marked_bind (hp _ hask)
  intro status g' h
  apply Proto.Safe.marked_bind (safe_noteReported status)
  rintro _ _ rfl
  apply Proto.Safe.marked_bind (safe_unseen fun _ _ _ _ => rfl)
  rintro _ _ rfl
  exact .ret h

/-- `m` is what the code asks for when its caller asks for `q`. -/
def Effective (spe : Context) (q : Query) (m : UInt32) : Prop := spe.mapPs → q.mask ≠ 0 → m = q.mask

theorem speReadTagStatusBlock_safe {m : UInt32} (hm : Effective spe q m) (hask : g.ask = some q) :
    Safe spe t (speReadTagStatusBlock spe m).marked g (Told q) := by
  unfold speReadTagStatusBlock
  by_cases hps : spe.mapPs
  · rw [if_pos hps]
    refine query_safe (fun g hask => ?_) hask
    rw [Prog.marked_repeats]
    apply Proto.Safe.repeats (fun _ (g : Phase) => g.ask = some q) hask
    intro _ g hask
    apply Proto.Safe.marked_bind (sampleTagStatus_safe m)
    rintro status g' ⟨hask', -, -⟩
    apply Proto.Safe.ret
    split
    · exact hask'.trans hask
    · next hstatus =>
      have hall : status = m := UInt32.xor_eq_zero_iff.mp (not_not.mp hstatus)
      refine ⟨hask'.trans hask, fun _ hmask _ hsome => ?_⟩
      obtain rfl := Option.some.inj hsome
      have hq : status = q.mask := hall.trans (hm hps hmask)
      constructor
      · exact hq ▸ Sub.refl status
      · exact fun _ => hq
      · exact fun _ hzero => hmask (hq.symm.trans hzero)
      · intro i _ hheld
        rw [holds_and, Bool.and_eq_true] at hheld
        exact hq ▸ hheld.2
  · rw [if_neg hps]
    apply Proto.Safe.marked_bind (safe_unseen fun _ _ _ _ => rfl)
    rintro fd _ rfl
    split
    · exact .ret (told_failed hask)
    · exact readStatusFile_safe fd (Bool.eq_false_iff.mpr hps) hask

theorem speReadTagStatusNoblock_safe {m : UInt32} (hm : Effective spe q m)
    (hb : q.behavior = speTagImmediate) (hask : g.ask = some q) :
    Safe spe t (speReadTagStatusNoblock spe m).marked g (Told q) := by
  have honours {status owed : UInt32} (hwithin : Sub status q.mask) (hreports : Sub (owed &&& q.mask) status) :
      (⟨q, status, owed⟩ : Answer).Honours := by
    refine ⟨hwithin, fun hall => ?_, fun hany => ?_, hreports⟩
    · exact absurd (hb.symm.trans hall) (by decide)
    · exact absurd (hb.symm.trans hany) (by decide)
  unfold speReadTagStatusNoblock
  by_cases hps : spe.mapPs
  · rw [if_pos hps]
    refine query_safe (fun g hask => ?_) hask
    apply Proto.Safe.mono (sampleTagStatus_safe m)
    rintro status g' ⟨hask', hwithin, hreports⟩
    refine ⟨hask'.trans hask, fun _ hmask _ hsome => ?_⟩
    obtain rfl := Option.some.inj hsome
    rw [hm hps hmask] at hwithin hreports
    exact honours hwithin hreports
  · have hfile : spe.mapPs = false := Bool.eq_false_iff.mpr hps
    rw [if_neg hps]
    apply Proto.Safe.marked_bind (safe_unseen fun _ _ _ _ => rfl)
    rintro fd _ rfl
    split
    · exact .ret (told_failed hask)
    · apply Proto.Safe.marked_bind (safe_poll fd hfile hask)
      rintro r g' ⟨hask', hnone⟩
      show Safe spe t (if r.1 = 0 ∨ r.2 = false then _ else _ : Code (Int × Option UInt32)).marked g' _
      split
      · next hnothing =>
        refine .ret ⟨hask', fun _ _ _ hsome => ?_⟩
        obtain rfl := Option.some.inj hsome
        exact honours (sub_zero _) (hnone hnothing)
      · exact readStatusFile_safe fd hfile hask'

theorem speMfcioTagStatusReadAll_safe {m : UInt32} (hm : Effective spe q m) (hask : g.ask = some q) :
    Safe spe t (speMfcioTagStatusReadAll spe m).marked g (Told q) := by
  unfold speMfcioTagStatusReadAll
  split
  · exact speReadTagStatusBlock_safe hm hask
  · apply Proto.Safe.marked_bind (safe_unseen fun _ _ _ _ => rfl)
    rintro fd _ rfl
    split
    · exact .ret (told_failed hask)
    · apply Proto.Safe.marked_bind (safe_unseen fun _ _ _ _ => rfl)
      rintro rc _ rfl
      split
      · exact .ret (told_failed hask)
      · exact speReadTagStatusBlock_safe hm hask

theorem effectiveMask_safe : Safe spe t (effectiveMask spe q.mask).marked g fun m g' =>
    Effective spe q m ∧ g' = g := by
  unfold effectiveMask
  split
  · split
    · exact .ret ⟨fun _ _ => rfl, rfl⟩
    · next hps => exact .ret ⟨fun h => absurd h hps, rfl⟩
  · next hmask =>
    split
    · apply Proto.Safe.mono (safe_unseen fun _ _ _ _ => rfl)
      intro m g' hg
      exact ⟨fun _ h => absurd h hmask, hg⟩
    · exact .ret ⟨fun _ h => absurd h hmask, rfl⟩

theorem baseSpeMfcioTagStatusRead_safe {tagStatus : Bool} (hask : g.ask = some q) :
    Safe spe t (baseSpeMfcioTagStatusRead spe q.mask q.behavior tagStatus).marked g (Told q) := by
  have invalid : Safe spe t (do
      perform (.setErrno .EINVAL)
      return ((-1, none) : Int × Option UInt32) : Code (Int × Option UInt32)).marked g (Told q) := by
    apply Proto.Safe.marked_bind (safe_unseen fun _ _ _ _ => rfl)
    rintro _ _ rfl
    exact .ret (told_failed hask)
  apply Proto.Safe.marked_bind effectiveMask_safe
  rintro m _ ⟨hm, rfl⟩
  split
  · exact invalid
  split
  · exact speMfcioTagStatusReadAll_safe hm hask
  split
  · exact speReadTagStatusBlock_safe hm hask
  split
  · next hb => exact speReadTagStatusNoblock_safe hm hb hask
  · exact invalid

/-! ## All interleavings -/

theorem enqueue_safe (hps : spe.mapPs) (p : Parms) : Safe spe t (enqueue p).marked g fun _ g' => g' = g := by
  unfold enqueue
  rw [Prog.marked_repeats]
  apply Proto.Safe.repeats (fun _ g' => g' = g) rfl
  rintro _ _ rfl
  apply Proto.Safe.marked_bind (safe_unseen fun _ _ _ _ => rfl)
  rintro _ _ rfl
  apply Proto.Safe.marked_bind (safe_unseen fun _ _ _ _ => rfl)
  rintro _ _ rfl
  apply Proto.Safe.marked_bind (safe_unseen fun _ _ _ _ => rfl)
  rintro _ _ rfl
  apply Proto.Safe.marked_bind (safe_unseen fun _ _ _ _ => rfl)
  rintro _ _ rfl
  apply Proto.Safe.marked_bind (safe_writeClassIdCmd hps _)
  rintro _ _ rfl
  apply Proto.Safe.marked_bind (safe_unseen fun _ _ _ _ => rfl)
  rintro ret _ rfl
  apply Proto.Safe.ret
  split <;> rfl

theorem issueMapped_safe (hps : spe.mapPs) (p : Parms) :
    Safe spe t (issueMapped p).marked g fun _ g' => g' = g := by
  apply Proto.Safe.marked_bind (safe_unseen fun _ _ _ _ => rfl)
  rintro _ _ rfl
  apply Proto.Safe.marked_bind (safe_unseen fun _ _ _ _ => rfl)
  rintro active _ rfl
  apply Proto.Safe.marked_bind (safe_unseen fun _ _ _ _ => rfl)
  rintro _ _ rfl
  apply Proto.Safe.marked_bind (safe_unseen_all (Prog.all_repeats.mpr fun _ => ?_))
  · rintro _ _ rfl
    apply Proto.Safe.marked_bind (enqueue_safe hps p)
    rintro _ _ rfl
    apply Proto.Safe.marked_bind (safe_unseen fun _ _ _ _ => rfl)
    rintro _ _ rfl
    apply Proto.Safe.marked_bind (safe_unseen fun _ _ _ _ => rfl)
    rintro _ _ rfl
    exact .ret rfl
  · exact .bind (.perform fun _ _ _ _ => rfl) fun _ => trivial

theorem issueMfcCommand_safe (p : Parms) : Safe spe t (issueMfcCommand spe p).marked g fun _ g' => g' = g := by
  unfold issueMfcCommand
  split
  · apply Proto.Safe.marked_bind (safe_unseen fun _ _ _ _ => rfl)
    rintro _ _ rfl
    exact .ret rfl
  split
  · next hps => exact issueMapped_safe hps p
  · apply Proto.Safe.marked_bind (safe_unseen fun _ _ _ _ => rfl)
    rintro fd _ rfl
    split
    · apply Proto.Safe.marked_bind (safe_writeFile fd _)
      rintro ret _ rfl
      exact .ret rfl
    · exact .ret rfl

/-- What `spe_do_mfc_put` and `spe_do_mfc_get` do behind the command. -/
theorem fallback_safe {p : Code Unit} (hp : p.All Unseen) (ret : Int) : Safe spe t (if ret ≤ 0 then return ret
    else if spe.memMapped then do
      p
      return (0 : Int)
    else do
      perform (.setErrno .EINVAL)
      return -1 : Code Int).marked g fun _ g' => g' = g := by
  split
  · exact .ret rfl
  split
  · apply Proto.Safe.marked_bind (safe_unseen_all hp)
    rintro _ _ rfl
    exact .ret rfl
  · apply Proto.Safe.marked_bind (safe_unseen fun _ _ _ _ => rfl)
    rintro _ _ rfl
    exact .ret rfl

theorem speDoMfcPut_safe {src : UInt32} {dst : UInt64} {size tag tid rid : UInt32} {cmd : MfcCmd} :
    Safe spe t (speDoMfcPut spe src dst size tag tid rid cmd).marked g fun _ g' => g' = g := by
  apply Proto.Safe.marked_bind (issueMfcCommand_safe _)
  rintro ret _ rfl
  exact fallback_safe (.perform fun _ _ _ _ => rfl) ret

theorem speDoMfcGet_safe {dst : UInt32} {src : UInt64} {size tag tid rid : UInt32} {cmd : MfcCmd} :
    Safe spe t (speDoMfcGet spe dst src size tag tid rid cmd).marked g fun _ g' => g' = g := by
  apply Proto.Safe.marked_bind (issueMfcCommand_safe _)
  rintro ret _ rfl
  exact fallback_safe (.perform fun _ _ _ _ => rfl) ret

theorem asks_safe (q : Query) : Safe spe t (Prog.mark (.asks q)) ⟨none, 0⟩ fun _ g' => g' = ⟨some q, 0⟩ := by
  apply Proto.Safe.mark
  intro γ s x hi hg
  refine ⟨trivial, ⟨some q, 0⟩, hi.set ⟨rfl, rfl, rfl⟩ rfl ?_ hi.answers, rfl⟩
  have hsampled : x.sampled t = 0 := by rw [hi.sampled, hg]
  show x.sampled = update x.sampled t 0
  rw [← hsampled, Function.update_eq_self]

theorem returns_safe {r : Int × Option UInt32} (h : Told q r g) :
    Safe spe t (Prog.mark (.returns r.1 r.2)) g fun _ g' => g' = ⟨none, 0⟩ := by
  apply Proto.Safe.mark
  intro γ s x hi hg
  refine ⟨trivial, _, ?_, rfl⟩
  have hask : x.asks t = some q := by rw [hi.ask, hg, h.1]
  have hsampled : x.sampled t = g.sampled := by rw [hi.sampled, hg]
  show Inv spe _ (match x.asks t, r.2 with | some q, some status => _ | _, _ => _)
  rw [hask, hsampled]
  cases hr : r.2 with
  | none => exact hi.set ⟨rfl, rfl, rfl⟩ rfl rfl hi.answers
  | some status =>
    show Inv spe _ (if r.1 = 0 ∧ q.mask ≠ 0 then _ else _)
    split
    · next hanswer =>
      have hnew : (⟨q, status, g.sampled⟩ : Answer).Honours := h.2 hanswer.1 hanswer.2 status hr
      exact hi.set ⟨rfl, rfl, rfl⟩ rfl rfl
        (List.forall_mem_append.mpr ⟨hi.answers, List.forall_mem_singleton.mpr hnew⟩)
    · exact hi.set ⟨rfl, rfl, rfl⟩ rfl rfl hi.answers

theorem code_safe (t : Tid) (e : Event) : Safe spe t (e.code spe) ⟨none, 0⟩ fun _ g' => g' = ⟨none, 0⟩ := by
  have drop {p : Code Int} (hp : Safe spe t p.marked ⟨none, 0⟩ fun _ g' => g' = ⟨none, 0⟩) :
      Safe spe t (do let _ ← p : Code Unit).marked ⟨none, 0⟩ fun _ g' => g' = ⟨none, 0⟩ :=
    .marked_bind hp fun _ _ h => h
  cases e with
  | completes tags =>
    apply Proto.Safe.mark
    intro γ s x hi hg
    refine ⟨trivial, ⟨none, 0⟩, ?_, rfl⟩
    rw [← hg, Function.update_eq_self]
    exact hi.completes t s tags
  | call c =>
    cases c with
    | put | putb | putf => exact drop speDoMfcPut_safe
    | get | getb | getf => exact drop speDoMfcGet_safe
    | tagStatusRead mask behavior tagStatus =>
      apply Proto.Safe.bind (asks_safe ⟨mask, behavior⟩)
      rintro _ _ rfl
      have hread : Safe spe t (baseSpeMfcioTagStatusRead spe mask behavior tagStatus).marked
          ⟨some ⟨mask, behavior⟩, 0⟩ (Told ⟨mask, behavior⟩) :=
        baseSpeMfcioTagStatusRead_safe (q := ⟨mask, behavior⟩) rfl
      exact hread.bind fun r g' h => returns_safe h

theorem init_inv {y : World × Seen} (h : (observedSystem spe).init y) : Inv spe (fun _ => ⟨none, 0⟩) y.2 := by
  rw [h.2]
  constructor
  · exact fun _ => rfl
  · exact fun _ => rfl
  · nofun
  · exact fun _ _ _ => holds_zero
  · intro _ i _ hused
    rcases hused with h | h
    all_goals exact absurd (h.symm.trans holds_zero) (by decide)

/-- **Tag status honours the mask**, in every run of any number of threads that use a context, with
completions at any time: through the registers every status returned for a nonzero mask does, and what is
owed is complete there; through the file the same holds if every read of the file finds tags of its mask
only, all of them for `SPE_TAG_ALL`, and no poll fails while a tag of its mask could be read. -/
theorem tag_status_mask {cfg : Config (Marked Cmd Mark) (Marked.Ans Ans) Tid (World × Seen)}
    (h : (observedSystem spe).Reach (fun t c r y => Documented t c r y ∧ (spe.mapPs = false → Met t c r y)) cfg) :
    (∀ a ∈ cfg.shared.2.answers, a.Honours) ∧ Sub cfg.shared.2.owed (cfg.shared.2.complete spe) := by
  obtain ⟨γ, hi, -⟩ := Proto.reach (P := proto spe) (S := observedSystem spe) (fun _ => init_inv)
    (fun t e => code_safe t e) (reach_asked h)
  refine ⟨hi.answers, fun i hi' howed => ?_⟩
  unfold Seen.complete
  split
  · rw [holds_compl hi', hi.owed i hi' howed]
    rfl
  · next hps => exact hi.ready (Bool.eq_false_iff.mpr hps) i hi' howed

/-! ## Two runs through the file -/

/-- A context without `SPE_MAP_PS`. -/
def unmapped : Context := ⟨0, true⟩

/-- The put of 16 bytes with a tag. -/
def putTrace (tag : UInt16) : List (Sigma (Marked.Ans (K := Mark) Ans)) :=
  [⟨.cmd (.openIfClosed .mfc), (5 : Int)⟩,
    ⟨.cmd (.writeFile 5 { lsa := 0, ea := 0, size := 16, tag := tag, class_ := 0, cmd := 0x20 }), (32 : Int)⟩]

/-- A read that finds `status` in the file. -/
def readTrace (mask status : UInt32) : List (Sigma (Marked.Ans (K := Mark) Ans)) :=
  [⟨.mark (.asks ⟨mask, speTagAny⟩), ()⟩, ⟨.cmd (.openIfClosed .mfc), (5 : Int)⟩,
    ⟨.cmd (.readFile 5), ((4 : Int), status)⟩, ⟨.mark (.returns 0 (some status)), ()⟩]

/-- The state in which tags 1 and 2 have been used and are complete. -/
def completed : World × Seen :=
  let put (tag : UInt16) (y : World × Seen) := ((observedSystem unmapped).play 1 (putTrace tag) y).getD y
  let y := put 2 (put 1 (zeroed, .start))
  (y.1, seeMark 0 (.completes 6) y.1 y.2)

theorem completed_reach : (observedSystem unmapped).Reach (Honest unmapped) ⟨completed, fun _ => none⟩ := by
  have h₀ : (observedSystem unmapped).Reach (Honest unmapped) ⟨(zeroed, .start), fun _ => none⟩ :=
    .init ⟨⟨rfl, rfl, rfl, rfl, rfl⟩, rfl⟩
  have hput₁ : ((observedSystem unmapped).code 1 (Event.call (.put 0 0 16 1 0 0))).Ends (putTrace 1) () :=
    .cmd (.cmd .ret)
  have hput₂ : ((observedSystem unmapped).code 1 (Event.call (.put 0 0 16 2 0 0))).Ends (putTrace 2) () :=
    .cmd (.cmd .ret)
  have h₁ := h₀.solo rfl hput₁ (show (observedSystem unmapped).play 1 _ _ = some _ from rfl)
    ⟨⟨trivial, fun _ => trivial⟩, ⟨trivial, fun _ => trivial⟩, trivial⟩
  have h₂ := h₁.solo rfl hput₂ (show (observedSystem unmapped).play 1 _ _ = some _ from rfl)
    ⟨⟨trivial, fun _ => trivial⟩, ⟨trivial, fun _ => trivial⟩, trivial⟩
  have hmark : ((observedSystem unmapped).code 0 (Event.completes 6)).Ends [⟨.mark (.completes 6), ()⟩] () := .cmd .ret
  exact h₂.solo rfl hmark (show (observedSystem unmapped).play 0 _ _ = some _ from rfl)
    ⟨⟨trivial, fun _ => trivial⟩, trivial⟩

/-- Both are asked for and reported. -/
theorem tag_status_mask_file : ∃ cfg : Config (Marked Cmd Mark) (Marked.Ans Ans) Tid (World × Seen),
    cfg.shared.2.answers = [⟨⟨6, speTagAny⟩, 6, 6⟩] ∧
      (∀ a ∈ cfg.shared.2.answers, a.Honours) ∧ Sub cfg.shared.2.owed (cfg.shared.2.complete unmapped) := by
  have hread : ((observedSystem unmapped).code 1 (Event.call (.tagStatusRead 6 speTagAny true))).Ends
      (readTrace 6 6) () :=
    .cmd (.cmd (.cmd (.cmd .ret)))
  have h := completed_reach.solo rfl hread (show (observedSystem unmapped).play 1 _ _ = some _ from rfl) ?_
  · exact ⟨_, rfl, tag_status_mask h⟩
  refine ⟨⟨trivial, fun _ => trivial⟩, ⟨trivial, fun _ => trivial⟩, ⟨fun _ => ⟨rfl, by decide⟩, fun _ => ?_⟩,
    ⟨trivial, fun _ => trivial⟩, trivial⟩
  intro q hq _ _
  obtain rfl := Option.some.inj hq
  exact ⟨by decide, fun _ => rfl⟩

/-- Only tag 1 is asked for: tag 2 is returned with it, and then nobody is told of it again. -/
theorem file_ignores_mask : ¬ ∀ (spe : Context) (cfg : Config (Marked Cmd Mark) (Marked.Ans Ans) Tid (World × Seen)),
    (observedSystem spe).Reach Documented cfg →
      (∀ a ∈ cfg.shared.2.answers, a.Honours) ∧ Sub cfg.shared.2.owed (cfg.shared.2.complete spe) := by
  intro h
  have hread : ((observedSystem unmapped).code 1 (Event.call (.tagStatusRead 2 speTagAny true))).Ends
      (readTrace 2 6) () :=
    .cmd (.cmd (.cmd (.cmd .ret)))
  have hreach := (completed_reach.mono fun _ _ _ _ hok => hok.1).solo rfl hread
    (show (observedSystem unmapped).play 1 _ _ = some _ from rfl)
    ⟨trivial, trivial, fun _ => ⟨rfl, by decide⟩, trivial, trivial⟩
  obtain ⟨hanswers, howed⟩ := h unmapped _ hreach
  exact absurd howed (by decide)

end TagMask

end LibSpe2.Dma
