import LibSpe2.SpeBase.Dma

/-!
# The active tag mask

`active_tagmask` is to hold the tags of the commands that no returned tag status has reported complete,
so that a tag status read with mask 0 can ask for these. An issue sets its tag; a read toggles the tags
of every status it samples.

* `unreported` — the tags that the mask is to hold.
* `Toggles` — when toggling the samples of a call clears exactly the tags that the call reports.

Main results:
* `activeTagmask_account` — the mask is right in every state of a run if the memory of the context was
  zero and the samples of every call toggle well, and a single call keeps it right exactly then.
* `activeTagmask_breaks` — a tag reported complete twice is active again.
-/

namespace LibSpe2.Dma

open Conc

variable {t : Tid} {s s' : World} {spe : Context} {tr tr₁ tr₂ : List (Sigma Ans)}

/-! ## Samples -/

/-- The query masks written in a trace. -/
def queriesOf (tr : List (Sigma Ans)) : List UInt32 :=
  tr.filterMap fun
    | ⟨.writeQueryMask mask, _⟩ => some mask
    | _ => none

@[simp] theorem queriesOf_append : queriesOf (tr₁ ++ tr₂) = queriesOf tr₁ ++ queriesOf tr₂ :=
  List.filterMap_append ..

/-- A mask holds a tag. -/
def holds (mask : UInt32) (i : Nat) : Bool := mask.toBitVec.getLsbD i

/-- What toggling the samples does to a mask. -/
def toggle (active : UInt32) (samples : List UInt32) : UInt32 := samples.foldl (· ^^^ ·) active

theorem ext_holds {a b : UInt32} (h : ∀ i < 32, holds a i = holds b i) : a = b :=
  UInt32.toBitVec_inj.mp (BitVec.eq_of_getLsbD_eq h)

theorem holds_toggle {active : UInt32} {samples : List UInt32} {i : Nat} :
    holds (toggle active samples) i =
      (holds active i ^^ decide ((samples.countP (holds · i)) % 2 = 1)) := by
  induction samples generalizing active with
  | nil => simp [toggle]
  | cons a l ih =>
    show holds (toggle (active ^^^ a) l) i = _
    rw [ih, List.countP_cons]
    have hx : holds (active ^^^ a) i = (holds active i ^^ holds a i) := by simp [holds]
    rw [hx]
    cases holds a i
    · simp
    · rcases Nat.mod_two_eq_zero_or_one (l.countP (holds · i)) with h | h <;>
        simp [h, Nat.add_mod]

/-- The samples of a call report each tag an odd number of times if it is active and in the status that
the call returns, which is the last sample, and an even number of times otherwise. -/
def Toggles (active : UInt32) (samples : List UInt32) : Prop :=
  ∀ i < 32, samples.countP (holds · i) % 2 = 1 ↔
    holds active i ∧ ∃ status, samples.getLast? = some status ∧ holds status i

theorem toggles_nil {active : UInt32} : Toggles active [] := by
  intro i _
  simp

/-- Toggling clears the tags of the returned status exactly under this condition. -/
theorem toggle_eq_iff {active status : UInt32} {l : List UInt32} :
    toggle active (l ++ [status]) = active &&& ~~~status ↔ Toggles active (l ++ [status]) := by
  have hbit (i : Nat) (hi : i < 32) :
      holds (toggle active (l ++ [status])) i = holds (active &&& ~~~status) i ↔
        ((l ++ [status]).countP (holds · i) % 2 = 1 ↔ holds active i ∧ holds status i) := by
    rw [holds_toggle]
    have hx : holds (active &&& ~~~status) i = (holds active i && !holds status i) := by
      simp [holds, hi]
    rw [hx]
    by_cases hodd : (l ++ [status]).countP (holds · i) % 2 = 1 <;>
      cases holds active i <;> cases holds status i <;> simp_all
  constructor
  · intro h i hi
    simpa using (hbit i hi).mp (by rw [h])
  · intro h
    apply ext_holds
    intro i hi
    exact (hbit i hi).mpr (by simpa using h i hi)

/-! ## What a call does -/

/-- Neither the mask nor the tags it is to hold are touched, and no status is sampled. -/
structure Quiet (s : World) (tr : List (Sigma Ans)) (s' : World) : Prop where
  samples : sampled tr = []
  active : s'.activeTagmask = s.activeTagmask
  unreported : s'.unreported = s.unreported

def Cmd.IsQuiet : Cmd → Prop
  | .storeActive _ | .readTagStatus _ | .noteIssued _ | .noteReported _ => False
  | _ => True

theorem Quiet.refl : Quiet s [] s := ⟨rfl, rfl, rfl⟩

theorem Quiet.trans {s₁ : World} (h₁ : Quiet s tr₁ s₁) (h₂ : Quiet s₁ tr₂ s') :
    Quiet s (tr₁ ++ tr₂) s' :=
  ⟨by simp [h₁.samples, h₂.samples], h₂.active.trans h₁.active, h₂.unreported.trans h₁.unreported⟩

theorem Quiet.exec {c : Cmd} {r : Ans c} (h : machine.exec t c r s = some s') (hc : c.IsQuiet) :
    Quiet s [⟨c, r⟩] s' := by
  cases c with
  | storeActive | readTagStatus | noteIssued | noteReported => exact hc.elim
  | lock | unlock | loadActive | readCmdStatus =>
    obtain ⟨-, h'⟩ := Option.ite_none_right_eq_some.mp h
    obtain rfl := Option.some.inj h'
    exact ⟨rfl, rfl, rfl⟩
  | _ =>
    obtain rfl := Option.some.inj h
    exact ⟨rfl, rfl, rfl⟩

/-- A program all of whose accesses are quiet. -/
theorem quiet_solo {α : Type} {p : Code α} (hp : p.All Cmd.IsQuiet) :
    Solo machine t p s fun tr _ s' => Quiet s tr s' := by
  intro tr a s' h hs
  have hall := hp.ends h
  clear h hp
  induction tr generalizing s with
  | nil =>
    obtain rfl := Option.some.inj hs
    exact .refl
  | cons e tr ih =>
    obtain ⟨s₁, hs₁, hs'⟩ := Option.bind_eq_some_iff.mp hs
    have h₁ := Quiet.exec hs₁ (hall e (.head _))
    exact h₁.trans (ih hs' fun e' he' => hall e' (.tail _ he'))

/-- What a call does to the mask and to the tags it is to hold. -/
inductive Effect (s : World) (tr : List (Sigma Ans)) (s' : World) : Prop
  | quiet (h : Quiet s tr s')
  | issue (tag : UInt32) (hs : sampled tr = [])
      (ha : s'.activeTagmask = s.activeTagmask ||| tagBit tag)
      (hu : s'.unreported = s.unreported ||| tagBit tag)
  | read (l : List UInt32) (status : UInt32) (hs : sampled tr = l ++ [status])
      (ha : s'.activeTagmask = toggle s.activeTagmask (l ++ [status]))
      (hu : s'.unreported = s.unreported &&& ~~~status)

/-! ### Issues -/

theorem waitForQueue_quiet : waitForQueue.All Cmd.IsQuiet := by
  refine Prog.all_repeats.mpr fun _ => ?_
  exact .bind (.perform trivial) fun _ => trivial

theorem enqueue_quiet {p : Parms} : (enqueue p).All Cmd.IsQuiet := by
  refine Prog.all_repeats.mpr fun _ => ?_
  repeat' first | trivial | refine .bind (.perform trivial) fun _ => ?_

theorem issueMapped_effect {p : Parms} :
    Solo machine t (issueMapped p) s fun tr _ s' => Effect s tr s' := by
  refine .perform fun _ s₁ h₁ => ?_
  refine .perform fun active s₂ h₂ => ?_
  refine .perform fun _ s₃ h₃ => ?_
  refine .bind ((quiet_solo waitForQueue_quiet).mono fun tr₁ _ s₄ h₄ => ?_)
  refine .bind ((quiet_solo enqueue_quiet).mono fun tr₂ _ s₅ h₅ => ?_)
  refine .perform fun _ s₆ h₆ => ?_
  refine .perform fun _ s₇ h₇ => .ret ?_
  have q₁ := Quiet.exec h₁ trivial
  have q₂ := Quiet.exec h₂ trivial
  have q₇ := Quiet.exec h₇ trivial
  obtain rfl : active = s₁.activeTagmask := (Option.ite_none_right_eq_some.mp h₂).1
  obtain rfl := Option.some.inj h₃
  obtain rfl := Option.some.inj h₆
  refine .issue p.tag ?_ ?_ ?_
  · show sampled (tr₁ ++ (tr₂ ++ _)) = []
    rw [sampled_append, sampled_append, h₄.samples, h₅.samples]
    rfl
  · rw [q₇.active]
    show s₅.activeTagmask = _
    rw [h₅.active, h₄.active]
    show s₁.activeTagmask ||| _ = _
    rw [q₁.active]
  · rw [q₇.unreported]
    show s₅.unreported ||| _ = _
    rw [h₅.unreported, h₄.unreported]
    show s₂.unreported ||| _ = _
    rw [q₂.unreported, q₁.unreported]

theorem issueMfcCommand_effect {p : Parms} :
    Solo machine t (issueMfcCommand spe p) s fun tr _ s' => Effect s tr s' := by
  have hfile : (issueFile p).All Cmd.IsQuiet := by
    refine .bind (.perform trivial) fun fd => ?_
    repeat' first | trivial | refine .bind (.perform trivial) fun _ => ?_ | split
  unfold issueMfcCommand
  split
  · refine (quiet_solo ?_).mono fun _ _ _ => .quiet
    exact .bind (p := perform (.setErrno .EINVAL)) (.perform trivial) fun _ => trivial
  split
  · exact issueMapped_effect
  · exact (quiet_solo hfile).mono fun _ _ _ => .quiet

/-- What follows a call's effect quietly. -/
theorem Effect.trans_quiet {s₁ : World} (h₁ : Effect s tr₁ s₁) (h₂ : Quiet s₁ tr₂ s') :
    Effect s (tr₁ ++ tr₂) s' := by
  cases h₁ with
  | quiet h => exact .quiet (h.trans h₂)
  | issue tag hs ha hu =>
    exact .issue tag (by rw [sampled_append, hs, h₂.samples]; rfl) (h₂.active.trans ha)
      (h₂.unreported.trans hu)
  | read l status hs ha hu =>
    exact .read l status (by rw [sampled_append, hs, h₂.samples, List.append_nil])
      (h₂.active.trans ha) (h₂.unreported.trans hu)

/-- What precedes a call's effect quietly. -/
theorem Quiet.trans_effect {s₁ : World} (h₁ : Quiet s tr₁ s₁) (h₂ : Effect s₁ tr₂ s') :
    Effect s (tr₁ ++ tr₂) s' := by
  cases h₂ with
  | quiet h => exact .quiet (h₁.trans h)
  | issue tag hs ha hu =>
    exact .issue tag (by rw [sampled_append, hs, h₁.samples]; rfl) (by rw [ha, h₁.active])
      (by rw [hu, h₁.unreported])
  | read l status hs ha hu =>
    exact .read l status (by rw [sampled_append, hs, h₁.samples, List.nil_append])
      (by rw [ha, h₁.active]) (by rw [hu, h₁.unreported])

/-- A program with an effect, and a quiet rest. -/
theorem effect_bind {α β : Type} {p : Code α} {f : α → Code β}
    (hp : Solo machine t p s fun tr _ s' => Effect s tr s') (hf : ∀ a, (f a).All Cmd.IsQuiet) :
    Solo machine t (p.bind f) s fun tr _ s' => Effect s tr s' :=
  .bind (hp.mono fun _ a _ h₁ => (quiet_solo (hf a)).mono fun _ _ _ h₂ => h₁.trans_quiet h₂)

theorem speDoMfcPut_effect {src : UInt32} {dst : UInt64} {size tag tid rid : UInt32} {cmd : MfcCmd} :
    Solo machine t (speDoMfcPut spe src dst size tag tid rid cmd) s fun tr _ s' => Effect s tr s' := by
  refine effect_bind issueMfcCommand_effect fun ret => ?_
  repeat' first | trivial | refine .bind (.perform trivial) fun _ => ?_ | split

theorem speDoMfcGet_effect {dst : UInt32} {src : UInt64} {size tag tid rid : UInt32} {cmd : MfcCmd} :
    Solo machine t (speDoMfcGet spe dst src size tag tid rid cmd) s fun tr _ s' => Effect s tr s' := by
  refine effect_bind issueMfcCommand_effect fun ret => ?_
  repeat' first | trivial | refine .bind (.perform trivial) fun _ => ?_ | split

/-! ### Reads -/

/-- The state after the samples of `tr`. -/
structure Sampled (s : World) (tr : List (Sigma Ans)) (s' : World) : Prop where
  active : s'.activeTagmask = toggle s.activeTagmask (sampled tr)
  unreported : s'.unreported = s.unreported

theorem toggle_append {active : UInt32} {l₁ l₂ : List UInt32} :
    toggle active (l₁ ++ l₂) = toggle (toggle active l₁) l₂ := List.foldl_append ..

theorem Sampled.trans {s₁ : World} (h₁ : Sampled s tr₁ s₁) (h₂ : Sampled s₁ tr₂ s') :
    Sampled s (tr₁ ++ tr₂) s' :=
  ⟨by rw [sampled_append, toggle_append, ← h₁.active, h₂.active],
    h₂.unreported.trans h₁.unreported⟩

theorem sampleTagStatus_sampled {mask : UInt32} :
    Solo machine t (sampleTagStatus mask) s fun tr status s' =>
      Sampled s tr s' ∧ sampled tr = [status] ∧ queriesOf tr = [] := by
  refine .perform fun status s₁ h₁ => ?_
  refine .perform fun active s₂ h₂ => ?_
  refine .perform fun _ s₃ h₃ => .ret ?_
  obtain rfl := Option.some.inj h₁
  obtain ⟨rfl, h₂'⟩ := Option.ite_none_right_eq_some.mp h₂
  obtain rfl := Option.some.inj h₂'
  obtain rfl := Option.some.inj h₃
  exact ⟨⟨rfl, rfl⟩, rfl, rfl⟩

/-- What a call of the read functions does: it queries `mask`, if it gets to the MFC at all. -/
def Reads (s : World) (mask : UInt32) (tr : List (Sigma Ans)) (s' : World) : Prop :=
  Effect s tr s' ∧ ∀ q ∈ queriesOf tr, q = mask

/-- A mapped read around the samples that it takes. -/
theorem reads_mapped {mask : UInt32} {p : Code UInt32}
    (hp : ∀ s, Solo machine t p s fun tr status s' =>
      Sampled s tr s' ∧ (∃ l, sampled tr = l ++ [status]) ∧ queriesOf tr = []) :
    Solo machine t (do
      perform .lock
      perform (.writeQueryMask mask)
      let status ← p
      perform (.noteReported status)
      perform .unlock
      return ((0, some status) : Int × Option UInt32)) s fun tr _ s' => Reads s mask tr s' := by
  refine .perform fun _ s₁ h₁ => ?_
  refine .perform fun _ s₂ h₂ => ?_
  refine .bind ((hp s₂).mono ?_)
  rintro tr status s₃ ⟨h₃, ⟨l, hl⟩, hq⟩
  refine .perform fun _ s₄ h₄ => ?_
  refine .perform fun _ s₅ h₅ => .ret ?_
  have q₁ := Quiet.exec h₁ trivial
  have q₂ := Quiet.exec h₂ trivial
  have q₅ := Quiet.exec h₅ trivial
  obtain rfl := Option.some.inj h₄
  refine ⟨.read l status ?_ ?_ ?_, ?_⟩
  · show sampled (tr ++ _) = _
    rw [sampled_append, hl]
    exact List.append_nil _
  · rw [q₅.active]
    show s₃.activeTagmask = _
    rw [h₃.active, hl, q₂.active, q₁.active]
  · rw [q₅.unreported]
    show s₃.unreported &&& _ = _
    rw [h₃.unreported, q₂.unreported, q₁.unreported]
  · show ∀ q ∈ mask :: queriesOf (tr ++ _), q = mask
    rw [queriesOf_append, hq]
    simp [queriesOf]

/-- The polling loop of a blocking read. -/
theorem pollTagStatus_sampled {mask : UInt32} :
    Solo machine t (Prog.repeats (fun _ => do
      let status ← sampleTagStatus mask
      return if status ^^^ mask ≠ 0 then .inl () else .inr status) ()) s fun tr status s' =>
        Sampled s tr s' ∧ (∃ l, sampled tr = l ++ [status]) ∧ queriesOf tr = [] := by
  refine .repeats (fun _ tr s' => Sampled s tr s' ∧ queriesOf tr = []) ⟨⟨rfl, rfl⟩, rfl⟩ ?_
  rintro _ tr s₁ ⟨h₁, hq₁⟩
  refine .bind (sampleTagStatus_sampled.mono ?_)
  rintro tr₂ status s₂ ⟨h₂, hs₂, hq₂⟩
  have h := h₁.trans h₂
  have hq : queriesOf (tr ++ tr₂) = [] := by rw [queriesOf_append, hq₁, hq₂]; rfl
  refine .ret ?_
  rw [List.append_nil]
  split
  · exact ⟨h, hq⟩
  · exact ⟨h, ⟨sampled tr, by rw [sampled_append, hs₂]⟩, hq⟩

/-- A read of the spufs file. -/
theorem reads_quiet {α : Type} {mask : UInt32} {p : Code α}
    (hp : p.All fun c => c.IsQuiet ∧ ∀ q, c ≠ .writeQueryMask q) :
    Solo machine t p s fun tr _ s' => Reads s mask tr s' := by
  intro tr a s' h hs
  refine ⟨.quiet (quiet_solo (hp.imp fun _ hc => hc.1) tr a s' h hs), fun q hq => ?_⟩
  obtain ⟨e, he, heq⟩ := List.mem_filterMap.mp hq
  split at heq
  · exact absurd rfl ((hp.ends h _ he).2 _)
  · cases heq

theorem speReadTagStatusBlock_reads (hps : spe.mapPs) {mask : UInt32} :
    Solo machine t (speReadTagStatusBlock spe mask) s fun tr _ s' => Reads s mask tr s' := by
  rw [speReadTagStatusBlock, if_pos hps]
  exact reads_mapped fun _ => pollTagStatus_sampled

theorem speReadTagStatusNoblock_reads (hps : spe.mapPs) {mask : UInt32} :
    Solo machine t (speReadTagStatusNoblock spe mask) s fun tr _ s' => Reads s mask tr s' := by
  rw [speReadTagStatusNoblock, if_pos hps]
  refine reads_mapped fun _ => sampleTagStatus_sampled.mono ?_
  rintro tr status s' ⟨h, hs, hq⟩
  exact ⟨h, ⟨[], hs⟩, hq⟩

/-- What a tag status read asks for: the tags given, or those that the mask holds. -/
def asked (mask : UInt32) (s : World) : UInt32 := if mask = 0 then s.activeTagmask else mask

theorem effectiveMask_asked (hps : spe.mapPs) {mask : UInt32} :
    Solo machine t (effectiveMask spe mask) s fun tr m s' =>
      Quiet s tr s' ∧ queriesOf tr = [] ∧ m = asked mask s := by
  unfold effectiveMask asked
  by_cases hm : mask = 0
  · rw [if_neg (by simpa using hm), if_pos hps, if_pos hm]
    intro tr a s' h hs
    obtain rfl := Prog.ends_perform.mp h
    obtain ⟨s₁, hs₁, hs'⟩ := Option.bind_eq_some_iff.mp hs
    obtain rfl := Option.some.inj hs'
    exact ⟨.exec hs₁ trivial, rfl, (Option.ite_none_right_eq_some.mp hs₁).1⟩
  · rw [if_pos hm, if_pos hps, if_neg hm]
    exact .ret ⟨.refl, rfl, rfl⟩

theorem baseSpeMfcioTagStatusRead_reads (hps : spe.mapPs) {mask behavior : UInt32}
    {tagStatus : Bool} :
    Solo machine t (baseSpeMfcioTagStatusRead spe mask behavior tagStatus) s fun tr _ s' =>
      Reads s (asked mask s) tr s' := by
  refine .bind ((effectiveMask_asked hps).mono ?_)
  rintro tr₁ m s₁ ⟨h₁, hq₁, rfl⟩
  -- each branch is a read of its own, after the load of the mask
  have after {α : Type} {p : Code α}
      (hp : Solo machine t p s₁ fun tr _ s' => Reads s₁ (asked mask s) tr s') :
      Solo machine t p s₁ fun tr₂ _ s' => Reads s (asked mask s) (tr₁ ++ tr₂) s' := by
    refine hp.mono ?_
    rintro tr₂ a s' ⟨h₂, hq₂⟩
    refine ⟨h₁.trans_effect h₂, ?_⟩
    rw [queriesOf_append, hq₁]
    exact hq₂
  have fails : Solo machine t (do perform (.setErrno .EINVAL); return ((-1, none) : Int × Option UInt32))
      s₁ fun tr _ s' => Reads s₁ (asked mask s) tr s' := by
    refine reads_quiet ?_
    exact .bind (p := perform (.setErrno .EINVAL)) (.perform ⟨trivial, nofun⟩) fun _ => trivial
  split
  · exact after fails
  split
  · rw [speMfcioTagStatusReadAll, if_pos hps]
    exact after (speReadTagStatusBlock_reads hps)
  split
  · exact after (speReadTagStatusBlock_reads hps)
  split
  · exact after (speReadTagStatusNoblock_reads hps)
  · exact after fails

/-! ### Calls -/

/-- What a call does, its result dropped. -/
theorem code_effect (hps : spe.mapPs) {c : Call} :
    Solo machine t (c.code spe) s fun tr _ s' => Effect s tr s' := by
  cases c with
  | put | putb | putf => exact effect_bind speDoMfcPut_effect fun _ => trivial
  | get | getb | getf => exact effect_bind speDoMfcGet_effect fun _ => trivial
  | tagStatusRead mask behavior tagStatus =>
    exact effect_bind ((baseSpeMfcioTagStatusRead_reads hps).mono fun _ _ _ h => h.1) fun _ => trivial

/-- A read with mask 0 asks for the tags that the mask holds. -/
theorem code_queries (hps : spe.mapPs) {behavior : UInt32} {tagStatus : Bool} :
    Solo machine t ((Call.tagStatusRead 0 behavior tagStatus).code spe) s fun tr _ _ =>
      ∀ q ∈ queriesOf tr, q = s.activeTagmask := by
  refine .bind ((baseSpeMfcioTagStatusRead_reads hps).mono ?_)
  rintro tr a s' ⟨-, h⟩
  refine .ret ?_
  rw [List.append_nil]
  exact h

/-! ## Runs -/

/-- The mask holds the tags that it is to hold. -/
def Accounted (s : World) : Prop := s.activeTagmask = s.unreported

/-- A call keeps the mask right exactly when its samples toggle well. -/
theorem Effect.accounted_iff (h : Effect s tr s') (hs : Accounted s) :
    Accounted s' ↔ Toggles s.activeTagmask (sampled tr) := by
  have none (hsamples : sampled tr = []) : Toggles s.activeTagmask (sampled tr) := by
    rw [hsamples]
    exact toggles_nil
  unfold Accounted at hs ⊢
  cases h with
  | quiet h => exact iff_of_true (by rw [h.active, h.unreported, hs]) (none h.samples)
  | issue tag hsamples ha hu => exact iff_of_true (by rw [ha, hu, hs]) (none hsamples)
  | read l status hsamples ha hu => rw [ha, hu, ← hs, hsamples, toggle_eq_iff]

/-- The calls on a context whose memory was zero at its creation. -/
def zeroSystem (spe : Context) : System Cmd Ans Tid World :=
  { system spe with init := fun s => Created s ∧ s.activeTagmask = 0 }

/-- Sequences of calls on such a context, the samples of each call toggling well. -/
def Accountable (spe : Context) : World → Prop :=
  (zeroSystem spe).Calls fun _ _ tr s => Toggles s.activeTagmask (sampled tr)

/-- **The active tag mask**, for every sequence of calls that meets the condition; after it, a further
call keeps the mask right exactly when it meets the condition too, and one with mask 0 asks for exactly
the tags with commands that have not been reported complete. -/
theorem activeTagmask_account (hps : spe.mapPs) (h : Accountable spe s) :
    Accounted s ∧
    (∀ t c tr s', ((system spe).code t c).Ends tr () → (system spe).play t tr s = some s' →
      (Accounted s' ↔ Toggles s.activeTagmask (sampled tr))) ∧
    (∀ t behavior tagStatus tr s',
      ((system spe).code t (.tagStatusRead 0 behavior tagStatus)).Ends tr () →
      (system spe).play t tr s = some s' → ∀ q ∈ queriesOf tr, q = s.unreported) := by
  have hacc : Accounted s := by
    induction h with
    | init h => exact h.2.trans h.1.unreported.symm
    | call _ hp hs hok ih => exact ((code_effect hps _ _ _ hp hs).accounted_iff ih).mpr hok
  refine ⟨hacc, fun t c tr s' hp hs => (code_effect hps _ _ _ hp hs).accounted_iff hacc, ?_⟩
  intro t behavior tagStatus tr s' hp hs q hq
  rw [code_queries hps _ _ _ hp hs q hq, hacc]

/-! ## Two runs -/

/-- A context with `SPE_MAP_PS`. -/
def mapped : Context := ⟨speMapPs, true⟩

/-- A new context in memory that was zero. -/
def zeroed : World := ⟨none, 0, ⟨0, 0, 0, 0, 0⟩, 0, 0, [], [], [], 0⟩

/-- A `put` of 16 bytes. -/
def putTag (tag : UInt32) : Parms := ⟨0, 0, 16, tag, 0, 0, .put⟩

/-- The exchange of an enqueueing that the MFC accepts at once. -/
def enqueueTrace (p : Parms) : List (Sigma Ans) :=
  [⟨.writeLSA p.regs.lsa, ()⟩, ⟨.writeEAH p.regs.eah, ()⟩, ⟨.writeEAL p.regs.eal, ()⟩,
    ⟨.writeSizeTag p.regs.sizeTag, ()⟩, ⟨.writeClassIdCmd p.regs.classIdCmd, 0⟩, ⟨.readCmdStatus, 0⟩]

/-- The exchange of an issue that the MFC accepts at once. -/
def issueTrace (p : Parms) (active : UInt32) : List (Sigma Ans) :=
  [⟨.lock, ()⟩, ⟨.loadActive, active⟩, ⟨.storeActive (active ||| tagBit p.tag), ()⟩] ++
    ([⟨.readQStatus, 1⟩] ++ (enqueueTrace p ++ [⟨.noteIssued p, ()⟩, ⟨.unlock, ()⟩]))

/-- The exchange of an immediate read. -/
def readTrace (mask active status : UInt32) : List (Sigma Ans) :=
  [⟨.lock, ()⟩, ⟨.writeQueryMask mask, ()⟩, ⟨.readTagStatus mask, status⟩, ⟨.loadActive, active⟩,
    ⟨.storeActive (active ^^^ status), ()⟩, ⟨.noteReported status, ()⟩, ⟨.unlock, ()⟩]

theorem waitForQueue_ends : waitForQueue.Ends [⟨.readQStatus, 1⟩] () :=
  Prog.ends_loop.mpr ⟨[⟨.readQStatus, 1⟩], [], .inr (), rfl, .cmd .ret, .ret⟩

theorem enqueue_ends (p : Parms) : (enqueue p).Ends (enqueueTrace p) () :=
  Prog.ends_loop.mpr ⟨enqueueTrace p, [], .inr (), rfl,
    .cmd (.cmd (.cmd (.cmd (.cmd (.cmd .ret))))), .ret⟩

theorem issueMapped_ends (p : Parms) (active : UInt32) :
    (issueMapped p).Ends (issueTrace p active) 0 := by
  refine .cmd (.cmd (.cmd ?_))
  show Prog.Ends (waitForQueue.bind _) _ _
  refine Prog.ends_bind.mpr ⟨[⟨.readQStatus, 1⟩], _, (), rfl, waitForQueue_ends, ?_⟩
  show Prog.Ends ((enqueue p).bind _) _ _
  exact Prog.ends_bind.mpr ⟨enqueueTrace p, _, (), rfl, enqueue_ends p, .cmd (.cmd .ret)⟩

theorem putTag_ends {tag : UInt32} (htag : tag ∈ [(1 : UInt32), 2]) (active : UInt32) :
    ((Call.put 0 0 16 tag 0 0).code mapped).Ends (issueTrace (putTag tag) active) () := by
  refine Prog.ends_bind.mpr ⟨_, [], 0, (List.append_nil _).symm, ?_, .ret⟩
  have hissue := issueMapped_ends (putTag tag) active
  rcases List.mem_pair.mp htag with rfl | rfl <;>
    exact Prog.ends_bind.mpr ⟨_, [], 0, (List.append_nil _).symm, hissue, .ret⟩

theorem readImmediate_ends (active status : UInt32) :
    ((Call.tagStatusRead 2 speTagImmediate true).code mapped).Ends (readTrace 2 active status) () := by
  refine Prog.ends_bind.mpr ⟨_, [], (0, some status), (List.append_nil _).symm, ?_, .ret⟩
  exact .cmd (.cmd (.cmd (.cmd (.cmd (.cmd (.cmd .ret))))))

theorem zeroed_init : (zeroSystem mapped).init zeroed := ⟨⟨rfl, rfl, rfl, rfl, rfl⟩, rfl⟩

/-- A command is issued for tag 1 and two reads find the tag complete: the mask holds the tag again. -/
theorem activeTagmask_breaks :
    ∃ s, (zeroSystem mapped).Calls (fun _ _ _ _ => True) s ∧ s.activeTagmask = 2 ∧
      s.unreported = 0 := by
  have h₁ : (zeroSystem mapped).Calls (fun _ _ _ _ => True) _ :=
    .call (t := 1) (c := Call.put 0 0 16 1 0 0) (.init zeroed_init) (putTag_ends (by decide) 0) rfl trivial
  have h₂ : (zeroSystem mapped).Calls (fun _ _ _ _ => True) _ :=
    .call (t := 1) (c := Call.tagStatusRead 2 speTagImmediate true) h₁ (readImmediate_ends 2 2) rfl
      trivial
  have h₃ : (zeroSystem mapped).Calls (fun _ _ _ _ => True) _ :=
    .call (t := 1) (c := Call.tagStatusRead 2 speTagImmediate true) h₂ (readImmediate_ends 0 2) rfl
      trivial
  exact ⟨_, h₃, rfl, rfl⟩

/-- Commands are issued for the tags 1 and 2, and a read finds tag 1 complete: the mask holds tag 2, for which a
read with mask 0 asks. -/
theorem activeTagmask_account_read : ∃ s, s.activeTagmask = 4 ∧ Accounted s ∧
    ∀ t behavior tagStatus tr s', ((system mapped).code t (.tagStatusRead 0 behavior tagStatus)).Ends tr () →
      (system mapped).play t tr s = some s' → ∀ q ∈ queriesOf tr, q = 4 := by
  have h₁ : Accountable mapped _ := .call (t := 1) (c := Call.put 0 0 16 1 0 0) (.init zeroed_init)
    (putTag_ends (by decide) 0) rfl toggles_nil
  have h₂ : Accountable mapped _ := .call (t := 1) (c := Call.put 0 0 16 2 0 0) h₁
    (putTag_ends (by decide) 2) rfl toggles_nil
  have hread : Toggles 6 [2] := (toggle_eq_iff (l := [])).mp (by decide)
  have h₃ : Accountable mapped _ := .call (t := 2) (c := Call.tagStatusRead 2 speTagImmediate true) h₂
    (readImmediate_ends 6 2) rfl hread
  obtain ⟨hacc, -, hqueries⟩ := activeTagmask_account rfl h₃
  exact ⟨_, rfl, hacc, hqueries⟩

end LibSpe2.Dma
