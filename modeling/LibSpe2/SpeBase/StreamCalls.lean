import LibSpe2.Conc.Solo
import LibSpe2.SpeBase.FileTable

/-!
# The table of streams, one call after the other (`spebase/default_c99_handler.c`)

The four handlers that change the table, as functions of it and of what the host answers.

* `Table` — the slots and their counter; `Reply` — what a handler stores for the SPE program.
* `Op` — a call with the host's answer; `Session` — the table, and the stream that each live handle stands for.
* `Lawful` — the counter is right in every state of a sequence of calls, live handles keep their streams, and
  each call is answered as it should be.

Main results:
* `call_alone` — the handlers of `fopen`, `tmpfile` and `fclose`, when no other thread moves, are these functions.
* `lawful_iff` — a sequence is lawful exactly if it has no `freopen` that fails for an opened handle, and no
  `fclose` that succeeds for a standard one: both leave the counter wrong.
-/

namespace LibSpe2.FileTable.Sequential

open Function

/-! ## The handlers -/

/-- `spe_FILE_ptrs` and `nr_spe_FILE_ptrs`. -/
structure Table where
  nrSpeFilePtrs : Int
  speFilePtrs : Nat → Option File

/-- What a handler stores in its result quadword, and whether it has called the host. -/
structure Reply where
  rc : Int
  err : Int
  asked : Bool
  deriving DecidableEq

def emfile : Int := 24

def ebadf : Int := 9

/-- The first slot that is free. -/
def Table.free (s : Table) : Option Nat := slots.find? fun i => (s.speFilePtrs i).isNone

/-- What the first indices stand for as long as their slots are free. -/
def standard : Nat → Option File
  | 1 => some .stdin
  | 2 => some .stdout
  | 3 => some .stderr
  | _ => none

/-- `get_FILE_nolock`. -/
def Table.getFileNolock (s : Table) (nr : Nat) : Option File :=
  if nr = 0 then none
  else if speFopenMax ≤ nr then none
  else (s.speFilePtrs nr).or (standard nr)

/-- `default_c99_handler_fopen`; `f` and `errno` are the host's. -/
def fopen (f : Option File) (errno : Int) (s : Table) : Reply × Table :=
  if s.nrSpeFilePtrs < speFopenMax then
    match s.free with
    | none => (⟨0, emfile, false⟩, s)
    | some i =>
      match f with
      | none => (⟨0, errno, true⟩, s)
      | some f => (⟨i, errno, true⟩, ⟨s.nrSpeFilePtrs + 1, update s.speFilePtrs i (some f)⟩)
  else (⟨0, emfile, false⟩, s)

/-- `default_c99_handler_tmpfile`. -/
def tmpfile (f : Option File) (errno : Int) (s : Table) : Reply × Table :=
  if speFopenMax ≤ s.nrSpeFilePtrs then (⟨0, emfile, false⟩, s)
  else
    match s.free with
    | none => (⟨0, emfile, false⟩, s)
    | some i =>
      let ptrs := update s.speFilePtrs i f
      if (ptrs i).isSome then (⟨i, errno, true⟩, ⟨s.nrSpeFilePtrs + 1, ptrs⟩)
      else (⟨0, errno, true⟩, ⟨s.nrSpeFilePtrs, ptrs⟩)

/-- `default_c99_handler_freopen`. -/
def freopen (i : Nat) (f : Option File) (errno : Int) (s : Table) : Reply × Table :=
  if i = 0 ∨ speFopenMax ≤ i then (⟨1, ebadf, false⟩, s)
  else
    let ptrs := update s.speFilePtrs i f
    if (ptrs i).isSome then (⟨i, 0, true⟩, ⟨s.nrSpeFilePtrs, ptrs⟩)
    else (⟨0, errno, true⟩, ⟨s.nrSpeFilePtrs, ptrs⟩)

/-- `default_c99_handler_fclose`. -/
def fclose (i : Nat) (rc errno : Int) (s : Table) : Reply × Table :=
  if rc = 0 then (⟨rc, errno, true⟩, ⟨s.nrSpeFilePtrs - 1, update s.speFilePtrs i none⟩)
  else (⟨rc, errno, true⟩, s)

/-! ## Sequences of calls -/

/-- A call, with what the host answers. -/
inductive Op where
  | fopen (f : Option File) (errno : Int)
  | tmpfile (f : Option File) (errno : Int)
  | freopen (i : Nat) (f : Option File) (errno : Int)
  | fclose (i : Nat) (rc errno : Int)

def Op.run : Op → Table → Reply × Table
  | .fopen f errno => Sequential.fopen f errno
  | .tmpfile f errno => Sequential.tmpfile f errno
  | .freopen i f errno => Sequential.freopen i f errno
  | .fclose i rc errno => Sequential.fclose i rc errno

/-- The table, and what each live handle was opened or reopened as. -/
structure Session where
  table : Table
  live : Nat → Option File

namespace Session

/-- The table as the library starts with it. -/
def initial : Session := ⟨⟨3, fun _ => none⟩, fun _ => none⟩

/-- Opening makes a handle live; closing ends it, and a `freopen` that fails closes too. -/
def after (s : Session) (op : Op) : Session where
  table := (op.run s.table).2
  live :=
    let rc := (op.run s.table).1.rc
    match op with
    | .fopen f _ | .tmpfile f _ => if rc = 0 then s.live else update s.live rc.toNat f
    | .freopen i f _ => update s.live i f
    | .fclose i _ _ => if rc = 0 then update s.live i none else s.live

/-- `freopen` and `fclose` are called for live handles and for the standard ones. -/
def Allows (s : Session) : Op → Prop
  | .fopen _ _ | .tmpfile _ _ => True
  | .freopen i _ _ | .fclose i _ _ => (1 ≤ i ∧ i ≤ 3) ∨ (s.live i).isSome

def Valid : Session → List Op → Prop
  | _, [] => True
  | s, op :: ops => s.Allows op ∧ (s.after op).Valid ops

/-- The slots in use. -/
def inUse (s : Session) : Nat := slots.countP fun i => (s.table.speFilePtrs i).isSome

/-- The counter is right. -/
def Counted (s : Session) : Prop := s.table.nrSpeFilePtrs = 3 + s.inUse

instance (s : Session) : Decidable s.Counted := inferInstanceAs (Decidable (_ = _))

/-- Live handles keep their streams. -/
def Names (s : Session) : Prop := ∀ i f, s.live i = some f → s.table.getFileNolock i = some f

/-- How an `fopen` or `tmpfile` for which the host has `f` is to be answered. -/
structure Opens (s : Session) (f : Option File) (r : Reply) : Prop where
  full : (r.asked = false ∧ r.rc = 0 ∧ r.err = emfile) ↔ ∀ i ∈ slots, (s.table.speFilePtrs i).isSome
  opened : f.isSome → ¬(∀ i ∈ slots, (s.table.speFilePtrs i).isSome) →
    ∃ i ∈ slots, r.rc = i ∧ s.live i = none
  failed : r.asked = false ∨ f = none → r.rc = 0

def Served (s : Session) (op : Op) : Prop :=
  let r := (op.run s.table).1
  match op with
  | .fopen f _ | .tmpfile f _ => s.Opens f r
  | .freopen _ f _ => f = none → r.rc = 0
  | .fclose _ _ _ => True

/-- The law, along a sequence of calls. -/
def Lawful : Session → List Op → Prop
  | s, [] => s.Counted ∧ s.Names
  | s, op :: ops => s.Counted ∧ s.Names ∧ s.Served op ∧ (s.after op).Lawful ops

end Session

/-- The calls that leave the counter wrong. -/
def Op.Drifts : Op → Prop
  | .freopen i f _ => speFopenMin ≤ i ∧ f = none
  | .fclose i rc _ => i < speFopenMin ∧ rc = 0
  | _ => False

/-! ## Slots -/

theorem mem_slots {i : Nat} : i ∈ slots ↔ 4 ≤ i ∧ i < 17 := by
  simp [slots, List.mem_range'_1, speFopenMin, speFopenMax]

theorem countP_update_of_notMem {l : List Nat} {i : Nat} (h : i ∉ l) (ptrs : Nat → Option File) (f : Option File) :
    l.countP (fun j => (update ptrs i f j).isSome) = l.countP fun j => (ptrs j).isSome := by
  apply List.countP_congr
  intro j hj
  have hne : j ≠ i := fun heq => h (heq ▸ hj)
  rw [update_of_ne hne]

/-- What storing in a slot does to the number of slots in use. -/
theorem countP_update {l : List Nat} (hl : l.Nodup) {i : Nat} (hi : i ∈ l) (ptrs : Nat → Option File)
    (f : Option File) : (l.countP fun j => (update ptrs i f j).isSome) + (if (ptrs i).isSome then 1 else 0) =
      (l.countP fun j => (ptrs j).isSome) + if f.isSome then 1 else 0 := by
  induction l with
  | nil => cases hi
  | cons a l ih =>
    obtain ⟨ha, hl⟩ := List.nodup_cons.mp hl
    rw [List.countP_cons, List.countP_cons]
    by_cases hai : a = i
    · subst hai
      rw [countP_update_of_notMem ha, update_self]
      omega
    · have hmem : i ∈ l := (List.mem_cons.mp hi).resolve_left (Ne.symm hai)
      have := ih hl hmem
      rw [update_of_ne hai]
      omega

namespace Table

variable {s : Table} {i j : Nat} {f : File}

theorem free_eq_some (h : s.free = some i) : i ∈ slots ∧ s.speFilePtrs i = none := by
  refine ⟨List.mem_of_find?_eq_some h, ?_⟩
  have hnone := List.find?_some h
  simpa using hnone

theorem free_eq_none : s.free = none ↔ ∀ i ∈ slots, (s.speFilePtrs i).isSome := by
  unfold free
  rw [List.find?_eq_none]
  simp [Option.isSome_iff_ne_none]

theorem getFileNolock_eq (h : 1 ≤ i ∧ i < 17) : s.getFileNolock i = (s.speFilePtrs i).or (standard i) := by
  have hmax : ¬speFopenMax ≤ i := Nat.not_le_of_lt h.2
  unfold getFileNolock
  rw [if_neg (by omega), if_neg hmax]

theorem getFileNolock_range (h : s.getFileNolock i = some f) : 1 ≤ i ∧ i < 17 := by
  unfold getFileNolock at h
  obtain ⟨hzero, h⟩ := Option.ite_none_left_eq_some.mp h
  obtain ⟨hmax, -⟩ := Option.ite_none_left_eq_some.mp h
  exact ⟨Nat.one_le_iff_ne_zero.mpr hzero, Nat.lt_of_not_le hmax⟩

theorem standard_of_min (h : 4 ≤ i) : standard i = none := by
  unfold standard
  split <;> first | omega | rfl

theorem getFileNolock_of_mem (h : i ∈ slots) : s.getFileNolock i = s.speFilePtrs i := by
  obtain ⟨hmin, hmax⟩ := mem_slots.mp h
  rw [getFileNolock_eq (by omega), standard_of_min hmin, Option.or_none]

theorem getFileNolock_update_self (n : Int) (h : 1 ≤ i ∧ i < 17) :
    (⟨n, update s.speFilePtrs i (some f)⟩ : Table).getFileNolock i = some f := by
  rw [getFileNolock_eq h]
  show (update s.speFilePtrs i (some f) i).or _ = _
  rw [update_self, Option.some_or]

theorem getFileNolock_update_of_ne (n : Int) (g : Option File) (h : j ≠ i) :
    (⟨n, update s.speFilePtrs i g⟩ : Table).getFileNolock j = s.getFileNolock j := by
  unfold getFileNolock
  show (if _ then _ else if _ then _ else (update s.speFilePtrs i g j).or _) = _
  rw [update_of_ne h]

end Table

/-! ## The calls -/

/-- `fopen` and `tmpfile` differ in how they are written only. -/
theorem tmpfile_eq (f : Option File) (errno : Int) : tmpfile f errno = fopen f errno := by
  funext s
  unfold tmpfile fopen
  by_cases hfull : (speFopenMax : Int) ≤ s.nrSpeFilePtrs
  · rw [if_pos hfull, if_neg (Int.not_lt.mpr hfull)]
  · rw [if_neg hfull, if_pos (Int.not_le.mp hfull)]
    cases hfree : s.free with
    | none => rfl
    | some i =>
      cases f with
      | none =>
        have hsame : update s.speFilePtrs i none = s.speFilePtrs :=
          update_eq_self_iff.mpr (Table.free_eq_some hfree).2.symm
        simp only [hsame, (Table.free_eq_some hfree).2]
        rfl
      | some f => simp only [update_self, Option.isSome_some, if_true]

theorem fopen_full {s : Table} (h : s.free = none) (f : Option File) (errno : Int) :
    fopen f errno s = (⟨0, emfile, false⟩, s) := by
  unfold fopen
  rw [h]
  split <;> rfl

theorem fopen_free {s : Table} {i : Nat} (hnr : s.nrSpeFilePtrs < 17) (h : s.free = some i) (f : Option File)
    (errno : Int) : fopen f errno s = match f with
      | none => (⟨0, errno, true⟩, s)
      | some f => (⟨i, errno, true⟩, ⟨s.nrSpeFilePtrs + 1, update s.speFilePtrs i (some f)⟩) := by
  have hlt : s.nrSpeFilePtrs < (speFopenMax : Int) := hnr
  unfold fopen
  rw [if_pos hlt, h]

namespace Session

variable {s : Session} {op : Op}

theorem after_tmpfile (s : Session) (f : Option File) (errno : Int) :
    s.after (.tmpfile f errno) = s.after (.fopen f errno) := by
  have hrun : (Op.tmpfile f errno).run = (Op.fopen f errno).run := tmpfile_eq f errno
  unfold after
  rw [hrun]

theorem inUse_le (s : Session) : s.inUse ≤ 13 := List.countP_le_length

/-- A right counter is below the limit. -/
theorem Counted.lt (h : s.Counted) : s.table.nrSpeFilePtrs < 17 := by
  have := s.inUse_le
  unfold Counted at h
  omega

/-- A slot for which no other handle is live. -/
theorem Names.free {i : Nat} (h : s.Names) (hfree : s.table.free = some i) : s.live i = none := by
  obtain ⟨hmem, hnone⟩ := Table.free_eq_some hfree
  cases hlive : s.live i with
  | none => rfl
  | some f =>
    have hname := h i f hlive
    rw [Table.getFileNolock_of_mem hmem, hnone] at hname
    cases hname

/-! ## Steps -/

/-- A handle that is opened or reopened names the new stream; the others keep theirs. -/
theorem Names.update_some (h : s.Names) {i : Nat} (hi : 1 ≤ i ∧ i < 17) (n : Int) (f : File) :
    Names ⟨⟨n, update s.table.speFilePtrs i (some f)⟩, update s.live i (some f)⟩ := by
  intro j g hlive
  by_cases hj : j = i
  · subst hj
    obtain rfl := Option.some.inj ((update_self j (some f) s.live).symm.trans hlive)
    exact Table.getFileNolock_update_self n hi
  · rw [show (_ : Session).live j = s.live j from update_of_ne hj _ _] at hlive
    rw [Table.getFileNolock_update_of_ne n _ hj]
    exact h j g hlive

/-- A handle that is closed names nothing; the others keep theirs. -/
theorem Names.update_none (h : s.Names) (i : Nat) (n : Int) :
    Names ⟨⟨n, update s.table.speFilePtrs i none⟩, update s.live i none⟩ := by
  intro j g hlive
  by_cases hj : j = i
  · subst hj
    rw [show (_ : Session).live j = none from update_self j none s.live] at hlive
    cases hlive
  · rw [show (_ : Session).live j = s.live j from update_of_ne hj _ _] at hlive
    rw [Table.getFileNolock_update_of_ne n _ hj]
    exact h j g hlive

/-- A handle for which a call is allowed has an index that the table has. -/
theorem Names.range (h : s.Names) {i : Nat} (hi : (1 ≤ i ∧ i ≤ 3) ∨ (s.live i).isSome) : 1 ≤ i ∧ i < 17 := by
  rcases hi with hi | hi
  · omega
  · obtain ⟨f, hf⟩ := Option.isSome_iff_exists.mp hi
    exact Table.getFileNolock_range (h i f hf)

/-- An allowed handle that is not a standard one is in use. -/
theorem Names.stored (h : s.Names) {i : Nat} (hi : (1 ≤ i ∧ i ≤ 3) ∨ (s.live i).isSome) (hmin : 4 ≤ i) :
    i ∈ slots ∧ (s.table.speFilePtrs i).isSome := by
  have hmem := mem_slots.mpr ⟨hmin, (h.range hi).2⟩
  obtain ⟨f, hf⟩ := Option.isSome_iff_exists.mp (hi.resolve_left (by omega))
  refine ⟨hmem, ?_⟩
  rw [← Table.getFileNolock_of_mem hmem, h i f hf]
  rfl

theorem after_freopen {i : Nat} (hi : 1 ≤ i ∧ i < 17) (f : Option File) (errno : Int) :
    s.after (.freopen i f errno) =
      ⟨⟨s.table.nrSpeFilePtrs, update s.table.speFilePtrs i f⟩, update s.live i f⟩ := by
  have hin : ¬(i = 0 ∨ speFopenMax ≤ i) := fun h => h.elim (by omega) (Nat.not_le_of_lt hi.2)
  have hrun : (freopen i f errno s.table).2 = ⟨s.table.nrSpeFilePtrs, update s.table.speFilePtrs i f⟩ := by
    unfold freopen
    rw [if_neg hin]
    show (ite _ _ _ : Reply × Table).2 = _
    split <;> rfl
  show (⟨(freopen i f errno s.table).2, update s.live i f⟩ : Session) = _
  rw [hrun]

theorem after_fclose (i : Nat) (errno : Int) : s.after (.fclose i 0 errno) =
    ⟨⟨s.table.nrSpeFilePtrs - 1, update s.table.speFilePtrs i none⟩, update s.live i none⟩ := rfl

theorem after_fclose_of_ne {rc : Int} (h : rc ≠ 0) (i : Nat) (errno : Int) : s.after (.fclose i rc errno) = s := by
  have hrun : fclose i rc errno s.table = (⟨rc, errno, true⟩, s.table) := if_neg h
  show (⟨(fclose i rc errno s.table).2, if (fclose i rc errno s.table).1.rc = 0 then _ else s.live⟩ : Session) = s
  rw [hrun]
  show (⟨s.table, if rc = 0 then _ else s.live⟩ : Session) = s
  rw [if_neg h]

theorem after_fopen_of_run {f : Option File} {errno : Int} {r : Reply} {t : Table}
    (h : Sequential.fopen f errno s.table = (r, t)) :
    s.after (.fopen f errno) = ⟨t, if r.rc = 0 then s.live else update s.live r.rc.toNat f⟩ := by
  show (⟨(Sequential.fopen f errno s.table).2, if (Sequential.fopen f errno s.table).1.rc = 0 then _
    else update s.live (Sequential.fopen f errno s.table).1.rc.toNat f⟩ : Session) = _
  rw [h]

/-- What a call of `fopen` does, while the counter is right. -/
theorem after_fopen (hc : s.Counted) (f : Option File) (errno : Int) :
    s.after (.fopen f errno) = s ∨ ∃ i g, s.table.free = some i ∧ f = some g ∧ s.after (.fopen f errno) =
      ⟨⟨s.table.nrSpeFilePtrs + 1, update s.table.speFilePtrs i (some g)⟩, update s.live i (some g)⟩ := by
  cases hfree : s.table.free with
  | none => exact .inl (after_fopen_of_run (fopen_full hfree f errno))
  | some i =>
    have hrun := fopen_free hc.lt hfree f errno
    cases f with
    | none => exact .inl (after_fopen_of_run hrun)
    | some g =>
      have hrc : ¬(i : Int) = 0 := by
        have := (mem_slots.mp (Table.free_eq_some hfree).1).1
        omega
      refine .inr ⟨i, g, rfl, rfl, (after_fopen_of_run hrun).trans ?_⟩
      show (⟨_, if (i : Int) = 0 then s.live else _⟩ : Session) = _
      rw [if_neg hrc, Int.toNat_natCast]

/-- **Live handles keep their streams.** -/
theorem Names.after (hn : s.Names) (hc : s.Counted) (hop : s.Allows op) : (s.after op).Names := by
  have hopen (f : Option File) (errno : Int) : (s.after (.fopen f errno)).Names := by
    rcases after_fopen hc f errno with h | ⟨i, g, hfree, -, h⟩
    · rw [h]
      exact hn
    · rw [h]
      have hi := mem_slots.mp (Table.free_eq_some hfree).1
      exact hn.update_some (by omega) _ g
  cases op with
  | fopen f errno => exact hopen f errno
  | tmpfile f errno =>
    rw [after_tmpfile]
    exact hopen f errno
  | freopen i f errno =>
    rw [after_freopen (hn.range hop)]
    cases f with
    | none => exact hn.update_none i _
    | some f => exact hn.update_some (hn.range hop) _ f
  | fclose i rc errno =>
    by_cases hrc : rc = 0
    · subst hrc
      rw [after_fclose]
      exact hn.update_none i _
    · rw [after_fclose_of_ne hrc]
      exact hn

/-- What storing in a slot does to the number of slots in use. -/
theorem inUse_update {i : Nat} (hi : i ∈ slots) (n : Int) (f : Option File) (live : Nat → Option File) :
    (⟨⟨n, update s.table.speFilePtrs i f⟩, live⟩ : Session).inUse +
        (if (s.table.speFilePtrs i).isSome then 1 else 0) = s.inUse + if f.isSome then 1 else 0 :=
  countP_update (by decide) hi s.table.speFilePtrs f

theorem inUse_update_standard {i : Nat} (hi : i < 4) (n : Int) (f : Option File) (live : Nat → Option File) :
    (⟨⟨n, update s.table.speFilePtrs i f⟩, live⟩ : Session).inUse = s.inUse := by
  apply countP_update_of_notMem
  intro hmem
  have := (mem_slots.mp hmem).1
  omega

/-- **The counter**: a call keeps it right exactly if it is not one that drifts. -/
theorem counted_after (hn : s.Names) (hc : s.Counted) (hop : s.Allows op) :
    (s.after op).Counted ↔ ¬op.Drifts := by
  have hopen (f : Option File) (errno : Int) : (s.after (.fopen f errno)).Counted := by
    rcases after_fopen hc f errno with h | ⟨i, g, hfree, -, h⟩
    · rw [h]
      exact hc
    · obtain ⟨hmem, hnone⟩ := Table.free_eq_some hfree
      have hcount := inUse_update (s := s) hmem (s.table.nrSpeFilePtrs + 1) (some g) (update s.live i (some g))
      rw [hnone] at hcount
      simp only [Option.isSome_none, Option.isSome_some, Bool.false_eq_true, if_true, if_false] at hcount
      rw [h]
      unfold Counted at hc ⊢
      simp only at hcount ⊢
      omega
  cases op with
  | fopen f errno => exact iff_of_true (hopen f errno) id
  | tmpfile f errno =>
    rw [after_tmpfile]
    exact iff_of_true (hopen f errno) id
  | freopen i f errno =>
    rw [after_freopen (hn.range hop)]
    unfold Counted at hc ⊢
    unfold Op.Drifts
    by_cases hi : i < 4
    · rw [inUse_update_standard hi]
      refine iff_of_true hc fun hdrift => ?_
      exact absurd hdrift.1 (Nat.not_le_of_lt hi)
    · obtain ⟨hmem, hused⟩ := hn.stored hop (Nat.le_of_not_lt hi)
      have hcount := inUse_update (s := s) hmem s.table.nrSpeFilePtrs f (update s.live i f)
      rw [if_pos hused] at hcount
      cases f with
      | none =>
        refine iff_of_false (fun h => ?_) fun h => h ⟨Nat.le_of_not_lt hi, rfl⟩
        simp only [Option.isSome_none, Bool.false_eq_true, if_false] at hcount h
        omega
      | some f =>
        refine iff_of_true ?_ fun hdrift => nomatch hdrift.2
        simp only [Option.isSome_some, if_true] at hcount ⊢
        omega
  | fclose i rc errno =>
    unfold Op.Drifts
    by_cases hrc : rc = 0
    · subst hrc
      rw [after_fclose]
      unfold Counted at hc ⊢
      by_cases hi : i < 4
      · rw [inUse_update_standard hi]
        refine iff_of_false (fun h => ?_) fun h => h ⟨hi, rfl⟩
        simp only at h
        omega
      · obtain ⟨hmem, hused⟩ := hn.stored hop (Nat.le_of_not_lt hi)
        have hcount := inUse_update (s := s) hmem (s.table.nrSpeFilePtrs - 1) none (update s.live i none)
        rw [if_pos hused] at hcount
        refine iff_of_true ?_ fun hdrift => hi hdrift.1
        simp only [Option.isSome_none, Bool.false_eq_true, if_false] at hcount ⊢
        omega
    · rw [after_fclose_of_ne hrc]
      exact iff_of_true hc fun hdrift => hrc hdrift.2

theorem opens (hn : s.Names) (hc : s.Counted) (f : Option File) (errno : Int) :
    s.Opens f (Sequential.fopen f errno s.table).1 := by
  cases hfree : s.table.free with
  | none =>
    have hall := Table.free_eq_none.mp hfree
    rw [fopen_full hfree]
    exact {
      full := iff_of_true ⟨rfl, rfl, rfl⟩ hall
      opened := fun _ hnot => absurd hall hnot
      failed := fun _ => rfl }
  | some i =>
    have hnot : ¬∀ i ∈ slots, (s.table.speFilePtrs i).isSome := fun hall => by
      rw [Table.free_eq_none.mpr hall] at hfree
      cases hfree
    rw [fopen_free hc.lt hfree]
    cases f with
    | none => exact {
        full := iff_of_false (fun h => Bool.noConfusion h.1) hnot
        opened := fun h => nomatch h
        failed := fun _ => rfl }
    | some f => exact {
        full := iff_of_false (fun h => Bool.noConfusion h.1) hnot
        opened := fun _ _ => ⟨i, (Table.free_eq_some hfree).1, rfl, hn.free hfree⟩
        failed := fun h => h.elim Bool.noConfusion (fun h => nomatch h) }

theorem served (hn : s.Names) (hc : s.Counted) (hop : s.Allows op) : s.Served op := by
  cases op with
  | fopen f errno => exact opens hn hc f errno
  | tmpfile f errno =>
    show s.Opens f (Sequential.tmpfile f errno s.table).1
    rw [tmpfile_eq]
    exact opens hn hc f errno
  | freopen i f errno =>
    intro hf
    subst hf
    have hi := hn.range hop
    have hin : ¬(i = 0 ∨ speFopenMax ≤ i) := fun h => h.elim (by omega) (Nat.not_le_of_lt hi.2)
    have hrun : Sequential.freopen i none errno s.table =
        (⟨0, errno, true⟩, ⟨s.table.nrSpeFilePtrs, update s.table.speFilePtrs i none⟩) := by
      unfold Sequential.freopen
      simp only [if_neg hin, update_self]
      rfl
    show (Sequential.freopen i none errno s.table).1.rc = 0
    rw [hrun]
  | fclose i rc errno => trivial

end Session

/-! ## The handlers of several threads -/

section

open Conc

variable {t : Tid} {w : World}

/-- The part of a shared state that the handlers above work on. -/
def tableOf (w : World) : Table := ⟨w.nrSpeFilePtrs, w.speFilePtrs⟩

/-- The handler that a call is one of. -/
def Op.call : Op → Option Call
  | .fopen _ _ => some .fopen
  | .tmpfile _ _ => some .tmpfile
  | .freopen _ _ _ => none
  | .fclose i _ _ => some (.fclose i)

theorem lock_alone {r : Unit} {w' : World} (h : machine.exec t .lock r w = some w') :
    w' = { w with owner := some t } := by
  obtain ⟨-, hw⟩ := Option.ite_none_right_eq_some.mp h
  exact (Option.some.inj hw).symm

theorem unlock_alone {r : Unit} {w' : World} (h : machine.exec t .unlock r w = some w') :
    w' = { w with owner := none } := by
  obtain ⟨-, hw⟩ := Option.ite_none_right_eq_some.mp h
  exact (Option.some.inj hw).symm

/-- A slot is read as it is. -/
theorem loadSlot_alone {i : Nat} {f : Option File} {w' : World}
    (h : machine.exec t (.loadSlot i) f w = some w') : f = w.speFilePtrs i ∧ w' = w := by
  obtain ⟨hf, hw⟩ := Option.ite_none_right_eq_some.mp h
  exact ⟨hf, (Option.some.inj hw).symm⟩

theorem loadNr_alone {n : Int} {w' : World} (h : machine.exec t .loadNr n w = some w') :
    n = w.nrSpeFilePtrs ∧ w' = w := by
  obtain ⟨hn, hw⟩ := Option.ite_none_right_eq_some.mp h
  exact ⟨hn, (Option.some.inj hw).symm⟩

/-- The host's answer, and nothing in the table. -/
theorem openStream_alone {f : Option File} {w' : World} (h : machine.exec t .openStream f w = some w') :
    tableOf w' = tableOf w ∧ w'.given = w.given := by
  cases f with
  | none =>
    obtain rfl := Option.some.inj h
    exact ⟨rfl, rfl⟩
  | some f =>
    obtain ⟨-, hw⟩ := Option.ite_none_left_eq_some.mp h
    obtain rfl := Option.some.inj hw
    exact ⟨rfl, rfl⟩

/-- The loop of the handler of `fopen`. -/
theorem fopenFrom_alone (is : List Nat) {s : Table} (hs : tableOf w = s) :
    Solo machine t (fopenFrom is) w fun _ a w' => w'.given = w.given ∧ ∃ f, (a, tableOf w') =
      match is.find? fun i => (s.speFilePtrs i).isNone, f with
      | some i, some f => ((i, some f), (⟨s.nrSpeFilePtrs + 1, update s.speFilePtrs i (some f)⟩ : Table))
      | _, _ => ((0, none), s) := by
  subst hs
  induction is with
  | nil => exact .ret ⟨rfl, none, rfl⟩
  | cons i is ih =>
    unfold fopenFrom
    apply Solo.perform
    intro g w₁ h₁
    obtain ⟨rfl, rfl⟩ := loadSlot_alone h₁
    rw [List.find?_cons, show (tableOf w₁).speFilePtrs i = w₁.speFilePtrs i from rfl]
    cases hslot : w₁.speFilePtrs i with
    | some g =>
      rw [if_neg nofun]
      exact ih
    | none =>
      rw [if_pos rfl]
      apply Solo.perform
      intro f w₂ h₂
      obtain ⟨htable, hgiven⟩ := openStream_alone h₂
      cases f with
      | none => exact .ret ⟨hgiven, none, by rw [htable]; rfl⟩
      | some f =>
        apply Solo.perform
        intro _ w₃ h₃
        obtain rfl := Option.some.inj h₃
        apply Solo.perform
        intro n w₄ h₄
        obtain ⟨rfl, rfl⟩ := loadNr_alone h₄
        apply Solo.perform
        intro _ w₅ h₅
        obtain rfl := Option.some.inj h₅
        refine .ret ⟨hgiven, some f, ?_⟩
        have hnr : w₂.nrSpeFilePtrs = w₁.nrSpeFilePtrs := congrArg Table.nrSpeFilePtrs htable
        have hptrs : w₂.speFilePtrs = w₁.speFilePtrs := congrArg Table.speFilePtrs htable
        show ((i, some f), (⟨w₂.nrSpeFilePtrs + 1, update w₂.speFilePtrs i (some f)⟩ : Table)) = _
        rw [hnr, hptrs]
        rfl

/-- The handle that a call gives to the SPE program, with what was opened for it. -/
def Op.handle (op : Op) (s : Table) : List (Nat × Option File) :=
  match op with
  | .fopen f _ | .tmpfile f _ => if (op.run s).1.rc = 0 then [] else [((op.run s).1.rc.toNat, f)]
  | _ => []

theorem handle_fopen_of_run {f : Option File} {errno : Int} {s s' : Table} {r : Reply}
    (h : fopen f errno s = (r, s')) :
    (Op.fopen f errno).handle s = if r.rc = 0 then [] else [(r.rc.toNat, f)] := by
  show (if (fopen f errno s).1.rc = 0 then [] else [((fopen f errno s).1.rc.toNat, f)]) = _
  rw [h]

/-- A call of `fopen` or `tmpfile` has ended as the function says. -/
def OpensAs (w : World) (f : Option File) (w' : World) : Prop :=
  tableOf w' = (fopen f 0 (tableOf w)).2 ∧ w'.given = (Op.fopen f 0).handle (tableOf w) ++ w.given

/-- Nothing is opened. -/
theorem opensAs_of_zero {f : Option File} {r : Reply} {w' : World} (hrun : fopen f 0 (tableOf w) = (r, tableOf w))
    (hrc : r.rc = 0) (htable : tableOf w' = tableOf w) (hgiven : w'.given = w.given) : OpensAs w f w' := by
  refine ⟨by rw [htable, hrun], ?_⟩
  rw [hgiven, handle_fopen_of_run hrun, if_pos hrc]
  rfl

/-- `f` is opened in the first free slot. -/
theorem opensAs_free {i : Nat} {f : File} {w' : World} (hnr : w.nrSpeFilePtrs < 17)
    (hfree : (tableOf w).free = some i)
    (htable : tableOf w' = ⟨w.nrSpeFilePtrs + 1, update w.speFilePtrs i (some f)⟩)
    (hgiven : w'.given = (i, some f) :: w.given) : OpensAs w (some f) w' := by
  have hrun := fopen_free (s := tableOf w) hnr hfree (some f) 0
  have hrc : ¬(i : Int) = 0 := by
    have := (mem_slots.mp (Table.free_eq_some hfree).1).1
    omega
  refine ⟨by rw [htable, hrun]; rfl, ?_⟩
  rw [hgiven, handle_fopen_of_run hrun]
  show _ = (if (i : Int) = 0 then _ else _) ++ _
  rw [if_neg hrc, Int.toNat_natCast]
  rfl

/-- The handler of `fopen` alone. -/
theorem fopen_alone (w : World) :
    Solo machine t defaultC99HandlerFopen w fun _ _ w' => ∃ f, OpensAs w f w' := by
  unfold defaultC99HandlerFopen
  apply Solo.perform
  intro _ w₁ h₁
  obtain rfl := lock_alone h₁
  apply Solo.perform
  intro n w₂ h₂
  obtain ⟨rfl, rfl⟩ := loadNr_alone h₂
  -- what is left once `rc` is known
  have hrest {rc : Nat} {g : Option File} {w₃ : World} : Solo machine t (do
      perform .unlock
      perform (.putHandle rc g)) w₃ fun _ _ w' => tableOf w' = tableOf w₃ ∧
        w'.given = if rc = 0 then w₃.given else (rc, g) :: w₃.given := by
    apply Solo.perform
    intro _ w₄ h₄
    obtain rfl := unlock_alone h₄
    apply Solo.cmd
    intro _ w₅ h₅
    obtain rfl := Option.some.inj h₅
    exact .ret ⟨rfl, rfl⟩
  by_cases hnr : w.nrSpeFilePtrs < speFopenMax
  · rw [if_pos (show (_ : World).nrSpeFilePtrs < _ from hnr)]
    apply Solo.bind
    have hloop := fopenFrom_alone (t := t) (w := { w with owner := some t }) slots (s := tableOf w) rfl
    refine hloop.mono fun tr a w₃ h => ?_
    obtain ⟨hgiven, f, heq⟩ := h
    refine hrest.mono fun _ _ w' hend => ?_
    obtain ⟨htable, hgiven'⟩ := hend
    cases hfree : (tableOf w).free with
    | none =>
      rw [show slots.find? _ = none from hfree] at heq
      obtain ⟨rfl, htable'⟩ := Prod.mk.inj heq
      refine ⟨none, opensAs_of_zero (fopen_full hfree none 0) rfl (htable.trans htable') ?_⟩
      rw [hgiven', if_pos rfl, hgiven]
    | some i =>
      rw [show slots.find? _ = some i from hfree] at heq
      cases f with
      | none =>
        obtain ⟨rfl, htable'⟩ := Prod.mk.inj heq
        refine ⟨none, opensAs_of_zero (fopen_free hnr hfree none 0) rfl (htable.trans htable') ?_⟩
        rw [hgiven', if_pos rfl, hgiven]
      | some f =>
        obtain ⟨rfl, htable'⟩ := Prod.mk.inj heq
        refine ⟨some f, opensAs_free hnr hfree (htable.trans htable') ?_⟩
        have hi := (mem_slots.mp (Table.free_eq_some hfree).1).1
        rw [hgiven', if_neg (by omega), hgiven]
  · rw [if_neg (show ¬(_ : World).nrSpeFilePtrs < _ from hnr)]
    intro tr a w' hends hplay
    have hend := @hrest 0 none { w with owner := some t } tr a w' hends hplay
    have hrun : fopen none 0 (tableOf w) = (⟨0, emfile, false⟩, tableOf w) := if_neg hnr
    exact ⟨none, opensAs_of_zero hrun rfl hend.1 hend.2⟩

/-- The loop of the handler of `tmpfile`. -/
theorem tmpfileFrom_alone (is : List Nat) {s : Table} (hs : tableOf w = s) :
    Solo machine t (tmpfileFrom is) w fun _ _ w' => ∃ f,
      match is.find? fun i => (s.speFilePtrs i).isNone, f with
      | some i, some f => tableOf w' = (⟨s.nrSpeFilePtrs + 1, update s.speFilePtrs i (some f)⟩ : Table) ∧
          w'.given = (if i = 0 then w.given else (i, some f) :: w.given)
      | _, _ => tableOf w' = s ∧ w'.given = w.given := by
  subst hs
  induction is with
  | nil =>
    apply Solo.cmd
    intro _ w₁ h₁
    obtain rfl := Option.some.inj h₁
    exact .ret ⟨none, rfl, rfl⟩
  | cons i is ih =>
    unfold tmpfileFrom
    apply Solo.perform
    intro g w₁ h₁
    obtain ⟨rfl, rfl⟩ := loadSlot_alone h₁
    rw [List.find?_cons, show (tableOf w₁).speFilePtrs i = w₁.speFilePtrs i from rfl]
    cases hslot : w₁.speFilePtrs i with
    | some g =>
      rw [if_neg nofun]
      exact ih
    | none =>
      rw [if_pos rfl]
      apply Solo.perform
      intro f w₂ h₂
      obtain ⟨htable, hgiven⟩ := openStream_alone h₂
      have hnr : w₂.nrSpeFilePtrs = w₁.nrSpeFilePtrs := congrArg Table.nrSpeFilePtrs htable
      have hptrs : w₂.speFilePtrs = w₁.speFilePtrs := congrArg Table.speFilePtrs htable
      apply Solo.perform
      intro _ w₃ h₃
      obtain rfl := Option.some.inj h₃
      apply Solo.perform
      intro g w₄ h₄
      obtain ⟨hg, h₄⟩ := Option.ite_none_right_eq_some.mp h₄
      obtain rfl := Option.some.inj h₄
      have hstored : g = f := hg.trans (update_self i f w₂.speFilePtrs)
      rw [hstored]
      cases f with
      | none =>
        rw [if_neg (not_not.mpr rfl)]
        apply Solo.cmd
        intro _ w₅ h₅
        obtain rfl := Option.some.inj h₅
        refine .ret ⟨none, ?_, hgiven⟩
        show (⟨w₂.nrSpeFilePtrs, update w₂.speFilePtrs i none⟩ : Table) = _
        rw [hnr, hptrs, update_eq_self_iff.mpr hslot.symm]
        rfl
      | some f =>
        rw [if_pos nofun]
        apply Solo.perform
        intro n w₅ h₅
        obtain ⟨rfl, rfl⟩ := loadNr_alone h₅
        apply Solo.perform
        intro _ w₆ h₆
        obtain rfl := Option.some.inj h₆
        apply Solo.cmd
        intro _ w₇ h₇
        obtain rfl := Option.some.inj h₇
        refine .ret ⟨some f, ?_, ?_⟩
        · show (⟨w₂.nrSpeFilePtrs + 1, update w₂.speFilePtrs i (some f)⟩ : Table) = _
          rw [hnr, hptrs]
          rfl
        · show (if i = 0 then w₂.given else (i, some f) :: w₂.given) = _
          rw [hgiven]

/-- The handler of `tmpfile` alone. -/
theorem tmpfile_alone (w : World) :
    Solo machine t defaultC99HandlerTmpfile w fun _ _ w' => ∃ f, OpensAs w f w' := by
  unfold defaultC99HandlerTmpfile
  apply Solo.perform
  intro n w₁ h₁
  obtain ⟨rfl, rfl⟩ := loadNr_alone h₁
  by_cases hfull : (speFopenMax : Int) ≤ w₁.nrSpeFilePtrs
  · rw [if_pos hfull]
    apply Solo.cmd
    intro _ w₂ h₂
    obtain rfl := Option.some.inj h₂
    have hrun : fopen none 0 (tableOf w₁) = (⟨0, emfile, false⟩, tableOf w₁) := if_neg (Int.not_lt.mpr hfull)
    exact .ret ⟨none, opensAs_of_zero hrun rfl rfl rfl⟩
  · rw [if_neg hfull]
    have hnr : w₁.nrSpeFilePtrs < 17 := Int.not_le.mp hfull
    refine (tmpfileFrom_alone slots (s := tableOf w₁) rfl).mono fun tr a w' h => ?_
    obtain ⟨f, hend⟩ := h
    cases hfree : (tableOf w₁).free with
    | none =>
      rw [show slots.find? _ = none from hfree] at hend
      exact ⟨none, opensAs_of_zero (fopen_full hfree none 0) rfl hend.1 hend.2⟩
    | some i =>
      rw [show slots.find? _ = some i from hfree] at hend
      cases f with
      | none => exact ⟨none, opensAs_of_zero (fopen_free hnr hfree none 0) rfl hend.1 hend.2⟩
      | some f =>
        have hi := (mem_slots.mp (Table.free_eq_some hfree).1).1
        refine ⟨some f, opensAs_free hnr hfree hend.1 ?_⟩
        rw [hend.2, if_neg (by omega)]

/-- The handler of `fclose` alone. -/
theorem fclose_alone (i : Nat) (w : World) : Solo machine t (defaultC99HandlerFclose i) w fun _ _ w' =>
    ∃ rc, tableOf w' = (fclose i rc 0 (tableOf w)).2 ∧ w'.given = w.given := by
  have hfile (w : World) : Solo machine t (getFile i) w fun _ _ w' =>
      tableOf w' = tableOf w ∧ w'.given = w.given := by
    unfold getFile
    apply Solo.perform
    intro _ w₁ h₁
    obtain rfl := lock_alone h₁
    have hlook (w : World) : Solo machine t (getFileNolock i) w fun _ _ w' => w' = w := by
      unfold getFileNolock
      split
      · exact .ret rfl
      · split
        · exact .ret rfl
        · apply Solo.perform
          intro f w₁ h₁
          exact .ret (loadSlot_alone h₁).2
    apply Solo.bind
    refine (hlook _).mono fun _ f w₂ h₂ => ?_
    subst h₂
    apply Solo.perform
    intro _ w₃ h₃
    obtain rfl := unlock_alone h₃
    exact .ret ⟨rfl, rfl⟩
  unfold defaultC99HandlerFclose
  apply Solo.perform
  intro _ w₁ h₁
  obtain rfl := Option.some.inj h₁
  apply Solo.bind
  refine (hfile _).mono fun _ stream w₂ h₂ => ?_
  obtain ⟨htable, hgiven⟩ := h₂
  apply Solo.perform
  intro _ w₃ h₃
  obtain rfl := lock_alone h₃
  apply Solo.perform
  intro rc w₄ h₄
  obtain ⟨f, rfl⟩ : ∃ f, stream = some f := by
    cases stream with
    | none => cases h₄
    | some f => exact ⟨f, rfl⟩
  obtain rfl := Option.some.inj h₄
  -- what is left once the table is changed
  have hrest {w₃ : World} : Solo machine t (do
      perform .unlock
      perform (.endFclose i rc)) w₃ fun _ _ w' => tableOf w' = tableOf w₃ ∧ w'.given = w₃.given := by
    apply Solo.perform
    intro _ w₄ h₄
    obtain rfl := unlock_alone h₄
    apply Solo.cmd
    intro _ w₅ h₅
    obtain rfl := Option.some.inj h₅
    exact .ret ⟨rfl, rfl⟩
  by_cases hrc : (rc : Int) = 0
  · rw [if_pos hrc]
    apply Solo.perform
    intro _ w₅ h₅
    obtain rfl := Option.some.inj h₅
    apply Solo.perform
    intro n w₆ h₆
    obtain ⟨rfl, rfl⟩ := loadNr_alone h₆
    apply Solo.perform
    intro _ w₇ h₇
    obtain rfl := Option.some.inj h₇
    refine hrest.mono fun _ _ w' hend => ?_
    refine ⟨0, hend.1.trans ?_, hend.2.trans hgiven⟩
    show (⟨w₂.nrSpeFilePtrs - 1, update w₂.speFilePtrs i none⟩ : Table) = _
    rw [show w₂.nrSpeFilePtrs = w.nrSpeFilePtrs from congrArg Table.nrSpeFilePtrs htable,
      show w₂.speFilePtrs = w.speFilePtrs from congrArg Table.speFilePtrs htable]
    rfl
  · rw [if_neg hrc]
    refine hrest.mono fun _ _ w' hend => ?_
    refine ⟨rc, (hend.1.trans htable).trans ?_, hend.2.trans hgiven⟩
    show tableOf w = (if _ then _ else _ : Reply × Table).2
    rw [if_neg hrc]

/-- **One thread**: a handler that nobody gets in between of is one of the calls above. -/
theorem call_alone (c : Call) (w : World) : Solo machine t c.code w fun _ _ w' => ∃ op : Op,
    op.call = some c ∧ tableOf w' = (op.run (tableOf w)).2 ∧ w'.given = op.handle (tableOf w) ++ w.given := by
  cases c with
  | fopen =>
    refine (fopen_alone w).mono fun _ _ w' h => ?_
    obtain ⟨f, htable, hgiven⟩ := h
    exact ⟨.fopen f 0, rfl, htable, hgiven⟩
  | tmpfile =>
    refine (tmpfile_alone w).mono fun _ _ w' h => ?_
    obtain ⟨f, htable, hgiven⟩ := h
    have hrun : (Op.tmpfile f 0).run = (Op.fopen f 0).run := tmpfile_eq f 0
    have hhandle : (Op.tmpfile f 0).handle = (Op.fopen f 0).handle := by
      unfold Op.handle
      rw [hrun]
    refine ⟨.tmpfile f 0, rfl, ?_, ?_⟩
    · rw [hrun]
      exact htable
    · rw [hhandle]
      exact hgiven
  | fclose i =>
    refine (fclose_alone i w).mono fun _ _ w' h => ?_
    obtain ⟨rc, htable, hgiven⟩ := h
    exact ⟨.fclose i rc 0, rfl, htable, hgiven⟩

end

/-! ## Sequences -/

/-- From a state in which the law holds, it holds along a sequence exactly if no call drifts. -/
theorem lawful_from {s : Session} (hn : s.Names) (hc : s.Counted) {ops : List Op} (hv : s.Valid ops) :
    s.Lawful ops ↔ ∀ op ∈ ops, ¬op.Drifts := by
  induction ops generalizing s with
  | nil => exact iff_of_true ⟨hc, hn⟩ fun op hop => nomatch hop
  | cons op ops ih =>
    obtain ⟨hop, hv⟩ := hv
    have hstep := Session.counted_after hn hc hop
    have hrest (hnot : ¬op.Drifts) := ih (hn.after hc hop) (hstep.mpr hnot) hv
    rw [List.forall_mem_cons]
    constructor
    · intro hlaw
      obtain ⟨-, -, -, hlaw⟩ := hlaw
      have hcounted : (s.after op).Counted := by
        cases ops with
        | nil => exact hlaw.1
        | cons _ _ => exact hlaw.1
      have hnot := hstep.mp hcounted
      exact ⟨hnot, (hrest hnot).mp hlaw⟩
    · intro h
      obtain ⟨hnot, hall⟩ := h
      exact ⟨hc, hn, Session.served hn hc hop, (hrest hnot).mpr hall⟩

/-- **The table of streams**: along a sequence of calls for live and standard handles, with whatever the host
answers, the law holds exactly if no `freopen` of an opened handle fails and no `fclose` of a standard one
succeeds. -/
theorem lawful_iff {ops : List Op} (hv : Session.initial.Valid ops) :
    Session.initial.Lawful ops ↔ ∀ op ∈ ops, ¬op.Drifts := by
  have hnames : Session.initial.Names := fun i f h => nomatch h
  have hcounted : Session.initial.Counted := by decide
  exact lawful_from hnames hcounted hv

/-- A file that is opened, reopened and closed. -/
def openReopenClose : List Op := [.fopen (some (.stream 1)) 0, .freopen 4 (some (.stream 1)) 0, .fclose 4 0 0]

theorem openReopenClose_valid : Session.initial.Valid openReopenClose := by
  exact ⟨trivial, .inr rfl, .inr rfl, trivial⟩

theorem lawful_openReopenClose : Session.initial.Lawful openReopenClose := by
  apply (lawful_iff openReopenClose_valid).mpr
  intro op hop
  simp only [openReopenClose, List.mem_cons, List.not_mem_nil, or_false] at hop
  obtain rfl | rfl | rfl := hop
  · exact id
  · exact fun h => nomatch h.2
  · exact fun h => absurd h.1 (by decide)

/-- After a `freopen` that fails, the slot is free and is still counted. -/
theorem freopen_drifts : ¬∀ ops, Session.initial.Valid ops → Session.initial.Lawful ops := by
  intro h
  have hlaw := h [.fopen (some (.stream 1)) 0, .freopen 4 none 2] ⟨trivial, .inr rfl, trivial⟩
  obtain ⟨-, -, -, -, -, -, hcounted, -⟩ := hlaw
  exact absurd hcounted (by decide)

end LibSpe2.FileTable.Sequential
