import LibSpe2.SpuTools.Records
import Mathlib.Data.List.Perm.Basic

/-!
# The columns of spu-ps (`tools/spu-tools/src/spu-ps.c`)

`spu-ps` shows a table of contexts, of which the caller may choose the columns and the order of the rows. It brings
the chosen fields to the front of `ctx_fields`, by swaps, and hides the others.

* `Field`, `ctxFields` — the fields, as the program starts with them.
* `setFieldOrder`, `hideFields`, `Ps.run` — the code.
* `Opt.Accepted`, `columnsOf`, `sortOf` — what the options are for: the columns named by the last list, in its order,
  sorted by the field that was named last.
* `Table`, `Front` — the fields in some order, and those of a list in front.

Main result:
* `spu_ps_behaves` — the options do this, and the first one that cannot be followed ends the program.
-/

namespace LibSpe2.SpuTools

/-! ## The fields -/

/-- `struct field`. -/
structure Field where
  id : CtxField
  name : String
  nameFormat : String
  format : String
  description : String
  doShow : Bool
  /-- `none` is `NULL`. -/
  idString : Option String
  deriving DecidableEq

/-- The field with `do_show` set. -/
def Field.shown (f : Field) : Field := { f with doShow := true }

/-- The field with `do_show` cleared. -/
def Field.hidden (f : Field) : Field := { f with doShow := false }

/-- `ctx_fields`, without the record that ends it. -/
def ctxFields : List Field :=
  [⟨.ppuPid, "PID", "%6s", "%6d", "PPU Side Process ID", true, some "PPU_PID"⟩,
    ⟨.threadId, "TID", "%6s", "%6d", "SPE Controlling Thread ID", true, some "THREAD_ID"⟩,
    ⟨.user, "USERNAME", " %-10s", " %-10s", "User", true, some "USER_NAME"⟩,
    ⟨.status, "S", "%2s", "%2c", "Context Status", true, some "STATUS"⟩,
    ⟨.flags, "F", "%2s", "%2c", "Context Flags", true, some "FLAGS"⟩,
    ⟨.percentSpu, "%SPU", "%6s", "%6.1f", "SPU Usage", true, none⟩,
    ⟨.spe, "SPE", "%4s", "%4d", "Allocated SPE", true, some "SPE"⟩,
    ⟨.totalTime, "TIME", "%9s", "%9.3f", "Resident Time (loaded or running) in seconds", true, some "TOTAL_TIME"⟩,
    ⟨.userTime, "USER", "%9s", "%9.3f", "User Time in seconds", false, some "USER_TIME"⟩,
    ⟨.systemTime, "SYS", "%9s", "%9.3f", "System Time in seconds", false, some "SYSTEM_TIME"⟩,
    ⟨.loadedTime, "LOAD", "%9s", "%9.3f", "Loaded Time (loaded or running) in seconds", false, some "LOADED_TIME"⟩,
    ⟨.counter .voluntaryCtxSwitches, "VCSW", "%5s", "%5llu", "Number of Voluntary Context Switches", false,
      some "VOLUNTARY_CTX_SWITCHES"⟩,
    ⟨.counter .involuntaryCtxSwitches, "ICSW", "%5s", "%5llu", "Number of Involuntary Context Switches", false,
      some "INVOLUNTARY_CTX_SWITCHES"⟩,
    ⟨.counter .slbMisses, "SLB", "%5s", "%5llu", "Number of SLB Misses", false, some "SLB_MISSES"⟩,
    ⟨.counter .hashFaults, "HFLT", "%5s", "%5llu", "Number of Hash Faults", false, some "HASH_FAULTS"⟩,
    ⟨.counter .minorPageFaults, "mFLT", "%5s", "%5llu", "Number of Minor Page Faults", false,
      some "MINOR_PAGE_FAULTS"⟩,
    ⟨.counter .majorPageFaults, "MFLT", "%5s", "%5llu", "Number of Major Page Faults", false,
      some "MAJOR_PAGE_FAULTS"⟩,
    ⟨.counter .class2Interrupts, "IRQ2", "%5s", "%5llu", "Number of Class2 Interrupts Received", false,
      some "CLASS2_INTERRUPTS"⟩,
    ⟨.counter .ppeLibrary, "PPE_LIB", "%8s", "%8llu", "Number of PPE Assisted Library Calls Performed", false,
      some "PPE_LIBRARY"⟩,
    ⟨.binaryName, "BINARY", " %-18s", " %-18s", "Binary Name", true, some "BINARY_NAME"⟩]

/-! ## The code -/

/-- `DUPLICATE_FIELD` and `INVALID_FIELD`. -/
inductive Bad where
  | duplicate | invalid
  deriving DecidableEq

/-- `set_field_order`. -/
def setFieldOrder (fieldIdString : String) (index : Nat) (fields : Array Field) : Except Bad (Array Field) :=
  match fields.findIdx? fun f => f.idString = some fieldIdString with
  | none => .error .invalid
  | some i =>
    if i < index then .error .duplicate
    else .ok ((fields.swapIfInBounds index i).modify index Field.shown)

/-- `hide_fields`. -/
def hideFields (index : Nat) (fields : Array Field) : Array Field :=
  fields.mapIdx fun i f => if index ≤ i then f.hidden else f

/-- `set_sort_order`: the field to sort by, if there is one of this name. -/
def setSortOrder (idString : String) (fields : Array Field) : Option CtxField :=
  (fields.find? fun f => f.idString = some idString).map Field.id

/-- An option, as `getopt_long` returns it. -/
inductive Opt where
  | sort (arg : String)
  | fields (arg : String)
  | version
  /-- `-h`, and what is no option of the program. -/
  | other

/-- What `main` does with the options: it dies with a text, or prints its version or its usage, or goes on to show
columns, sorted by a field. -/
inductive Outcome where
  | dies (text : String)
  | version
  | usage
  | shows (sortField : CtxField) (columns : List Field)
  deriving DecidableEq

def invalidText (field : String) : String := "Invalid field name " ++ field ++ ".\n"

def duplicateText (field : String) : String :=
  "Field list must contain only one occurence of each field (" ++ field ++ " was listed more than once)\n"

/-- The loop over a list of fields, from the field with number `i` on: the number of fields, or the text to die
with. -/
def orderFields : List String → Nat → Array Field → Except String (Nat × Array Field)
  | [], i, fields => .ok (i, fields)
  | field :: rest, i, fields =>
    match setFieldOrder field i fields with
    | .error .duplicate => .error (duplicateText field)
    | .error .invalid => .error (invalidText field)
    | .ok fields => orderFields rest (i + 1) fields

/-- The pieces that `strsep` finds. -/
def strsep (arg : String) : List String := arg.splitOn ","

/-- `ctx_fields` and `ctx_sort_field`. -/
structure Ps where
  fields : Array Field
  sortField : CtxField

/-- A field without a name is hidden. -/
def Ps.start : Ps where
  fields := (ctxFields.map fun f => if f.idString = none then f.hidden else f).toArray
  sortField := .ppuPid

/-- The loop over the options. -/
def Ps.run (s : Ps) : List Opt → Outcome
  | [] => .shows s.sortField (s.fields.toList.filter Field.doShow)
  | .sort arg :: opts =>
    match setSortOrder arg s.fields with
    | none => .dies (invalidText arg)
    | some id => { s with sortField := id }.run opts
  | .fields arg :: opts =>
    match orderFields (strsep arg) 0 s.fields with
    | .error text => .dies text
    | .ok (i, fields) => { s with fields := hideFields i fields }.run opts
  | .version :: _ => .version
  | .other :: _ => .usage

/-- `main` of spu-ps, up to the table. -/
def spuPsMain (opts : List Opt) : Outcome := Ps.start.run opts

/-! ## The law -/

/-- The names of fields. -/
def known : List String := ctxFields.filterMap Field.idString

/-- The column with a name. -/
def columnOf (name : String) : Option Field :=
  (ctxFields.find? fun f => f.idString = some name).map Field.shown

/-- A list of fields can be followed: every name is one, and none comes twice. -/
def Columns (names : List String) : Prop := names.Nodup ∧ ∀ name ∈ names, name ∈ known

namespace Opt

/-- An option can be followed. -/
def Accepted : Opt → Prop
  | sort arg => arg ∈ known
  | fields arg => Columns (strsep arg)
  | version | other => False

/-- The field to sort by, after an option. -/
def sortAfter (id : CtxField) : Opt → CtxField
  | sort arg => ((columnOf arg).map Field.id).getD id
  | _ => id

/-- The columns, after an option. -/
def columnsAfter (columns : List Field) : Opt → List Field
  | fields arg => (strsep arg).filterMap columnOf
  | _ => columns

/-- What becomes of an option that cannot be followed: a list fails at the first name that is none, or that has been
in the list before. -/
def Rejected (out : Outcome) : Opt → Prop
  | sort arg => out = .dies (invalidText arg)
  | fields arg => ∃ pre name post, strsep arg = pre ++ name :: post ∧ Columns pre ∧
      (name ∉ known ∧ out = .dies (invalidText name) ∨ name ∈ pre ∧ out = .dies (duplicateText name))
  | version => out = .version
  | other => out = .usage

end Opt

/-- The field that was named last, by which the rows are sorted. -/
def sortOf (opts : List Opt) : CtxField := opts.foldl Opt.sortAfter .ppuPid

/-- The columns that were listed last, in the order of the list; without a list, those that have a name and are shown
from the start. -/
def columnsOf (opts : List Opt) : List Field :=
  opts.foldl Opt.columnsAfter (ctxFields.filter fun f => f.doShow && f.idString.isSome)

/-- **The options of spu-ps**: if all can be followed, they are; and the first that cannot ends the program. -/
structure Behaves (opts : List Opt) : Prop where
  accepted : (∀ o ∈ opts, o.Accepted) → spuPsMain opts = .shows (sortOf opts) (columnsOf opts)
  rejected : ∀ pre o post, opts = pre ++ o :: post → (∀ o' ∈ pre, o'.Accepted) → ¬o.Accepted →
    o.Rejected (spuPsMain opts)

/-! ## The table -/

/-- The element `i` is brought to the place `k`: what is before that place stays. -/
theorem take_bring {α : Type} {xs : Array α} {k i : Nat} (hki : k ≤ i) (hi : i < xs.size) (f : α → α) :
    ((xs.swapIfInBounds k i).modify k f).toList.take (k + 1) = xs.toList.take k ++ [f xs[i]] := by
  apply List.ext_getElem
  · simp
    omega
  · intro n h₁ h₂
    have hn : n ≤ k := by simp at h₁; omega
    simp only [List.getElem_take, Array.getElem_toList, Array.getElem_modify, Array.getElem_swapIfInBounds]
    rcases Nat.lt_or_eq_of_le hn with hlt | rfl
    · rw [List.getElem_append_left (by simp; omega)]
      simp
      grind
    · rw [List.getElem_append_right (by simp)]
      simp [hi]

/-- The fields of the program in some order, shown or not. -/
def Table (fields : Array Field) : Prop := (fields.toList.map Field.hidden).Perm (ctxFields.map Field.hidden)

section Table

variable {fields : Array Field} {name : String} {f : Field} {pre names : List String}

/-- No two fields have the same name. -/
theorem columnOf_mem : ∀ g ∈ ctxFields, ∀ name ∈ g.idString, columnOf name = some g.shown := by decide +kernel

theorem columnOf_some (h : columnOf name = some f) : f.idString = some name ∧ f.doShow = true := by
  obtain ⟨g, hg, rfl⟩ := Option.map_eq_some_iff.mp h
  exact ⟨by simpa [Field.shown] using List.find?_some hg, rfl⟩

theorem columnOf_isSome : (columnOf name).isSome = true ↔ name ∈ known := by
  simp [columnOf, known, List.mem_filterMap]

theorem Table.column (h : Table fields) (hf : f ∈ fields) (hname : f.idString = some name) :
    columnOf name = some f.shown := by
  have hmem : f.hidden ∈ ctxFields.map Field.hidden :=
    h.subset (List.mem_map_of_mem (Array.mem_toList_iff.mpr hf))
  obtain ⟨g, hg, hgf⟩ := List.mem_map.mp hmem
  obtain ⟨id, gname, nameFormat, format, description, doShow, idString⟩ := g
  cases hgf
  exact columnOf_mem _ hg name hname

theorem Table.known_iff (h : Table fields) : name ∈ known ↔ ∃ f ∈ fields, f.idString = some name := by
  constructor
  · intro hname
    obtain ⟨g, hg, hgname⟩ := List.mem_filterMap.mp hname
    have hmem : g.hidden ∈ fields.toList.map Field.hidden := h.symm.subset (List.mem_map_of_mem hg)
    obtain ⟨f, hf, hfg⟩ := List.mem_map.mp hmem
    refine ⟨f, Array.mem_toList_iff.mp hf, ?_⟩
    rw [← hgname]
    show f.hidden.idString = g.hidden.idString
    rw [hfg]
  · rintro ⟨f, hf, hname⟩
    rw [← columnOf_isSome, h.column hf hname]
    rfl

/-- Fields change their places, and are shown or hidden. -/
theorem Table.of_hidden {fields' : Array Field} (h : Table fields)
    (hsame : (fields'.toList.map Field.hidden).Perm (fields.toList.map Field.hidden)) : Table fields' := hsame.trans h

theorem table_bring (h : Table fields) {k i : Nat} (hk : k < fields.size) (hi : i < fields.size) :
    Table ((fields.swapIfInBounds k i).modify k Field.shown) := by
  have hmodify : (((fields.swapIfInBounds k i).modify k Field.shown).toList.map Field.hidden) =
      (fields.swapIfInBounds k i).toList.map Field.hidden := by
    apply List.ext_getElem
    · simp
    · intro n h₁ h₂
      simp only [List.getElem_map, Array.getElem_toList, Array.getElem_modify]
      split <;> rfl
  refine h.of_hidden ?_
  rw [hmodify, Array.swapIfInBounds_def, dif_pos hk, dif_pos hi]
  exact (Array.swap_perm hk hi).toList.map _

theorem Table.hideFields (h : Table fields) (k : Nat) : Table (hideFields k fields) := by
  refine h.of_hidden (.of_eq ?_)
  apply List.ext_getElem
  · simp [SpuTools.hideFields]
  · intro n h₁ h₂
    simp only [SpuTools.hideFields, List.getElem_map, Array.getElem_toList, Array.getElem_mapIdx]
    split <;> rfl

/-! ## A list of fields -/

/-- The names so far are at the front, in their order, and shown. -/
structure Front (pre : List String) (fields : Array Field) : Prop where
  table : Table fields
  front : (fields.toList.take pre.length).map some = pre.map columnOf

theorem Front.length_le (h : Front pre fields) : pre.length ≤ fields.size := by
  have hlen := congrArg List.length h.front
  simpa using hlen

theorem Front.mem_iff (h : Front pre fields) : name ∈ pre ↔
    ∃ i, ∃ hi : i < fields.size, i < pre.length ∧ fields[i].idString = some name := by
  have hget {i : Nat} (hi : i < pre.length) (hsize : i < fields.size) : some fields[i] = columnOf pre[i] := by
    have hfront := congrArg (fun l => l[i]?) h.front
    simpa [hi, hsize] using hfront
  constructor
  · intro hname
    obtain ⟨i, hi, rfl⟩ := List.getElem_of_mem hname
    have hsize : i < fields.size := Nat.lt_of_lt_of_le hi h.length_le
    exact ⟨i, hsize, hi, (columnOf_some (hget hi hsize).symm).1⟩
  · rintro ⟨i, hsize, hi, hname⟩
    have hpre := (columnOf_some (hget hi hsize).symm).1
    rw [hname] at hpre
    obtain rfl := Option.some.inj hpre
    exact List.getElem_mem hi

/-- **One name**: it is brought behind those before it, or it is refused. -/
theorem setFieldOrder_spec (h : Front pre fields) (name : String) :
    (∃ fields', setFieldOrder name pre.length fields = .ok fields' ∧ Front (pre ++ [name]) fields' ∧
        name ∈ known ∧ name ∉ pre) ∨
      name ∉ known ∧ setFieldOrder name pre.length fields = .error .invalid ∨
      name ∈ pre ∧ setFieldOrder name pre.length fields = .error .duplicate := by
  unfold setFieldOrder
  cases hfind : fields.findIdx? fun f => f.idString = some name with
  | none =>
    refine .inr (.inl ⟨fun hname => ?_, rfl⟩)
    obtain ⟨f, hf, hfname⟩ := h.table.known_iff.mp hname
    have hno := Array.findIdx?_eq_none_iff.mp hfind f hf
    simp [hfname] at hno
  | some i =>
    obtain ⟨hi, hname, hbefore⟩ := Array.findIdx?_eq_some_iff_getElem.mp hfind
    have hname : fields[i].idString = some name := of_decide_eq_true hname
    dsimp only
    by_cases hlt : i < pre.length
    · rw [if_pos hlt]
      exact .inr (.inr ⟨h.mem_iff.mpr ⟨i, hi, hlt, hname⟩, rfl⟩)
    · rw [if_neg hlt]
      have hle : pre.length ≤ i := Nat.le_of_not_lt hlt
      have hcolumn := h.table.column (Array.getElem_mem hi) hname
      refine .inl ⟨_, rfl, ⟨table_bring h.table (by omega) hi, ?_⟩, ?_, fun hpre => ?_⟩
      · rw [List.length_append, List.length_singleton, take_bring hle hi, List.map_append, h.front,
          List.map_append, List.map_singleton, List.map_singleton, hcolumn]
      · exact h.table.known_iff.mpr ⟨_, Array.getElem_mem hi, hname⟩
      · -- the first field of this name would be among the names so far
        obtain ⟨j, hj, hjlt, hjname⟩ := h.mem_iff.mp hpre
        have hno := hbefore j (by omega)
        simp [hjname] at hno

/-- **A list**: all its names are at the front, or it fails at the first that cannot be followed. -/
theorem orderFields_spec (h : Front pre fields) (hpre : Columns pre) (names : List String) :
    (Columns (pre ++ names) ∧ ∃ fields', Front (pre ++ names) fields' ∧
      orderFields names pre.length fields = .ok ((pre ++ names).length, fields')) ∨
    ∃ mid name post, names = mid ++ name :: post ∧ Columns (pre ++ mid) ∧
      (name ∉ known ∧ orderFields names pre.length fields = .error (invalidText name) ∨
        name ∈ pre ++ mid ∧ orderFields names pre.length fields = .error (duplicateText name)) := by
  induction names generalizing pre fields with
  | nil =>
    rw [List.append_nil]
    exact .inl ⟨hpre, fields, h, rfl⟩
  | cons name rest ih =>
    unfold orderFields
    obtain ⟨fields', hset, hfront, hknown, hnew⟩ | ⟨hunknown, hset⟩ | ⟨hdup, hset⟩ := setFieldOrder_spec h name
    · have hcolumns : Columns (pre ++ [name]) := by
        refine ⟨?_, ?_⟩
        · rw [List.nodup_append]
          refine ⟨hpre.1, List.nodup_singleton _, fun a ha b hb => ?_⟩
          rw [List.mem_singleton.mp hb]
          rintro rfl
          exact hnew ha
        · simpa [or_imp, forall_and, hknown] using hpre.2
      have hrest := ih hfront hcolumns
      rw [List.append_assoc, List.length_append, List.length_singleton, List.singleton_append] at hrest
      rw [hset]
      refine hrest.imp_right fun ⟨mid, name', post, hsplit, hmid, hfail⟩ => ⟨name :: mid, name', post, ?_, ?_, ?_⟩
      · rw [hsplit, List.cons_append]
      · rwa [List.append_assoc, List.singleton_append] at hmid
      · rwa [List.append_assoc, List.singleton_append] at hfail
    · rw [hset]
      exact .inr ⟨[], name, rest, rfl, by rwa [List.append_nil], .inl ⟨hunknown, rfl⟩⟩
    · rw [hset]
      exact .inr ⟨[], name, rest, rfl, by rwa [List.append_nil], .inr ⟨by rwa [List.append_nil], rfl⟩⟩

/-- The columns of a list are what is not hidden. -/
theorem Front.columns (h : Front names fields) :
    (SpuTools.hideFields names.length fields).toList.filter Field.doShow = names.filterMap columnOf := by
  have hshown : ∀ f ∈ fields.toList.take names.length, f.doShow = true := by
    intro f hf
    have hmem : some f ∈ names.map columnOf := h.front ▸ List.mem_map_of_mem hf
    obtain ⟨name, -, hname⟩ := List.mem_map.mp hmem
    exact (columnOf_some hname).2
  have hsplit : (SpuTools.hideFields names.length fields).toList =
      fields.toList.take names.length ++ (fields.toList.drop names.length).map Field.hidden := by
    have hle := h.length_le
    apply List.ext_getElem
    · simp [SpuTools.hideFields]
      omega
    · intro n h₁ h₂
      simp only [SpuTools.hideFields, Array.getElem_toList, Array.getElem_mapIdx]
      by_cases hn : names.length ≤ n
      · rw [if_pos hn, List.getElem_append_right (by simp; omega)]
        simp [Field.hidden, Nat.min_eq_left hle, Nat.add_sub_cancel' hn]
      · rw [if_neg hn, List.getElem_append_left (by simp; omega)]
        simp
  have hhidden : ((fields.toList.drop names.length).map Field.hidden).filter Field.doShow = [] := by
    refine List.filter_eq_nil_iff.mpr fun f hf => ?_
    obtain ⟨g, -, rfl⟩ := List.mem_map.mp hf
    simp [Field.hidden]
  rw [hsplit, List.filter_append, List.filter_eq_self.mpr hshown, hhidden, List.append_nil]
  have hid := congrArg (List.filterMap id) h.front
  simpa [List.filterMap_map, Function.comp_def] using hid

end Table

/-! ## The options -/

/-- What the options so far have led to. -/
structure Ps.Set (s : Ps) (sort : CtxField) (columns : List Field) : Prop where
  table : Table s.fields
  sort : s.sortField = sort
  columns : s.fields.toList.filter Field.doShow = columns

section Options

variable {s : Ps} {sort : CtxField} {columns : List Field} {o : Opt}

theorem Ps.set_start : Ps.start.Set .ppuPid (ctxFields.filter fun f => f.doShow && f.idString.isSome) := by
  refine ⟨.of_eq ?_, rfl, ?_⟩ <;> decide +kernel

theorem setSortOrder_eq {fields : Array Field} (h : Table fields) (arg : String) :
    setSortOrder arg fields = (columnOf arg).map Field.id := by
  unfold setSortOrder
  cases hfind : fields.find? fun f => f.idString = some arg with
  | some f =>
    have hname : f.idString = some arg := by simpa using Array.find?_some hfind
    rw [h.column (Array.mem_of_find?_eq_some hfind) hname]
    rfl
  | none =>
    cases hcolumn : columnOf arg with
    | none => rfl
    | some g =>
      have hknown : arg ∈ known := columnOf_isSome.mp (by rw [hcolumn]; rfl)
      obtain ⟨f, hf, hfname⟩ := h.known_iff.mp hknown
      have hno := Array.find?_eq_none.mp hfind f hf
      simp [hfname] at hno

/-- **An option that can be followed**. -/
theorem Ps.Set.follow (h : s.Set sort columns) (ho : o.Accepted) :
    ∃ s' : Ps, s'.Set (o.sortAfter sort) (o.columnsAfter columns) ∧ ∀ opts, s.run (o :: opts) = s'.run opts := by
  cases o with
  | sort arg =>
    obtain ⟨f, hf⟩ := Option.isSome_iff_exists.mp (columnOf_isSome.mpr ho)
    have hset : setSortOrder arg s.fields = some f.id := by rw [setSortOrder_eq h.table, hf, Option.map_some]
    refine ⟨{ s with sortField := f.id }, ⟨h.table, ?_, h.columns⟩, fun opts => by rw [Ps.run, hset]⟩
    rw [Opt.sortAfter, hf]
    rfl
  | fields arg =>
    have hfront : Front [] s.fields := ⟨h.table, rfl⟩
    obtain ⟨-, fields', hfront', horder⟩ | ⟨mid, name, post, hsplit, hmid, hfail⟩ :=
      orderFields_spec hfront ⟨List.nodup_nil, nofun⟩ (strsep arg)
    · refine ⟨⟨hideFields (strsep arg).length fields', s.sortField⟩,
        ⟨hfront'.table.hideFields _, h.sort, hfront'.columns⟩, fun opts => ?_⟩
      rw [List.length_nil, List.nil_append] at horder
      rw [Ps.run, horder]
    · -- what fails is no name, or comes twice
      have ho : Columns (strsep arg) := ho
      rw [hsplit] at ho
      obtain ⟨hunknown, -⟩ | ⟨hdup, -⟩ := hfail
      · exact absurd (ho.2 name (by simp)) hunknown
      · exact absurd rfl ((List.nodup_append.mp ho.1).2.2 name hdup name (by simp))
  | version | other => exact ho.elim

/-- **An option that cannot be followed**. -/
theorem Ps.Set.reject (h : s.Set sort columns) (ho : ¬o.Accepted) (opts : List Opt) :
    o.Rejected (s.run (o :: opts)) := by
  cases o with
  | sort arg =>
    have hnone : columnOf arg = none := by
      rw [← Option.not_isSome_iff_eq_none, columnOf_isSome]
      exact ho
    show s.run _ = _
    rw [Ps.run, setSortOrder_eq h.table, hnone]
    rfl
  | fields arg =>
    have hfront : Front [] s.fields := ⟨h.table, rfl⟩
    obtain ⟨hcolumns, -⟩ | ⟨mid, name, post, hsplit, hmid, hfail⟩ :=
      orderFields_spec hfront ⟨List.nodup_nil, nofun⟩ (strsep arg)
    · exact absurd hcolumns ho
    · refine ⟨mid, name, post, hsplit, hmid, ?_⟩
      rw [Ps.run]
      obtain ⟨hunknown, herror⟩ | ⟨hdup, herror⟩ := hfail <;> rw [List.length_nil] at herror <;> rw [herror]
      · exact .inl ⟨hunknown, rfl⟩
      · exact .inr ⟨hdup, rfl⟩
  | version | other => rfl

/-- **Options that can be followed**. -/
theorem Ps.Set.run (h : s.Set sort columns) {opts : List Opt} (hopts : ∀ o ∈ opts, o.Accepted) :
    ∃ s' : Ps, s'.Set (opts.foldl Opt.sortAfter sort) (opts.foldl Opt.columnsAfter columns) ∧
      ∀ rest, s.run (opts ++ rest) = s'.run rest := by
  induction opts generalizing s sort columns with
  | nil => exact ⟨s, h, fun _ => rfl⟩
  | cons o opts ih =>
    obtain ⟨ho, hrest⟩ := List.forall_mem_cons.mp hopts
    obtain ⟨s₁, h₁, hrun₁⟩ := h.follow ho
    obtain ⟨s₂, h₂, hrun₂⟩ := ih h₁ hrest
    exact ⟨s₂, h₂, fun rest => (hrun₁ _).trans (hrun₂ rest)⟩

end Options

/-- **The options**, whatever they are. -/
theorem spu_ps_behaves (opts : List Opt) : Behaves opts where
  accepted hopts := by
    obtain ⟨s, h, hrun⟩ := Ps.set_start.run hopts
    have hend := hrun []
    rw [List.append_nil] at hend
    exact hend.trans (congrArg₂ Outcome.shows h.sort h.columns)
  rejected pre o post hsplit hpre ho := by
    obtain ⟨s, h, hrun⟩ := Ps.set_start.run hpre
    have hend := h.reject ho post
    rwa [← hrun, ← hsplit] at hend

end LibSpe2.SpuTools
