import LibSpe2.SpuTools.Contexts
import Mathlib.Data.List.ReduceOption

/-!
# What a scan makes of the table

After a scan, the table is to have the contexts that were processed to the end, and no others.

* `Refreshed` — what is asked of a scan, and `follow`, what becomes of the context of one thread.
* `Tidy` — no two neighbours of the table are gone, and the table is not full when one is.
* `records` — what the table is sorted from.
* `scan_exact` — from every state that scans lead to, the scans that do what is asked are those that are tidy and whose
  records `qsort` accepts.
-/

namespace LibSpe2.SpuTools

/-! ## What is asked of a scan -/

/-- The directories of contexts, in the order in which they are read. -/
def DirEntry.files : DirEntry → List Files
  | .ctx files => [files]
  | .gang dir => (dir.getD []).reduceOption

/-- A directory of the thread has been processed to the end. -/
def processed (files : List Files) (threadId : Int32) : Bool :=
  files.any fun e => e.tid == some threadId && e.procStat.isSome

/-- The context of a thread. -/
def lookup (l : List Ctx) (threadId : Int32) : Option Ctx := l.find? fun c => c.threadId == threadId

/-- What a directory makes of the context of its thread. -/
def Files.apply (lib : Libc) (lastPeriod : UInt64) (names : Names) (e : Files) (c : Ctx) : Ctx :=
  match e.procStat with
  | none => c
  | some r => c.refresh lib lastPeriod names e r

/-- The user names that are known when a directory has been processed. -/
def Files.known (e : Files) (names : Names) : Names :=
  match e.tid, e.procStat with
  | some _, some _ => e.names names
  | _, _ => names

/-- **What becomes of the context of a thread**: it goes on from what it was, or from a new one. -/
def follow (lib : Libc) (lastPeriod : UInt64) (threadId : Int32) : List Files → Names → Option Ctx → Option Ctx
  | [], _, o => o
  | e :: files, names, o => follow lib lastPeriod threadId files (e.known names)
      (if e.tid = some threadId
        then some (e.apply lib lastPeriod names (o.getD (allocCtx threadId (findThreadPid e.procDir))))
        else o)

/-- A context before it is looked for. -/
def Ctx.unmarked (c : Ctx) : Ctx := { c with updated := false }

/-- **The table after a scan**, which had these contexts before. -/
structure Refreshed (lib : Libc) (lastPeriod : UInt64) (files : List Files) (names : Names) (l : List Ctx)
    (table : Growable Ctx) (l' : List Ctx) : Prop where
  holds : table.Holds l'
  null : table.slots table.n = none
  room : table.n < table.capacity
  nodup : (l'.map Ctx.threadId).Nodup
  threads : ∀ t, t ∈ l'.map Ctx.threadId ↔ processed files t
  data : ∀ c ∈ l', follow lib lastPeriod c.threadId files names ((lookup l c.threadId).map Ctx.unmarked) = some c

/-! ## The scans that do it -/

/-- The threads of the table, with new ones put behind. -/
def arrivals : List Int32 → List Int32 → List Int32
  | known, [] => known
  | known, t :: ts => arrivals (if t ∈ known then known else known ++ [t]) ts

/-- The threads of the table when all directories have been processed. -/
def scanned (l : List Ctx) (files : List Files) : List Int32 :=
  arrivals (l.map Ctx.threadId) (files.filterMap Files.tid)

/-- **The tidy scans**: of two neighbours one is still there, and where one is gone the table is not full. -/
structure Tidy (l : List Ctx) (capacity : Nat) (files : List Files) : Prop where
  apart : (scanned l files).IsChain fun t1 t2 => processed files t1 ∨ processed files t2
  room : (∀ t ∈ scanned l files, processed files t) ∨
    (scanned l files).length < Growable.raise defaultCapacity (scanned l files).length (scanned l files).length capacity

/-- The contexts of the threads that are still there. -/
def records (lib : Libc) (lastPeriod : UInt64) (files : List Files) (names : Names) (l : List Ctx) : List Ctx :=
  ((scanned l files).filter (processed files)).filterMap fun t =>
    follow lib lastPeriod t files names ((lookup l t).map Ctx.unmarked)

variable {lib : Libc} {lastPeriod : UInt64} {s s' : Contexts} {table table' : Growable Ctx} {l l₁ l₂ l' : List Ctx}
  {c c' : Ctx} {e : Files} {files : List Files} {t threadId ppuPid : Int32} {names : Names} {known ts : List Int32}
  {o : Option Ctx}

/-! ## Lists of contexts -/

theorem lookup_threadId (h : lookup l t = some c) : c.threadId = t := by
  have hc := List.find?_some h
  exact eq_of_beq hc

theorem lookup_eq_none (h : t ∉ l.map Ctx.threadId) : lookup l t = none := by
  apply List.find?_eq_none.mpr
  intro c hc heq
  exact h (List.mem_map.mpr ⟨c, hc, eq_of_beq heq⟩)

theorem lookup_of_mem (hnodup : (l.map Ctx.threadId).Nodup) (hc : c ∈ l) : lookup l c.threadId = some c := by
  induction l with
  | nil => cases hc
  | cons b l ih =>
    rw [List.map_cons, List.nodup_cons] at hnodup
    unfold lookup
    rcases List.mem_cons.mp hc with rfl | hc
    · simp
    · have hne : b.threadId ≠ c.threadId := by
        intro heq
        exact hnodup.1 (heq ▸ List.mem_map_of_mem hc)
      rw [List.find?_cons_of_neg (by simpa using hne)]
      exact ih hnodup.2 hc

/-- The context of a thread is changed. -/
theorem lookup_modify (hl₁ : ∀ b ∈ l₁, b.threadId ≠ threadId) (hc : c.threadId = threadId)
    (hc' : c'.threadId = threadId) (t : Int32) :
    lookup (l₁ ++ c' :: l₂) t = if threadId = t then some c' else lookup (l₁ ++ c :: l₂) t := by
  unfold lookup
  rw [List.find?_append, List.find?_append]
  by_cases ht : threadId = t
  · subst ht
    have hnone : l₁.find? (fun b => b.threadId == threadId) = none := by
      apply List.find?_eq_none.mpr
      intro b hb
      simpa using hl₁ b hb
    rw [if_pos rfl, hnone, List.find?_cons_of_pos (by simpa using hc')]
    rfl
  · rw [if_neg ht, List.find?_cons_of_neg (by simp [hc', ht]), List.find?_cons_of_neg (by simp [hc, ht])]

/-- A context is added for a thread that has none. -/
theorem lookup_concat (hl : threadId ∉ l.map Ctx.threadId) (hc : c.threadId = threadId) (t : Int32) :
    lookup (l ++ [c]) t = if threadId = t then some c else lookup l t := by
  by_cases ht : threadId = t
  · subst ht
    have hnone : l.find? (fun b => b.threadId == threadId) = none := lookup_eq_none hl
    rw [if_pos rfl]
    unfold lookup
    rw [List.find?_append, hnone]
    simp [hc]
  · rw [if_neg ht]
    unfold lookup
    rw [List.find?_append]
    simp [hc, ht]

/-! ## One directory -/

theorem refresh_spec (lib : Libc) (lastPeriod : UInt64) (names : Names) (e : Files)
    (r : Option (Int32 × Option String)) (c : Ctx) :
    (c.refresh lib lastPeriod names e r).threadId = c.threadId ∧
      (c.refresh lib lastPeriod names e r).updated = true := by
  unfold Ctx.refresh
  constructor
  · simp
  · rfl

theorem apply_threadId : (e.apply lib lastPeriod names c).threadId = c.threadId := by
  unfold Files.apply
  split
  · rfl
  · exact (refresh_spec ..).1

/-- The entry of a thread. -/
theorem ctxsEntry_spec (hl : table.Holds l) (threadId ppuPid : Int32) : ∃ table' l₁ c l₂,
    ctxsEntry table threadId ppuPid = some (table', l₁.length) ∧ table'.Holds (l₁ ++ c :: l₂) ∧
    (∀ b ∈ l₁, b.threadId ≠ threadId) ∧ c = (lookup l threadId).getD (allocCtx threadId ppuPid) ∧
    c.threadId = threadId ∧
    (l₁ ++ c :: l₂).map Ctx.threadId = arrivals (l.map Ctx.threadId) [threadId] ∧
    (∀ t, threadId ≠ t → lookup (l₁ ++ c :: l₂) t = lookup l t) ∧
    table'.capacity = Growable.raise defaultCapacity (l₁ ++ c :: l₂).length (l₁ ++ c :: l₂).length table.capacity := by
  have hfind := Growable.Holds.find (p := fun c => c.threadId == threadId) (show table.Holds ([] ++ l) from hl)
  rw [← hl.n, List.length_nil] at hfind
  unfold ctxsEntry ctxsGetCtx
  obtain ⟨hnone, hall⟩ | ⟨l₁, c, l₂, rfl, hc, hl₁, hsome⟩ := hfind
  · have hmem : threadId ∉ l.map Ctx.threadId := by
      intro hmem
      obtain ⟨b, hb, hbt⟩ := List.mem_map.mp hmem
      simpa [hbt] using hall b hb
    obtain ⟨table', hpush, hholds, hcap⟩ := hl.push (show 0 < defaultCapacity by decide) (allocCtx threadId ppuPid)
    refine ⟨table', l, allocCtx threadId ppuPid, [], ?_, hholds, ?_, ?_, rfl, ?_, ?_, ?_⟩
    · rw [hnone]
      show (table.push defaultCapacity (allocCtx threadId ppuPid)).bind _ = _
      rw [hpush, ← hl.n]
      rfl
    · intro b hb heq
      exact hmem (List.mem_map.mpr ⟨b, hb, heq⟩)
    · rw [lookup_eq_none hmem]
      rfl
    · rw [arrivals, if_neg hmem, List.map_append]
      rfl
    · intro t ht
      rw [lookup_concat hmem rfl, if_neg ht]
    · rw [hcap, hl.n, List.length_append]
      rfl
  · rw [List.nil_append] at hsome
    refine ⟨table, l₁, c, l₂, ?_, hl, ?_, ?_, eq_of_beq hc, ?_, fun t _ => rfl, ?_⟩
    · rw [hsome]
      rfl
    · intro b hb heq
      simpa [heq] using hl₁ b hb
    · have hne : ∀ b ∈ l₁, b.threadId ≠ threadId := fun b hb heq => by simpa [heq] using hl₁ b hb
      rw [lookup_modify hne (eq_of_beq hc) (eq_of_beq hc), if_pos rfl]
      rfl
    · rw [arrivals, if_pos (by simp [eq_of_beq hc])]
      rfl
    · rw [Growable.raise_of_le (hl.n ▸ hl.fits)]

/-- **A directory** puts the context of its thread where it was, or behind the others. -/
theorem processCtxEntry_spec (lib : Libc) (lastPeriod : UInt64) (hl : s.table.Holds l) (he : e.tid = some threadId) :
    ∃ s' l', processCtxEntry lib lastPeriod s e = some s' ∧ s'.table.Holds l' ∧
      l'.map Ctx.threadId = arrivals (l.map Ctx.threadId) [threadId] ∧ s'.names = e.known s.names ∧
      (∀ t, lookup l' t = if threadId = t
        then some (e.apply lib lastPeriod s.names
          ((lookup l threadId).getD (allocCtx threadId (findThreadPid e.procDir))))
        else lookup l t) ∧
      s'.table.capacity = Growable.raise defaultCapacity l'.length l'.length s.table.capacity := by
  obtain ⟨table, l₁, c, l₂, hentry, hholds, hl₁, heq, hc, hthreads, hothers, hcap⟩ :=
    ctxsEntry_spec hl threadId (findThreadPid e.procDir)
  -- the context is what `apply` makes of it, whether its process is there or not
  have hlookup (t : Int32) : lookup (l₁ ++ e.apply lib lastPeriod s.names c :: l₂) t =
      if threadId = t then some (e.apply lib lastPeriod s.names c) else lookup l t := by
    rw [lookup_modify hl₁ hc (apply_threadId.trans hc)]
    by_cases ht : threadId = t
    · rw [if_pos ht, if_pos ht]
    · rw [if_neg ht, if_neg ht, hothers t ht]
  have hmap : (l₁ ++ e.apply lib lastPeriod s.names c :: l₂).map Ctx.threadId =
      (l₁ ++ c :: l₂).map Ctx.threadId := by
    simp [apply_threadId]
  have hlength : (l₁ ++ e.apply lib lastPeriod s.names c :: l₂).length = (l₁ ++ c :: l₂).length := by simp
  rw [← heq]
  unfold processCtxEntry
  rw [he]
  show ∃ s' l', Option.bind _ _ = some s' ∧ _
  rw [hentry]
  cases hstat : e.procStat with
  | none =>
    have happly : e.apply lib lastPeriod s.names c = c := by
      unfold Files.apply
      rw [hstat]
    rw [happly] at hlookup ⊢
    refine ⟨_, _, rfl, hholds, hthreads, ?_, hlookup, hcap⟩
    unfold Files.known
    rw [he, hstat]
  | some r =>
    have happly : e.apply lib lastPeriod s.names c = c.refresh lib lastPeriod s.names e r := by
      unfold Files.apply
      rw [hstat]
    obtain ⟨table', hmodify, hholds', hcap'⟩ := hholds.modify (Ctx.refresh lib lastPeriod s.names e r)
    rw [← happly] at hholds'
    refine ⟨⟨table', e.names s.names⟩, _, ?_, hholds', hmap.trans hthreads, ?_, hlookup, ?_⟩
    · show Option.bind (table.modify l₁.length _) _ = _
      rw [hmodify]
      rfl
    · unfold Files.known
      rw [he, hstat]
    · rw [hlength]
      exact hcap'.trans hcap

/-- A directory without a thread changes nothing. -/
theorem processCtxEntry_of_none (he : e.tid = none) : processCtxEntry lib lastPeriod s e = some s := by
  unfold processCtxEntry
  rw [he]

/-! ## All directories -/

theorem follow_of_none (he : e.tid = none) :
    follow lib lastPeriod t (e :: files) names o = follow lib lastPeriod t files names o := by
  have hknown : e.known names = names := by
    unfold Files.known
    rw [he]
  rw [follow, he, hknown]
  rfl

theorem length_le_arrivals (known ts : List Int32) : known.length ≤ (arrivals known ts).length := by
  induction ts generalizing known with
  | nil => exact Nat.le_refl _
  | cons t ts ih =>
    refine Nat.le_trans ?_ (ih _)
    split
    · exact Nat.le_refl _
    · simp

/-- **The directories** put the context of every thread where `follow` has it. -/
theorem process_spec (lib : Libc) (lastPeriod : UInt64) (files : List Files) (hl : s.table.Holds l) :
    ∃ s' l', files.foldlM (processCtxEntry lib lastPeriod) s = some s' ∧ s'.table.Holds l' ∧
      l'.map Ctx.threadId = scanned l files ∧
      (∀ t, lookup l' t = follow lib lastPeriod t files s.names (lookup l t)) ∧
      s'.table.capacity = Growable.raise defaultCapacity l'.length l'.length s.table.capacity := by
  induction files generalizing s l with
  | nil =>
    refine ⟨s, l, rfl, hl, rfl, fun t => rfl, ?_⟩
    rw [Growable.raise_of_le (hl.n ▸ hl.fits)]
  | cons e files ih =>
    cases he : e.tid with
    | none =>
      obtain ⟨s', l', hrun, hholds, hthreads, hlookup, hcap⟩ := ih hl
      refine ⟨s', l', ?_, hholds, ?_, ?_, hcap⟩
      · rw [List.foldlM_cons, processCtxEntry_of_none he]
        exact hrun
      · rw [hthreads]
        unfold scanned
        rw [List.filterMap_cons_none he]
      · intro t
        rw [hlookup, follow_of_none he]
    | some threadId =>
      obtain ⟨s₁, l₁, hentry, hholds₁, hthreads₁, hnames₁, hlookup₁, hcap₁⟩ :=
        processCtxEntry_spec lib lastPeriod hl he
      obtain ⟨s', l', hrun, hholds, hthreads, hlookup, hcap⟩ := ih hholds₁
      have hscanned : scanned l₁ files = scanned l (e :: files) := by
        unfold scanned
        rw [List.filterMap_cons_some he, hthreads₁]
        rfl
      refine ⟨s', l', ?_, hholds, hthreads.trans hscanned, fun t => ?_, ?_⟩
      · rw [List.foldlM_cons, hentry]
        exact hrun
      · rw [hlookup, hlookup₁, hnames₁, follow, he]
        by_cases ht : threadId = t
        · subst ht
          rw [if_pos rfl, if_pos rfl]
        · rw [if_neg ht, if_neg (by simpa using ht)]
      · have hle : l₁.length ≤ l'.length := by
          have hknown := length_le_arrivals (l₁.map Ctx.threadId) (files.filterMap Files.tid)
          have hlength := congrArg List.length hthreads
          unfold scanned at hlength
          rw [List.length_map] at hknown hlength
          omega
        rw [hcap, hcap₁, Growable.raise_raise (by decide) hle (Nat.le_add_left ..)]

/-! ## Marks -/

theorem mem_arrivals : t ∈ arrivals known ts ↔ t ∈ known ∨ t ∈ ts := by
  induction ts generalizing known with
  | nil => simp [arrivals]
  | cons t' ts ih =>
    rw [arrivals, ih]
    split
    · grind
    · grind

theorem arrivals_nodup (h : known.Nodup) : (arrivals known ts).Nodup := by
  induction ts generalizing known with
  | nil => exact h
  | cons t ts ih =>
    rw [arrivals]
    split
    · exact ih h
    · apply ih
      grind

theorem apply_updated : (e.apply lib lastPeriod names (o.getD (allocCtx t ppuPid))).updated = true ↔
    e.procStat.isSome = true ∨ ∃ c', o = some c' ∧ c'.updated = true := by
  unfold Files.apply
  cases e.procStat with
  | none =>
    cases o with
    | none => simp [allocCtx]
    | some c => simp
  | some r => simp [(refresh_spec lib lastPeriod names e r _).2]

/-- A context is marked when its directory has been processed to the end. -/
theorem follow_updated (hc : follow lib lastPeriod t files names o = some c) :
    c.updated = true ↔ processed files t = true ∨ ∃ c', o = some c' ∧ c'.updated = true := by
  induction files generalizing names o with
  | nil =>
    obtain rfl : o = some c := hc
    simp [processed]
  | cons e files ih =>
    rw [follow] at hc
    rw [ih hc]
    unfold processed
    rw [List.any_cons]
    by_cases he : e.tid = some t
    · rw [if_pos he]
      simp only [Option.some.injEq, exists_eq_left', apply_updated, he, BEq.rfl, Bool.true_and, Bool.or_eq_true]
      tauto
    · rw [if_neg he]
      simp [he]

/-- The table when all directories have been processed. -/
structure Marked (lib : Libc) (lastPeriod : UInt64) (files : List Files) (names : Names) (l : List Ctx) (capacity : Nat)
    (table : Growable Ctx) (l' : List Ctx) : Prop where
  holds : table.Holds l'
  threads : l'.map Ctx.threadId = scanned l files
  nodup : (l'.map Ctx.threadId).Nodup
  data : ∀ c ∈ l', follow lib lastPeriod c.threadId files names ((lookup l c.threadId).map Ctx.unmarked) = some c
  marks : ∀ c ∈ l', c.updated = processed files c.threadId
  capacity : table.capacity = Growable.raise defaultCapacity l'.length l'.length capacity

theorem processDirEntry_eq (entry : DirEntry) :
    processDirEntry lib lastPeriod s entry = entry.files.foldlM (processCtxEntry lib lastPeriod) s := by
  cases entry with
  | ctx files => simp [processDirEntry, DirEntry.files]
  | gang dir =>
    cases dir with
    | none => rfl
    | some dir =>
      show dir.foldlM _ s = dir.reduceOption.foldlM _ s
      induction dir generalizing s with
      | nil => rfl
      | cons entry dir ih =>
        cases entry with
        | none => exact ih
        | some e =>
          rw [List.reduceOption_cons_of_some, List.foldlM_cons, List.foldlM_cons]
          exact congrArg _ (funext fun s => ih)

/-- A gang is a list of contexts. -/
theorem foldlM_files (dir : List DirEntry) (s : Contexts) : dir.foldlM (processDirEntry lib lastPeriod) s =
    (dir.flatMap DirEntry.files).foldlM (processCtxEntry lib lastPeriod) s := by
  induction dir generalizing s with
  | nil => rfl
  | cons entry dir ih =>
    rw [List.foldlM_cons, List.flatMap_cons, List.foldlM_append, processDirEntry_eq]
    exact congrArg _ (funext ih)

theorem lookup_unmarked : lookup (l.map Ctx.unmarked) t = (lookup l t).map Ctx.unmarked := by
  unfold lookup
  rw [List.find?_map]
  rfl

theorem marked_spec (lib : Libc) (lastPeriod : UInt64) (files : List Files) (hl : s.table.Holds l)
    (hnodup : (l.map Ctx.threadId).Nodup) : ∃ table s' l',
    s.table.forEach (fun c => { c with updated := false }) = some table ∧
    files.foldlM (processCtxEntry lib lastPeriod) { s with table } = some s' ∧
    Marked lib lastPeriod files s.names l s.table.capacity s'.table l' := by
  obtain ⟨table, hclear, hholds, hcap⟩ := hl.forEach Ctx.unmarked
  obtain ⟨s', l', hrun, hholds', hthreads, hlookup, hcap'⟩ :=
    process_spec (s := { s with table }) lib lastPeriod files hholds
  have hthreads : l'.map Ctx.threadId = scanned l files := by
    rw [hthreads]
    unfold scanned
    rw [List.map_map]
    rfl
  have hnodup' : (l'.map Ctx.threadId).Nodup := by
    rw [hthreads]
    exact arrivals_nodup hnodup
  have hdata (c : Ctx) (hc : c ∈ l') :
      follow lib lastPeriod c.threadId files s.names ((lookup l c.threadId).map Ctx.unmarked) = some c := by
    rw [← lookup_unmarked, ← lookup_of_mem hnodup' hc, hlookup]
  refine ⟨table, s', l', hclear, hrun, hholds', hthreads, hnodup', hdata, fun c hc => ?_, ?_⟩
  · have hold : ¬∃ c', (lookup l c.threadId).map Ctx.unmarked = some c' ∧ c'.updated = true := by
      rintro ⟨c', hc', hupdated⟩
      obtain ⟨b, -, rfl⟩ := Option.map_eq_some_iff.mp hc'
      cases hupdated
    rw [Bool.eq_iff_iff, follow_updated (hdata c hc), or_iff_left hold]
  · rw [hcap']
    exact congrArg _ hcap

/-- The loop of `ctxs_delete` has a slot behind the last entry, or nothing to delete. -/
def Roomy (table : Growable Ctx) (l : List Ctx) : Prop := table.n < table.capacity ∨ ∀ c ∈ l, c.updated = true

/-- The loop of `ctxs_delete` meets no two neighbours that are gone, and has room where one is. -/
theorem Marked.tidy_iff {names : Names} {capacity : Nat} (h : Marked lib lastPeriod files names l capacity table l') :
    Tidy l capacity files ↔ (l'.IsChain fun c1 c2 => c1.updated = true ∨ c2.updated = true) ∧ Roomy table l' := by
  have hmarks : (scanned l files).map (processed files) = l'.map Ctx.updated := by
    rw [← h.threads, List.map_map]
    exact (List.map_congr_left h.marks).symm
  have hapart : (scanned l files).IsChain (fun t1 t2 => processed files t1 ∨ processed files t2) ↔
      l'.IsChain fun c1 c2 => c1.updated = true ∨ c2.updated = true := by
    rw [← List.isChain_map (R := fun b1 b2 : Bool => b1 = true ∨ b2 = true) (processed files), hmarks, List.isChain_map]
  have hall : (∀ t ∈ scanned l files, processed files t) ↔ ∀ c ∈ l', c.updated = true := by
    rw [← List.forall_mem_map (f := processed files) (P := fun b => b = true), hmarks, List.forall_mem_map]
  have hlength : (scanned l files).length = l'.length := by
    rw [← h.threads, List.length_map]
  unfold Roomy
  rw [h.capacity, h.holds.n, ← hapart, ← hall, ← hlength]
  exact ⟨fun ⟨h₁, h₂⟩ => ⟨h₁, h₂.symm⟩, fun ⟨h₁, h₂⟩ => ⟨h₁, h₂.symm⟩⟩

/-- The contexts to keep are the records. -/
theorem Marked.filter_updated {names : Names} {capacity : Nat}
    (h : Marked lib lastPeriod files names l capacity table l') :
    l'.filter Ctx.updated = records lib lastPeriod files names l := by
  unfold records
  rw [← h.threads, List.filter_map, List.filterMap_map]
  have hfilter : l'.filter (processed files ∘ Ctx.threadId) = l'.filter Ctx.updated :=
    List.filter_congr fun c hc => (h.marks c hc).symm
  have hdata : (l'.filter Ctx.updated).filterMap _ = (l'.filter Ctx.updated).filterMap some :=
    List.filterMap_congr fun c hc => h.data c (List.mem_of_mem_filter hc)
  rw [hfilter]
  exact (hdata.trans List.filterMap_some).symm

/-! ## The scan -/

/-- A directory that has been processed is one of a thread of the table. -/
theorem mem_scanned (h : processed files t = true) : t ∈ scanned l files := by
  obtain ⟨e, he, htid⟩ := List.any_eq_true.mp h
  obtain ⟨htid, -⟩ := Bool.and_eq_true_iff.mp htid
  exact mem_arrivals.mpr (.inr (List.mem_filterMap.mpr ⟨e, he, eq_of_beq htid⟩))

/-- What is left when only contexts to keep are left. -/
theorem Marked.refreshed {names : Names} {capacity : Nat} {l₁ : List Ctx}
    (h : Marked lib lastPeriod files names l capacity table l₁)
    (hkept : ∀ c ∈ Growable.skim Ctx.updated l₁, c.updated = true) (hperm : l'.Perm (Growable.skim Ctx.updated l₁))
    (hholds : table'.Holds l') (hnull : table'.slots table'.n = none) (hroom : table'.n < table'.capacity) :
    Refreshed lib lastPeriod files names l table' l' := by
  have hmem (c : Ctx) (hc : c ∈ l') : c ∈ l₁ := Growable.skim_sublist.subset (hperm.mem_iff.mp hc)
  refine ⟨hholds, hnull, hroom, ?_, fun t => ?_, fun c hc => h.data c (hmem c hc)⟩
  · rw [(hperm.map Ctx.threadId).nodup_iff]
    exact (Growable.skim_sublist.map Ctx.threadId).nodup h.nodup
  · constructor
    · intro ht
      obtain ⟨c, hc, rfl⟩ := List.mem_map.mp ht
      rw [← h.marks c (hmem c hc)]
      exact hkept c (hperm.mem_iff.mp hc)
    · intro ht
      have hthread : t ∈ l₁.map Ctx.threadId := by
        rw [h.threads]
        exact mem_scanned ht
      obtain ⟨c, hc, rfl⟩ := List.mem_map.mp hthread
      have hfilter : c ∈ l₁.filter Ctx.updated := List.mem_filter.mpr ⟨hc, (h.marks c hc).trans ht⟩
      exact List.mem_map_of_mem (hperm.mem_iff.mpr (Growable.filter_sublist_skim.subset hfilter))

/-- **A scan** marks the contexts and sorts what the loop leaves, or it leaves the table, or cannot sort. -/
theorem scan_spec (lib : Libc) (field : CtxField) (descending : Bool) (lastPeriod : UInt64) (dir : List DirEntry)
    (hl : s.table.Holds l) (hnodup : (l.map Ctx.threadId).Nodup) : ∃ table l₁,
    Marked lib lastPeriod (dir.flatMap DirEntry.files) s.names l s.table.capacity table l₁ ∧
    ((Roomy table l₁ ∧ Accepts (ctxsCompare lib field descending) (Growable.skim Ctx.updated l₁)) ∧
        (∃ s' l', getSpuContexts lib field descending lastPeriod (some dir) s = some (true, s') ∧
        s'.table.Holds l' ∧ l'.Perm (Growable.skim Ctx.updated l₁) ∧ s'.table.slots s'.table.n = none ∧
        s'.table.n < s'.table.capacity) ∨
      ¬(Roomy table l₁ ∧ Accepts (ctxsCompare lib field descending) (Growable.skim Ctx.updated l₁)) ∧
        getSpuContexts lib field descending lastPeriod (some dir) s = none) := by
  obtain ⟨table, s₁, l₁, hclear, hrun, hmarked⟩ :=
    marked_spec lib lastPeriod (dir.flatMap DirEntry.files) hl hnodup
  have hscan : getSpuContexts lib field descending lastPeriod (some dir) s =
      (s₁.table.sweep Ctx.updated).bind fun table => (table.terminate defaultCapacity).bind fun table =>
        (table.rearrange (lib.sort (ctxsCompare lib field descending))).bind fun table =>
          some (true, { s₁ with table }) := by
    show (s.table.forEach fun c => { c with updated := false }).bind _ = _
    rw [hclear]
    show Option.bind (dir.foldlM (processDirEntry lib lastPeriod) { s with table }) _ = _
    rw [foldlM_files, hrun]
    rfl
  refine ⟨s₁.table, l₁, hmarked, ?_⟩
  rw [hscan]
  by_cases hroom : Roomy s₁.table l₁
  · obtain ⟨t₂, ht₂, hholds₂, -⟩ := hmarked.holds.sweep hroom
    obtain ⟨t₃, ht₃, hholds₃, hnull₃, hroom₃, -⟩ := hholds₂.terminate (show 0 < defaultCapacity by decide)
    by_cases hsort : Accepts (ctxsCompare lib field descending) (Growable.skim Ctx.updated l₁)
    · obtain ⟨l', hsorted, hperm⟩ := lib.sort_accepts hsort
      obtain ⟨t₄, ht₄, hholds₄, hn₄, hcap₄, hslots₄⟩ := hholds₃.rearrange hsorted hperm
      refine .inl ⟨⟨hroom, hsort⟩, { s₁ with table := t₄ }, l', ?_, hholds₄, hperm, ?_, ?_⟩
      · simp only [ht₂, Option.bind_some, ht₃, ht₄]
      · show t₄.slots t₄.n = none
        rw [hn₄, hslots₄ _ (Nat.le_refl _)]
        exact hnull₃
      · show t₄.n < t₄.capacity
        rw [hn₄, hcap₄]
        exact hroom₃
    · have ht₄ := hholds₃.rearrange_none (lib.sort_eq_none hsort)
      refine .inr ⟨fun h => hsort h.2, ?_⟩
      simp only [ht₂, Option.bind_some, ht₃, ht₄, Option.bind_none]
  · have hfull : s₁.table.n = s₁.table.capacity :=
      Nat.le_antisymm hmarked.holds.fits (Nat.not_lt.mp (not_or.mp hroom).1)
    have hdrop : ∃ c ∈ l₁, c.updated = false := by
      simpa using (not_or.mp hroom).2
    rw [hmarked.holds.sweep_full hfull hdrop]
    exact .inr ⟨fun h => hroom h.1, rfl⟩

/-- **The scans that do it**, of a table that has every thread once. -/
theorem refreshed_iff (lib : Libc) (field : CtxField) (descending : Bool) (lastPeriod : UInt64) (dir : List DirEntry)
    (hl : s.table.Holds l) (hnodup : (l.map Ctx.threadId).Nodup) :
    (∃ s' l', getSpuContexts lib field descending lastPeriod (some dir) s = some (true, s') ∧
      Refreshed lib lastPeriod (dir.flatMap DirEntry.files) s.names l s'.table l') ↔
      Tidy l s.table.capacity (dir.flatMap DirEntry.files) ∧
        Accepts (ctxsCompare lib field descending)
          (records lib lastPeriod (dir.flatMap DirEntry.files) s.names l) := by
  obtain ⟨table, l₁, hmarked, hcases⟩ := scan_spec lib field descending lastPeriod dir hl hnodup
  have hskim (h : ∀ c ∈ Growable.skim Ctx.updated l₁, c.updated = true) :
      Growable.skim Ctx.updated l₁ = records lib lastPeriod (dir.flatMap DirEntry.files) s.names l :=
    (Growable.skim_eq_filter h).trans hmarked.filter_updated
  rw [hmarked.tidy_iff, ← Growable.forall_skim_iff]
  obtain ⟨⟨hroom, hsort⟩, s₁, l₂, hrun, hholds, hperm, hnull, hlt⟩ | ⟨hnot, hrun⟩ := hcases
  · rw [hrun]
    constructor
    · rintro ⟨s', l', hsame, href⟩
      cases hsame
      obtain rfl := hholds.unique href.holds
      have hkept : ∀ c ∈ Growable.skim Ctx.updated l₁, c.updated = true := by
        intro c hc
        rw [hmarked.marks c (Growable.skim_sublist.subset hc)]
        exact (href.threads c.threadId).mp (List.mem_map_of_mem (hperm.mem_iff.mpr hc))
      exact ⟨⟨hkept, hroom⟩, hskim hkept ▸ hsort⟩
    · rintro ⟨⟨hkept, -⟩, -⟩
      exact ⟨s₁, l₂, rfl, hmarked.refreshed hkept hperm hholds hnull hlt⟩
  · rw [hrun]
    constructor
    · rintro ⟨s', l', hnone, -⟩
      cases hnone
    · rintro ⟨⟨hkept, hroom⟩, hsort⟩
      exact absurd ⟨hroom, hskim hkept ▸ hsort⟩ hnot

/-! ## Histories -/

/-- `get_procs` leaves other marks. -/
def Contexts.marked (s : Contexts) (updated : Ctx → Bool) : Contexts :=
  { s with table := { s.table with slots := fun i => (s.table.slots i).map fun c => { c with updated := updated c } } }

/-- The states that scans lead to. The first one allocates the table, whose slots may hold anything. -/
inductive Contexts.Reached (lib : Libc) : Contexts → Prop
  | start (slots : Nat → Option Ctx) : Contexts.Reached lib ⟨⟨slots, 0, 0⟩, []⟩
  | scan {s s' : Contexts} {field : CtxField} {descending : Bool} {lastPeriod : UInt64}
      {dir : Option (List DirEntry)} {shown : Bool} (h : Contexts.Reached lib s)
      (hscan : getSpuContexts lib field descending lastPeriod dir s = some (shown, s')) : Contexts.Reached lib s'
  | mark {s : Contexts} (h : Contexts.Reached lib s) (updated : Ctx → Bool) : Contexts.Reached lib (s.marked updated)

/-- Between two scans, the table has every thread once. -/
theorem Contexts.Reached.holds (h : s.Reached lib) : ∃ l, s.table.Holds l ∧ (l.map Ctx.threadId).Nodup := by
  induction h with
  | start slots => exact ⟨[], ⟨rfl, Nat.le_refl 0, nofun⟩, List.nodup_nil⟩
  | @scan s s' field descending lastPeriod dir shown _ hscan ih =>
    cases dir with
    | none =>
      cases hscan
      exact ih
    | some dir =>
      obtain ⟨l, hl, hnodup⟩ := ih
      obtain ⟨table, l₁, hmarked, ⟨-, s₁, l₂, hrun, hholds, hperm, -⟩ | ⟨-, hrun⟩⟩ :=
        scan_spec lib field descending lastPeriod dir hl hnodup
      · rw [hrun] at hscan
        cases hscan
        refine ⟨l₂, hholds, ?_⟩
        rw [(hperm.map Ctx.threadId).nodup_iff]
        exact (Growable.skim_sublist.map Ctx.threadId).nodup hmarked.nodup
      · rw [hrun] at hscan
        cases hscan
  | @mark s _ updated ih =>
    obtain ⟨l, hl, hnodup⟩ := ih
    refine ⟨l.map fun c => { c with updated := updated c }, ⟨?_, hl.fits, fun i hi => ?_⟩, ?_⟩
    · rw [List.length_map]
      exact hl.n
    · rw [List.length_map] at hi
      rw [List.getElem?_map, ← hl.slots i hi]
      rfl
    · rw [List.map_map]
      exact hnodup

/-- **Every history of scans.** From every state that scans lead to, the next scan does what is asked of it if and only
if it is tidy and `qsort` accepts the records of the threads that are still there. -/
theorem scan_exact (h : s.Reached lib) : ∃ l, s.table.Holds l ∧
    ∀ (field : CtxField) (descending : Bool) (lastPeriod : UInt64) (dir : List DirEntry),
      (∃ s' l', getSpuContexts lib field descending lastPeriod (some dir) s = some (true, s') ∧
        Refreshed lib lastPeriod (dir.flatMap DirEntry.files) s.names l s'.table l') ↔
        Tidy l s.table.capacity (dir.flatMap DirEntry.files) ∧
          Accepts (ctxsCompare lib field descending)
            (records lib lastPeriod (dir.flatMap DirEntry.files) s.names l) := by
  obtain ⟨l, hl, hnodup⟩ := h.holds
  exact ⟨l, hl, fun field descending lastPeriod dir => refreshed_iff lib field descending lastPeriod dir hl hnodup⟩

/-! ## Tables that are sorted by the thread -/

theorem follow_threadId (hc : follow lib lastPeriod t files names o = some c)
    (ho : ∀ c' ∈ o, c'.threadId = t) : c.threadId = t := by
  induction files generalizing names o with
  | nil => exact ho c hc
  | cons e files ih =>
    refine ih hc fun c' hc' => ?_
    split at hc'
    · obtain rfl := Option.some.inj hc'
      rw [apply_threadId]
      cases o with
      | none => rfl
      | some b => exact ho b rfl
    · exact ho c' hc'

theorem threadId_records (hc : c ∈ records lib lastPeriod files names l) : processed files c.threadId = true := by
  obtain ⟨t, ht, hfollow⟩ := List.mem_filterMap.mp hc
  have hthread : c.threadId = t := by
    refine follow_threadId hfollow fun c' hc' => ?_
    obtain ⟨b, hb, rfl⟩ := Option.map_eq_some_iff.mp hc'
    show b.threadId = t
    exact lookup_threadId hb
  rw [hthread]
  exact (List.mem_filter.mp ht).2

/-- The ids of threads that are not negative do not differ by more than an `int` has. -/
theorem accepts_threadId (h : ∀ t, processed files t = true → 0 ≤ t.toInt) (descending : Bool) :
    Accepts (ctxsCompare lib .threadId descending) (records lib lastPeriod files names l) := by
  have hnumeric : CtxField.Numeric .threadId := trivial
  have horders : Orders lib (ctxsCompare lib .threadId descending) (fun p => (p.key .threadId).value) descending
      (records lib lastPeriod files names l) := by
    refine (orders_iff_fits (Ctx.sameKind hnumeric)).mpr fun p1 h1 p2 h2 => ?_
    have hp1 := h p1.threadId (threadId_records h1)
    have hp2 := h p2.threadId (threadId_records h2)
    have hlt1 := p1.threadId.toInt_lt
    have hlt2 := p2.threadId.toInt_lt
    show (p1.threadId.toInt - p2.threadId.toInt).natAbs < 2 ^ 31
    omega
  exact .inr horders.toConsistent

/-- What may be read of a context. -/
def Files.ofThread (threadId : Int32) : Files where
  tid := some threadId
  procDir := some [(true, some 1)]
  procStat := some (some (1, some "(spe)"))
  procStatus := none
  passwd := none
  physId := .refused
  stat := none
  capabilities := none

/-- The directories of threads. -/
def dirOf (ts : List Int32) : List DirEntry := ts.map fun t => .ctx (.ofThread t)

theorem files_dirOf (ts : List Int32) : (dirOf ts).flatMap DirEntry.files = ts.map Files.ofThread := by
  unfold dirOf
  rw [List.flatMap_map]
  exact List.map_eq_flatMap.symm

theorem processed_ofThread {ts : List Int32} : processed (ts.map Files.ofThread) t = true ↔ t ∈ ts := by
  unfold processed
  rw [List.any_map, List.any_eq_true]
  simp [Files.ofThread]

theorem mem_scanned_ofThread {ts : List Int32} :
    t ∈ scanned l (ts.map Files.ofThread) ↔ t ∈ l.map Ctx.threadId ∨ t ∈ ts := by
  have htid : (ts.map Files.ofThread).filterMap Files.tid = ts := by
    rw [List.filterMap_map]
    exact List.filterMap_some
  unfold scanned
  rw [mem_arrivals, htid]

/-- The directories of threads are scanned, and at most one other thread is gone. -/
theorem scannable_ofThread {ts : List Int32} (hnodup : (l.map Ctx.threadId).Nodup) (hts : ∀ t ∈ ts, 0 ≤ t.toInt)
    (hone : ∀ t₁ ∈ l.map Ctx.threadId, ∀ t₂ ∈ l.map Ctx.threadId, t₁ ∉ ts → t₂ ∉ ts → t₁ = t₂) {capacity : Nat}
    (hroom : (∀ t ∈ l.map Ctx.threadId, t ∈ ts) ∨ (scanned l (ts.map Files.ofThread)).length < capacity) :
    Tidy l capacity ((dirOf ts).flatMap DirEntry.files) ∧
      Accepts (ctxsCompare lib .threadId false)
        (records lib lastPeriod ((dirOf ts).flatMap DirEntry.files) names l) := by
  rw [files_dirOf]
  refine ⟨⟨?_, ?_⟩, accepts_threadId (fun t ht => hts t (processed_ofThread.mp ht)) false⟩
  · have hapart : (scanned l (ts.map Files.ofThread)).Nodup := arrivals_nodup hnodup
    refine (hapart.imp_of_mem fun {t₁ t₂} h₁ h₂ hne => ?_).isChain
    rw [processed_ofThread, processed_ofThread]
    by_contra hgone
    obtain ⟨hgone₁, hgone₂⟩ := not_or.mp hgone
    exact hne (hone t₁ ((mem_scanned_ofThread.mp h₁).resolve_right hgone₁) t₂
      ((mem_scanned_ofThread.mp h₂).resolve_right hgone₂) hgone₁ hgone₂)
  · refine hroom.imp (fun hall t ht => ?_) fun hlt => Nat.lt_of_lt_of_le hlt Growable.le_raise
    rw [processed_ofThread]
    exact (mem_scanned_ofThread.mp ht).elim (hall t) id

/-- The first scan. -/
theorem scan_first {ts : List Int32} (hts : ∀ t ∈ ts, 0 ≤ t.toInt) : ∃ s l,
    getSpuContexts .plain .threadId false 0 (some (dirOf ts)) ⟨⟨fun _ => none, 0, 0⟩, []⟩ = some (true, s) ∧
      s.Reached .plain ∧ s.table.n < s.table.capacity ∧ s.table.Holds l ∧ (l.map Ctx.threadId).Nodup ∧
      ∀ t, t ∈ l.map Ctx.threadId ↔ t ∈ ts := by
  have hstart : Growable.Holds ⟨fun _ => none, 0, 0⟩ ([] : List Ctx) := ⟨rfl, Nat.le_refl 0, nofun⟩
  obtain ⟨s, l, hscan, href⟩ := (refreshed_iff (s := ⟨⟨fun _ => none, 0, 0⟩, []⟩) .plain .threadId false 0
    (dirOf ts) hstart List.nodup_nil).mpr
      (scannable_ofThread (l := []) List.nodup_nil hts (by simp) (.inl (by simp)))
  refine ⟨s, l, hscan, .scan (.start fun _ => none) hscan, href.room, href.holds, href.nodup, fun t => ?_⟩
  rw [href.threads, files_dirOf, processed_ofThread]

/-- Three contexts, of which the second is gone when the table is scanned again. -/
theorem scan_exact_second : ∃ s l,
    getSpuContexts .plain .threadId false 0 (some (dirOf [1, 2, 3])) ⟨⟨fun _ => none, 0, 0⟩, []⟩ = some (true, s) ∧
      s.table.Holds l ∧ (∀ t, t ∈ l.map Ctx.threadId ↔ t ∈ [1, 2, 3]) ∧
      ∃ s' l', getSpuContexts .plain .threadId false 0 (some (dirOf [1, 3])) s = some (true, s') ∧
        Refreshed .plain 0 ((dirOf [1, 3]).flatMap DirEntry.files) s.names l s'.table l' := by
  have hthree : ∀ t ∈ [(1 : Int32), 2, 3], 0 ≤ t.toInt := by simp
  obtain ⟨s, l, hscan, hreached, hroom, hholds, hnodup, hthreads⟩ := scan_first hthree
  obtain ⟨l₁, hl₁, hexact⟩ := scan_exact hreached
  obtain rfl := hholds.unique hl₁
  refine ⟨s, l, hscan, hholds, hthreads, (hexact .threadId false 0 (dirOf [1, 3])).mpr ?_⟩
  apply scannable_ofThread hnodup (by simp)
  · intro t₁ h₁ t₂ h₂ hgone₁ hgone₂
    rw [hthreads] at h₁ h₂
    grind
  · have hsame : scanned l ([1, 3].map Files.ofThread) = l.map Ctx.threadId := by
      have h1 : 1 ∈ l.map Ctx.threadId := (hthreads 1).mpr (by decide)
      have h3 : 3 ∈ l.map Ctx.threadId := (hthreads 3).mpr (by decide)
      show arrivals (l.map Ctx.threadId) [1, 3] = _
      simp [arrivals, h1, h3]
    rw [hsame, List.length_map, ← hholds.n]
    exact .inr hroom

/-- Two contexts, and both are gone when the table is scanned again. The second one stays. -/
theorem scan_stale : ∃ s, getSpuContexts .plain .threadId false 0 (some (dirOf [1, 2]))
      ⟨⟨fun _ => none, 0, 0⟩, []⟩ = some (true, s) ∧
    ∃ l, s.table.Holds l ∧ ¬∃ s' l', getSpuContexts .plain .threadId false 0 (some []) s = some (true, s') ∧
      Refreshed .plain 0 [] s.names l s'.table l' := by
  have htwo : ∀ t ∈ [(1 : Int32), 2], 0 ≤ t.toInt := by simp
  obtain ⟨s, l, hscan, -, -, hholds, hnodup, hthreads⟩ := scan_first htwo
  refine ⟨s, hscan, l, hholds, fun h => ?_⟩
  have hapart : (l.map Ctx.threadId).IsChain fun _ _ => false = true ∨ false = true :=
    ((refreshed_iff .plain .threadId false 0 [] hholds hnodup).mp h).1.apart
  have h1 : 1 ∈ l.map Ctx.threadId := (hthreads 1).mpr (by decide)
  have h2 : 2 ∈ l.map Ctx.threadId := (hthreads 2).mpr (by decide)
  match hl : l.map Ctx.threadId with
  | [] => simp [hl] at h1
  | [t] =>
    rw [hl, List.mem_singleton] at h1 h2
    exact absurd (h1.trans h2.symm) (by decide)
  | t1 :: t2 :: ts =>
    rw [hl, List.isChain_cons_cons] at hapart
    simp at hapart

/-- Two contexts whose user is not known cannot be sorted by it. -/
example : ¬Accepts (ctxsCompare .plain .user false)
    (records .plain 0 ((dirOf [1, 2]).flatMap DirEntry.files) [] []) := by
  decide

end LibSpe2.SpuTools
