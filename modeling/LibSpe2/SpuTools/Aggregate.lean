import LibSpe2.SpuTools.Procs
import Mathlib.Algebra.BigOperators.Group.List.Basic
import Mathlib.Data.List.Dedup

/-!
# A process is the sum of its contexts

Whatever the calls before have left, `get_procs` returns one record for each process.

* `Sums` — what the record of a process is to hold, and `procsOf`, the records of all processes.
* `Has` — the invariant between two calls: the array has the records that are allocated, each of them once.
* `addThreads_spec`, `entry_spec`, `fill_spec`, `freeRest_spec`, `sort_spec` — the steps of a call.
* `get_procs_sums` — a call leads to an array of sums if and only if `qsort` accepts the records.
-/

namespace LibSpe2.SpuTools

open Function Procs Growable

variable {lib : Libc} {s s' : Procs} {c : Ctx} {ctxs l l₁ l₂ : List Ctx} {pid : Int32} {pids : List Int32} {r : Ref}
  {refs used rest : List Ref} {procIdx : Nat} {newRef : Nat → Ref}

/-! ## Sums -/

/-- The contexts of a process. -/
def ofPid (pid : Int32) (l : List Ctx) : List Ctx := l.filter fun c => c.ppuPid = pid

/-- **The record of a process**: its threads are counted, and its times and counters are added up. -/
structure Sums (l : List Ctx) (p : Proc) : Prop where
  nThreads : p.nThreads = Int32.ofNat (ofPid p.ppuPid l).length
  time : ∀ t, p.time t = ((ofPid p.ppuPid l).map fun c => c.time t).sum
  counter : ∀ k, p.counter k = ((ofPid p.ppuPid l).map fun c => c.counter k).sum

/-- What the loop over the threads makes of a record. -/
def Proc.addAll (lib : Libc) (p : Proc) (l : List Ctx) : Proc := l.foldl (fun p c => p.add lib c) p

theorem addAll_append (p : Proc) (l₁ l₂ : List Ctx) :
    p.addAll lib (l₁ ++ l₂) = (p.addAll lib l₁).addAll lib l₂ := List.foldl_append

/-- A record that is clear has the sums of what is added. -/
theorem addAll_spec (lib : Libc) (p : Proc) (l : List Ctx) : (p.addAll lib l).ppuPid = p.ppuPid ∧
    (p.addAll lib l).nThreads = p.nThreads + Int32.ofNat l.length ∧
    (∀ t, (p.addAll lib l).time t = p.time t + (l.map fun c => c.time t).sum) ∧
    ∀ k, (p.addAll lib l).counter k = p.counter k + (l.map fun c => c.counter k).sum := by
  induction l generalizing p with
  | nil =>
    refine ⟨rfl, ?_, ?_, ?_⟩
    · exact (Int32.add_zero _).symm
    · intro t
      simp [Proc.addAll]
    · intro k
      simp [Proc.addAll]
  | cons c l ih =>
    obtain ⟨hpid, hthreads, htime, hcounter⟩ := ih (p.add lib c)
    refine ⟨hpid, ?_, ?_, ?_⟩
    · refine hthreads.trans ?_
      show p.nThreads + 1 + Int32.ofNat l.length = p.nThreads + Int32.ofNat (l.length + 1)
      rw [Int32.add_assoc, Nat.add_comm l.length 1, Int32.ofNat_add]
      rfl
    · intro t
      refine (htime t).trans ?_
      rw [List.map_cons, List.sum_cons, ← add_assoc]
      rfl
    · intro k
      refine (hcounter k).trans ?_
      rw [List.map_cons, List.sum_cons, ← add_assoc]
      rfl

/-- The record with which a process is begun. -/
def Ctx.begin (c : Ctx) : Proc :=
  { Proc.zero with binaryName := c.binaryName, user := c.user, ppuPid := c.ppuPid }

/-- **All contexts of a process** make its record. -/
theorem sums_addAll : Sums l (c.begin.addAll lib (ofPid c.ppuPid l)) := by
  obtain ⟨hpid, hthreads, htime, hcounter⟩ := addAll_spec lib c.begin (ofPid c.ppuPid l)
  have hpid : (c.begin.addAll lib (ofPid c.ppuPid l)).ppuPid = c.ppuPid := hpid
  constructor
  · rw [hpid, hthreads]
    exact Int32.zero_add _
  · intro t
    rw [hpid, htime]
    exact zero_add _
  · intro k
    rw [hpid, hcounter]
    exact zero_add _

/-- The record of a process, begun for its first context. -/
def procOf (lib : Libc) (l : List Ctx) (pid : Int32) : Proc :=
  match l.find? fun c => c.ppuPid = pid with
  | none => .zero
  | some c => c.begin.addAll lib (ofPid pid l)

/-- The records of the processes. -/
def procsOf (lib : Libc) (l : List Ctx) : List Proc := (l.map Ctx.ppuPid).dedup.map (procOf lib l)

/-- A context is the first one of its process. -/
theorem procOf_first (hl : l = l₁ ++ c :: l₂) (hbefore : ∀ b ∈ l₁, b.ppuPid ≠ c.ppuPid) :
    procOf lib l c.ppuPid = c.begin.addAll lib (ofPid c.ppuPid l) := by
  have hnone : l₁.find? (fun b => decide (b.ppuPid = c.ppuPid)) = none :=
    List.find?_eq_none.mpr fun b hb => by simpa using hbefore b hb
  have hfind : l.find? (fun b => decide (b.ppuPid = c.ppuPid)) = some c := by
    rw [hl, List.find?_append, hnone]
    simp
  unfold procOf
  rw [hfind]

/-! ## Marks -/

/-- A context that has been marked if its process is one of these. -/
def mark (pids : List Int32) (c : Ctx) : Ctx := { c with updated := decide (c.ppuPid ∈ pids) }

/-- The contexts before an index belong to other processes. -/
theorem map_mark_cons (h : ∀ c ∈ l, c.ppuPid ≠ pid) : l.map (mark (pid :: pids)) = l.map (mark pids) := by
  apply List.map_congr_left
  intro c hc
  unfold mark
  simp [h c hc]

theorem mark_cons_of_ne (h : c.ppuPid ≠ pid) : mark (pid :: pids) c = mark pids c := by
  unfold mark
  simp [h]

/-! ## The steps of a call -/

theorem update_spec {p : Proc} (hr : s.table.deref procIdx = some r) (hp : s.heap r = some p) (f : Proc → Proc) :
    s.update procIdx f = some { s with heap := Function.update s.heap r (some (f p)) } := by
  unfold Procs.update
  rw [hr]
  show (s.heap r).bind _ = _
  rw [hp]
  rfl

theorem ofPid_append : ofPid pid (l₁ ++ l₂) = ofPid pid l₁ ++ ofPid pid l₂ := List.filter_append ..

theorem ofPid_eq_nil (h : ∀ c ∈ l, c.ppuPid ≠ pid) : ofPid pid l = [] := by
  apply List.filter_eq_nil_iff.mpr
  intro c hc
  simpa using h c hc

theorem ofPid_singleton (h : c.ppuPid = pid) : ofPid pid [c] = [c] := by
  unfold ofPid
  simp [h]

/-- **The loop over the threads** adds all contexts of the process, and marks them. -/
theorem addThreads_spec (lib : Libc) (pids : List Int32) {p : Proc} (hl : l = l₁ ++ c :: l₂)
    (hbefore : ∀ b ∈ l₁, b.ppuPid ≠ c.ppuPid)
    (hr : s.table.deref procIdx = some r) (hp : s.heap r = some p) :
    s.addThreads lib l₁.length procIdx (l.map (mark pids)) = some (l.map (mark (c.ppuPid :: pids)),
      { s with heap := Function.update s.heap r (some (p.addAll lib (ofPid c.ppuPid l))) }) := by
  -- the contexts before the index have been looked at
  let J (j : Nat) (x : List Ctx × Procs) : Prop := ∃ a b, l = a ++ b ∧ a.length = j ∧
    x.1 = a.map (mark (c.ppuPid :: pids)) ++ b.map (mark pids) ∧
    x.2 = { s with heap := Function.update s.heap r (some (p.addAll lib (ofPid c.ppuPid a))) }
  have hinit : J l₁.length (l.map (mark pids), s) := by
    refine ⟨l₁, c :: l₂, hl, rfl, ?_, ?_⟩
    · rw [map_mark_cons hbefore, ← List.map_append, hl]
    · rw [ofPid_eq_nil hbefore]
      have hsame : Function.update s.heap r (some p) = s.heap := by
        rw [← hp]
        exact Function.update_eq_self r s.heap
      show s = { s with heap := Function.update s.heap r (some p) }
      rw [hsame]
  have hstep (j : Nat) (x : List Ctx × Procs) (_ : l₁.length ≤ j) (hj : j < l₁.length + (l.length - l₁.length))
      (hJ : J j x) : ∃ x', addThread lib l₁.length procIdx x j = some x' ∧ J (j + 1) x' := by
    obtain ⟨ctxs, s'⟩ := x
    obtain ⟨a, b, hab, hlen, hctxs, rfl⟩ := hJ
    obtain rfl : ctxs = a.map (mark (c.ppuPid :: pids)) ++ b.map (mark pids) := hctxs
    obtain rfl := hlen
    have hb : 0 < b.length := by
      have hlength := congrArg List.length hab
      rw [List.length_append] at hlength
      omega
    obtain ⟨cj, b, rfl⟩ := List.exists_cons_of_length_pos hb
    have hci : ∃ ci, (a.map (mark (c.ppuPid :: pids)) ++ (cj :: b).map (mark pids))[l₁.length]? = some ci ∧
        ci.ppuPid = c.ppuPid := by
      apply Option.map_eq_some_iff.mp
      rw [← List.getElem?_map]
      have hpids : (a.map (mark (c.ppuPid :: pids)) ++ (cj :: b).map (mark pids)).map Ctx.ppuPid =
          l.map Ctx.ppuPid := by
        rw [hab, List.map_append, List.map_append, List.map_map, List.map_map]
        rfl
      rw [hpids, hl]
      simp
    obtain ⟨ci, hci, hpid⟩ := hci
    have hcj : (a.map (mark (c.ppuPid :: pids)) ++ (cj :: b).map (mark pids))[a.length]? = some (mark pids cj) := by
      simp
    have hab' : l = (a ++ [cj]) ++ b := by
      rw [hab]
      simp
    show ∃ x', Option.bind _ _ = some x' ∧ _
    rw [hci]
    show ∃ x', Option.bind _ _ = some x' ∧ _
    rw [hcj]
    show ∃ x', (if ci.ppuPid ≠ cj.ppuPid then _ else _) = some x' ∧ _
    rw [hpid]
    by_cases hne : c.ppuPid = cj.ppuPid
    · have hup := update_spec (s := { s with heap := update s.heap r (some (p.addAll lib (ofPid c.ppuPid a))) }) hr
        (update_self ..) fun p => p.add lib cj
      rw [if_neg (not_not.mpr hne)]
      refine ⟨_, congrArg (Option.bind · _) hup, a ++ [cj], b, hab', by simp, ?_, ?_⟩
      · -- the context is marked, as its process is this one
        have hmark : { mark pids cj with updated := true } = mark (c.ppuPid :: pids) cj := by
          unfold mark
          simp [hne]
        show List.set _ a.length { mark pids cj with updated := true } = _
        rw [hmark]
        simp
      · rw [ofPid_append, ofPid_singleton hne.symm, addAll_append]
        simp only [update_idem]
        rfl
    · rw [if_pos hne]
      refine ⟨_, rfl, a ++ [cj], b, hab', by simp, ?_, ?_⟩
      · rw [List.map_append, List.map_singleton, mark_cons_of_ne (Ne.symm hne)]
        simp
      · rw [ofPid_append, ofPid_eq_nil (List.forall_mem_singleton.mpr (Ne.symm hne)), List.append_nil]
  obtain ⟨⟨ctxs, s'⟩, hrun, a, b, hab, hlen, hctxs, hs'⟩ := loop_rule J hinit hstep
  obtain rfl : b = [] := by
    have hlength := congrArg List.length hab
    have hlengthl := congrArg List.length hl
    rw [List.length_append] at hlength hlengthl
    exact List.eq_nil_of_length_eq_zero (by omega)
  obtain rfl : l = a := by simpa using hab
  rw [List.map_nil, List.append_nil] at hctxs
  unfold Procs.addThreads
  rw [List.length_map, hrun, ← hctxs, ← hs']

/-! ## The array -/

/-- The entries of the array are the records that are allocated, each of them once. -/
structure Has (s : Procs) (refs : List Ref) : Prop where
  table : s.table.Holds refs
  nodup : refs.Nodup
  live : ∀ r, (s.heap r).isSome ↔ r ∈ refs

theorem Has.isSome (h : Has s refs) (hr : r ∈ refs) : ∃ p, s.heap r = some p :=
  Option.isSome_iff_exists.mp ((h.live r).mpr hr)

theorem Has.eq_none_iff (h : Has s refs) : s.heap r = none ↔ r ∉ refs := by
  rw [← h.live, Bool.not_eq_true, Option.isSome_eq_false_iff, Option.isNone_iff_eq_none]

/-- A record of the array is given another value. -/
theorem Has.update (h : Has s refs) (hr : r ∈ refs) (p : Proc) :
    Has { s with heap := Function.update s.heap r (some p) } refs := by
  refine ⟨h.table, h.nodup, fun r' => ?_⟩
  show (Function.update s.heap r (some p) r').isSome ↔ r' ∈ refs
  by_cases hne : r' = r
  · subst hne
    rw [update_self]
    exact ⟨fun _ => hr, fun _ => rfl⟩
  · rw [update_of_ne hne]
    exact h.live r'

/-- The entries before `proc_idx` are others. -/
theorem Has.ne (h : Has s (used ++ r :: rest)) {r' : Ref} (hr' : r' ∈ used) : r' ≠ r := by
  intro heq
  exact (List.nodup_append.mp h.nodup).2.2 r' hr' r (List.mem_cons_self ..) heq

/-- The entry at `proc_idx` is cleared for the process of a context. -/
theorem Has.begin (h : Has s (used ++ r :: rest)) (c : Ctx) : ∃ s',
    s.update used.length (fun _ => c.begin) = some s' ∧
    Has s' (used ++ r :: rest) ∧ s'.heap r = some c.begin ∧ ∀ r' ∈ used, s'.heap r' = s.heap r' := by
  have hr : r ∈ used ++ r :: rest := by simp
  have hderef : s.table.deref used.length = some r := by
    rw [h.table.deref (by simp)]
    simp
  obtain ⟨p, hp⟩ := h.isSome hr
  exact ⟨_, update_spec hderef hp _, h.update hr c.begin, update_self .., fun r' hr' => update_of_ne (h.ne hr') ..⟩

/-- A record is allocated for an entry behind the last one. -/
theorem Has.push (h : Has s used) (hfresh : s.heap r = none) : ∃ table,
    (s.table.ensureCapacity defaultCapacity (used.length + 1)).write used.length (some r) = some table ∧
    Has ⟨{ table with n := used.length + 1 }, Function.update s.heap r (some .zero)⟩ (used ++ [r]) := by
  have hn := h.table.n
  obtain ⟨t, ht, hholds, -⟩ := h.table.push (show 0 < defaultCapacity by decide) r
  unfold Growable.push at ht
  rw [hn] at ht
  obtain ⟨table, hwrite, hpush⟩ := Option.bind_eq_some_iff.mp ht
  cases hpush
  have hnew : r ∉ used := h.eq_none_iff.mp hfresh
  refine ⟨table, hwrite, hholds, ?_, fun r' => ?_⟩
  · exact List.nodup_append.mpr ⟨h.nodup, List.nodup_singleton r,
      fun a ha b hb hab => hnew (List.mem_singleton.mp hb ▸ hab ▸ ha)⟩
  · show (Function.update s.heap r (some .zero) r').isSome ↔ r' ∈ used ++ [r]
    by_cases hne : r' = r
    · subst hne
      simp
    · rw [update_of_ne hne, h.live]
      simp [hne]

/-- **An entry** is used again, or allocated. -/
theorem entry_spec (h : Has s (used ++ rest)) (hfresh : s.heap (newRef used.length) = none) (c : Ctx) :
    ∃ s' r rest', s.entry used.length (newRef used.length) c = some s' ∧ Has s' (used ++ r :: rest') ∧
      s'.heap r = some c.begin ∧ (∀ r' ∈ used, s'.heap r' = s.heap r') ∧
      (∀ r', r' ∈ r :: rest' → r' = newRef used.length ∨ r' ∈ rest) := by
  have hn : s.table.n = used.length + rest.length := by
    rw [h.table.n, List.length_append]
  unfold Procs.entry
  cases rest with
  | nil =>
    rw [List.append_nil] at h
    have hge : used.length ≥ (s.table.ensureCapacity defaultCapacity (used.length + 1)).n := Nat.le_of_eq hn
    obtain ⟨table, hwrite, hpush⟩ := h.push hfresh
    obtain ⟨s', hs', hhas, hheap, hother⟩ := hpush.begin c
    refine ⟨s', newRef used.length, [], ?_, hhas, hheap, ?_, by simp⟩
    · refine (if_pos hge).trans ?_
      rw [hwrite]
      exact hs'
    · intro r' hr'
      exact (hother r' hr').trans (update_of_ne (hpush.ne hr') ..)
  | cons r rest =>
    have hlt : ¬ used.length ≥ (s.table.ensureCapacity defaultCapacity (used.length + 1)).n := by
      show ¬ used.length ≥ s.table.n
      rw [hn, List.length_cons]
      omega
    have hgrown : Has { s with table := s.table.ensureCapacity defaultCapacity (used.length + 1) }
        (used ++ r :: rest) :=
      ⟨h.table.ensureCapacity, h.nodup, h.live⟩
    obtain ⟨s', hs', hhas, hheap, hother⟩ := hgrown.begin c
    refine ⟨s', r, rest, ?_, hhas, hheap, hother, fun r' hr' => .inr hr'⟩
    exact (if_neg hlt).trans hs'

/-- The entries that are not used any more are freed. -/
theorem freeRest_spec (h : Has s (used ++ rest)) : ∃ s', s.freeRest used.length = some s' ∧ Has s' used ∧
    ∀ r ∈ used, s'.heap r = s.heap r := by
  have hn : s.table.n = used.length + rest.length := by
    rw [h.table.n, List.length_append]
  -- the entries before the index have been freed; those behind it are still there
  let J (i : Nat) (s' : Procs) : Prop := ∃ b, i + b.length = s.table.n ∧ s'.table.n = used.length + b.length ∧
    s'.table.capacity = s.table.capacity ∧ (used ++ b).Nodup ∧ (∀ r, (s'.heap r).isSome ↔ r ∈ used ++ b) ∧
    (∀ r ∈ used, s'.heap r = s.heap r) ∧ (∀ k, k < used.length → s'.table.slots k = used[k]?) ∧
    ∀ k, k < b.length → s'.table.slots (i + k) = b[k]?
  have hinit : J used.length s := by
    refine ⟨rest, hn.symm, hn, rfl, h.nodup, h.live, fun r _ => rfl, ?_, ?_⟩
    · intro k hk
      rw [h.table.slots k (by simp; omega), List.getElem?_append_left hk]
    · intro k hk
      rw [h.table.slots _ (by simp; omega), List.getElem?_append_right (by omega), Nat.add_sub_cancel_left]
  have hstep (i : Nat) (s' : Procs) (hi : used.length ≤ i) (hlt : i < used.length + (s.table.n - used.length))
      (hJ : J i s') : ∃ s'', (do
        let r ← s'.table.deref i
        let _ ← s'.heap r
        let table ← s'.table.write i none
        some (⟨{ table with n := table.n - 1 }, Function.update s'.heap r none⟩ : Procs)) = some s'' ∧
          J (i + 1) s'' := by
    obtain ⟨b, hlen, hn', hcap, hnodup, hlive, hheap, hused, hb⟩ := hJ
    obtain ⟨r, b, rfl⟩ := List.exists_cons_of_length_pos (by omega : 0 < b.length)
    rw [List.length_cons] at hlen hn'
    have hroom : i < s'.table.capacity := by
      have hfits := h.table.fits
      omega
    have hderef : s'.table.deref i = some r := by
      have hslot : s'.table.slots i = some r := hb 0 (by simp)
      unfold Growable.deref Growable.read
      rw [if_pos hroom]
      exact hslot
    have hr : r ∉ used ++ b := (List.nodup_middle.mp hnodup).notMem
    obtain ⟨p, hp⟩ := Option.isSome_iff_exists.mp ((hlive r).mpr (by simp))
    refine ⟨⟨{ s'.table with slots := Function.update s'.table.slots i none, n := s'.table.n - 1 },
      Function.update s'.heap r none⟩, ?_, b, by omega, ?_, hcap,
      (List.nodup_middle.mp hnodup).of_cons, ?_, ?_, ?_, ?_⟩
    · rw [hderef]
      show Option.bind (s'.heap r) _ = _
      rw [hp]
      show Option.bind (if i < s'.table.capacity then _ else _) _ = _
      rw [if_pos hroom]
      rfl
    · show s'.table.n - 1 = _
      omega
    · intro r'
      show (Function.update s'.heap r none r').isSome ↔ _
      by_cases hne : r' = r
      · subst hne
        simp [hr]
      · rw [update_of_ne hne, hlive]
        simp [hne]
    · intro r' hr'
      have hne : r' ≠ r := by
        rintro rfl
        exact hr (List.mem_append_left b hr')
      exact (update_of_ne hne ..).trans (hheap r' hr')
    · intro k hk
      exact (update_of_ne (by omega) ..).trans (hused k hk)
    · intro k hk
      have hslot : s'.table.slots (i + (k + 1)) = (r :: b)[k + 1]? := hb (k + 1) (by simpa using hk)
      rw [show i + 1 + k = i + (k + 1) by omega]
      exact (update_of_ne (by omega) ..).trans hslot
  obtain ⟨s', hs', b, hlen, hn', hcap, hnodup, hlive, hheap, hused, -⟩ := loop_rule J hinit hstep
  obtain rfl : b = [] := List.eq_nil_of_length_eq_zero (by omega)
  rw [List.append_nil] at hnodup hlive
  refine ⟨s', hs', ⟨⟨hn', ?_, hused⟩, hnodup, hlive⟩, hheap⟩
  have hfits := h.table.fits
  simp at hn'
  omega

/-! ## Calls -/

/-- A record for each process of the contexts. -/
structure Groups (l a : List Ctx) (procs : List Proc) : Prop where
  nodup : (procs.map Proc.ppuPid).Nodup
  pids : ∀ pid, pid ∈ procs.map Proc.ppuPid ↔ pid ∈ a.map Ctx.ppuPid
  sums : ∀ p ∈ procs, Sums l p

theorem mark_congr {pids' : List Int32} (h : ∀ pid, pid ∈ pids ↔ pid ∈ pids') : mark pids = mark pids' := by
  funext c
  unfold mark
  simp only [h]

theorem Groups.skip {a : List Ctx} {procs : List Proc} (h : Groups l a procs)
    (hc : c.ppuPid ∈ procs.map Proc.ppuPid) : Groups l (a ++ [c]) procs := by
  refine ⟨h.nodup, fun pid => ?_, h.sums⟩
  rw [h.pids] at hc ⊢
  rw [List.map_append, List.mem_append, List.map_singleton, List.mem_singleton]
  constructor
  · exact .inl
  · rintro (hpid | rfl)
    · exact hpid
    · exact hc

theorem Groups.concat {a : List Ctx} {procs : List Proc} (h : Groups l a procs)
    (hc : c.ppuPid ∉ procs.map Proc.ppuPid) :
    Groups l (a ++ [c]) (procs ++ [c.begin.addAll lib (ofPid c.ppuPid l)]) := by
  have hpid : (c.begin.addAll lib (ofPid c.ppuPid l)).ppuPid = c.ppuPid := (addAll_spec ..).1
  refine ⟨?_, fun pid => ?_, ?_⟩
  · rw [List.map_append, List.map_singleton, hpid]
    exact List.nodup_append.mpr ⟨h.nodup, List.nodup_singleton _,
      fun a ha b hb hab => hc (List.mem_singleton.mp hb ▸ hab ▸ ha)⟩
  · simp [hpid, h.pids]
  · intro p hp
    rcases List.mem_append.mp hp with hp | hp
    · exact h.sums p hp
    · rw [List.mem_singleton.mp hp]
      exact sums_addAll

/-- **The loop over the contexts** makes a record for each process. -/
theorem fill_spec (lib : Libc) (l : List Ctx) (h : Has s refs) (hfresh : ∀ k, s.heap (newRef k) = none)
    (hinj : Injective newRef) :
    ∃ s' used rest procs, s.fill lib newRef (l.map (mark [])) =
      some (l.map (mark (procs.map Proc.ppuPid)), used.length, s') ∧
      Has s' (used ++ rest) ∧ used.map s'.heap = procs.map some ∧ Groups l l procs ∧
      ∀ p ∈ procs, procOf lib l p.ppuPid = p := by
  -- the contexts before the index belong to processes that have a record
  let J (i : Nat) (x : Filled) : Prop := ∃ a b used rest procs, l = a ++ b ∧ a.length = i ∧
    x.1 = l.map (mark (procs.map Proc.ppuPid)) ∧ x.2.1 = used.length ∧ Has x.2.2 (used ++ rest) ∧
    used.map x.2.2.heap = procs.map some ∧ Groups l a procs ∧ (∀ p ∈ procs, procOf lib l p.ppuPid = p) ∧
    ∀ k, used.length ≤ k → x.2.2.heap (newRef k) = none
  have hinit : J 0 (l.map (mark []), 0, s) :=
    ⟨[], l, [], refs, [], rfl, rfl, rfl, rfl, h, rfl, ⟨List.nodup_nil, fun pid => Iff.rfl, nofun⟩, nofun,
      fun k _ => hfresh k⟩
  have hstep (i : Nat) (x : Filled) (_ : 0 ≤ i) (hi : i < 0 + (l.map (mark [])).length) (hJ : J i x) :
      ∃ x', addProc lib newRef x i = some x' ∧ J (i + 1) x' := by
    obtain ⟨ctxs, procIdx, s⟩ := x
    obtain ⟨a, b, used, rest, procs, hab, hlen, hctxs, hidx, hhas, hrecs, hgroups, hprocs, hfresh⟩ := hJ
    obtain rfl : ctxs = l.map (mark (procs.map Proc.ppuPid)) := hctxs
    obtain rfl : procIdx = used.length := hidx
    obtain rfl := hlen
    have hb : 0 < b.length := by
      have hlength := congrArg List.length hab
      rw [List.length_append] at hlength
      rw [List.length_map] at hi
      omega
    obtain ⟨c, b, rfl⟩ := List.exists_cons_of_length_pos hb
    have hc : (l.map (mark (procs.map Proc.ppuPid)))[a.length]? = some (mark (procs.map Proc.ppuPid) c) := by
      rw [hab]
      simp
    have hab' : l = (a ++ [c]) ++ b := by
      rw [hab]
      simp
    show ∃ x', Option.bind _ _ = some x' ∧ _
    rw [hc]
    show ∃ x', (if (mark (procs.map Proc.ppuPid) c).updated then _ else _) = some x' ∧ _
    by_cases hmem : c.ppuPid ∈ procs.map Proc.ppuPid
    · have hupdated : (mark (procs.map Proc.ppuPid) c).updated = true := decide_eq_true hmem
      rw [if_pos hupdated]
      exact ⟨_, rfl, a ++ [c], b, used, rest, procs, hab', by simp, rfl, rfl, hhas, hrecs, hgroups.skip hmem, hprocs,
        hfresh⟩
    · obtain ⟨s₁, r, rest', hentry, hhas₁, hheap₁, hother, hrest'⟩ :=
        entry_spec hhas (hfresh used.length (Nat.le_refl _)) (mark (procs.map Proc.ppuPid) c)
      have hbefore : ∀ b ∈ a, b.ppuPid ≠ c.ppuPid := by
        intro b hb heq
        exact hmem ((hgroups.pids _).mpr (List.mem_map.mpr ⟨b, hb, heq⟩))
      have hr : r ∈ used ++ r :: rest' := by simp
      have hderef : s₁.table.deref used.length = some r := by
        rw [hhas₁.table.deref (by simp)]
        simp
      have hadd := addThreads_spec lib (procs.map Proc.ppuPid) (p := c.begin) hab hbefore hderef hheap₁
      have hpid : (c.begin.addAll lib (ofPid c.ppuPid l)).ppuPid = c.ppuPid := (addAll_spec ..).1
      rw [if_neg (by simpa [mark] using hmem)]
      refine ⟨(l.map (mark (c.ppuPid :: procs.map Proc.ppuPid)), used.length + 1, { s₁ with
        heap := Function.update s₁.heap r (some (c.begin.addAll lib (ofPid c.ppuPid l))) }), ?_,
        a ++ [c], b, used ++ [r], rest', procs ++ [c.begin.addAll lib (ofPid c.ppuPid l)], hab', by simp, ?_, by simp,
        ?_, ?_, hgroups.concat hmem, ?_, ?_⟩
      · show Option.bind (s.entry used.length (newRef used.length) _) _ = _
        rw [hentry]
        show Option.bind (s₁.addThreads lib a.length used.length _) _ = _
        rw [hadd]
        rfl
      · have hpids (pid : Int32) : pid ∈ c.ppuPid :: procs.map Proc.ppuPid ↔
            pid ∈ (procs ++ [c.begin.addAll lib (ofPid c.ppuPid l)]).map Proc.ppuPid := by
          simp [hpid, or_comm]
        rw [mark_congr hpids]
      · rw [List.append_assoc]
        exact hhas₁.update hr _
      · have hsame : used.map (Function.update s₁.heap r (some (c.begin.addAll lib (ofPid c.ppuPid l)))) =
            used.map s.heap := by
          apply List.map_congr_left
          intro r' hr'
          exact (update_of_ne (hhas₁.ne hr') ..).trans (hother r' hr')
        rw [List.map_append, hsame, hrecs]
        simp
      · intro p hp
        rcases List.mem_append.mp hp with hp | hp
        · exact hprocs p hp
        · rw [List.mem_singleton.mp hp, hpid]
          exact procOf_first hab hbefore
      · intro k hk
        have hk : used.length + 1 ≤ k := by simpa using hk
        have hnone := hhas.eq_none_iff.mp (hfresh k (Nat.le_of_lt hk))
        apply (hhas₁.update hr _).eq_none_iff.mpr
        intro hmem
        rcases List.mem_append.mp hmem with hmem | hmem
        · exact hnone (List.mem_append_left rest hmem)
        · rcases hrest' _ hmem with heq | hmem
          · exact absurd (hinj heq) (Nat.ne_of_gt hk)
          · exact hnone (List.mem_append_right used hmem)
  obtain ⟨⟨ctxs, procIdx, s'⟩, hrun, a, b, used, rest, procs, hab, hlen, hctxs, hidx, hhas, hrecs, hgroups,
    hprocs, -⟩ := loop_rule J hinit hstep
  obtain rfl : b = [] := by
    have hlength := congrArg List.length hab
    rw [List.length_append] at hlength
    rw [List.length_map] at hlen
    exact List.eq_nil_of_length_eq_zero (by omega)
  obtain rfl : l = a := by simpa using hab
  obtain rfl : ctxs = l.map (mark (procs.map Proc.ppuPid)) := hctxs
  obtain rfl : procIdx = used.length := hidx
  exact ⟨s', used, rest, procs, hrun, hhas, hrecs, hgroups, hprocs⟩

/-- A null pointer behind the last entry. -/
structure Terminated (s : Procs) : Prop where
  null : s.table.slots s.table.n = none
  room : s.table.n < s.table.capacity

theorem Has.perm (h : Has s refs) {table : Growable Ref} {refs' : List Ref} (hperm : refs'.Perm refs)
    (htable : table.Holds refs') : Has { s with table } refs' :=
  ⟨htable, hperm.nodup_iff.mpr h.nodup, fun r => (h.live r).trans hperm.mem_iff.symm⟩

/-- The records are sorted, if `qsort` accepts them. -/
theorem sort_spec (lib : Libc) (h : Has s refs) (hnull : Terminated s) {procs : List Proc}
    (hrecs : refs.map s.heap = procs.map some) (field : ProcField) (descending : Bool) :
    (Accepts (procsCompare lib field descending) procs ∧ ∃ s' refs', s.sort lib field descending = some s' ∧
        refs'.Perm refs ∧ Has s' refs' ∧ Terminated s' ∧ s'.heap = s.heap) ∨
      ¬Accepts (procsCompare lib field descending) procs ∧ s.sort lib field descending = none := by
  have hall : refs.all (fun r => (s.heap r).isSome) = true :=
    List.all_eq_true.mpr fun r hr => (h.live r).mpr hr
  have hprocs : procs = refs.map fun r => (s.heap r).getD .zero := by
    have hmap : refs.map (fun r => (s.heap r).getD .zero) = (refs.map s.heap).map fun o => o.getD .zero := by
      rw [List.map_map]
      rfl
    rw [hmap, hrecs, List.map_map]
    exact (List.map_id'' (fun p => rfl) procs).symm
  have hsort : s.sort lib field descending = (s.table.rearrange (lib.sort fun r1 r2 =>
      procsCompare lib field descending ((s.heap r1).getD .zero) ((s.heap r2).getD .zero))).bind fun table =>
        some { s with table } := by
    unfold Procs.sort
    rw [h.table.elements]
    show (if refs.all _ then _ else _) = _
    rw [if_pos hall]
    rfl
  rw [hsort, hprocs, accepts_map]
  by_cases haccepts : Accepts (fun r1 r2 =>
      procsCompare lib field descending ((s.heap r1).getD .zero) ((s.heap r2).getD .zero)) refs
  · obtain ⟨refs', hrefs', hperm⟩ := lib.sort_accepts haccepts
    obtain ⟨table, htable, hholds, hn, hcap, hslots⟩ := h.table.rearrange hrefs' hperm
    refine .inl ⟨haccepts, { s with table }, refs', ?_, hperm, h.perm hperm hholds, ⟨?_, ?_⟩, rfl⟩
    · rw [htable]
      rfl
    · show table.slots table.n = none
      rw [hn, hslots _ (Nat.le_refl _)]
      exact hnull.null
    · show table.n < table.capacity
      rw [hn, hcap]
      exact hnull.room
  · refine .inr ⟨haccepts, ?_⟩
    rw [h.table.rearrange_none (lib.sort_eq_none haccepts)]
    rfl

/-- **What the array shows** of the contexts: a record for each process, and a null pointer behind the last. -/
structure Shows (s : Procs) (refs : List Ref) (procs : List Proc) (l : List Ctx) : Prop where
  has : Has s refs
  terminated : Terminated s
  records : refs.map s.heap = procs.map some
  groups : Groups l l procs

theorem Groups.perm {a : List Ctx} {procs procs' : List Proc} (h : Groups l a procs) (hperm : procs'.Perm procs) :
    Groups l a procs' := by
  have hpids := hperm.map Proc.ppuPid
  exact ⟨hpids.nodup_iff.mpr h.nodup, fun pid => hpids.mem_iff.trans (h.pids pid),
    fun p hp => h.sums p (hperm.mem_iff.mp hp)⟩

/-- The records in the order of their entries. -/
theorem exists_records {procs : List Proc} (hperm : refs.Perm used) (hrecs : used.map s.heap = procs.map some) :
    ∃ procs' : List Proc, refs.map s.heap = procs'.map some ∧ procs'.Perm procs := by
  have hsome : ∀ r ∈ used, s.heap r = some ((s.heap r).getD .zero) := by
    intro r hr
    have hmem : s.heap r ∈ procs.map some := hrecs ▸ List.mem_map_of_mem hr
    obtain ⟨p, -, hp⟩ := List.mem_map.mp hmem
    rw [← hp]
    rfl
  have hprocs : procs = used.map fun r => (s.heap r).getD .zero := by
    apply List.map_injective_iff.mpr (Option.some_injective Proc)
    rw [← hrecs, List.map_map]
    exact List.map_congr_left hsome
  refine ⟨refs.map fun r => (s.heap r).getD .zero, ?_, ?_⟩
  · rw [List.map_map]
    exact List.map_congr_left fun r hr => hsome r (hperm.mem_iff.mp hr)
  · rw [hprocs]
    exact hperm.map _

/-- The records are those of the processes, in some order. -/
theorem Groups.perm_procsOf {procs : List Proc} (h : Groups l l procs)
    (hprocs : ∀ p ∈ procs, procOf lib l p.ppuPid = p) : procs.Perm (procsOf lib l) := by
  have hpids : (procs.map Proc.ppuPid).Perm (l.map Ctx.ppuPid).dedup :=
    (List.perm_ext_iff_of_nodup h.nodup (List.nodup_dedup _)).mpr fun pid =>
      (h.pids pid).trans List.mem_dedup.symm
  have hmap : (procs.map Proc.ppuPid).map (procOf lib l) = procs := by
    rw [List.map_map]
    exact (List.map_congr_left hprocs).trans (List.map_id procs)
  rw [← hmap]
  exact hpids.map (procOf lib l)

theorem mark_nil : mark [] c = { c with updated := false } := by
  unfold mark
  simp

/-- Every context has been marked. -/
theorem Groups.map_mark {procs : List Proc} (h : Groups l l procs) :
    l.map (mark (procs.map Proc.ppuPid)) = l.map fun c => { c with updated := true } := by
  apply List.map_congr_left
  intro c hc
  have hmem : c.ppuPid ∈ procs.map Proc.ppuPid := (h.pids _).mpr (List.mem_map_of_mem hc)
  unfold mark
  rw [decide_eq_true hmem]

/-- What `malloc` answers are addresses of their own. -/
structure Fresh (newRef : Nat → Ref) (s : Procs) : Prop where
  inj : Injective newRef
  free : ∀ k, s.heap (newRef k) = none

/-- **A call** leads to an array that shows the contexts, or has no result because it cannot sort it. -/
theorem getProcs_spec (lib : Libc) (h : Has s refs) (hfresh : Fresh newRef s) (field : ProcField) (descending : Bool)
    (l : List Ctx) :
    (Accepts (procsCompare lib field descending) (procsOf lib l) ∧
        ∃ s' refs' procs, getProcs lib field descending newRef (some l) s =
          some (some (l.map fun c => { c with updated := true }), s') ∧ Shows s' refs' procs l) ∨
      ¬Accepts (procsCompare lib field descending) (procsOf lib l) ∧
        getProcs lib field descending newRef (some l) s = none := by
  obtain ⟨s₁, used, rest, procs, hfill, hhas₁, hrecs₁, hgroups, hprocs⟩ := fill_spec lib l h hfresh.free hfresh.inj
  obtain ⟨s₂, hfree, hhas₂, hheap₂⟩ := freeRest_spec hhas₁
  obtain ⟨table, htable, hholds, hnull, hroom, -⟩ := hhas₂.table.terminate (show 0 < defaultCapacity by decide)
  have hrecs₂ : used.map s₂.heap = procs.map some := by
    rw [← hrecs₁]
    exact List.map_congr_left hheap₂
  have hperm := hgroups.perm_procsOf hprocs
  have hclear : (l.map fun c => { c with updated := false }) = l.map (mark []) :=
    List.map_congr_left fun c _ => mark_nil.symm
  have hcall : getProcs lib field descending newRef (some l) s =
      (Procs.sort { s₂ with table } lib field descending).bind fun s =>
        some (some (l.map fun c => { c with updated := true }), s) := by
    unfold Growable.terminate at htable
    rw [hhas₂.table.n] at htable
    show Option.bind (s.fill lib newRef (l.map fun c => { c with updated := false })) _ = _
    rw [hclear, hfill]
    show Option.bind (s₁.freeRest used.length) _ = _
    rw [hfree]
    show Option.bind (Growable.write _ used.length none) _ = _
    rw [htable, hgroups.map_mark]
    rfl
  rw [hcall]
  obtain ⟨haccepts, s', refs', hsort, hrefs', hhas', hterminated, hheap'⟩ | ⟨haccepts, hsort⟩ :=
    sort_spec lib (hhas₂.perm (.refl _) hholds) ⟨hnull, hroom⟩ hrecs₂ field descending
  · obtain ⟨procs', hrecs', hprocs'⟩ := exists_records hrefs' hrecs₂
    refine .inl ⟨haccepts.perm hperm.symm, s', refs', procs', ?_, hhas', hterminated, hheap' ▸ hrecs',
      hgroups.perm hprocs'⟩
    rw [hsort]
    rfl
  · refine .inr ⟨fun h => haccepts (h.perm hperm), ?_⟩
    rw [hsort]
    rfl

/-- The states that calls lead to. The first one allocates the array, whose slots may hold anything. -/
inductive Reached (lib : Libc) : Procs → Prop
  | start (slots : Nat → Option Ref) : Reached lib ⟨⟨slots, 0, 0⟩, fun _ => none⟩
  | call {s s' : Procs} {newRef : Nat → Ref} {field : ProcField} {descending : Bool} {ctxs shown : Option (List Ctx)}
      (h : Reached lib s) (hfresh : Fresh newRef s)
      (hcall : getProcs lib field descending newRef ctxs s = some (shown, s')) : Reached lib s'

/-- Between two calls, the array has the records that are allocated. -/
theorem Reached.has (h : Reached lib s) : ∃ refs, Has s refs := by
  induction h with
  | start slots => exact ⟨[], ⟨rfl, Nat.le_refl 0, nofun⟩, List.nodup_nil, fun r => ⟨nofun, nofun⟩⟩
  | @call s s' newRef field descending ctxs shown _ hfresh hcall ih =>
    cases ctxs with
    | none =>
      cases hcall
      exact ih
    | some ctxs =>
      obtain ⟨refs, hhas⟩ := ih
      obtain ⟨-, s₁, refs', procs, hrun, hshows⟩ | ⟨-, hrun⟩ := getProcs_spec lib hhas hfresh field descending ctxs
      · rw [hrun] at hcall
        cases hcall
        exact ⟨refs', hshows.has⟩
      · rw [hrun] at hcall
        cases hcall

/-- **The processes of a list of contexts**, whatever the calls before have left: the array has a record for each if and
only if `qsort` accepts these records. -/
theorem get_procs_sums (h : Reached lib s) (hfresh : Fresh newRef s) (field : ProcField) (descending : Bool)
    (ctxs : List Ctx) :
    (∃ s' refs procs,
      getProcs lib field descending newRef (some ctxs) s =
        some (some (ctxs.map fun c => { c with updated := true }), s') ∧
      Shows s' refs procs ctxs ∧
      (ctxs.length < 2 ^ 31 → ∀ p ∈ procs, p.nThreads.toInt = (ofPid p.ppuPid ctxs).length)) ↔
      Accepts (procsCompare lib field descending) (procsOf lib ctxs) := by
  obtain ⟨refs, hhas⟩ := h.has
  obtain ⟨haccepts, s', refs', procs, hrun, hshows⟩ | ⟨haccepts, hrun⟩ :=
    getProcs_spec lib hhas hfresh field descending ctxs
  · refine iff_of_true ⟨s', refs', procs, hrun, hshows, fun hlt p hp => ?_⟩ haccepts
    have hle : (ofPid p.ppuPid ctxs).length ≤ ctxs.length := List.length_filter_le ..
    rw [(hshows.groups.sums p hp).nThreads, Int32.toInt_ofNat_of_lt (by omega)]
  · refine iff_of_false ?_ haccepts
    rintro ⟨s', refs', procs, hsome, -⟩
    rw [hrun] at hsome
    cases hsome

/-- Three contexts of two processes, in the first call. -/
theorem get_procs_sums_three : ∃ s' refs procs,
    getProcs .plain .ppuPid false id (some [.ofTime 2, { Ctx.ofTime 3 with ppuPid := 7 }, .ofTime 5])
        ⟨⟨fun _ => none, 0, 0⟩, fun _ => none⟩ =
      some (some [.ofTime 2, { Ctx.ofTime 3 with ppuPid := 7 }, .ofTime 5], s') ∧
    Shows s' refs procs [.ofTime 2, { Ctx.ofTime 3 with ppuPid := 7 }, .ofTime 5] ∧
    (3 < 2 ^ 31 → ∀ p ∈ procs, p.nThreads.toInt =
      (ofPid p.ppuPid [.ofTime 2, { Ctx.ofTime 3 with ppuPid := 7 }, .ofTime 5]).length) :=
  (get_procs_sums (.start fun _ => none) ⟨injective_id, fun _ => rfl⟩ .ppuPid false
    [.ofTime 2, { Ctx.ofTime 3 with ppuPid := 7 }, .ofTime 5]).mpr (by decide)

/-- Two processes whose user is not known are sorted by the user. -/
theorem get_procs_null : ¬∃ s' refs procs,
    getProcs .plain .user false id (some [.ofTime 2, { Ctx.ofTime 3 with ppuPid := 7 }])
        ⟨⟨fun _ => none, 0, 0⟩, fun _ => none⟩ =
      some (some [.ofTime 2, { Ctx.ofTime 3 with ppuPid := 7 }], s') ∧
    Shows s' refs procs [.ofTime 2, { Ctx.ofTime 3 with ppuPid := 7 }] := by
  have hstart : Has ⟨⟨fun _ => none, 0, 0⟩, fun _ => none⟩ [] :=
    ⟨⟨rfl, Nat.le_refl 0, nofun⟩, List.nodup_nil, fun r => ⟨nofun, nofun⟩⟩
  have hnull : ¬Accepts (procsCompare .plain .user false)
      (procsOf .plain [.ofTime 2, { Ctx.ofTime 3 with ppuPid := 7 }]) := by decide
  have hfresh : Fresh id ⟨⟨fun _ => none, 0, 0⟩, fun _ => none⟩ := ⟨injective_id, fun _ => rfl⟩
  obtain ⟨haccepts, -⟩ | ⟨-, hrun⟩ := getProcs_spec .plain hstart hfresh .user false
    [.ofTime 2, { Ctx.ofTime 3 with ppuPid := 7 }]
  · exact absurd haccepts hnull
  · rintro ⟨s', refs, procs, hsome, -⟩
    rw [hrun] at hsome
    cases hsome

end LibSpe2.SpuTools
