import LibSpe2.SpeBase.Run
import Mathlib.Data.Fintype.Basic
import Mathlib.Logic.Function.Basic

/-!
# The table of library callbacks (`spebase/lib_builtin.c`)

A stop-and-signal `0x21nn` asks for the host function at `nn` in a table of 256, which a program fills by three
calls. The functions for C99, POSIX.1 and the effective-address calls are there from the start.

* `Handlers`, `Call.run`, `handleLibraryCallback` — the table, the calls on it and its use by a run.
* `Map`, `Call.Succeeds`, `Call.effect` — a partial function on all numbers, and what the calls are for.
* `Refines` — the table after a call against the partial function after it.

Main results:
* `run_refines` — every call refines its effect.
* `reserved_kept` — a reserved number keeps its place filled, or empty.
-/

namespace LibSpe2.Callback

open Run (Context has)

/-! ## The table -/

def maxCallnum : UInt32 := 255
def reserved : UInt32 := 4

def speCallbackNew : UInt32 := 1
def speCallbackUpdate : UInt32 := 2

def eacces : Int := 13
def einval : Int := 22
def esrch : Int := 3
def enosys : Int := 38

/-- A function of the host: one of the default handlers, or one of the program. -/
inductive Handler (U : Type) where
  | c99 | posix1 | libea
  | user (f : U)
  deriving DecidableEq

variable {U : Type}

/-- `handlers`; `none` is `NULL`. -/
abbrev Handlers (U : Type) := Fin 256 → Option (Handler U)

/-- The place of a number that is at most `MAX_CALLNUM`. -/
def place (callnum : UInt32) : Fin 256 := Fin.ofNat 256 callnum.toNat

/-- `HANDLER_IDX`. -/
def handlerIdx (x : UInt32) : Fin 256 := place (x &&& 0xff)

def speC99Class : UInt32 := 0x2100
def spePosix1Class : UInt32 := 0x2101
def speLibeaClass : UInt32 := 0x2105

/-- The default handlers. -/
def initial : Handlers U := fun i =>
  if i = handlerIdx speC99Class then some .c99
  else if i = handlerIdx spePosix1Class then some .posix1
  else if i = handlerIdx speLibeaClass then some .libea
  else none

/-- What a call returns, a number or a pointer, and `errno`. -/
inductive Reply (U : Type) where
  | int (rc errno : Int)
  | pointer (p : Option (Handler U)) (errno : Int)

/-- `_base_spe_callback_handler_register`. -/
def callbackHandlerRegister (handlers : Handlers U) (handler : Option (Handler U)) (callnum mode : UInt32) :
    Reply U × Handlers U :=
  if callnum > maxCallnum then (.int (-1) einval, handlers)
  else if mode = speCallbackNew then
    if callnum < reserved then (.int (-1) eacces, handlers)
    else if handlers (place callnum) ≠ none then (.int (-1) eacces, handlers)
    else if handler = none then (.int (-1) einval, handlers)
    else (.int 0 0, Function.update handlers (place callnum) handler)
  else if mode = speCallbackUpdate then
    if handlers (place callnum) = none then (.int (-1) esrch, handlers)
    else if handler = none then (.int (-1) einval, handlers)
    else (.int 0 0, Function.update handlers (place callnum) handler)
  else (.int (-1) einval, handlers)

/-- `_base_spe_callback_handler_deregister`. -/
def callbackHandlerDeregister (handlers : Handlers U) (callnum : UInt32) : Reply U × Handlers U :=
  if callnum > maxCallnum then (.int (-1) einval, handlers)
  else if callnum < reserved then (.int (-1) eacces, handlers)
  else if handlers (place callnum) = none then (.int (-1) esrch, handlers)
  else (.int 0 0, Function.update handlers (place callnum) none)

/-- `_base_spe_callback_handler_query`. -/
def callbackHandlerQuery (handlers : Handlers U) (callnum : UInt32) : Reply U :=
  if callnum > maxCallnum then .pointer none einval
  else if handlers (place callnum) = none then .pointer none esrch
  else .pointer (handlers (place callnum)) 0

def speEmulateParamBuffer : UInt32 := 0x3e000

/-- A function that is called, with its arguments. -/
structure Invocation (U : Type) where
  handler : Handler U
  memMmapBase : UInt64
  npc : UInt32

/-- What `_base_spe_handle_library_callback` does: the function that it calls, its result, and `errno` if it
sets it last. -/
structure Served (U : Type) where
  invoked : Option (Invocation U)
  rc : Int
  errno : Option Int

/-- `_base_spe_handle_library_callback`, if the function that it calls returns `rc`. -/
def handleLibraryCallback (handlers : Handlers U) (spe : Context) (callnum npc : UInt32) (rc : Int) :
    Served U :=
  match handlers (place callnum) with
  | none => ⟨none, -1, some enosys⟩
  | some handler =>
    -- in emulated isolation, the parameters of the call are in a buffer
    let npc := if has spe.flags speIsolateEmulate then speEmulateParamBuffer else npc
    let invoked := some ⟨handler, spe.memMmapBase, npc⟩
    if rc ≠ 0 then ⟨invoked, rc, some enosys⟩ else ⟨invoked, 0, none⟩

/-! ## The calls of a program -/

inductive Call (U : Type) where
  | register (handler : Option (Handler U)) (callnum mode : UInt32)
  | deregister (callnum : UInt32)
  | query (callnum : UInt32)

def Call.run (handlers : Handlers U) : Call U → Reply U × Handlers U
  | register handler callnum mode => callbackHandlerRegister handlers handler callnum mode
  | deregister callnum => callbackHandlerDeregister handlers callnum
  | query callnum => (callbackHandlerQuery handlers callnum, handlers)

/-- The call was successful. -/
def Reply.ok : Reply U → Bool
  | int rc _ => rc = 0
  | pointer p _ => p.isSome

def Reply.errno : Reply U → Int
  | int _ errno | pointer _ errno => errno

/-! ## Partial functions -/

/-- The function that is registered for each number. -/
abbrev Map (U : Type) := UInt32 → Option (Handler U)

/-- The table as such a function. -/
def toMap (handlers : Handlers U) : Map U := fun n => if n ≤ maxCallnum then handlers (place n) else none

/-- When a call is to succeed. -/
def Call.Succeeds (m : Map U) : Call U → Prop
  | register handler n mode => handler ≠ none ∧
      (mode = speCallbackNew ∧ m n = none ∧ reserved ≤ n ∧ n ≤ maxCallnum ∨
        mode = speCallbackUpdate ∧ m n ≠ none)
  | deregister n => reserved ≤ n ∧ m n ≠ none
  | query n => m n ≠ none

/-- What a call that succeeds does. -/
def Call.effect (m : Map U) : Call U → Map U
  | register handler n _ => Function.update m n handler
  | deregister n => Function.update m n none
  | query _ => m

/-- The number that a call is about. -/
def Call.callnum : Call U → UInt32
  | register _ n _ | deregister n | query n => n

/-- **Refinement**: a call succeeds when it should, with its effect; one that fails changes nothing and sets
`errno`. -/
structure Refines (handlers : Handlers U) (c : Call U) : Prop where
  ok_iff : (c.run handlers).1.ok = true ↔ c.Succeeds (toMap handlers)
  effect : (c.run handlers).1.ok = true → toMap (c.run handlers).2 = c.effect (toMap handlers)
  own : ∀ i, i.val ≠ c.callnum.toNat → (c.run handlers).2 i = handlers i
  failed : (c.run handlers).1.ok = false → (c.run handlers).2 = handlers
  errno : (c.run handlers).1.errno = 0 ↔ (c.run handlers).1.ok = true
  answer : ∀ n p e, c = .query n → (c.run handlers).1 = .pointer p e → p = toMap handlers n

/-! ## Places -/

section

variable {n m : UInt32} {handlers : Handlers U} {handler : Option (Handler U)}

theorem place_val (h : n ≤ maxCallnum) : (place n).val = n.toNat := by
  have hlt : n.toNat ≤ 255 := UInt32.le_iff_toNat_le.mp h
  show n.toNat % 256 = n.toNat
  omega

/-- Numbers of the table have places of their own. -/
theorem place_inj (hn : n ≤ maxCallnum) (hm : m ≤ maxCallnum) : place n = place m ↔ n = m := by
  rw [← Fin.val_inj, place_val hn, place_val hm, UInt32.toNat_inj]

theorem not_gt_maxCallnum (h : ¬n > maxCallnum) : n ≤ maxCallnum := UInt32.not_lt.mp h

theorem toMap_of_le (h : n ≤ maxCallnum) : toMap handlers n = handlers (place n) := if_pos h

theorem toMap_of_gt (h : n > maxCallnum) : toMap handlers n = none := if_neg (UInt32.not_le.mpr h)

/-- A store to the table. -/
theorem toMap_update (hn : n ≤ maxCallnum) :
    toMap (Function.update handlers (place n) handler) = Function.update (toMap handlers) n handler := by
  funext m
  by_cases hm : m ≤ maxCallnum
  · rw [toMap_of_le hm]
    by_cases hmn : m = n
    · rw [hmn, Function.update_self, Function.update_self]
    · have hplace : place m ≠ place n := (place_inj hm hn).not.mpr hmn
      rw [Function.update_of_ne hplace, Function.update_of_ne hmn, toMap_of_le hm]
  · have hmn : m ≠ n := fun h => hm (h ▸ hn)
    rw [Function.update_of_ne hmn, toMap, toMap, if_neg hm, if_neg hm]

theorem update_own (hn : n ≤ maxCallnum) {i : Fin 256} (hi : i.val ≠ n.toNat) :
    Function.update handlers (place n) handler i = handlers i := by
  apply Function.update_of_ne
  intro h
  exact hi (by rw [h, place_val hn])

end

/-! ## The calls -/

/-- What a call can do: fail, or have its effect. -/
inductive Outcome (handlers : Handlers U) (c : Call U) : Reply U × Handlers U → Prop
  | failed (hfails : ¬c.Succeeds (toMap handlers)) {reply : Reply U} (hok : reply.ok = false)
      (herrno : reply.errno ≠ 0) : Outcome handlers c (reply, handlers)
  | done (hsucceeds : c.Succeeds (toMap handlers)) {reply : Reply U} {handlers' : Handlers U}
      (hok : reply.ok = true) (herrno : reply.errno = 0) (heffect : toMap handlers' = c.effect (toMap handlers))
      (hown : ∀ i, i.val ≠ c.callnum.toNat → handlers' i = handlers i) : Outcome handlers c (reply, handlers')

section

variable {handlers : Handlers U}

/-- A function is stored for a number of the table. -/
theorem Outcome.stored {c : Call U} {n : UInt32} {handler : Option (Handler U)} (hn : n ≤ maxCallnum)
    (hc : c.callnum = n) (heffect : c.effect (toMap handlers) = Function.update (toMap handlers) n handler)
    (hsucceeds : c.Succeeds (toMap handlers)) :
    Outcome handlers c (.int 0 0, Function.update handlers (place n) handler) := by
  apply Outcome.done hsucceeds rfl rfl
  · rw [heffect, toMap_update hn]
  · intro i hi
    rw [hc] at hi
    exact update_own hn hi

theorem register_outcome (handler : Option (Handler U)) (n mode : UInt32) :
    Outcome handlers (.register handler n mode) ((Call.register handler n mode).run handlers) := by
  unfold Call.run callbackHandlerRegister
  dsimp only
  have hfail {e : Int} (he : e ≠ 0) (hfails : ¬(Call.register handler n mode).Succeeds (toMap handlers)) :
      Outcome handlers (.register handler n mode) (.int (-1) e, handlers) :=
    .failed hfails rfl he
  split
  · next hn =>
    apply hfail (by decide)
    intro ⟨_, h⟩
    rcases h with ⟨_, _, _, hle⟩ | ⟨_, hne⟩
    · exact absurd hle (UInt32.not_le.mpr hn)
    · exact hne (toMap_of_gt hn)
  next hn =>
  have hle := not_gt_maxCallnum hn
  split
  · next hnew =>
    subst hnew
    have hmode : speCallbackNew ≠ speCallbackUpdate := by decide
    split
    · next hres =>
      apply hfail (by decide)
      intro ⟨_, h⟩
      rcases h with ⟨_, _, hge, _⟩ | ⟨h, _⟩
      · exact absurd hres (UInt32.not_lt.mpr hge)
      · exact hmode h
    next hres =>
    split
    · next hfull =>
      apply hfail (by decide)
      intro ⟨_, h⟩
      rcases h with ⟨_, hempty, _⟩ | ⟨h, _⟩
      · exact hfull ((toMap_of_le hle).symm.trans hempty)
      · exact hmode h
    next hempty =>
    split
    · next hnull => exact hfail (by decide) fun h => h.1 hnull
    next hnull =>
    refine .stored hle rfl rfl ⟨hnull, .inl ⟨rfl, ?_, UInt32.not_lt.mp hres, hle⟩⟩
    rw [toMap_of_le hle]
    exact not_not.mp hempty
  next hnew =>
  split
  · next hupdate =>
    split
    · next hempty =>
      apply hfail (by decide)
      intro ⟨_, h⟩
      rcases h with ⟨h, _⟩ | ⟨_, hne⟩
      · exact hnew h
      · exact hne ((toMap_of_le hle).trans hempty)
    next hfull =>
    split
    · next hnull => exact hfail (by decide) fun h => h.1 hnull
    next hnull =>
    refine .stored hle rfl rfl ⟨hnull, .inr ⟨hupdate, ?_⟩⟩
    rw [toMap_of_le hle]
    exact hfull
  next hupdate =>
  apply hfail (by decide)
  intro ⟨_, h⟩
  rcases h with ⟨h, _⟩ | ⟨h, _⟩
  · exact hnew h
  · exact hupdate h

theorem deregister_outcome (n : UInt32) :
    Outcome handlers (.deregister n) ((Call.deregister n).run handlers) := by
  unfold Call.run callbackHandlerDeregister
  dsimp only
  have hfail {e : Int} (he : e ≠ 0) (hfails : ¬(Call.deregister n).Succeeds (toMap handlers)) :
      Outcome handlers (.deregister n) (.int (-1) e, handlers) :=
    .failed hfails rfl he
  split
  · next hn => exact hfail (by decide) fun h => h.2 (toMap_of_gt hn)
  next hn =>
  have hle := not_gt_maxCallnum hn
  split
  · next hres => exact hfail (by decide) fun h => absurd hres (UInt32.not_lt.mpr h.1)
  next hres =>
  split
  · next hempty => exact hfail (by decide) fun h => h.2 ((toMap_of_le hle).trans hempty)
  next hfull =>
  refine .stored hle rfl rfl ⟨UInt32.not_lt.mp hres, ?_⟩
  rw [toMap_of_le hle]
  exact hfull

/-- A query returns what is registered. -/
theorem query_eq (handlers : Handlers U) (n : UInt32) :
    ∃ e, callbackHandlerQuery handlers n = .pointer (toMap handlers n) e ∧
    (e = 0 ↔ toMap handlers n ≠ none) := by
  unfold callbackHandlerQuery
  split
  · next hn => exact ⟨einval, by rw [toMap_of_gt hn], by simp [toMap_of_gt hn, einval]⟩
  next hn =>
  rw [toMap_of_le (not_gt_maxCallnum hn)]
  split
  · next hempty => exact ⟨esrch, by rw [hempty], by simp [hempty, esrch]⟩
  · next hfull => exact ⟨0, rfl, by simp [hfull]⟩

theorem query_outcome (n : UInt32) : Outcome handlers (.query n) ((Call.query n).run handlers) := by
  obtain ⟨e, heq, he⟩ := query_eq handlers n
  show Outcome handlers (.query n) (callbackHandlerQuery handlers n, handlers)
  rw [heq]
  by_cases hempty : toMap handlers n = none
  · have hfails : ¬(Call.query n).Succeeds (toMap handlers) := fun h => h hempty
    apply Outcome.failed hfails
    · rw [hempty]
      rfl
    · exact fun h => he.mp h hempty
  · have hsucceeds : (Call.query n).Succeeds (toMap handlers) := hempty
    apply Outcome.done hsucceeds
    · exact Option.isSome_iff_ne_none.mpr hempty
    · exact he.mpr hempty
    · rfl
    · exact fun _ _ => rfl

theorem call_outcome (handlers : Handlers U) (c : Call U) : Outcome handlers c (c.run handlers) := by
  cases c with
  | register handler n mode => exact register_outcome handler n mode
  | deregister n => exact deregister_outcome n
  | query n => exact query_outcome n

/-- **The calls refine their effects**. -/
theorem run_refines (handlers : Handlers U) (c : Call U) : Refines handlers c := by
  have hanswer : ∀ n p e, c = .query n → (c.run handlers).1 = .pointer p e → p = toMap handlers n := by
    intro n p e hc hp
    subst hc
    obtain ⟨e', heq, -⟩ := query_eq handlers n
    have hpointer : Reply.pointer (toMap handlers n) e' = .pointer p e := heq.symm.trans hp
    exact (Reply.pointer.inj hpointer).1.symm
  have hout := call_outcome handlers c
  generalize hrun : c.run handlers = out at hout hanswer
  obtain ⟨hfails, hok, herrno⟩ | ⟨hsucceeds, hok, herrno, heffect, hown⟩ := hout
  · refine ⟨?_, ?_, ?_, ?_, ?_, ?_⟩ <;> rw [hrun]
    · exact iff_of_false (by simp [hok]) hfails
    · exact fun h => absurd h (by simp [hok])
    · exact fun _ _ => rfl
    · exact fun _ => rfl
    · exact iff_of_false herrno (by simp [hok])
    · exact hanswer
  · refine ⟨?_, ?_, ?_, ?_, ?_, ?_⟩ <;> rw [hrun]
    · exact iff_of_true hok hsucceeds
    · exact fun _ => heffect
    · exact hown
    · exact fun h => absurd h (by simp [hok])
    · exact iff_of_true herrno hok
    · exact hanswer

theorem effect_reserved {m : Map U} {c : Call U} {n : UInt32} (hn : n < reserved) (h : c.Succeeds m) :
    (c.effect m n).isSome = (m n).isSome := by
  have hne {k : UInt32} (hk : reserved ≤ k) : n ≠ k := fun heq => UInt32.not_lt.mpr hk (heq ▸ hn)
  cases c with
  | register handler k mode =>
    show (Function.update m k handler n).isSome = _
    obtain ⟨hhandler, ⟨_, _, hk, _⟩ | ⟨_, hfull⟩⟩ := h
    · rw [Function.update_of_ne (hne hk)]
    · by_cases hnk : n = k
      · subst hnk
        rw [Function.update_self, Option.isSome_iff_ne_none.mpr hhandler, Option.isSome_iff_ne_none.mpr hfull]
      · rw [Function.update_of_ne hnk]
  | deregister k =>
    show (Function.update m k none n).isSome = _
    rw [Function.update_of_ne (hne h.1)]
  | query k => rfl

/-- **Reserved numbers**: none is emptied, none is filled. -/
theorem reserved_kept (handlers : Handlers U) (c : Call U) {n : UInt32} (hn : n < reserved) :
    ((c.run handlers).2 (place n)).isSome = (handlers (place n)).isSome := by
  have hle : n ≤ maxCallnum := UInt32.le_trans (UInt32.le_of_lt hn) (by decide)
  have hmap (handlers : Handlers U) : toMap handlers n = handlers (place n) := toMap_of_le hle
  rw [← hmap handlers, ← hmap (c.run handlers).2]
  cases hok : (c.run handlers).1.ok with
  | false => rw [(run_refines handlers c).failed hok]
  | true =>
    rw [(run_refines handlers c).effect hok]
    exact effect_reserved hn ((run_refines handlers c).ok_iff.mp hok)

end

end LibSpe2.Callback
