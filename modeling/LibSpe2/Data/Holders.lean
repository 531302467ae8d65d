import Mathlib.Data.List.Nodup
import Mathlib.Data.List.Perm.Basic
import Mathlib.Logic.Function.Basic

/-!
# Who holds what

Threads acquire resources one by one, make objects of what they have in hand, take objects apart again and release
the parts. A `Ledger` has the holder of every resource; `Sound` says that a thread holds what it has in hand, and
a live object what it is made of, and nobody anything else.

`acquire`, `release`, `publish` and `giveUp` are the four things that can happen, each with the lemma that the ledger
stays sound. As a resource has one holder, a sound ledger has no resource twice: what a thread has in hand can be
released once, and an object shares nothing with another one.
-/

variable {R T O : Type}

/-- Who has a resource. -/
inductive Holder (T O : Type) where
  | thread (t : T)
  | object (o : O)
  deriving DecidableEq

structure Ledger (R T O : Type) where
  holder : R → Option (Holder T O)
  /-- The objects that there are. -/
  live : List O

namespace Ledger

/-- Nothing is held. -/
def empty : Ledger R T O := ⟨fun _ => none, []⟩

section

variable [DecidableEq R]

def acquire (x : Ledger R T O) (t : T) (r : R) : Ledger R T O :=
  { x with holder := Function.update x.holder r (some (.thread t)) }

def release (x : Ledger R T O) (r : R) : Ledger R T O := { x with holder := Function.update x.holder r none }

/-- The resources of a list get a holder. -/
def assign (x : Ledger R T O) (rs : List R) (h : Holder T O) : Ledger R T O :=
  { x with holder := fun r => if r ∈ rs then some h else x.holder r }

/-- A thread makes an object of `owned o`. -/
def publish (x : Ledger R T O) (owned : O → List R) (o : O) : Ledger R T O :=
  { x.assign (owned o) (.object o) with live := o :: x.live }

/-- A thread takes an object apart. -/
def giveUp [DecidableEq O] (x : Ledger R T O) (owned : O → List R) (t : T) (o : O) : Ledger R T O :=
  { x.assign (owned o) (.thread t) with live := x.live.erase o }

end

/-- Threads hold what they have in hand, live objects what they are made of. -/
structure Sound (owned : O → List R) (hands : T → List R) (x : Ledger R T O) : Prop where
  thread : ∀ r t, x.holder r = some (.thread t) ↔ r ∈ hands t
  object : ∀ r o, x.holder r = some (.object o) ↔ o ∈ x.live ∧ r ∈ owned o
  hands_nodup : ∀ t, (hands t).Nodup
  owned_nodup : ∀ o ∈ x.live, (owned o).Nodup
  live_nodup : x.live.Nodup

theorem sound_empty (owned : O → List R) : Sound owned (fun _ => []) (empty : Ledger R T O) where
  thread r t := by simp [empty]
  object r o := by simp [empty]
  hands_nodup _ := .nil
  owned_nodup := nofun
  live_nodup := .nil

namespace Sound

variable {owned : O → List R} {hands : T → List R} {x : Ledger R T O} {t : T} {r : R} {o : O} {rest : List R}

/-- What a thread has in hand no object has. -/
theorem not_object (h : Sound owned hands x) (hr : r ∈ hands t) (o : O) : ¬(o ∈ x.live ∧ r ∈ owned o) := by
  intro ho
  have ht := (h.thread r t).mpr hr
  rw [(h.object r o).mpr ho] at ht
  cases ht

/-- What a thread has in hand no other thread has. -/
theorem eq_of_mem (h : Sound owned hands x) {u : T} (hr : r ∈ hands t) (hu : r ∈ hands u) : u = t := by
  have ht := (h.thread r t).mpr hr
  rw [(h.thread r u).mpr hu] at ht
  cases ht
  rfl

variable [DecidableEq R] [DecidableEq T]

theorem acquire (h : Sound owned hands x) (hfree : x.holder r = none) :
    Sound owned (Function.update hands t (r :: hands t)) (x.acquire t r) := by
  have hfresh (u : T) : r ∉ hands u := fun hr => by simp [(h.thread r u).mpr hr] at hfree
  have hunowned (o : O) : ¬(o ∈ x.live ∧ r ∈ owned o) := fun ho => by simp [(h.object r o).mpr ho] at hfree
  constructor
  · intro r' u
    by_cases hr : r' = r
    · subst hr
      by_cases hu : u = t
      · subst hu
        simp [Ledger.acquire]
      · simp [Ledger.acquire, Function.update_of_ne hu, hfresh, Ne.symm hu]
    · have hholder : (x.acquire t r).holder r' = x.holder r' := Function.update_of_ne hr ..
      rw [hholder, h.thread]
      by_cases hu : u = t
      · subst hu
        simp [hr]
      · rw [Function.update_of_ne hu]
  · intro r' o
    by_cases hr : r' = r
    · subst hr
      exact iff_of_false (by simp [Ledger.acquire]) (hunowned o)
    · have hholder : (x.acquire t r).holder r' = x.holder r' := Function.update_of_ne hr ..
      rw [hholder]
      exact h.object r' o
  · intro u
    by_cases hu : u = t
    · subst hu
      rw [Function.update_self]
      exact List.nodup_cons.mpr ⟨hfresh u, h.hands_nodup u⟩
    · rw [Function.update_of_ne hu]
      exact h.hands_nodup u
  · exact h.owned_nodup
  · exact h.live_nodup

theorem release (h : Sound owned hands x) (hp : (hands t).Perm (r :: rest)) :
    Sound owned (Function.update hands t rest) (x.release r) := by
  have hmem : r ∈ hands t := hp.mem_iff.mpr List.mem_cons_self
  obtain ⟨hnot, hnodup⟩ := List.nodup_cons.mp (hp.nodup_iff.mp (h.hands_nodup t))
  constructor
  · intro r' u
    by_cases hr : r' = r
    · subst hr
      refine iff_of_false (by simp [Ledger.release]) fun hu => ?_
      by_cases heq : u = t
      · subst heq
        rw [Function.update_self] at hu
        exact hnot hu
      · rw [Function.update_of_ne heq] at hu
        exact heq (h.eq_of_mem hmem hu)
    · have hholder : (x.release r).holder r' = x.holder r' := Function.update_of_ne hr ..
      rw [hholder, h.thread]
      by_cases hu : u = t
      · subst hu
        rw [Function.update_self, hp.mem_iff, List.mem_cons, or_iff_right hr]
      · rw [Function.update_of_ne hu]
  · intro r' o
    by_cases hr : r' = r
    · subst hr
      exact iff_of_false (by simp [Ledger.release]) (h.not_object hmem o)
    · have hholder : (x.release r).holder r' = x.holder r' := Function.update_of_ne hr ..
      rw [hholder]
      exact h.object r' o
  · intro u
    by_cases hu : u = t
    · subst hu
      rwa [Function.update_self]
    · rw [Function.update_of_ne hu]
      exact h.hands_nodup u
  · exact h.owned_nodup
  · exact h.live_nodup

/-- An object is made of the whole of what a thread has in hand. -/
theorem publish (h : Sound owned hands x) (hp : (hands t).Perm (owned o)) (hne : owned o ≠ []) :
    Sound owned (Function.update hands t []) (x.publish owned o) := by
  have hmem {r' : R} : r' ∈ owned o ↔ r' ∈ hands t := hp.mem_iff.symm
  have hnew : o ∉ x.live := by
    obtain ⟨r', hr'⟩ := List.exists_mem_of_ne_nil _ hne
    exact fun ho => h.not_object (hmem.mp hr') o ⟨ho, hr'⟩
  have hholder (r' : R) : (x.publish owned o).holder r' = if r' ∈ owned o then some (.object o) else x.holder r' := rfl
  constructor
  · intro r' u
    rw [hholder]
    by_cases hr : r' ∈ owned o
    · rw [if_pos hr]
      refine iff_of_false nofun fun hu => ?_
      by_cases heq : u = t
      · subst heq
        rw [Function.update_self] at hu
        cases hu
      · rw [Function.update_of_ne heq] at hu
        exact heq (h.eq_of_mem (hmem.mp hr) hu)
    · rw [if_neg hr, h.thread]
      by_cases hu : u = t
      · subst hu
        rw [Function.update_self]
        exact iff_of_false (fun hh => hr (hmem.mpr hh)) List.not_mem_nil
      · rw [Function.update_of_ne hu]
  · intro r' o'
    rw [hholder]
    show _ ↔ o' ∈ o :: x.live ∧ _
    by_cases hr : r' ∈ owned o
    · rw [if_pos hr, List.mem_cons]
      constructor
      · intro heq
        obtain rfl : o = o' := by simpa using heq
        exact ⟨.inl rfl, hr⟩
      · rintro ⟨rfl | ho', hr'⟩
        · rfl
        · exact absurd ⟨ho', hr'⟩ (h.not_object (hmem.mp hr) o')
    · rw [if_neg hr, h.object, List.mem_cons]
      constructor
      · rintro ⟨ho', hr'⟩
        exact ⟨.inr ho', hr'⟩
      · rintro ⟨rfl | ho', hr'⟩
        · exact absurd hr' hr
        · exact ⟨ho', hr'⟩
  · intro u
    by_cases hu : u = t
    · subst hu
      rw [Function.update_self]
      exact .nil
    · rw [Function.update_of_ne hu]
      exact h.hands_nodup u
  · exact List.forall_mem_cons.mpr ⟨hp.nodup_iff.mp (h.hands_nodup t), h.owned_nodup⟩
  · exact List.nodup_cons.mpr ⟨hnew, h.live_nodup⟩

/-- A thread whose hands are empty takes an object apart. -/
theorem giveUp [DecidableEq O] (h : Sound owned hands x) (ho : o ∈ x.live) (hempty : hands t = []) :
    Sound owned (Function.update hands t (owned o)) (x.giveUp owned t o) := by
  have hholder (r' : R) : (x.giveUp owned t o).holder r' = if r' ∈ owned o then some (.thread t) else x.holder r' := rfl
  constructor
  · intro r' u
    rw [hholder]
    by_cases hr : r' ∈ owned o
    · rw [if_pos hr]
      by_cases hu : u = t
      · subst hu
        rw [Function.update_self]
        exact iff_of_true rfl hr
      · rw [Function.update_of_ne hu]
        exact iff_of_false (by simpa using Ne.symm hu) fun hmem => h.not_object hmem o ⟨ho, hr⟩
    · rw [if_neg hr, h.thread]
      by_cases hu : u = t
      · subst hu
        rw [Function.update_self, hempty]
        exact iff_of_false List.not_mem_nil hr
      · rw [Function.update_of_ne hu]
  · intro r' o'
    rw [hholder]
    show _ ↔ o' ∈ x.live.erase o ∧ _
    rw [h.live_nodup.mem_erase_iff]
    by_cases hr : r' ∈ owned o
    · rw [if_pos hr]
      refine iff_of_false nofun fun hall => hall.1.1 ?_
      have hold := (h.object r' o).mpr ⟨ho, hr⟩
      rw [(h.object r' o').mpr ⟨hall.1.2, hall.2⟩] at hold
      simpa using hold
    · rw [if_neg hr, h.object]
      constructor
      · rintro ⟨ho', hr'⟩
        refine ⟨⟨?_, ho'⟩, hr'⟩
        rintro rfl
        exact hr hr'
      · rintro ⟨⟨-, ho'⟩, hr'⟩
        exact ⟨ho', hr'⟩
  · intro u
    by_cases hu : u = t
    · subst hu
      rw [Function.update_self]
      exact h.owned_nodup o ho
    · rw [Function.update_of_ne hu]
      exact h.hands_nodup u
  · exact fun o' ho' => h.owned_nodup o' (List.mem_of_mem_erase ho')
  · exact h.live_nodup.erase o

end Sound

end Ledger
