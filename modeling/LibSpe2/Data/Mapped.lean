import Mathlib.Data.List.Basic
import Mathlib.Data.List.Induction
import Mathlib.Tactic.Ring

/-!
# Programs that read and patch a mapped file

A program has the bytes of a file in its memory, reads numbers from them, patches some in place, and
writes bytes to a device. Every access names an offset; one that is not inside the file, or inside
the device, has no meaning (`none`), so that a run that returns has stayed inside both.

* `Mapped α` — such a program; `read`, `write`, `bytes`, `emit` are its accesses.
* `upTo` — the loop `for (i = 0; i < bound; ++i)` whose bound is read again before each round.
* `Keeps` — what a program leaves as it is; `Appends` — it does not look at the device.
* `content` — what the device holds after a sequence of bytes was written to it.

Main results:
* `upTo_run` — what each round keeps, a run of the loop keeps.
* `upTo_total` — a loop whose rounds return returns.
* `content_block` — a block that was written is there, and nothing else has changed.
-/

/-- The length of the file, the size of the address space and the size of the device. -/
structure Mapped.Bounds where
  size : ℕ
  space : ℕ
  room : ℕ

/-- The bytes of the file and the bytes written to the device, in their order. -/
structure Mapped.State where
  byte : ℕ → UInt8
  written : List (ℕ × UInt8)

/-- A program; `none` is an access outside of the bounds. -/
def Mapped (α : Type) : Type := Mapped.Bounds → Mapped.State → Option (α × Mapped.State)

namespace Mapped

variable {α β σ : Type} {b : Bounds} {s s' t : State} {a : α} {n off len k : ℕ}

instance : Monad Mapped where
  pure a := fun _ s => some (a, s)
  bind x f := fun b s => (x b s).bind fun r => f r.1 b r.2

/-! ## Numbers and bytes -/

/-- The number that big-endian digits stand for. -/
def number (bs : List UInt8) : ℕ := bs.foldl (fun v d => 256 * v + d.toNat) 0

/-- The `n` bytes at an offset. -/
def bytesAt (m : ℕ → UInt8) (n off : ℕ) : List UInt8 := (List.range n).map fun i => m (off + i)

/-- The `n`-byte number at an offset. -/
def be (m : ℕ → UInt8) (n off : ℕ) : ℕ := number (bytesAt m n off)

/-- The `n` big-endian digits of a number. -/
def digits : (n v : ℕ) → List UInt8
  | 0, _ => []
  | n + 1, v => digits n (v / 256) ++ [UInt8.ofNat v]

/-- The file with the bytes `bs` at an offset. -/
def put (m : ℕ → UInt8) (off : ℕ) (bs : List UInt8) : ℕ → UInt8 := fun a =>
  if off ≤ a then (bs[a - off]?).getD (m a) else m a

/-- The bytes `bs` with the addresses from `dst` on. -/
def block : (dst : ℕ) → List UInt8 → List (ℕ × UInt8)
  | _, [] => []
  | dst, d :: bs => (dst, d) :: block (dst + 1) bs

/-- What the device holds after `ws` was written to it. -/
def content (prev : ℕ → UInt8) (ws : List (ℕ × UInt8)) : ℕ → UInt8 := fun a =>
  ws.foldl (fun c w => if w.1 = a then w.2 else c) (prev a)

/-! ## Accesses -/

/-- A number modulo the size of the address space. -/
def wrap (x : ℤ) : Mapped ℕ := fun b s => some ((x % b.space).toNat, s)

/-- Read an `n`-byte number. -/
def read (n off : ℕ) : Mapped ℕ := fun b s =>
  if off % b.space + n ≤ b.size then some (be s.byte n (off % b.space), s) else none

/-- Write an `n`-byte number. -/
def write (n off v : ℕ) : Mapped Unit := fun b s =>
  if off % b.space + n ≤ b.size then
    some ((), { s with byte := put s.byte (off % b.space) (digits n v) })
  else none

/-- Fetch `n` bytes. -/
def bytes (n off : ℕ) : Mapped (List UInt8) := fun b s =>
  if off % b.space + n ≤ b.size then some (bytesAt s.byte n (off % b.space), s) else none

/-- Write bytes to the device. -/
def emit (dst : ℕ) (bs : List UInt8) : Mapped Unit := fun b s =>
  if bs = [] ∨ dst % b.space + bs.length ≤ b.room then
    some ((), { s with written := s.written ++ block (dst % b.space) bs })
  else none

/-- An access that has no meaning. -/
def outside : Mapped α := fun _ _ => none

/-- `x` if `c` holds. -/
def whenever (c : Prop) [Decidable c] (x : Mapped Unit) : Mapped Unit := if c then x else pure ()

/-- `for (; i < bound; ++i) body`, for at most `fuel` looks at the bound. -/
def upTo (bound : Mapped ℕ) (body : ℕ → σ → Mapped σ) : (fuel i : ℕ) → σ → Mapped σ
  | 0, _, x => pure x
  | fuel + 1, i, x => do
    if i < (← bound) then upTo bound body fuel (i + 1) (← body i x) else pure x

/-! ## What a run did -/

@[simp] theorem pure_some : (pure a : Mapped α) b s = some r ↔ r = (a, s) := by
  show some (a, s) = some r ↔ _
  rw [Option.some.injEq, eq_comm]

theorem bind_some {x : Mapped α} {f : α → Mapped β} {r : β × State} :
    (x >>= f) b s = some r ↔ ∃ a t, x b s = some (a, t) ∧ f a b t = some r := by
  show (x b s).bind _ = some r ↔ _
  rw [Option.bind_eq_some_iff]
  constructor
  · rintro ⟨⟨a, t⟩, hx, hf⟩
    exact ⟨a, t, hx, hf⟩
  · rintro ⟨a, t, hx, hf⟩
    exact ⟨(a, t), hx, hf⟩

theorem bind_of {x : Mapped α} {f : α → Mapped β} (h : x b s = some (a, t)) :
    (x >>= f) b s = f a b t := by
  show (x b s).bind _ = _
  rw [h]
  rfl

@[simp] theorem wrap_some {x : ℤ} {r : ℕ × State} :
    wrap x b s = some r ↔ r = ((x % b.space).toNat, s) := by
  rw [wrap, Option.some.injEq, eq_comm]

theorem read_some {r : ℕ × State} : read n off b s = some r ↔
    off % b.space + n ≤ b.size ∧ r = (be s.byte n (off % b.space), s) := by
  rw [read, Option.ite_none_right_eq_some, Option.some.injEq, eq_comm (a := r)]

theorem bytes_some {r : List UInt8 × State} : bytes n off b s = some r ↔
    off % b.space + n ≤ b.size ∧ r = (bytesAt s.byte n (off % b.space), s) := by
  rw [bytes, Option.ite_none_right_eq_some, Option.some.injEq, eq_comm (a := r)]

theorem write_some {r : Unit × State} {v : ℕ} : write n off v b s = some r ↔
    off % b.space + n ≤ b.size ∧
      r = ((), { s with byte := put s.byte (off % b.space) (digits n v) }) := by
  rw [write, Option.ite_none_right_eq_some, Option.some.injEq, eq_comm (a := r)]

theorem emit_some {r : Unit × State} {dst : ℕ} {bs : List UInt8} : emit dst bs b s = some r ↔
    (bs = [] ∨ dst % b.space + bs.length ≤ b.room) ∧
      r = ((), { s with written := s.written ++ block (dst % b.space) bs }) := by
  rw [emit, Option.ite_none_right_eq_some, Option.some.injEq, eq_comm (a := r)]

theorem whenever_pos {c : Prop} [Decidable c] {x : Mapped Unit} (h : c) : whenever c x = x := if_pos h

theorem whenever_neg {c : Prop} [Decidable c] {x : Mapped Unit} (h : ¬ c) :
    whenever c x = pure () := if_neg h

/-! ## Numbers and their digits -/

@[simp] theorem length_bytesAt {m : ℕ → UInt8} : (bytesAt m n off).length = n := by simp [bytesAt]

@[simp] theorem getElem?_bytesAt {m : ℕ → UInt8} (h : k < n) : (bytesAt m n off)[k]? = some (m (off + k)) := by
  simp [bytesAt, h]

theorem bytesAt_succ (m : ℕ → UInt8) (n off : ℕ) :
    bytesAt m (n + 1) off = m off :: bytesAt m n (off + 1) := by
  unfold bytesAt
  rw [List.range_succ_eq_map, List.map_cons, List.map_map]
  congr 1
  apply List.map_congr_left
  intro i _
  show m (off + (i + 1)) = m (off + 1 + i)
  congr 1
  omega

theorem bytesAt_concat (m : ℕ → UInt8) (n off : ℕ) : bytesAt m (n + 1) off = bytesAt m n off ++ [m (off + n)] := by
  unfold bytesAt
  rw [List.range_succ, List.map_append]
  rfl

theorem bytesAt_congr {m m' : ℕ → UInt8} (h : ∀ i < n, m (off + i) = m' (off + i)) :
    bytesAt m n off = bytesAt m' n off :=
  List.map_congr_left fun i hi => h i (List.mem_range.mp hi)

theorem be_congr {m m' : ℕ → UInt8} (h : ∀ i < n, m (off + i) = m' (off + i)) : be m n off = be m' n off := by
  rw [be, be, bytesAt_congr h]

theorem number_concat (bs : List UInt8) (d : UInt8) : number (bs ++ [d]) = 256 * number bs + d.toNat := by
  rw [number, List.foldl_append]
  rfl

theorem number_lt (bs : List UInt8) : number bs < 256 ^ bs.length := by
  induction bs using List.reverseRecOn with
  | nil => exact Nat.one_pos
  | append_singleton bs d ih =>
    have hd := d.toNat_lt
    rw [number_concat, List.length_append, List.length_singleton, pow_succ]
    omega

theorem be_lt (m : ℕ → UInt8) (n off : ℕ) : be m n off < 256 ^ n := by
  have h := number_lt (bytesAt m n off)
  rwa [length_bytesAt] at h

@[simp] theorem length_digits (n v : ℕ) : (digits n v).length = n := by
  induction n generalizing v with
  | zero => rfl
  | succ n ih => rw [digits, List.length_append, ih, List.length_singleton]

/-- Bytes are the digits of the number that they stand for. -/
theorem digits_number (bs : List UInt8) : digits bs.length (number bs) = bs := by
  induction bs using List.reverseRecOn with
  | nil => rfl
  | append_singleton bs d ih =>
    have hd := d.toNat_lt
    have hdiv : (256 * number bs + d.toNat) / 256 = number bs := by omega
    have hmod : UInt8.ofNat (256 * number bs + d.toNat) = d := by
      apply UInt8.toNat_inj.mp
      rw [UInt8.toNat_ofNat']
      omega
    rw [number_concat, List.length_append, List.length_singleton, digits, hdiv, hmod, ih]

theorem number_digits {v : ℕ} (h : v < 256 ^ n) : number (digits n v) = v := by
  induction n generalizing v with
  | zero =>
    obtain rfl : v = 0 := Nat.lt_one_iff.mp h
    rfl
  | succ n ih =>
    have hdiv : v / 256 < 256 ^ n := Nat.div_lt_of_lt_mul (by rw [Nat.mul_comm, ← Nat.pow_succ]; exact h)
    rw [digits, number_concat, ih hdiv, UInt8.toNat_ofNat']
    omega

theorem digits_be (m : ℕ → UInt8) (n off : ℕ) : digits n (be m n off) = bytesAt m n off := by
  have h := digits_number (bytesAt m n off)
  rwa [length_bytesAt] at h

/-! ## Blocks -/

theorem put_inside {m : ℕ → UInt8} {l : List UInt8} (h : k < l.length) : put m off l (off + k) = l[k] := by
  rw [put, if_pos (Nat.le_add_right off k), Nat.add_sub_cancel_left, List.getElem?_eq_getElem h]
  rfl

theorem put_outside {m : ℕ → UInt8} {bs : List UInt8} (h : k < off ∨ off + bs.length ≤ k) :
    put m off bs k = m k := by
  unfold put
  split
  next hle =>
    have hnone : bs[k - off]? = none := List.getElem?_eq_none (by omega)
    rw [hnone]
    rfl
  next => rfl

theorem put_eq_ite (m : ℕ → UInt8) (off : ℕ) (bs : List UInt8) (a : ℕ) :
    put m off bs a = if off ≤ a ∧ a < off + bs.length then bs.getD (a - off) 0 else m a := by
  split
  next h =>
    obtain ⟨i, rfl⟩ := Nat.exists_eq_add_of_le h.1
    have hi : i < bs.length := by omega
    rw [put_inside hi, Nat.add_sub_cancel_left, List.getD_eq_getElem?_getD, List.getElem?_eq_getElem hi]
    rfl
  next h => exact put_outside (by omega)

/-- Bytes that are there already change nothing when they are written. -/
theorem put_bytesAt (m : ℕ → UInt8) (n off : ℕ) : put m off (bytesAt m n off) = m := by
  funext k
  by_cases h : off ≤ k ∧ k < off + n
  · obtain ⟨i, rfl⟩ := Nat.exists_eq_add_of_le h.1
    rw [put, if_pos h.1, Nat.add_sub_cancel_left, getElem?_bytesAt (by omega)]
    rfl
  · apply put_outside
    rw [length_bytesAt]
    omega

/-- The bytes of a part of what was written. -/
theorem bytesAt_put {m : ℕ → UInt8} {bs : List UInt8} (h : k + n ≤ bs.length) :
    bytesAt (put m off bs) n (off + k) = (bs.drop k).take n := by
  apply List.ext_getElem?
  intro i
  by_cases hi : i < n
  · rw [getElem?_bytesAt hi, Nat.add_assoc, put_inside (by omega), List.getElem?_take_of_lt hi, List.getElem?_drop,
      List.getElem?_eq_getElem]
  · rw [List.getElem?_eq_none (by simpa using hi), List.getElem?_eq_none (by simp; omega)]

@[simp] theorem content_nil (prev : ℕ → UInt8) : content prev [] = prev := rfl

theorem content_append (prev : ℕ → UInt8) (ws vs : List (ℕ × UInt8)) :
    content prev (ws ++ vs) = content (content prev ws) vs := by
  funext a
  exact List.foldl_append

theorem content_cons (prev : ℕ → UInt8) (w : ℕ × UInt8) (ws : List (ℕ × UInt8)) :
    content prev (w :: ws) = content (put prev w.1 [w.2]) ws := by
  funext a
  show ws.foldl _ (if w.1 = a then w.2 else prev a) = ws.foldl _ (put prev w.1 [w.2] a)
  congr 1
  by_cases h : w.1 = a
  · rw [if_pos h, ← h]
    exact (put_inside (k := 0) (l := [w.2]) Nat.one_pos).symm
  · rw [if_neg h, put_outside]
    show a < w.1 ∨ w.1 + 1 ≤ a
    omega

/-- **A block is where it was written**, and nothing else has changed. -/
theorem content_block (prev : ℕ → UInt8) (dst : ℕ) (bs : List UInt8) :
    content prev (block dst bs) = put prev dst bs := by
  induction bs generalizing dst prev with
  | nil =>
    funext a
    exact (put_outside (by simp; omega)).symm
  | cons d bs ih =>
    rw [block, content_cons, ih]
    funext a
    show put (put prev dst [d]) (dst + 1) bs a = _
    rcases Nat.lt_trichotomy a dst with h | h | h
    · rw [put_outside (Or.inl (by omega)), put_outside (Or.inl h), put_outside (Or.inl h)]
    · rw [put_outside (Or.inl (by omega)), h]
      exact (put_inside (k := 0) (l := [d]) Nat.one_pos).trans
        (put_inside (k := 0) (l := d :: bs) (Nat.succ_pos _)).symm
    · obtain ⟨i, rfl⟩ := Nat.exists_eq_add_of_lt h
      have hne : put prev dst [d] (dst + i + 1) = prev (dst + i + 1) :=
        put_outside (Or.inr (show dst + 1 ≤ dst + i + 1 by omega))
      have hone : dst + i + 1 - (dst + 1) = i := by omega
      have htwo : dst + i + 1 - dst = i + 1 := by omega
      calc (if dst + 1 ≤ dst + i + 1 then (bs[dst + i + 1 - (dst + 1)]?).getD (put prev dst [d] (dst + i + 1))
            else put prev dst [d] (dst + i + 1))
          = (bs[i]?).getD (prev (dst + i + 1)) := by rw [if_pos (by omega), hone, hne]
        _ = ((d :: bs)[dst + i + 1 - dst]?).getD (prev (dst + i + 1)) := by rw [htwo]; rfl
        _ = put prev dst (d :: bs) (dst + i + 1) := by rw [put, if_pos (by omega)]

/-- Bytes written piece by piece: if each piece leaves an address as it is or writes `d` there, the device has
`d` there, provided that it had it before or a piece writes it. -/
theorem content_flatMap {κ : Type} {l : List κ} {W : κ → List (ℕ × UInt8)} {d : UInt8} {prev : ℕ → UInt8}
    (hall : ∀ x ∈ l, ∀ p, content p (W x) k = d ∨ content p (W x) k = p k)
    (hone : prev k = d ∨ ∃ x ∈ l, ∀ p, content p (W x) k = d) : content prev (l.flatMap W) k = d := by
  induction l generalizing prev with
  | nil =>
    rcases hone with h | ⟨x, hx, -⟩
    · exact h
    · cases hx
  | cons x l ih =>
    rw [List.flatMap_cons, content_append]
    apply ih fun y hy => hall y (List.mem_cons_of_mem x hy)
    rcases hone with h | ⟨y, hy, hd⟩
    · left
      rcases hall x (List.mem_cons_self ..) prev with hx | hx
      · exact hx
      · exact hx.trans h
    · rcases List.mem_cons.mp hy with rfl | hy
      · exact Or.inl (hd prev)
      · exact Or.inr ⟨y, hy, hd⟩

/-- Pieces that write the same at an address leave the same there. -/
theorem content_flatMap_congr {κ : Type} {l : List κ} {W V : κ → List (ℕ × UInt8)} {prev : ℕ → UInt8}
    (h : ∀ x ∈ l, ∀ p q, p k = q k → content p (W x) k = content q (V x) k) (q : ℕ → UInt8) (hq : prev k = q k) :
    content prev (l.flatMap W) k = content q (l.flatMap V) k := by
  induction l generalizing prev q with
  | nil => exact hq
  | cons x l ih =>
    rw [List.flatMap_cons, List.flatMap_cons, content_append, content_append]
    exact ih (fun y hy => h y (List.mem_cons_of_mem x hy)) _ (h x (List.mem_cons_self ..) prev q hq)

theorem mem_block {dst : ℕ} {bs : List UInt8} {w : ℕ × UInt8} (h : w ∈ block dst bs) :
    dst ≤ w.1 ∧ w.1 < dst + bs.length := by
  induction bs generalizing dst with
  | nil => cases h
  | cons d bs ih =>
    rw [block, List.mem_cons] at h
    rw [List.length_cons]
    rcases h with rfl | h
    · exact ⟨le_rfl, by omega⟩
    · have := ih h
      omega

@[simp] theorem length_block (dst : ℕ) (bs : List UInt8) : (block dst bs).length = bs.length := by
  induction bs generalizing dst with
  | nil => rfl
  | cons d bs ih => rw [block, List.length_cons, List.length_cons, ih]

/-! ## Accesses inside the bounds -/

theorem mod_space (hspace : b.size ≤ b.space) (hn : 0 < n) (h : off + n ≤ b.size) : off % b.space = off :=
  Nat.mod_eq_of_lt (by omega)

theorem read_of (hspace : b.size ≤ b.space) (hn : 0 < n) (h : off + n ≤ b.size) :
    read n off b s = some (be s.byte n off, s) := by
  rw [read, mod_space hspace hn h, if_pos h]

theorem bytes_of (hspace : b.size ≤ b.space) (hn : 0 < n) (h : off + n ≤ b.size) :
    bytes n off b s = some (bytesAt s.byte n off, s) := by
  rw [bytes, mod_space hspace hn h, if_pos h]

theorem write_of {v : ℕ} (hspace : b.size ≤ b.space) (hn : 0 < n) (h : off + n ≤ b.size) :
    write n off v b s = some ((), { s with byte := put s.byte off (digits n v) }) := by
  rw [write, mod_space hspace hn h, if_pos h]

/-! ## What a program leaves as it is -/

/-- A run does not change `f`. -/
def Keeps {γ : Type} (f : State → γ) (x : Mapped α) : Prop := ∀ b s a t, x b s = some (a, t) → f t = f s

section
variable {γ : Type} {f : State → γ}

theorem keeps_pure : Keeps f (pure a : Mapped α) := by
  intro b s a' t h
  rw [pure_some, Prod.mk.injEq] at h
  rw [h.2]

theorem Keeps.bind {x : Mapped α} {g : α → Mapped β} (hx : Keeps f x) (hg : ∀ a, Keeps f (g a)) :
    Keeps f (x >>= g) := by
  intro b s r t h
  obtain ⟨a, u, hxa, hga⟩ := bind_some.mp h
  rw [hg a b u r t hga, hx b s a u hxa]

theorem keeps_ite {c : Prop} [Decidable c] {x y : Mapped α} (hx : Keeps f x) (hy : Keeps f y) :
    Keeps f (if c then x else y) := by
  split
  · exact hx
  · exact hy

theorem keeps_whenever {c : Prop} [Decidable c] {x : Mapped Unit} (hx : Keeps f x) :
    Keeps f (whenever c x) := keeps_ite hx keeps_pure

theorem keeps_wrap {x : ℤ} : Keeps f (wrap x) := by
  intro b s a t h
  rw [wrap_some, Prod.mk.injEq] at h
  rw [h.2]

theorem keeps_read : Keeps f (read n off) := by
  intro b s a t h
  obtain ⟨-, h⟩ := read_some.mp h
  rw [Prod.mk.injEq] at h
  rw [h.2]

theorem keeps_bytes : Keeps f (bytes n off) := by
  intro b s a t h
  obtain ⟨-, h⟩ := bytes_some.mp h
  rw [Prod.mk.injEq] at h
  rw [h.2]

/-- A write to the file is none to the device. -/
theorem keeps_write {v : ℕ} : Keeps State.written (write n off v) := by
  intro b s a t h
  obtain ⟨-, h⟩ := write_some.mp h
  rw [Prod.mk.injEq] at h
  rw [h.2]

theorem keeps_upTo {bound : Mapped ℕ} {body : ℕ → σ → Mapped σ} (hbound : Keeps f bound)
    (hbody : ∀ i x, Keeps f (body i x)) (fuel i : ℕ) (x : σ) : Keeps f (upTo bound body fuel i x) := by
  induction fuel generalizing i x with
  | zero => exact keeps_pure
  | succ fuel ih =>
    apply Keeps.bind hbound
    intro n
    apply keeps_ite
    · exact (hbody i x).bind fun y => ih (i + 1) y
    · exact keeps_pure

end

/-! ## What a program adds to the device -/

/-- A program does not look at the device: what a run adds to it does not depend on what is there. -/
def Appends (x : Mapped α) : Prop := ∀ b m w a t, x b ⟨m, w⟩ = some (a, t) →
  ∃ ws, t.written = w ++ ws ∧ ∀ w', x b ⟨m, w'⟩ = some (a, ⟨t.byte, w' ++ ws⟩)

theorem appends_pure : Appends (pure a : Mapped α) := by
  intro b m w a' t h
  obtain ⟨rfl, rfl⟩ := Prod.mk.inj (pure_some.mp h)
  refine ⟨[], (List.append_nil w).symm, fun w' => ?_⟩
  rw [List.append_nil]
  rfl

theorem Appends.bind {x : Mapped α} {g : α → Mapped β} (hx : Appends x) (hg : ∀ a, Appends (g a)) :
    Appends (x >>= g) := by
  intro b m w r t h
  obtain ⟨a, u, hxa, hga⟩ := bind_some.mp h
  obtain ⟨ws, hu, hx'⟩ := hx b m w a u hxa
  obtain ⟨vs, ht, hg'⟩ := hg a b u.byte u.written r t hga
  refine ⟨ws ++ vs, ?_, fun w' => ?_⟩
  · rw [ht, hu, List.append_assoc]
  · rw [bind_of (hx' w'), hg' (w' ++ ws), List.append_assoc]

theorem appends_ite {c : Prop} [Decidable c] {x y : Mapped α} (hx : Appends x) (hy : Appends y) :
    Appends (if c then x else y) := by
  split
  · exact hx
  · exact hy

theorem appends_whenever {c : Prop} [Decidable c] {x : Mapped Unit} (hx : Appends x) :
    Appends (whenever c x) := appends_ite hx appends_pure

theorem appends_outside : Appends (outside : Mapped α) := by
  intro b m w a t h
  cases h

theorem appends_read : Appends (read n off) := by
  intro b m w a t h
  obtain ⟨hin, h⟩ := read_some.mp h
  obtain ⟨rfl, rfl⟩ := Prod.mk.inj h
  refine ⟨[], (List.append_nil w).symm, fun w' => ?_⟩
  rw [List.append_nil, read, if_pos hin]

theorem appends_bytes : Appends (bytes n off) := by
  intro b m w a t h
  obtain ⟨hin, h⟩ := bytes_some.mp h
  obtain ⟨rfl, rfl⟩ := Prod.mk.inj h
  refine ⟨[], (List.append_nil w).symm, fun w' => ?_⟩
  rw [List.append_nil, bytes, if_pos hin]

theorem appends_emit {dst : ℕ} {bs : List UInt8} : Appends (emit dst bs) := by
  intro b m w a t h
  obtain ⟨hin, h⟩ := emit_some.mp h
  obtain ⟨rfl, rfl⟩ := Prod.mk.inj h
  refine ⟨block (dst % b.space) bs, rfl, fun w' => ?_⟩
  rw [emit, if_pos hin]

theorem appends_upTo {bound : Mapped ℕ} {body : ℕ → σ → Mapped σ} (hbound : Appends bound)
    (hbody : ∀ i x, Appends (body i x)) (fuel i : ℕ) (x : σ) : Appends (upTo bound body fuel i x) := by
  induction fuel generalizing i x with
  | zero => exact appends_pure
  | succ fuel ih =>
    apply Appends.bind hbound
    intro n
    apply appends_ite
    · exact (hbody i x).bind fun y => ih (i + 1) y
    · exact appends_pure

/-! ## Loops -/

section
variable {bound : Mapped ℕ} {body : ℕ → σ → Mapped σ} {I : ℕ → σ → State → Prop} {limit : ℕ}

/-- **What each round keeps, a run keeps**: it ends in a state in which the bound is reached. -/
theorem upTo_run (hbound : ∀ s n t, bound b s = some (n, t) → t = s ∧ n ≤ limit)
    (hbody : ∀ i x s y t n, I i x s → bound b s = some (n, s) → i < n → body i x b s = some (y, t) →
      I (i + 1) y t) (fuel i : ℕ) (x y : σ) (s t : State) (hi : i ≤ limit) (hfuel : limit < i + fuel)
    (hI : I i x s) (hrun : upTo bound body fuel i x b s = some (y, t)) :
    ∃ j n, I j y t ∧ bound b t = some (n, t) ∧ n ≤ j := by
  induction fuel generalizing i x s with
  | zero => omega
  | succ fuel ih =>
    rw [upTo, bind_some] at hrun
    obtain ⟨n, u, hn, hrun⟩ := hrun
    obtain ⟨rfl, hle⟩ := hbound s n u hn
    by_cases h : i < n
    · rw [if_pos h, bind_some] at hrun
      obtain ⟨x', s', hx, hrun⟩ := hrun
      exact ih (i + 1) x' s' (by omega) (by omega) (hbody i x u x' s' n hI hn h hx) hrun
    · rw [if_neg h, pure_some, Prod.mk.injEq] at hrun
      obtain ⟨rfl, rfl⟩ := hrun
      exact ⟨i, n, hI, hn, by omega⟩

/-- **A loop whose rounds return returns**, after its last round. -/
theorem upTo_total (hbound : ∀ i x s, I i x s → bound b s = some (n, s))
    (hbody : ∀ i x s, I i x s → i < n → ∃ y t, body i x b s = some (y, t) ∧ I (i + 1) y t)
    (fuel i : ℕ) (x : σ) (s : State) (hi : i ≤ n) (hfuel : n < i + fuel) (hI : I i x s) :
    ∃ y t, upTo bound body fuel i x b s = some (y, t) ∧ I n y t := by
  induction fuel generalizing i x s with
  | zero => omega
  | succ fuel ih =>
    rw [upTo, bind_of (hbound i x s hI)]
    by_cases h : i < n
    · obtain ⟨y, t, hy, hI'⟩ := hbody i x s hI h
      rw [if_pos h, bind_of hy]
      exact ih (i + 1) y t h (by omega) hI'
    · obtain rfl : i = n := by omega
      rw [if_neg h]
      exact ⟨x, s, rfl, hI⟩

/-- A loop whose rounds leave everything as it is, but for its own variable. -/
theorem upTo_foldl {g : ℕ → σ → σ} (hbound : bound b s = some (n, s))
    (hbody : ∀ i < n, ∀ x, body i x b s = some (g i x, s)) {fuel : ℕ} (hfuel : n < fuel) (x : σ) :
    upTo bound body fuel 0 x b s = some ((List.range n).foldl (fun y i => g i y) x, s) := by
  let I : ℕ → σ → State → Prop := fun i y t => y = (List.range i).foldl (fun y i => g i y) x ∧ t = s
  have hstep : ∀ i y t, I i y t → i < n → ∃ z u, body i y b t = some (z, u) ∧ I (i + 1) z u := by
    rintro i y t ⟨rfl, rfl⟩ hi
    refine ⟨_, _, hbody i hi _, ?_, rfl⟩
    rw [List.range_succ, List.foldl_append]
    rfl
  have hread : ∀ i y t, I i y t → bound b t = some (n, t) := by
    intro i y t hI
    rw [hI.2]
    exact hbound
  obtain ⟨y, t, hrun, rfl, rfl⟩ := upTo_total hread hstep fuel 0 x s (Nat.zero_le n) (by omega) ⟨rfl, rfl⟩
  exact hrun

end

end Mapped
