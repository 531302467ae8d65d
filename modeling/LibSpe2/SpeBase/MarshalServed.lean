import LibSpe2.Data.Words
import LibSpe2.SpeBase.Marshal

/-!
# Calls that are served

The proof of the law of the plain handlers. A handler and a prototype agree expression by expression
(`Handler.Matches`, which is decided for all handlers), and each kind of expression keeps the value of its parameter
under a condition of its own (`value_eq_iff`). The result is stored last and read back as it was stored.

Main results:
* `frame_covers` — a handler reads the quadwords that it declares.
* `served_iff` — when a call is served.
* `fseek_backwards` — an `fseek` by a negative offset on a 64-bit host.
-/

namespace LibSpe2.Marshal

open LibCall (C99Call Posix1Call Frame lsPtr loadWord argSlot lsArgsOf intOf)
open FileTable.Sequential (Table standard)
open Format (Build Store storeAll putLsRc)
open EA (Words Ptr)
open Mapped (digits number bytesAt)

/-! ## Words of local store -/

/-- A word is the number of its four bytes. -/
theorem loadWord_eq (ls : Nat → UInt8) (off : Nat) : loadWord ls off = .ofNat (number (bytesAt ls 4 off)) := by
  have hnum : number (bytesAt ls 4 off) = (ls off).toNat * 2 ^ 24 + (ls (off + 1)).toNat * 2 ^ 16 +
      (ls (off + 2)).toNat * 2 ^ 8 + (ls (off + 3)).toNat := by
    simp [number, bytesAt, List.range_succ]
    omega
  have h₀ := (ls off).toNat_lt
  have h₁ := (ls (off + 1)).toNat_lt
  have h₂ := (ls (off + 2)).toNat_lt
  have h₃ := (ls (off + 3)).toNat_lt
  apply UInt32.toNat_inj.mp
  rw [hnum, UInt32.toNat_ofNat_of_lt' (by simp [UInt32.size]; omega)]
  simp only [loadWord, UInt32.toNat_or, UInt32.toNat_shiftLeft, UInt8.toNat_toUInt32, Nat.shiftLeft_eq,
    UInt32.reduceToNat, Nat.reduceMod]
  rw [Nat.mod_eq_of_lt (by omega), Nat.mod_eq_of_lt (by omega), Nat.mod_eq_of_lt (by omega)]
  have htop : (ls (off + 1)).toNat * 2 ^ 16 < 2 ^ 24 := Nat.mul_lt_mul_of_pos_right h₁ (by decide)
  have hlow : (ls (off + 2)).toNat * 2 ^ 8 < 2 ^ 16 := Nat.mul_lt_mul_of_pos_right h₂ (by decide)
  have hmid : 2 ^ 16 ∣ (ls off).toNat * 2 ^ 24 + (ls (off + 1)).toNat * 2 ^ 16 :=
    Nat.dvd_add (Nat.dvd_mul_left_of_dvd (Nat.pow_dvd_pow 2 (by decide)) _) (Nat.dvd_mul_left ..)
  have hhigh : 2 ^ 8 ∣ (ls off).toNat * 2 ^ 24 + (ls (off + 1)).toNat * 2 ^ 16 + (ls (off + 2)).toNat * 2 ^ 8 :=
    Nat.dvd_add ((Nat.pow_dvd_pow 2 (by decide)).trans hmid) (Nat.dvd_mul_left ..)
  rw [Words.or_eq_add (Nat.dvd_mul_left ..) htop, Words.or_eq_add hmid hlow, Words.or_eq_add hhigh h₃]

/-- What is put is found. -/
theorem loadWord_putLsRc (ls : Nat → UInt8) (opdata slot₀ slot₁ slot₂ slot₃ : UInt32) :
    let after := storeAll ls [putLsRc (lsArgsOf opdata) slot₀ slot₁ slot₂ slot₃]
    argSlot after opdata 0 = slot₀ ∧ loadWord after (lsArgsOf opdata + 4) = slot₁ ∧
      loadWord after (lsArgsOf opdata + 12) = slot₃ := by
  intro after
  have hword (k : Nat) (w : UInt32) (hk : k + 4 ≤ 16)
      (h : ((putLsRc (lsArgsOf opdata) slot₀ slot₁ slot₂ slot₃).bytes.drop k).take 4 = digits 4 w.toNat) :
      loadWord after (lsArgsOf opdata + k) = w := by
    have hbytes : bytesAt after 4 (lsArgsOf opdata + k) = digits 4 w.toNat := by
      rw [← h]
      exact Mapped.bytesAt_put (by simpa [putLsRc] using hk)
    rw [loadWord_eq, hbytes, Mapped.number_digits w.toNat_lt, UInt32.ofNat_toNat]
  refine ⟨hword 0 _ (by decide) ?_, hword 4 _ (by decide) ?_, hword 12 _ (by decide) ?_⟩ <;>
    simp [putLsRc, List.drop_append, List.take_of_length_le, List.drop_of_length_le]

/-! ## Numbers -/

theorem toNat_ofInt (n : Int) : (UInt32.ofInt n).toNat = (n % 2 ^ 32).toNat := by
  simp only [UInt32.ofInt, UInt32.toNat_ofNat']
  omega

theorem intOf_ofInt {n : Int} : intOf (.ofInt n) = n ↔ -2 ^ 31 ≤ n ∧ n < 2 ^ 31 := by
  unfold intOf
  rw [toNat_ofInt]
  split <;> omega

theorem toNat_ofInt_eq {n : Int} : ((UInt32.ofInt n).toNat : Int) = n ↔ 0 ≤ n ∧ n < 2 ^ 32 := by
  rw [toNat_ofInt]
  omega

/-! ## Expressions and parameters -/

/-- The expressions that stand for a parameter. -/
def Item.exprs : Item → List Expr
  | .param i t =>
    match t with
    | .int | .offT | .ssizeT | .pidT | .keyT => [.int i]
    | .long => [.int i, .long i]
    | .sizeT | .modeT | .uidT | .gidT | .devT => [.unsigned i]
    | .pointer => [.lsPtr i, .lsPtrNull i]
    | .address => [.reg128 i]
    | .file => [.getFile i]
  | .stream nr => .getFileOf nr :: ([.stdin, .stdout, .stderr].filter (handleOf · = nr)).map .host
  | .buffering i => [.bufMode i]
  | .const n => [.const n]

/-- `t` is a type of numbers. -/
def CType.isNumber : CType → Bool
  | .pointer | .address | .file => false
  | _ => true

/-- The result is put where the SPE program looks for it, with `errno` if it is to be there. -/
def Put.returns : Put → Result → (errno : Bool) → Bool
  | .none, .void, errno | .zero, .void, errno => !errno
  | .rc, .num t, _ => t.isNumber
  | .rcOnly, .num t, errno => t.isNumber && !errno
  | .argIf i, .pointer j, _ | .arg i, .pointer j, _ => i == j
  | .addr64, .address, _ => true
  | _, _, _ => false

/-- The handler is written for this prototype. -/
def Handler.Matches (h : Handler) (p : Prototype) : Prop :=
  match h with
  | .call f args put | .unlessZero _ _ f args put =>
    f = p.func ∧ List.Forall₂ (fun e item => e ∈ item.exprs) args p.items ∧ put.returns p.result p.errno = true
  | .answer _ _ => True

instance (h : Handler) (p : Prototype) : Decidable (h.Matches p) :=
  match h with
  | .call .. | .unlessZero .. => inferInstanceAs (Decidable (_ ∧ _ ∧ _))
  | .answer .. => inferInstanceAs (Decidable True)

/-- Every handler is written for its prototype. -/
theorem handler_matches (shmCalls : Bool) (f : Func) : ∀ h ∈ f.handler shmCalls, ∀ p ∈ f.prototype, h.Matches p := by
  cases f with
  | c99 f => cases shmCalls <;> cases f <;> decide
  | posix1 f => cases shmCalls <;> cases f <;> decide

/-- The quadwords that an expression reads. -/
def Expr.quadwords : Expr → List Nat
  | .int i | .unsigned i | .long i | .lsPtr i | .lsPtrNull i | .reg128 i | .getFile i | .bufMode i => [i]
  | .getFileOf _ | .host _ | .const _ => []

/-- The quadwords that a handler reads. -/
def Handler.reads : Handler → List Nat
  | .call _ args _ => args.flatMap Expr.quadwords
  | .unlessZero i _ _ args _ => i :: args.flatMap Expr.quadwords
  | .answer _ _ => []

/-- **Frames**: a handler reads the quadwords that it declares, and puts a result if it has declared one. -/
theorem frame_covers (shmCalls : Bool) (f : Func) : ∀ h ∈ f.handler shmCalls,
    (∀ i ∈ h.reads, i < (f.frame shmCalls).args) ∧ (h.put ≠ .none ↔ (f.frame shmCalls).ret = true) := by
  cases f with
  | c99 f => cases shmCalls <;> cases f <;> decide
  | posix1 f => cases shmCalls <;> cases f <;> decide

/-! ## Arguments -/

section

variable {b : Build} {table : Table} {ls : Nat → UInt8} {opdata : UInt32} {e : Expr} {item : Item}

theorem toPtr_toNat (w : Words) : (EA.toPtr w : Ptr b).toNat = w.all64 % 2 ^ (8 * b.wordSize) := BitVec.toNat_ofNat ..

theorem longOf_eq (w : UInt32) : longOf b w = intOf w ↔ (b.wordSize = 8 → w.toNat < 2 ^ 31) := by
  unfold longOf intOf
  split
  · next hlong =>
    constructor
    · intro h _
      by_contra hge
      rw [if_neg hge] at h
      omega
    · intro h
      rw [if_pos (h hlong)]
  · next hlong => exact iff_of_true rfl fun h => absurd h hlong

/-- An expression has the value of its parameter exactly if the conversion keeps it. -/
theorem value_eq_iff (h : e ∈ item.exprs) :
    e.value b table ls opdata = item.value table ls opdata ↔ e.Kept table ls opdata b := by
  cases item with
  | param i t =>
    cases t with
    | int | offT | ssizeT | pidT | keyT | sizeT | modeT | uidT | gidT | devT | file =>
      obtain rfl := List.mem_singleton.mp h
      exact iff_of_true rfl trivial
    | long =>
      rcases List.mem_pair.mp h with rfl | rfl
      · exact iff_of_true rfl trivial
      · exact Iff.trans (by simp [Expr.value, Item.value, CType.value]) (longOf_eq _)
    | pointer =>
      rcases List.mem_pair.mp h with rfl | rfl
      · simp only [Expr.value, Item.value, CType.value, Expr.Kept]
        split
        · next hzero => exact iff_of_false nofun fun hne => hne hzero
        · next hne => exact iff_of_true rfl hne
      · exact iff_of_true rfl trivial
    | address =>
      obtain rfl := List.mem_singleton.mp h
      have hvalue : (Expr.reg128 i).value b table ls opdata =
          .addr ((argWords ls opdata i).all64 % 2 ^ (8 * b.wordSize)) := congrArg Value.addr (toPtr_toNat _)
      rw [hvalue, Item.value, CType.value, Value.addr.injEq]
      exact Nat.mod_eq_iff_lt (by simp)
  | stream nr =>
    rcases List.mem_cons.mp h with rfl | h
    · exact iff_of_true rfl trivial
    · obtain ⟨f, hf, rfl⟩ := List.mem_map.mp h
      obtain rfl : handleOf f = nr := by simpa using (List.mem_filter.mp hf).2
      simp only [Expr.value, Item.value, Expr.Kept, Value.file.injEq]
      exact eq_comm
  | buffering i =>
    obtain rfl := List.mem_singleton.mp h
    exact iff_of_true rfl trivial
  | const n =>
    obtain rfl := List.mem_singleton.mp h
    exact iff_of_true rfl trivial

/-- The host gets the values of the parameters exactly if every conversion keeps its own. -/
theorem values_eq_iff {args : List Expr} {items : List Item}
    (h : List.Forall₂ (fun e item => e ∈ item.exprs) args items) :
    args.map (Expr.value b table ls opdata) = items.map (Item.value table ls opdata) ↔
      ∀ e ∈ args, e.Kept table ls opdata b := by
  induction h with
  | nil => simp
  | cons hitem _ ih => rw [List.map_cons, List.map_cons, List.cons.injEq, value_eq_iff hitem, ih, List.forall_mem_cons]

end

/-! ## Results -/

section

variable {b : Build} {table : Table} {ls left : Nat → UInt8} {opdata slot₀ slot₁ slot₃ : UInt32} {a : Answer b}

/-- A number is received if it is one of the SPE program. -/
theorem number_iff {t : CType} (ht : t.isNumber = true) (h : argSlot left opdata 0 = .ofInt a.rc) :
    (Result.num t).Received table ls opdata a left ↔ t.Has a.rc := by
  have hsigned : Value.num (intOf (argSlot left opdata 0)) = .num a.rc ↔ -2 ^ 31 ≤ a.rc ∧ a.rc < 2 ^ 31 := by
    rw [h, Value.num.injEq]
    exact intOf_ofInt
  have hunsigned : Value.num (argSlot left opdata 0).toNat = .num a.rc ↔ 0 ≤ a.rc ∧ a.rc < 2 ^ 32 := by
    rw [h, Value.num.injEq]
    exact toNat_ofInt_eq
  cases t with
  | pointer | address | file => cases ht
  | sizeT | modeT | uidT | gidT | devT => exact hunsigned
  | int | long | offT | ssizeT | pidT | keyT => exact hsigned

theorem num_iff {t : CType} : t.Has a.rc ↔ ∀ t', Result.num t = .num t' → t'.Has a.rc := by simp

/-- The SPE program finds what has been put. -/
theorem received_iff {put : Put} {r : Result} {errno : Bool} (h : put.returns r errno = true) :
    (r.Received table ls opdata a (storeAll left (put.store left opdata a).toList) ∧ (errno = true →
      loadWord (storeAll left (put.store left opdata a).toList) (lsArgsOf opdata + 12) = a.errno)) ↔
      put.Fits ls opdata r a left := by
  cases put with
  | none =>
    cases r with
    | void => exact iff_of_true ⟨trivial, fun he => by simp [Put.returns, he] at h⟩ nofun
    | _ => cases h
  | zero =>
    cases r with
    | void => exact iff_of_true ⟨trivial, fun he => by simp [Put.returns, he] at h⟩ nofun
    | _ => cases h
  | rc =>
    cases r with
    | num t =>
      obtain ⟨hrc, -, herrno⟩ := loadWord_putLsRc left opdata (.ofInt a.rc) 0 0 a.errno
      refine (and_iff_left fun _ => herrno).trans ((number_iff h hrc).trans num_iff)
    | _ => cases h
  | rcOnly =>
    cases r with
    | num t =>
      obtain ⟨ht, he⟩ := (Bool.and_eq_true _ _).mp h
      obtain ⟨hrc, -, -⟩ := loadWord_putLsRc left opdata (.ofInt a.rc) 0 0 0
      refine (and_iff_left fun herrno => ?_).trans ((number_iff ht hrc).trans num_iff)
      simp [herrno] at he
    | _ => cases h
  | argIf i =>
    cases r with
    | pointer j =>
      obtain rfl : i = j := by simpa [Put.returns] using h
      obtain ⟨hrc, -, herrno⟩ := loadWord_putLsRc left opdata (if a.same then argSlot left opdata i else 0) 0 0 a.errno
      refine (and_iff_left fun _ => herrno).trans ?_
      have hslot : argSlot (storeAll left ((Put.argIf i).store left opdata a).toList) opdata 0 = _ := hrc
      simp only [Result.Received, hslot, Put.Fits]
      cases a.same <;> simp
    | _ => cases h
  | arg i =>
    cases r with
    | pointer j =>
      obtain rfl : i = j := by simpa [Put.returns] using h
      obtain ⟨hrc, -, herrno⟩ := loadWord_putLsRc left opdata (argSlot left opdata i) 0 0 a.errno
      have hslot : argSlot (storeAll left ((Put.arg i).store left opdata a).toList) opdata 0 = _ := hrc
      refine (and_iff_left fun _ => herrno).trans ?_
      simp only [Result.Received, hslot, Put.Fits]
    | _ => cases h
  | addr64 =>
    cases r with
    | address =>
      obtain ⟨hrc, hlow, herrno⟩ := loadWord_putLsRc left opdata (EA.ofPtr a.ptr).slot₀ (EA.ofPtr a.ptr).slot₁ 0 a.errno
      have hwords : argWords (storeAll left (Put.addr64.store left opdata a).toList) opdata 0 = EA.ofPtr a.ptr :=
        congrArg₂ Words.mk hrc hlow
      exact iff_of_true ⟨(congrArg Words.all64 hwords).trans (EA.all64_by32 (EA.ptr_lt a.ptr)), fun _ => herrno⟩ nofun
    | _ => cases h

/-- The result is stored to its quadword only. -/
theorem put_kept {put : Put} {x : Nat} (hx : ¬OutParam.InRet opdata x) :
    storeAll left (put.store left opdata a).toList x = left x := by
  have hmiss (s : Store) (hs : s ∈ put.store left opdata a) : ¬s.Covers x := by
    cases put with
    | none => cases hs
    | _ =>
      obtain rfl := Option.some.inj hs
      exact fun hc => hx (OutParam.covers_putLsRc.mp hc)
  exact Format.storeAll_uncovered fun s hs => hmiss s (Option.mem_toList.mp hs)

/-! ## The law -/

/-- A handler that calls the host serves the call if its conversions and its result do. -/
theorem callHost_served {host : Host b} {p : Prototype} {args : List Expr} {put : Put}
    (hargs : List.Forall₂ (fun e item => e ∈ item.exprs) args p.items) (hput : put.returns p.result p.errno = true) :
    Served table ls opdata p host (callHost table ls opdata host p.func args put) ↔
      (∀ e ∈ args, e.Kept table ls opdata b) ∧
        let a := host p.func (p.values table ls opdata)
        put.Fits ls opdata p.result a (storeAll ls a.stores) := by
  have hvalues : args.map (Expr.value b table ls opdata) = p.values table ls opdata ↔ _ := values_eq_iff hargs
  constructor
  · intro h
    have hsame : args.map (Expr.value b table ls opdata) = p.values table ls opdata :=
      congrArg Prod.snd (Option.some.inj h.asked)
    have hresult := h.result
    have herrno := h.errno
    simp only [callHost, hsame] at hresult herrno
    exact ⟨hvalues.mp hsame, (received_iff hput).mp ⟨hresult, herrno⟩⟩
  · rintro ⟨hkept, hfits⟩
    have hsame := hvalues.mpr hkept
    obtain ⟨hresult, herrno⟩ := (received_iff hput).mpr hfits
    unfold callHost
    rw [hsame]
    exact ⟨rfl, hresult, herrno, fun x hx => put_kept hx⟩

end

/-- A handler that is written for a prototype serves the calls that are clean. -/
theorem Handler.Matches.served {h : Handler} {p : Prototype} (hmatch : h.Matches p) (b : Build) (table : Table)
    (ls : Nat → UInt8) (opdata : UInt32) (host : Host b) :
    Served table ls opdata p host (h.run table ls opdata host) ↔ Clean table ls opdata h p host := by
  cases h with
  | call g args put =>
    obtain ⟨rfl, hargs, hput⟩ := hmatch
    refine (callHost_served hargs hput).trans ⟨fun h => ⟨trivial, h.1, h.2⟩, fun h => ⟨h.args, h.result⟩⟩
  | unlessZero i err g args put =>
    obtain ⟨rfl, hargs, hput⟩ := hmatch
    simp only [Handler.run]
    by_cases hzero : argSlot ls opdata i = 0
    · rw [if_pos hzero]
      exact iff_of_false (fun h => nomatch h.asked) fun h => h.asks hzero
    · rw [if_neg hzero]
      exact (callHost_served hargs hput).trans ⟨fun h => ⟨hzero, h.1, h.2⟩, fun h => ⟨h.args, h.result⟩⟩
  | answer rc err => exact iff_of_false (fun h => nomatch h.asked) fun h => h.asks

/-- **The plain calls**: for every handler, a call is served exactly if the host is asked, every argument keeps its
value, and the result fits. -/
theorem served_iff {shmCalls : Bool} {f : Func} {h : Handler} {p : Prototype} (hh : f.handler shmCalls = some h)
    (hp : f.prototype = some p) (b : Build) (table : Table) (ls : Nat → UInt8) (opdata : UInt32) (host : Host b) :
    Served table ls opdata p host (h.run table ls opdata host) ↔ Clean table ls opdata h p host :=
  (handler_matches shmCalls f h hh p hp).served b table ls opdata host

/-- A frame whose second quadword is `-1`. -/
def backwards : Nat → UInt8 := fun a => if 16 ≤ a ∧ a < 20 then 0xff else 0

/-- The table as the library starts with it, and a host that does nothing. -/
def noStreams : Table := ⟨3, fun _ => none⟩

def idleHost (b : Build) : Host b := fun _ _ => ⟨0, false, 0, 0, []⟩

/-- An `fseek` by `-1` on a 64-bit host moves by `0xffffffff`. -/
theorem fseek_backwards : ¬Served noStreams backwards 0 ((Func.c99 .fseek).plain [.file, .long, .int] .int)
    (idleHost .ppc64) (defaultC99HandlerFseek.run noStreams backwards 0 (idleHost .ppc64)) := by
  have hiff := @served_iff false (.c99 .fseek) _ _ rfl rfl .ppc64 noStreams backwards 0 (idleHost .ppc64)
  rw [hiff]
  intro h
  have hkept := h.args (.long 1) (by decide) rfl
  exact absurd hkept (by decide)

end LibSpe2.Marshal
