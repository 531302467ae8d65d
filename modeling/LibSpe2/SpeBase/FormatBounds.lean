import LibSpe2.SpeBase.Format

/-!
# The format parsers stay inside the format

A parser takes a step behind every directive and looks at the byte there. If the format ends inside the
directive, that byte is behind its `NUL`.

* `printfEnd`, `scanfEnd` — where a directive of a format ends, said of the format alone.
* `CutShort` — the format ends inside a directive.

Main results:
* `formatParsers_inside` — a parser stays inside the format, and inside the arrays, exactly if the format
  is not cut short.
* `formatParsers_overrun` — the format `%`.
-/

namespace LibSpe2.Format

variable {s d behind : List UInt8} {b : Build}

/-! ## Where a directive ends -/

/-- Behind a number or a `*`. -/
def dropNumber : List UInt8 → List UInt8
  | [] => []
  | c :: s => if isdigit c then (c :: s).dropWhile isdigit else if c = ch '*' then s else c :: s

/-- Behind a precision. -/
def dropPrecision : List UInt8 → List UInt8
  | [] => []
  | c :: s => if c = ch '.' then dropNumber s else c :: s

def isLength (c : UInt8) : Bool :=
  c = ch 'h' || c = ch 'l' || c = ch 'j' || c = ch 'z' || c = ch 't'

/-- From behind the `%` of a `printf` directive to its conversion. -/
def printfEnd (d : List UInt8) : Option (List UInt8) :=
  some ((dropPrecision (dropNumber (d.dropWhile isPrintfFlag))).dropWhile isLength)

/-- Behind a character, if it is the next one. -/
def dropChar (c : UInt8) : List UInt8 → List UInt8
  | [] => []
  | a :: s => if a = c then s else a :: s

/-- From behind the `[` of a scan set to its closing `]`, if there is one. -/
def setEnd (s : List UInt8) : Option (List UInt8) :=
  let s := dropChar (ch ']') (dropChar (ch '^') s)
  if ch ']' ∈ s then some (s.dropWhile (· ≠ ch ']')) else none

/-- From behind the `%` of a `scanf` directive to its conversion, or to the end of its scan set. -/
def scanfEnd (d : List UInt8) : Option (List UInt8) :=
  match (dropNumber (d.dropWhile (· = ch '*'))).dropWhile isLength with
  | [] => some []
  | c :: s => if c = ch '[' then setEnd s else some (c :: s)

/-- The format ends inside a directive. -/
inductive CutShort (endOf : List UInt8 → Option (List UInt8)) : List UInt8 → Prop
  | here {lit d : List UInt8} (hlit : ch '%' ∉ lit) (h : endOf d = some []) :
      CutShort endOf (lit ++ ch '%' :: d)
  | later {lit d s : List UInt8} {c : UInt8} (hlit : ch '%' ∉ lit) (h : endOf d = some (c :: s))
      (hs : CutShort endOf s) : CutShort endOf (lit ++ ch '%' :: d)

/-- A format that starts with a directive. -/
theorem CutShort.percent {endOf : List UInt8 → Option (List UInt8)} (h : CutShort endOf (ch '%' :: d)) :
    endOf d = some [] ∨ ∃ c s, endOf d = some (c :: s) ∧ CutShort endOf s := by
  generalize hs : ch '%' :: d = s at h
  cases h with
  | @here lit d' hlit hend =>
    cases lit with
    | nil =>
      obtain ⟨-, rfl⟩ := List.cons.inj hs
      exact .inl hend
    | cons a lit => exact absurd (by rw [(List.cons.inj hs).1]; exact List.mem_cons_self) hlit
  | @later lit d' s c hlit hend hlater =>
    cases lit with
    | nil =>
      obtain ⟨-, rfl⟩ := List.cons.inj hs
      exact .inr ⟨c, s, hend, hlater⟩
    | cons a lit => exact absurd (by rw [(List.cons.inj hs).1]; exact List.mem_cons_self) hlit

theorem CutShort.mem_percent {endOf : List UInt8 → Option (List UInt8)} (h : CutShort endOf s) :
    ch '%' ∈ s := by
  cases h <;> simp

/-! ## Strings -/

@[simp] theorem cString_nil : cString [] behind = 0 :: behind := rfl

@[simp] theorem cString_cons {c : UInt8} : cString (c :: s) behind = c :: cString s behind := rfl

@[simp] theorem deref_cons {c : UInt8} {p : Ptr} : deref (c :: p) = some c := rfl

theorem skipWhile_cString {P : UInt8 → Bool} (h0 : P 0 = false) :
    skipWhile P (cString s behind) = some (cString (s.dropWhile P) behind) := by
  induction s with
  | nil => simp [skipWhile, h0]
  | cons c s ih =>
    by_cases hc : P c
    · simp [skipWhile, hc, ih]
    · simp [skipWhile, hc]

theorem strchr_cString {c : UInt8} (hc : c ≠ 0) (hs : 0 ∉ s) :
    strchr c (cString s behind) =
      some (if c ∈ s then some (cString (s.dropWhile (· ≠ c)) behind) else none) := by
  induction s with
  | nil => simp [strchr, hc.symm]
  | cons a s ih =>
    obtain ⟨ha, hs'⟩ := not_or.mp (fun h => hs (List.mem_cons.mpr h))
    by_cases hac : a = c
    · simp [strchr, hac]
    · simp [strchr, hac, Ne.symm ha, ih hs', Ne.symm hac]

theorem nrFormatArgs_cString (hs : 0 ∉ s) :
    nrFormatArgs (cString s behind) = some (s.count (ch '%') * 3) := by
  have hgo : nrFormatArgs.go (cString s behind) = some (s.count (ch '%')) := by
    induction s with
    | nil => rfl
    | cons a s ih =>
      obtain ⟨ha, hs'⟩ := not_or.mp (fun h => hs (List.mem_cons.mpr h))
      by_cases hac : a = ch '%'
      · simp [nrFormatArgs.go, hac, ih hs', show ch '%' ≠ 0 by decide]
      · simp [nrFormatArgs.go, hac, Ne.symm ha, ih hs', List.count_cons_of_ne]
  rw [nrFormatArgs, hgo]
  rfl

/-- The first `%` of a format. -/
theorem split_percent (h : ch '%' ∈ s) : ∃ lit d, s = lit ++ ch '%' :: d ∧ ch '%' ∉ lit := by
  induction s with
  | nil => cases h
  | cons a s ih =>
    by_cases ha : a = ch '%'
    · exact ⟨[], s, by rw [ha]; rfl, by simp⟩
    · obtain ⟨lit, d, rfl, hlit⟩ := ih ((List.mem_cons.mp h).resolve_left (Ne.symm ha))
      exact ⟨a :: lit, d, rfl, by simp [hlit, Ne.symm ha]⟩

/-! ## Directives -/

/-- A directive is read up to its end, whatever is behind the format. -/
structure Reads (directive : Ptr → Option (Option (Ptr × List Push)))
    (endOf : List UInt8 → Option (List UInt8)) : Prop where
  read : ∀ d, 0 ∉ d → ∃ out, out.length ≤ 3 ∧ ∀ behind,
    directive (cString d behind) = some ((endOf d).map fun e => (cString e behind, out))
  suffix : ∀ d e, endOf d = some e → e <:+ d

theorem skipFieldWidth_cString (output : Bool) (s : List UInt8) :
    ∃ out, out.length ≤ 1 ∧ ∀ behind,
      skipFieldWidth output (cString s behind) = some (cString (dropNumber s) behind, out) := by
  cases s with
  | nil => exact ⟨[], by simp, fun _ => rfl⟩
  | cons c s =>
    by_cases hd : isdigit c
    · refine ⟨[], by simp, fun behind => ?_⟩
      have hskip : skipWhile isdigit (cString (c :: s) behind) =
          some (cString ((c :: s).dropWhile isdigit) behind) := skipWhile_cString (by decide)
      simp only [skipFieldWidth, cString_cons, deref_cons, Option.bind_eq_bind, Option.bind_some, hd,
        if_true, dropNumber]
      rw [← cString_cons, hskip]
      rfl
    · by_cases hc : c = ch '*'
      · refine ⟨if output then [.int] else [], by split <;> simp, fun behind => ?_⟩
        simp [skipFieldWidth, hc, dropNumber, show isdigit (ch '*') = false by decide]
      · exact ⟨[], by simp, fun behind => by simp [skipFieldWidth, hd, hc, dropNumber]⟩

theorem skipPrecision_cString (s : List UInt8) :
    ∃ out, out.length ≤ 1 ∧ ∀ behind,
      skipPrecision (cString s behind) = some (cString (dropPrecision s) behind, out) := by
  cases s with
  | nil => exact ⟨[], by simp, fun _ => rfl⟩
  | cons c s =>
    by_cases hc : c = ch '.'
    · -- behind the point, a precision is read as a field width
      obtain ⟨out, hout, h⟩ := skipFieldWidth_cString true s
      refine ⟨out, hout, fun behind => ?_⟩
      rw [dropPrecision, if_pos hc, ← h behind]
      simp [skipPrecision, skipFieldWidth, hc]
    · exact ⟨[], by simp, fun behind => by simp [skipPrecision, hc, dropPrecision]⟩

theorem skipLengthModifiers_cString (s : List UInt8) (h l : Nat) :
    ∃ h' l', ∀ behind, skipLengthModifiers h l (cString s behind) =
      some (cString (s.dropWhile isLength) behind, h', l') := by
  induction s generalizing h l with
  | nil => exact ⟨h, l, fun _ => rfl⟩
  | cons c s ih =>
    by_cases hh : c = ch 'h'
    · obtain ⟨h', l', ih⟩ := ih (h + 1) l
      exact ⟨h', l', fun behind => by simp [skipLengthModifiers, hh, ih, isLength]⟩
    by_cases hl : c = ch 'l'
    · obtain ⟨h', l', ih⟩ := ih h (l + 1)
      exact ⟨h', l', fun behind => by
        simp [skipLengthModifiers, hl, ih, isLength, show ch 'l' ≠ ch 'h' by decide]⟩
    by_cases hj : c = ch 'j'
    · obtain ⟨h', l', ih⟩ := ih h 2
      exact ⟨h', l', fun behind => by
        simp [skipLengthModifiers, hj, ih, isLength, show ch 'j' ≠ ch 'h' by decide,
          show ch 'j' ≠ ch 'l' by decide]⟩
    by_cases hz : c = ch 'z' ∨ c = ch 't'
    · obtain ⟨h', l', ih⟩ := ih h 1
      have hlen : isLength c := by rcases hz with rfl | rfl <;> decide
      exact ⟨h', l', fun behind => by simp [skipLengthModifiers, hh, hl, hj, hz, ih, hlen]⟩
    · obtain ⟨hz, ht⟩ := not_or.mp hz
      exact ⟨h, l, fun behind => by simp [skipLengthModifiers, hh, hl, hj, hz, ht, isLength]⟩

theorem skipScanfFlagChars_cString (sp : Bool) (s : List UInt8) :
    ∃ sp', ∀ behind, skipScanfFlagChars sp (cString s behind) =
      some (cString (s.dropWhile (· = ch '*')) behind, sp') := by
  induction s generalizing sp with
  | nil => exact ⟨sp, fun _ => rfl⟩
  | cons c s ih =>
    by_cases hc : c = ch '*'
    · obtain ⟨sp', ih⟩ := ih true
      exact ⟨sp', fun behind => by simp [skipScanfFlagChars, hc, ih]⟩
    · exact ⟨sp, fun behind => by simp [skipScanfFlagChars, hc]⟩

/-- A conversion pushes at most one argument. -/
theorem printfConversion_length (c : UInt8) (l : Nat) : (printfConversion b c l).length ≤ 1 := by
  unfold printfConversion
  repeat' split
  all_goals simp

theorem scanfConversion_length (c : UInt8) (l : Nat) (suppress : Bool) :
    (scanfConversion b c l suppress).length ≤ 1 := by
  unfold scanfConversion
  repeat' split
  all_goals simp

/-- The byte that is looked at behind the length modifiers. -/
theorem deref_cString (s : List UInt8) (behind : List UInt8) :
    deref (cString s behind) = some (s.headD 0) := by
  cases s <;> rfl

theorem dropNumber_suffix (s : List UInt8) : dropNumber s <:+ s := by
  unfold dropNumber
  split
  · exact List.suffix_refl _
  · split
    · exact List.dropWhile_suffix _
    · split
      · exact List.suffix_cons _ _
      · exact List.suffix_refl _

theorem dropPrecision_suffix (s : List UInt8) : dropPrecision s <:+ s := by
  unfold dropPrecision
  split
  · exact List.suffix_refl _
  · split
    · exact (dropNumber_suffix _).trans (List.suffix_cons _ _)
    · exact List.suffix_refl _

theorem dropChar_suffix (c : UInt8) (s : List UInt8) : dropChar c s <:+ s := by
  unfold dropChar
  split
  · exact List.suffix_refl _
  · split
    · exact List.suffix_cons _ _
    · exact List.suffix_refl _

theorem setEnd_suffix {e : List UInt8} (h : setEnd s = some e) : e <:+ s := by
  obtain ⟨-, h⟩ := Option.ite_none_right_eq_some.mp h
  obtain rfl := Option.some.inj h
  exact (List.dropWhile_suffix _).trans ((dropChar_suffix _ _).trans (dropChar_suffix _ _))

theorem printfDirective_reads : Reads (printfDirective b) printfEnd where
  read d _ := by
    obtain ⟨fw, hfw, h₁⟩ := skipFieldWidth_cString true (d.dropWhile isPrintfFlag)
    obtain ⟨pr, hpr, h₂⟩ := skipPrecision_cString (dropNumber (d.dropWhile isPrintfFlag))
    obtain ⟨h', l', h₃⟩ :=
      skipLengthModifiers_cString (dropPrecision (dropNumber (d.dropWhile isPrintfFlag))) 0 0
    refine ⟨fw ++ pr ++ printfConversion b
      (((dropPrecision (dropNumber (d.dropWhile isPrintfFlag))).dropWhile isLength).headD 0) l', ?_,
      fun behind => ?_⟩
    · have hconv := printfConversion_length (b := b)
        (((dropPrecision (dropNumber (d.dropWhile isPrintfFlag))).dropWhile isLength).headD 0) l'
      simp only [List.length_append]
      omega
    · have h₀ : skipPrintfFlagChars (cString d behind) =
          some (cString (d.dropWhile isPrintfFlag) behind) := skipWhile_cString (by decide)
      simp only [printfDirective, h₀, h₁, h₂, h₃, deref_cString, Option.bind_eq_bind, Option.bind_some,
        Option.pure_def, printfEnd, Option.map_some]
  suffix d e h := by
    obtain rfl := Option.some.inj h
    exact (List.dropWhile_suffix _).trans ((dropPrecision_suffix _).trans
      ((dropNumber_suffix _).trans (List.dropWhile_suffix _)))

theorem dropChar_cString {c : UInt8} (hc : c ≠ 0) (s : List UInt8) :
    (if s.headD 0 = c then (cString s behind).tail else cString s behind) =
      cString (dropChar c s) behind := by
  cases s with
  | nil => simp [hc.symm, dropChar]
  | cons a s =>
    by_cases ha : a = c
    · simp [ha, dropChar]
    · simp [ha, dropChar]

theorem skipCharSet_cString {c : UInt8} (hs : 0 ∉ s) :
    skipCharSet (cString (c :: s) behind) = some ((setEnd s).map fun e => cString e behind) := by
  have hset : 0 ∉ dropChar (ch ']') (dropChar (ch '^') s) := fun h =>
    hs ((dropChar_suffix _ _).mem ((dropChar_suffix _ _).mem h))
  simp only [skipCharSet, cString_cons, List.tail_cons, deref_cString, Option.bind_eq_bind,
    Option.bind_some, dropChar_cString (show ch '^' ≠ 0 by decide),
    dropChar_cString (show ch ']' ≠ 0 by decide)]
  rw [strchr_cString (by decide) hset, setEnd]
  split <;> rfl

theorem scanfDirective_reads : Reads (scanfDirective b) scanfEnd where
  read d hd := by
    obtain ⟨sp, h₁⟩ := skipScanfFlagChars_cString false d
    obtain ⟨fw, hfw, h₂⟩ := skipFieldWidth_cString false (d.dropWhile (· = ch '*'))
    obtain ⟨h', l', h₃⟩ := skipLengthModifiers_cString (dropNumber (d.dropWhile (· = ch '*'))) 0 0
    have hsuffix : (dropNumber (d.dropWhile (· = ch '*'))).dropWhile isLength <:+ d :=
      (List.dropWhile_suffix _).trans ((dropNumber_suffix _).trans (List.dropWhile_suffix _))
    simp only [scanfDirective, h₁, h₂, h₃, Option.bind_eq_bind, Option.bind_some, scanfEnd]
    cases hp : (dropNumber (d.dropWhile (· = ch '*'))).dropWhile isLength with
    | nil =>
      refine ⟨scanfConversion b 0 l' sp, Nat.le_trans (scanfConversion_length _ _ _) (by omega), fun behind => ?_⟩
      rfl
    | cons c s =>
      have hs : 0 ∉ s := fun h => hd (hsuffix.mem (hp ▸ List.mem_cons_of_mem _ h))
      by_cases hc : c = ch '['
      · -- a scan set: the error is its lack of a `]`
        refine ⟨if sp then [] else [.ptr], by split <;> simp, fun behind => ?_⟩
        simp only [cString_cons, deref_cons, Option.bind_some, hc, if_true]
        rw [← cString_cons, skipCharSet_cString hs]
        cases setEnd s <;> rfl
      · refine ⟨scanfConversion b c l' sp, Nat.le_trans (scanfConversion_length _ _ _) (by omega),
          fun behind => ?_⟩
        simp [hc]
  suffix d e h := by
    have hsuffix : (dropNumber (d.dropWhile (· = ch '*'))).dropWhile isLength <:+ d :=
      (List.dropWhile_suffix _).trans ((dropNumber_suffix _).trans (List.dropWhile_suffix _))
    simp only [scanfEnd] at h
    split at h
    case h_1 =>
      obtain rfl := Option.some.inj h
      exact List.nil_suffix
    case h_2 c s hp =>
      rw [hp] at hsuffix
      split at h
      · exact (setEnd_suffix h).trans ((List.suffix_cons _ _).trans hsuffix)
      · obtain rfl := Option.some.inj h
        exact hsuffix

/-! ## Formats -/

section
variable {directive : Ptr → Option (Option (Ptr × List Push))}
  {endOf : List UInt8 → Option (List UInt8)}

/-- The loop at a `%`. -/
theorem parseFormat_percent (nr : Nat) (p : Ptr) : parseFormat directive (nr + 1) (ch '%' :: p) = (do
    match ← directive p with
    | none => return (1, [])
    | some (p, out) =>
      let (rc, rest) ← parseFormat directive nr p.tail
      return (rc, out ++ rest)) := rfl

/-- Literal text is passed over. -/
theorem parseFormat_literal {c : UInt8} (hc : c ≠ ch '%' ∧ c ≠ 0) (nr : Nat) (a : UInt8) (p : Ptr) :
    parseFormat directive nr (c :: a :: p) = parseFormat directive nr (a :: p) := by
  cases nr with
  | zero => rfl
  | succ nr =>
    simp only [parseFormat, deref_cons, strchr, Option.bind_eq_bind, Option.bind_some, hc.1, hc.2, if_false]
    by_cases ha : a = 0
    · simp [ha, show (0 : UInt8) ≠ ch '%' by decide]
    · simp [ha]

theorem parseFormat_literals {lit : List UInt8} (hlit : ∀ c ∈ lit, c ≠ ch '%' ∧ c ≠ 0) (nr : Nat) (a : UInt8)
    (p : Ptr) : parseFormat directive nr (lit ++ a :: p) = parseFormat directive nr (a :: p) := by
  induction lit with
  | nil => rfl
  | cons c lit ih =>
    have ih := ih fun c hc => hlit c (List.mem_cons_of_mem _ hc)
    obtain ⟨a', p', hp⟩ : ∃ a' p', lit ++ a :: p = a' :: p' := by cases lit <;> exact ⟨_, _, rfl⟩
    rw [← ih, List.cons_append, hp]
    exact parseFormat_literal (hlit c List.mem_cons_self) nr a' p'

/-- The loop at a format whose first `%` is behind `lit`. -/
theorem parseFormat_split {lit : List UInt8} (hs : 0 ∉ lit ++ ch '%' :: d) (hlit : ch '%' ∉ lit) (nr : Nat) :
    parseFormat directive nr (cString (lit ++ ch '%' :: d) behind) =
      parseFormat directive nr (ch '%' :: cString d behind) := by
  have hchars : ∀ c ∈ lit, c ≠ ch '%' ∧ c ≠ 0 := fun c hc =>
    ⟨fun h => hlit (h ▸ hc), fun h => hs (List.mem_append_left _ (h ▸ hc))⟩
  rw [cString, List.append_assoc]
  exact parseFormat_literals hchars nr _ _

/-- A format that is not cut short is parsed inside it, and each of its directives pushes at most three
arguments. -/
theorem parseFormat_reads (hr : Reads directive endOf) (hs : 0 ∉ s) (hcut : ¬CutShort endOf s) (nr : Nat) :
    ∃ rc out, (∀ behind, parseFormat directive nr (cString s behind) = some (rc, out)) ∧
      out.length ≤ s.count (ch '%') * 3 := by
  induction nr generalizing s with
  | zero => exact ⟨0, [], fun _ => rfl, by simp⟩
  | succ nr ih =>
    by_cases hp : ch '%' ∈ s
    · obtain ⟨lit, d, rfl, hlit⟩ := split_percent hp
      have hd : 0 ∉ d := fun h => hs (by simp [h])
      obtain ⟨out, hlen, hread⟩ := hr.read d hd
      have hcount : (lit ++ ch '%' :: d).count (ch '%') = d.count (ch '%') + 1 := by
        rw [List.count_append, List.count_eq_zero_of_not_mem hlit, List.count_cons_self]
        omega
      cases hend : endOf d with
      | none =>
        -- the error of a scan set
        refine ⟨1, [], fun behind => ?_, by simp⟩
        rw [parseFormat_split hs hlit, parseFormat_percent, hread, hend]
        rfl
      | some e =>
        cases e with
        | nil => exact absurd (.here hlit hend) hcut
        | cons c e =>
          have he := hr.suffix d _ hend
          obtain ⟨rc, rest, hparse, hrest⟩ := ih (s := e)
            (fun h => hd (he.mem (List.mem_cons_of_mem _ h))) (fun h => hcut (.later hlit hend h))
          refine ⟨rc, out ++ rest, fun behind => ?_, ?_⟩
          · rw [parseFormat_split hs hlit, parseFormat_percent, hread, hend]
            simp [hparse]
          · have hle : e.count (ch '%') ≤ d.count (ch '%') :=
              ((List.suffix_cons c e).trans he).sublist.count_le _
            rw [List.length_append]
            omega
    · refine ⟨0, [], fun behind => ?_, by simp⟩
      have hstr : strchr (ch '%') (cString s behind) = some none := by
        rw [strchr_cString (by decide) hs, if_neg hp]
      simp [parseFormat, deref_cString, hstr]

/-- A format that is cut short is parsed beyond its end. -/
theorem parseFormat_overrun (hr : Reads directive endOf) (hcut : CutShort endOf s) (hs : 0 ∉ s) {nr : Nat}
    (hnr : s.count (ch '%') < nr) : parseFormat directive nr (cString s []) = none := by
  induction hcut generalizing nr with
  | @here lit d hlit hend =>
    have hcount : 0 < (lit ++ ch '%' :: d).count (ch '%') := List.count_pos_iff.mpr (by simp)
    obtain ⟨out, -, hread⟩ := hr.read d (fun h => hs (by simp [h]))
    obtain ⟨nr, rfl⟩ := Nat.exists_eq_add_of_lt hnr
    rw [parseFormat_split hs hlit, parseFormat_percent, hread, hend]
    -- the step behind the directive leaves the format
    have hout : ∀ n, 0 < n → parseFormat directive n [] = none := fun n hn => by
      obtain ⟨n, rfl⟩ := Nat.exists_eq_succ_of_ne_zero (Nat.ne_of_gt hn)
      rfl
    show (parseFormat directive _ []).bind _ = none
    rw [hout _ (by omega)]
    rfl
  | @later lit d s c hlit hend _ ih =>
    have hd : 0 ∉ d := fun h => hs (by simp [h])
    obtain ⟨out, -, hread⟩ := hr.read d hd
    have he := hr.suffix d _ hend
    have hle : s.count (ch '%') ≤ d.count (ch '%') :=
      ((List.suffix_cons c s).trans he).sublist.count_le _
    rw [List.count_append, List.count_eq_zero_of_not_mem hlit, List.count_cons_self] at hnr
    obtain ⟨nr, rfl⟩ := Nat.exists_eq_add_of_lt hnr
    rw [parseFormat_split hs hlit, parseFormat_percent, hread, hend]
    show (parseFormat directive _ (cString s [])).bind _ = none
    rw [ih (fun h => hd (he.mem (List.mem_cons_of_mem _ h))) (by omega)]
    rfl

end

/-! ## The parsers -/

/-- What the handlers allocate for `nr` arguments: room for one more, on the list and among the
temporaries. -/
structure Fits (b : Build) (nr : Nat) (out : List Push) : Prop where
  pushed : out.length ≤ nr
  temps : (out.filter (· = .temp)).length ≤ nr
  bytes : out.foldl (Push.advance b) 0 ≤ 8 * nr

/-- The parser, called as the handlers call it, reads no byte behind the format's `NUL`: it returns the
same whatever is there, also if nothing is. What it pushes fits. -/
def Inside (b : Build) (parser : Nat → Ptr → Option (Int × List Push)) (s : List UInt8) : Prop :=
  ∃ rc out, ∀ behind, ∃ nr, nrFormatArgs (cString s behind) = some nr ∧
    parser nr (cString s behind) = some (rc, out) ∧ Fits b nr out

theorem advance_le (vlist : Nat) (x : Push) (n : Nat) (h : vlist ≤ 8 * n) : x.advance b vlist ≤ 8 * (n + 1) := by
  cases b <;> cases x <;> simp only [Push.advance, Push.putSize, Build.wordSize] <;> omega

theorem foldl_advance_le (out : List Push) (vlist n : Nat) (h : vlist ≤ 8 * n) :
    out.foldl (Push.advance b) vlist ≤ 8 * (n + out.length) := by
  induction out generalizing vlist n with
  | nil => exact h
  | cons x out ih =>
    have := ih _ _ (advance_le (b := b) vlist x n h)
    simp only [List.foldl_cons, List.length_cons]
    omega

theorem Fits.of_length {nr : Nat} {out : List Push} (h : out.length ≤ nr) : Fits b nr out where
  pushed := h
  temps := Nat.le_trans (List.length_filter_le _ _) h
  bytes := by
    have := foldl_advance_le (b := b) out 0 0 (by omega)
    omega

theorem parser_inside {directive : Ptr → Option (Option (Ptr × List Push))}
    {endOf : List UInt8 → Option (List UInt8)} (hr : Reads directive endOf) (hs : 0 ∉ s) :
    Inside b (parseFormat directive) s ↔ ¬CutShort endOf s := by
  constructor
  · intro ⟨rc, out, h⟩ hcut
    obtain ⟨nr, hnr, hparse, -⟩ := h []
    obtain rfl := Option.some.inj ((nrFormatArgs_cString hs).symm.trans hnr)
    have hpos : 0 < s.count (ch '%') := List.count_pos_iff.mpr hcut.mem_percent
    rw [parseFormat_overrun hr hcut hs (by omega)] at hparse
    cases hparse
  · intro hcut
    obtain ⟨rc, out, hparse, hlen⟩ := parseFormat_reads hr hs hcut (s.count (ch '%') * 3)
    exact ⟨rc, out, fun behind => ⟨_, nrFormatArgs_cString hs, hparse behind, .of_length hlen⟩⟩

/-- A parser stays inside the format, and inside the arrays that its caller has allocated, exactly if the
format does not end inside a directive. -/
theorem formatParsers_inside (b : Build) (s : List UInt8) (hs : 0 ∉ s) :
    (Inside b (parsePrintfFormat b) s ↔ ¬CutShort printfEnd s) ∧
      (Inside b (parseScanfFormat b) s ↔ ¬CutShort scanfEnd s) :=
  ⟨parser_inside printfDirective_reads hs, parser_inside scanfDirective_reads hs⟩

/-- The bytes of a string. -/
def bytes (s : String) : List UInt8 := s.toList.map ch

/-- The format `%d` is not cut short. -/
theorem formatParsers_inside_int : Inside .ppc64 (parsePrintfFormat .ppc64) (bytes "%d") := by
  refine (formatParsers_inside .ppc64 (bytes "%d") (by decide)).1.mpr fun h => ?_
  obtain h | ⟨c, s, h, hs⟩ := CutShort.percent (d := bytes "d") h
  · revert h
    decide
  · obtain ⟨-, rfl⟩ := List.cons.inj (Option.some.inj h)
    exact absurd hs.mem_percent (by decide)

/-- The format `%` ends inside its directive. Where the byte behind its `NUL` is another `%d`, the parser
goes on there and moves an argument. -/
theorem formatParsers_overrun :
    parsePrintfFormat .ppc64 3 (cString (bytes "%") []) = none ∧
    parsePrintfFormat .ppc64 3 (cString (bytes "%") (bytes "%d" ++ [0])) = some (0, [.int]) ∧
    ¬Inside .ppc64 (parsePrintfFormat .ppc64) (bytes "%") ∧
    ¬Inside .ppc64 (parseScanfFormat .ppc64) (bytes "%") := by
  refine ⟨by decide, by decide, ?_, ?_⟩
  · intro ⟨rc, out, h⟩
    obtain ⟨nr, hnr, hparse, -⟩ := h []
    obtain rfl := Option.some.inj ((show _ = some 3 by decide).symm.trans hnr)
    exact absurd ((show parsePrintfFormat .ppc64 3 (cString (bytes "%") []) = none by decide).symm.trans
      hparse) (by simp)
  · intro ⟨rc, out, h⟩
    obtain ⟨nr, hnr, hparse, -⟩ := h []
    obtain rfl := Option.some.inj ((show _ = some 3 by decide).symm.trans hnr)
    exact absurd ((show parseScanfFormat .ppc64 3 (cString (bytes "%") []) = none by decide).symm.trans
      hparse) (by simp)

end LibSpe2.Format
