import LibSpe2.SpeBase.FormatBounds

/-!
# The format parsers and the grammar of C99

The formats of C99 as trees, with the arguments that a tree consumes, and the parsers on what the trees
are written as.

* `Arg` — the kinds of arguments, and how each is passed (`Passing`).
* `PrintfDirective`, `ScanfDirective` — a directive, with the length modifiers that C99 allows with its
  conversion.
* `Format` — literal text, `%%` and directives, in any order.

Main results:
* `formatParsers_agree` — what is moved is what the host consumes, exactly if no argument is a
  `long double`: the parsers do not know the modifier `L`.
* `formatParsers_longDouble` — `%Lf` is a format for which nothing is moved.
-/

namespace LibSpe2.Format

variable {b : Build}

/-! ## Arguments -/

/-- The kinds of arguments. -/
inductive Arg where
  | int | wint | long | longLong | intmax | size | ptrdiff | double | longDouble | pointer
  deriving DecidableEq

/-- How an argument is passed: its size in the list of the SPE, whether it is a floating-point number,
and its size in the list of the host. -/
structure Passing where
  speSize : Nat
  float : Bool
  hostSize : Nat
  deriving DecidableEq

/-- How C passes an argument from an SPE program, whose `long` and pointers have 4 bytes, and to the host.
`ld` is the size of the host's `long double`. -/
def Arg.passing (b : Build) (ld : Nat) : Arg → Passing
  | .int | .wint => ⟨4, false, 4⟩
  | .long | .size | .ptrdiff | .pointer => ⟨4, false, b.wordSize⟩
  | .longLong | .intmax => ⟨8, false, 8⟩
  | .double => ⟨8, true, 8⟩
  | .longDouble => ⟨8, true, ld⟩

/-- How the parsers pass it. -/
def Push.passing (b : Build) (x : Push) : Passing := ⟨x.fetchSize, x = .double, x.putSize b⟩

/-! ## The grammar -/

/-- The length modifiers. -/
inductive Length where
  | none | hh | h | l | ll | j | z | t | L
  deriving DecidableEq

def Length.render : Length → List UInt8
  | .none => []
  | .hh => [ch 'h', ch 'h']
  | .h => [ch 'h']
  | .l => [ch 'l']
  | .ll => [ch 'l', ch 'l']
  | .j => [ch 'j']
  | .z => [ch 'z']
  | .t => [ch 't']
  | .L => [ch 'L']

/-- The conversions, but for `%` and scan sets. -/
inductive Conv where
  | d | i | o | u | x | X | a | A | e | E | f | F | g | G | c | s | p | n
  deriving DecidableEq

def Conv.char : Conv → UInt8
  | .d => ch 'd' | .i => ch 'i' | .o => ch 'o' | .u => ch 'u' | .x => ch 'x' | .X => ch 'X'
  | .a => ch 'a' | .A => ch 'A' | .e => ch 'e' | .E => ch 'E' | .f => ch 'f' | .F => ch 'F'
  | .g => ch 'g' | .G => ch 'G' | .c => ch 'c' | .s => ch 's' | .p => ch 'p' | .n => ch 'n'

def Conv.isInt : Conv → Bool
  | .d | .i | .o | .u | .x | .X => true
  | _ => false

def Conv.isFloat : Conv → Bool
  | .a | .A | .e | .E | .f | .F | .g | .G => true
  | _ => false

/-- The length modifiers that C99 allows with a conversion. -/
def Conv.allows (conv : Conv) : Length → Bool
  | .none => true
  | .l => conv ≠ .p
  | .L => conv.isFloat
  | _ => conv.isInt || conv = .n

/-- A number, or nothing. -/
structure Digits where
  digits : List UInt8
  valid : ∀ c ∈ digits, isdigit c

/-- A field width, or what is behind the point of a precision. -/
inductive Width where
  | number (n : Digits)
  | star

def Width.render : Width → List UInt8
  | .number n => n.digits
  | .star => [ch '*']

/-- A `*` takes an `int`. -/
def Width.args : Width → List Arg
  | .number _ => []
  | .star => [.int]

/-- A directive of `printf`. -/
structure PrintfDirective where
  flags : List UInt8
  width : Width
  precision : Option Width
  length : Length
  conv : Conv
  flags_valid : ∀ c ∈ flags, c = ch '-' ∨ c = ch '+' ∨ c = ch ' ' ∨ c = ch '#' ∨ c = ch '0'
  length_allowed : conv.allows length

/-- A precision as it is written. -/
def renderPrecision : Option Width → List UInt8
  | none => []
  | some w => ch '.' :: w.render

def precisionArgs : Option Width → List Arg
  | none => []
  | some w => w.args

/-- The directive behind its `%`. -/
def PrintfDirective.render (d : PrintfDirective) : List UInt8 :=
  d.flags ++ d.width.render ++ renderPrecision d.precision ++ d.length.render ++ [d.conv.char]

/-- What a conversion of `printf` takes. -/
def Conv.printfArg (conv : Conv) (length : Length) : Arg :=
  if conv.isInt then
    match length with
    | .l => .long
    | .ll => .longLong
    | .j => .intmax
    | .z => .size
    | .t => .ptrdiff
    | _ => .int
  else if conv.isFloat then if length = .L then .longDouble else .double
  else if conv = .c then if length = .l then .wint else .int
  else .pointer

def PrintfDirective.args (d : PrintfDirective) : List Arg :=
  d.width.args ++ precisionArgs d.precision ++ [d.conv.printfArg d.length]

/-- A scan set, from behind its `[`. A `]` that stands first is a member. -/
structure ScanSet where
  negated : Bool
  bracket : Bool
  members : List UInt8
  members_valid : ∀ c ∈ members, c ≠ ch ']' ∧ c ≠ 0
  members_nonempty : bracket = false → members ≠ []
  members_head : negated = false → bracket = false → members.head? ≠ some (ch '^')

def ScanSet.render (s : ScanSet) : List UInt8 :=
  (if s.negated then [ch '^'] else []) ++ (if s.bracket then [ch ']'] else []) ++ s.members ++ [ch ']']

/-- What a directive of `scanf` converts. -/
inductive ScanConv where
  | single (conv : Conv) (length : Length) (allowed : conv.allows length)
  | set (wide : Bool) (s : ScanSet)

/-- The length modifier and the conversion. -/
def ScanConv.render : ScanConv → List UInt8
  | .single conv length _ => length.render ++ [conv.char]
  | .set wide s => (if wide then [ch 'l'] else []) ++ ch '[' :: s.render

/-- The modifier `L`. -/
def ScanConv.isLongDouble : ScanConv → Bool
  | .single _ length _ => length = .L
  | .set _ _ => false

/-- A directive of `scanf`. -/
structure ScanfDirective where
  suppress : Bool
  width : Digits
  conv : ScanConv

def ScanfDirective.render (d : ScanfDirective) : List UInt8 :=
  (if d.suppress then [ch '*'] else []) ++ d.width.digits ++ d.conv.render

def ScanfDirective.args (d : ScanfDirective) : List Arg := if d.suppress then [] else [.pointer]

/-- A part of a format. -/
inductive Item (D : Type) where
  | literal (c : UInt8) (h : c ≠ ch '%' ∧ c ≠ 0)
  | percent
  | directive (d : D)

section
variable {D : Type}

def Item.render (render : D → List UInt8) : Item D → List UInt8
  | .literal c _ => [c]
  | .percent => [ch '%', ch '%']
  | .directive d => ch '%' :: render d

/-- What the directives of a format stand for, in order. -/
def Item.each {α : Type} (of : D → List α) : Item D → List α
  | .literal _ _ | .percent => []
  | .directive d => of d

end

/-- The parser, called as the handlers call it, moves the arguments as they are passed. -/
def Agrees (b : Build) (ld : Nat) (parser : Nat → Ptr → Option (Int × List Push)) (s : List UInt8)
    (args : List Arg) : Prop :=
  ∀ behind, ∃ nr out, nrFormatArgs (cString s behind) = some nr ∧
    parser nr (cString s behind) = some (0, out) ∧
    out.map (Push.passing b) = args.map (Arg.passing b ld)

/-! ## What the parsers move -/

/-- What the code moves for a `*`. -/
def Width.pushes : Width → List Push
  | .number _ => []
  | .star => [.int]

def precisionPushes : Option Width → List Push
  | none => []
  | some w => w.pushes

/-- `format_long`. -/
def Length.formatLong : Length → Nat
  | .none | .hh | .h | .L => 0
  | .l | .z | .t => 1
  | .ll | .j => 2

def PrintfDirective.pushes (b : Build) (d : PrintfDirective) : List Push :=
  d.width.pushes ++ precisionPushes d.precision ++
    if d.length = .L then [] else printfConversion b d.conv.char d.length.formatLong

def ScanfDirective.pushes (b : Build) (d : ScanfDirective) : List Push :=
  match d.conv with
  | .single conv length _ =>
    if length = .L then [] else scanfConversion b conv.char length.formatLong d.suppress
  | .set _ _ => if d.suppress then [] else [.ptr]

/-- A character that neither the flags nor a number nor a `*` can start with. -/
def Plain (c : UInt8) : Prop := isPrintfFlag c = false ∧ isdigit c = false ∧ c ≠ ch '*'

instance (c : UInt8) : Decidable (Plain c) := by unfold Plain; infer_instance

/-! ## The macros on what is written -/

variable {c : UInt8} {p : Ptr}

theorem skipWhile_append {P : UInt8 → Bool} {xs : List UInt8} (h : ∀ x ∈ xs, P x) (p : Ptr) :
    skipWhile P (xs ++ p) = skipWhile P p := by
  induction xs with
  | nil => rfl
  | cons x xs ih =>
    rw [List.cons_append, skipWhile, if_pos (h x List.mem_cons_self)]
    exact ih fun x hx => h x (List.mem_cons_of_mem _ hx)

theorem skipWhile_stop {P : UInt8 → Bool} (h : P c = false) : skipWhile P (c :: p) = some (c :: p) := by
  simp [skipWhile, h]

/-- A number is passed over. -/
theorem skipFieldWidth_digits (output : Bool) (n : Digits) (hc : isdigit c = false ∧ c ≠ ch '*') :
    skipFieldWidth output (n.digits ++ c :: p) = some (c :: p, []) := by
  cases hn : n.digits with
  | nil => simp [skipFieldWidth, hc]
  | cons x xs =>
    have hx : isdigit x := n.valid x (by rw [hn]; exact List.mem_cons_self)
    have hskip : skipWhile isdigit (x :: xs ++ c :: p) = some (c :: p) := by
      rw [← hn, skipWhile_append n.valid, skipWhile_stop hc.1]
    simp only [skipFieldWidth, List.cons_append, deref_cons, Option.bind_eq_bind, Option.bind_some, hx,
      if_true]
    rw [← List.cons_append, hskip]
    rfl

theorem skipFieldWidth_width (w : Width) (hc : isdigit c = false ∧ c ≠ ch '*') :
    skipFieldWidth true (w.render ++ c :: p) = some (c :: p, w.pushes) := by
  cases w with
  | number n => exact skipFieldWidth_digits true n hc
  | star => simp [skipFieldWidth, Width.render, Width.pushes, show isdigit (ch '*') = false by decide]

/-- The flags may take zeros from the front of a number. -/
theorem skipPrintfFlagChars_width {flags : List UInt8} (hflags : ∀ x ∈ flags, isPrintfFlag x) (w : Width)
    (hc : isPrintfFlag c = false) : ∃ w' : Width, w'.pushes = w.pushes ∧
      skipPrintfFlagChars (flags ++ (w.render ++ c :: p)) = some (w'.render ++ c :: p) := by
  rw [skipPrintfFlagChars, skipWhile_append hflags]
  cases w with
  | star => exact ⟨.star, rfl, skipWhile_stop (by decide)⟩
  | number n =>
    obtain ⟨digits, valid⟩ := n
    induction digits with
    | nil => exact ⟨.number ⟨[], by simp⟩, rfl, skipWhile_stop hc⟩
    | cons x xs ih =>
      by_cases hx : isPrintfFlag x
      · obtain ⟨w', hw', h⟩ := ih fun y hy => valid y (List.mem_cons_of_mem _ hy)
        refine ⟨w', hw', ?_⟩
        show skipWhile isPrintfFlag (x :: (xs ++ c :: p)) = _
        rw [skipWhile, if_pos hx]
        exact h
      · exact ⟨.number ⟨x :: xs, valid⟩, rfl, skipWhile_stop (by simpa using hx)⟩

theorem skipPrecision_render (pr : Option Width) (hc : Plain c ∧ c ≠ ch '.') :
    skipPrecision (renderPrecision pr ++ c :: p) = some (c :: p, precisionPushes pr) := by
  obtain ⟨⟨-, hdigit, hstar⟩, hdot⟩ := hc
  cases pr with
  | none => simp [skipPrecision, renderPrecision, precisionPushes, hdot]
  | some w =>
    -- behind the point, a precision is read as a field width
    rw [precisionPushes, ← skipFieldWidth_width (p := p) w ⟨hdigit, hstar⟩]
    simp [skipPrecision, skipFieldWidth, renderPrecision]

theorem skipLengthModifiers_stop (h l : Nat) (hc : isLength c = false) :
    skipLengthModifiers h l (c :: p) = some (c :: p, h, l) := by
  simp only [isLength, Bool.or_eq_false_iff, decide_eq_false_iff_not] at hc
  simp [skipLengthModifiers, hc]

theorem skipLengthModifiers_render {length : Length} (hlength : length ≠ .L) (hc : isLength c = false) :
    ∃ h, skipLengthModifiers 0 0 (length.render ++ c :: p) = some (c :: p, h, length.formatLong) := by
  cases length with
  | none => exact ⟨0, skipLengthModifiers_stop 0 0 hc⟩
  | hh => exact ⟨2, skipLengthModifiers_stop 2 0 hc⟩
  | h => exact ⟨1, skipLengthModifiers_stop 1 0 hc⟩
  | l => exact ⟨0, skipLengthModifiers_stop 0 1 hc⟩
  | ll => exact ⟨0, skipLengthModifiers_stop 0 2 hc⟩
  | j => exact ⟨0, skipLengthModifiers_stop 0 2 hc⟩
  | z => exact ⟨0, skipLengthModifiers_stop 0 1 hc⟩
  | t => exact ⟨0, skipLengthModifiers_stop 0 1 hc⟩
  | L => exact absurd rfl hlength

/-- A length modifier and a conversion start with neither a flag, a number, a `*` nor a point. -/
theorem plain_length (conv : Conv) (length : Length) :
    ∃ c q, length.render ++ [conv.char] = c :: q ∧ Plain c ∧ c ≠ ch '.' := by
  cases length with
  | none => exact ⟨conv.char, [], rfl, by cases conv <;> decide⟩
  | _ => exact ⟨_, _, rfl, by decide⟩

theorem isLength_char (conv : Conv) : isLength conv.char = false := by cases conv <;> rfl

/-! ## Directives -/

/-- A directive is read up to its conversion, or up to an `L`, and the rest of it is taken for text. -/
structure Follows {D : Type} (directive : Ptr → Option (Option (Ptr × List Push)))
    (render : D → List UInt8) (pushes : D → List Push) : Prop where
  follow : ∀ d, ∃ e lit, (∀ c ∈ lit, c ≠ ch '%' ∧ c ≠ 0) ∧
    ∀ p, directive (render d ++ p) = some (some (e :: lit ++ p, pushes d))
  percent : ∀ p, directive (ch '%' :: p) = some (some (ch '%' :: p, []))
  no_nul : ∀ d, 0 ∉ render d

theorem char_text (conv : Conv) : conv.char ≠ ch '%' ∧ conv.char ≠ 0 := by cases conv <;> decide

/-- The part of a `printf` directive before its length modifier. -/
theorem printfDirective_length (d : PrintfDirective) (p : Ptr) : printfDirective b (d.render ++ p) = (do
    let (p, _, formatLong) ← skipLengthModifiers 0 0 (d.length.render ++ d.conv.char :: p)
    let c ← deref p
    return some (p, d.width.pushes ++ precisionPushes d.precision ++ printfConversion b c formatLong)) := by
  have hflags : ∀ x ∈ d.flags, isPrintfFlag x := fun x hx => by
    obtain rfl | rfl | rfl | rfl | rfl := d.flags_valid x hx <;> decide
  obtain ⟨c, q, hcq, hplain, hdot⟩ := plain_length d.conv d.length
  have htail : d.length.render ++ d.conv.char :: p = c :: (q ++ p) := by
    rw [← List.cons_append, ← hcq]
    simp
  have hrender : d.render ++ p =
      d.flags ++ (d.width.render ++ (renderPrecision d.precision ++ c :: (q ++ p))) := by
    rw [← htail]
    simp [PrintfDirective.render]
  -- the first character behind the width
  obtain ⟨c', p', hc', hflag, hdigit, hstar⟩ :
      ∃ c' p', renderPrecision d.precision ++ c :: (q ++ p) = c' :: p' ∧ Plain c' := by
    cases d.precision with
    | none => exact ⟨c, q ++ p, rfl, hplain⟩
    | some w => exact ⟨ch '.', _, rfl, by decide⟩
  obtain ⟨w', hw', hskip⟩ := skipPrintfFlagChars_width (p := p') hflags d.width hflag
  have hwidth : skipFieldWidth true (w'.render ++ c' :: p') = some (c' :: p', d.width.pushes) := by
    rw [skipFieldWidth_width w' ⟨hdigit, hstar⟩, hw']
  have hprecision : skipPrecision (c' :: p') = some (c :: (q ++ p), precisionPushes d.precision) := by
    rw [← hc']
    exact skipPrecision_render d.precision ⟨hplain, hdot⟩
  rw [hrender, hc', printfDirective, hskip, htail]
  simp only [Option.bind_eq_bind, Option.bind_some, hwidth, hprecision]

theorem printfDirective_render (d : PrintfDirective) : ∃ e lit, (∀ c ∈ lit, c ≠ ch '%' ∧ c ≠ 0) ∧
    ∀ p, printfDirective b (d.render ++ p) = some (some (e :: lit ++ p, d.pushes b)) := by
  by_cases hL : d.length = .L
  · refine ⟨ch 'L', [d.conv.char], by simpa using char_text d.conv, fun p => ?_⟩
    have hstop : skipLengthModifiers 0 0 (Length.L.render ++ d.conv.char :: p) =
        some (ch 'L' :: d.conv.char :: p, 0, 0) := skipLengthModifiers_stop 0 0 (by decide)
    rw [printfDirective_length, hL, hstop, PrintfDirective.pushes, if_pos hL]
    cases b <;> rfl
  · refine ⟨d.conv.char, [], by simp, fun p => ?_⟩
    obtain ⟨h, hlength⟩ := skipLengthModifiers_render (p := p) hL (isLength_char d.conv)
    rw [printfDirective_length, hlength, PrintfDirective.pushes, if_neg hL]
    rfl

theorem strchr_members {xs : List UInt8} (h : ∀ x ∈ xs, x ≠ ch ']' ∧ x ≠ 0) (p : Ptr) :
    strchr (ch ']') (xs ++ ch ']' :: p) = some (some (ch ']' :: p)) := by
  induction xs with
  | nil => simp [strchr]
  | cons x xs ih =>
    obtain ⟨hx, h0⟩ := h x List.mem_cons_self
    rw [List.cons_append, strchr, if_neg hx, if_neg h0]
    exact ih fun y hy => h y (List.mem_cons_of_mem _ hy)

/-- A scan set ends at the `]` that closes it. -/
theorem skipCharSet_render (s : ScanSet) (c : UInt8) (p : Ptr) :
    skipCharSet (c :: (s.render ++ p)) = some (some (ch ']' :: p)) := by
  obtain ⟨negated, bracket, members, hmembers, hnonempty, hhead⟩ := s
  have hend := strchr_members hmembers p
  cases bracket with
  | true => cases negated <;> simp [skipCharSet, ScanSet.render, hend, show ch ']' ≠ ch '^' by decide]
  | false =>
    -- the first member is not taken for a `^` or for a `]` that stands first
    obtain ⟨m, ms, rfl⟩ := List.exists_cons_of_ne_nil (hnonempty rfl)
    have hm := (hmembers m List.mem_cons_self).1
    cases negated with
    | true => simpa [skipCharSet, ScanSet.render, hm] using hend
    | false =>
      have hm' : m ≠ ch '^' := by simpa using hhead rfl rfl
      simpa [skipCharSet, ScanSet.render, hm, hm'] using hend

/-- A length modifier before a scan set or a conversion, and what it starts with. -/
theorem plain_scanConv (conv : ScanConv) : ∃ c q, conv.render = c :: q ∧ Plain c := by
  cases conv with
  | single conv length _ =>
    obtain ⟨c, q, h, hc, -⟩ := plain_length conv length
    exact ⟨c, q, h, hc⟩
  | set wide s =>
    cases wide with
    | true => exact ⟨ch 'l', ch '[' :: s.render, rfl, by decide⟩
    | false => exact ⟨ch '[', s.render, rfl, by decide⟩

/-- The part of a `scanf` directive before its length modifier. -/
theorem scanfDirective_length (d : ScanfDirective) (p : Ptr) : scanfDirective b (d.render ++ p) = (do
    let (p, _, formatLong) ← skipLengthModifiers 0 0 (d.conv.render ++ p)
    let c ← deref p
    if c = ch '[' then
      match ← skipCharSet p with
      | none => return none
      | some p => return some (p, if d.suppress then [] else [.ptr])
    else return some (p, scanfConversion b c formatLong d.suppress)) := by
  obtain ⟨c, q, hcq, -, hdigit, hstar⟩ := plain_scanConv d.conv
  have hrender : d.render ++ p =
      (if d.suppress then [ch '*'] else []) ++ (d.width.digits ++ c :: (q ++ p)) := by
    rw [← List.cons_append, ← hcq]
    simp [ScanfDirective.render]
  -- the first character behind the `*`
  obtain ⟨c', p', hc', hstar'⟩ :
      ∃ c' p', d.width.digits ++ c :: (q ++ p) = c' :: p' ∧ c' ≠ ch '*' := by
    cases hw : d.width.digits with
    | nil => exact ⟨c, q ++ p, rfl, hstar⟩
    | cons x xs =>
      refine ⟨x, _, rfl, fun hx => ?_⟩
      have := d.width.valid x (by rw [hw]; exact List.mem_cons_self)
      rw [hx] at this
      exact absurd this (by decide)
  have hskip : skipScanfFlagChars false (d.render ++ p) = some (c' :: p', d.suppress) := by
    rw [hrender, hc']
    cases d.suppress <;> simp [skipScanfFlagChars, hstar']
  have hwidth : skipFieldWidth false (c' :: p') = some (d.conv.render ++ p, []) := by
    rw [← hc', skipFieldWidth_digits false d.width ⟨hdigit, hstar⟩, hcq]
    rfl
  show (skipScanfFlagChars false (d.render ++ p)).bind _ = _
  rw [hskip]
  show (skipFieldWidth false (c' :: p')).bind _ = _
  rw [hwidth]
  rfl

theorem char_ne_bracket (conv : Conv) : conv.char ≠ ch '[' := by cases conv <;> decide

theorem scanfDirective_render (d : ScanfDirective) : ∃ e lit, (∀ c ∈ lit, c ≠ ch '%' ∧ c ≠ 0) ∧
    ∀ p, scanfDirective b (d.render ++ p) = some (some (e :: lit ++ p, d.pushes b)) := by
  cases hconv : d.conv with
  | set wide s =>
    refine ⟨ch ']', [], by simp, fun p => ?_⟩
    obtain ⟨l, hl⟩ : ∃ l, skipLengthModifiers 0 0 (d.conv.render ++ p) =
        some (ch '[' :: (s.render ++ p), 0, l) := by
      rw [hconv]
      cases wide with
      | true =>
        refine ⟨1, ?_⟩
        show skipLengthModifiers 0 1 (ch '[' :: (s.render ++ p)) = _
        exact skipLengthModifiers_stop 0 1 (by decide)
      | false => exact ⟨0, skipLengthModifiers_stop 0 0 (by decide)⟩
    rw [scanfDirective_length, hl]
    simp only [Option.bind_eq_bind, Option.bind_some, deref_cons, if_true, skipCharSet_render,
      ScanfDirective.pushes, hconv]
    rfl
  | single conv length allowed =>
    by_cases hL : length = .L
    · refine ⟨ch 'L', [conv.char], by simpa using char_text conv, fun p => ?_⟩
      have hstop : skipLengthModifiers 0 0 (d.conv.render ++ p) =
          some (ch 'L' :: conv.char :: p, 0, 0) := by
        rw [hconv, ScanConv.render, hL, List.append_assoc]
        exact skipLengthModifiers_stop 0 0 (by decide)
      rw [scanfDirective_length, hstop, ScanfDirective.pushes, hconv]
      simp only [hL, if_true]
      rfl
    · refine ⟨conv.char, [], by simp, fun p => ?_⟩
      obtain ⟨h, hlength⟩ := skipLengthModifiers_render (p := p) hL (isLength_char conv)
      have hlength' : skipLengthModifiers 0 0 (d.conv.render ++ p) =
          some (conv.char :: p, h, length.formatLong) := by
        rw [hconv, ScanConv.render, List.append_assoc]
        exact hlength
      rw [scanfDirective_length, hlength', ScanfDirective.pushes, hconv]
      simp only [Option.bind_eq_bind, Option.bind_some, deref_cons, char_ne_bracket, if_false, hL]
      rfl

/-! ## No `NUL` -/

theorem Digits.no_nul (n : Digits) : 0 ∉ n.digits := fun h => absurd (n.valid 0 h) (by decide)

theorem Length.no_nul (length : Length) : 0 ∉ length.render := by cases length <;> decide

theorem Width.no_nul (w : Width) : 0 ∉ w.render := by
  cases w with
  | number n => exact n.no_nul
  | star => decide

theorem PrintfDirective.no_nul (d : PrintfDirective) : 0 ∉ d.render := by
  have hflags : 0 ∉ d.flags := fun h => absurd (d.flags_valid 0 h) (by decide)
  have hprecision : 0 ∉ renderPrecision d.precision := by
    cases d.precision with
    | none => simp [renderPrecision]
    | some w => simp [renderPrecision, w.no_nul, show (0 : UInt8) ≠ ch '.' by decide]
  simp [PrintfDirective.render, hflags, d.width.no_nul, hprecision, d.length.no_nul,
    (char_text d.conv).2.symm]

theorem ScanSet.no_nul (s : ScanSet) : 0 ∉ s.render := by
  have hmembers : 0 ∉ s.members := fun h => (s.members_valid 0 h).2 rfl
  cases hn : s.negated <;> cases hb : s.bracket <;>
    simp [ScanSet.render, hn, hb, hmembers, show (0 : UInt8) ≠ ch '^' by decide,
      show (0 : UInt8) ≠ ch ']' by decide]

theorem ScanfDirective.no_nul (d : ScanfDirective) : 0 ∉ d.render := by
  have hconv : 0 ∉ d.conv.render := by
    cases d.conv with
    | single conv length _ => simp [ScanConv.render, length.no_nul, (char_text conv).2.symm]
    | set wide s =>
      cases wide <;> simp [ScanConv.render, s.no_nul, show (0 : UInt8) ≠ ch '[' by decide,
        show (0 : UInt8) ≠ ch 'l' by decide]
  cases hs : d.suppress <;>
    simp [ScanfDirective.render, hs, d.width.no_nul, hconv, show (0 : UInt8) ≠ ch '*' by decide]

/-! ## Formats -/

theorem printfDirective_follows :
    Follows (printfDirective b) PrintfDirective.render (PrintfDirective.pushes b) where
  follow := printfDirective_render
  percent p := by cases b <;> rfl
  no_nul := PrintfDirective.no_nul

theorem scanfDirective_follows :
    Follows (scanfDirective b) ScanfDirective.render (ScanfDirective.pushes b) where
  follow := scanfDirective_render
  percent p := by cases b <;> rfl
  no_nul := ScanfDirective.no_nul

section
variable {D : Type} {directive : Ptr → Option (Option (Ptr × List Push))} {render : D → List UInt8}
  {pushes : D → List Push} {args : D → List Arg} {known : D → Prop}

theorem Item.no_nul (hr : ∀ d, 0 ∉ render d) (x : Item D) : 0 ∉ x.render render := by
  cases x with
  | literal c h => simpa [Item.render] using h.2.symm
  | percent => simp [Item.render, show (0 : UInt8) ≠ ch '%' by decide]
  | directive d => simpa [Item.render, show (0 : UInt8) ≠ ch '%' by decide] using hr d

/-- A format is parsed part by part. -/
theorem parseFormat_items (hf : Follows directive render pushes) (items : List (Item D)) (behind : List UInt8)
    (nr : Nat) (hnr : (items.flatMap (Item.render render)).count (ch '%') ≤ nr) :
    parseFormat directive nr (cString (items.flatMap (Item.render render)) behind) =
      some (0, items.flatMap (Item.each pushes)) := by
  induction items generalizing nr with
  | nil => cases nr <;> rfl
  | cons x items ih =>
    obtain ⟨a, p, hrest⟩ : ∃ a p, cString (items.flatMap (Item.render render)) behind = a :: p := by
      cases items.flatMap (Item.render render) <;> exact ⟨_, _, rfl⟩
    have hcons : cString ((x :: items).flatMap (Item.render render)) behind =
        x.render render ++ cString (items.flatMap (Item.render render)) behind := by
      simp [cString]
    rw [List.flatMap_cons, List.count_append] at hnr
    rw [hcons]
    cases x with
    | literal c h =>
      rw [hrest]
      show parseFormat directive nr (c :: a :: p) = _
      rw [parseFormat_literal h, ← hrest]
      exact ih nr (by omega)
    | percent =>
      have hcount : (Item.percent.render render).count (ch '%') = 2 := rfl
      obtain ⟨nr, rfl⟩ : ∃ n, nr = n + 1 := ⟨nr - 1, by omega⟩
      show parseFormat directive (nr + 1)
        (ch '%' :: ch '%' :: cString (items.flatMap (Item.render render)) behind) = _
      rw [parseFormat_percent, hf.percent]
      show (parseFormat directive nr (cString _ behind)).bind _ = _
      rw [ih nr (by omega)]
      rfl
    | directive d =>
      have hcount : 0 < ((Item.directive d).render render).count (ch '%') :=
        List.count_pos_iff.mpr List.mem_cons_self
      obtain ⟨nr, rfl⟩ : ∃ n, nr = n + 1 := ⟨nr - 1, by omega⟩
      obtain ⟨e, lit, hlit, hdirective⟩ := hf.follow d
      show parseFormat directive (nr + 1)
        (ch '%' :: (render d ++ cString (items.flatMap (Item.render render)) behind)) = _
      rw [parseFormat_percent, hdirective]
      show (parseFormat directive nr (lit ++ cString _ behind)).bind _ = _
      rw [hrest, parseFormat_literals hlit, ← hrest, ih nr (by omega)]
      rfl

/-- What each directive of a format leaves equal, the format leaves equal. -/
theorem each_map_eq {α β γ : Type} {of : D → List α} {of' : D → List β} {g : α → γ} {g' : β → γ}
    {items : List (Item D)} (h : ∀ d, .directive d ∈ items → (of d).map g = (of' d).map g') :
    (items.flatMap (Item.each of)).map g = (items.flatMap (Item.each of')).map g' := by
  induction items with
  | nil => rfl
  | cons x items ih =>
    rw [List.flatMap_cons, List.flatMap_cons, List.map_append, List.map_append,
      ih fun d hd => h d (List.mem_cons_of_mem _ hd)]
    congr 1
    cases x with
    | directive d => exact h d List.mem_cons_self
    | _ => rfl

theorem each_length_le {α β : Type} {of : D → List α} {of' : D → List β}
    (h : ∀ d, (of d).length ≤ (of' d).length) (items : List (Item D)) :
    (items.flatMap (Item.each of)).length ≤ (items.flatMap (Item.each of')).length := by
  induction items with
  | nil => exact Nat.le_refl _
  | cons x items ih =>
    rw [List.flatMap_cons, List.flatMap_cons, List.length_append, List.length_append]
    apply Nat.add_le_add _ ih
    cases x with
    | directive d => exact h d
    | _ => exact Nat.le_refl _

/-- One directive that stands for too little is enough. -/
theorem each_length_lt {α β : Type} {of : D → List α} {of' : D → List β}
    (h : ∀ d, (of d).length ≤ (of' d).length) {items : List (Item D)} {d : D} (hmem : .directive d ∈ items)
    (hless : (of d).length < (of' d).length) :
    (items.flatMap (Item.each of)).length < (items.flatMap (Item.each of')).length := by
  obtain ⟨before, behind, rfl⟩ := List.append_of_mem hmem
  have hbefore := each_length_le h before
  have hbehind := each_length_le h behind
  simp only [List.flatMap_append, List.flatMap_cons, List.length_append]
  show _ + ((of d).length + _) < _ + ((of' d).length + _)
  omega

/-- Directives that the parser knows move what they should; the others move too little. Then a whole
format moves what it should exactly if the parser knows all its directives. -/
theorem moved_iff {ld : Nat} (h : ∀ d, known d → (pushes d).map (Push.passing b) = (args d).map (Arg.passing b ld))
    (hless : ∀ d, ¬known d → (pushes d).length < (args d).length) (items : List (Item D)) :
    (items.flatMap (Item.each pushes)).map (Push.passing b) =
        (items.flatMap (Item.each args)).map (Arg.passing b ld) ↔
      ∀ d, .directive d ∈ items → known d := by
  have hle : ∀ d, (pushes d).length ≤ (args d).length := fun d => by
    by_cases hd : known d
    · exact Nat.le_of_eq (by simpa using congrArg List.length (h d hd))
    · exact Nat.le_of_lt (hless d hd)
  constructor
  · intro heq d hmem
    by_contra hd
    have hlength := congrArg List.length heq
    rw [List.length_map, List.length_map] at hlength
    exact absurd hlength (Nat.ne_of_lt (each_length_lt hle hmem (hless d hd)))
  · intro hall
    exact each_map_eq fun d hmem => h d (hall d hmem)

/-- What a handler's parser does with a format. -/
theorem parse_items (hf : Follows directive render pushes) (items : List (Item D)) (behind : List UInt8) :
    ∃ nr, nrFormatArgs (cString (items.flatMap (Item.render render)) behind) = some nr ∧
      parseFormat directive nr (cString (items.flatMap (Item.render render)) behind) =
        some (0, items.flatMap (Item.each pushes)) := by
  have hs : 0 ∉ items.flatMap (Item.render render) := fun h0 => by
    obtain ⟨x, -, hx⟩ := List.mem_flatMap.mp h0
    exact x.no_nul hf.no_nul hx
  exact ⟨_, nrFormatArgs_cString hs, parseFormat_items hf items behind _ (by omega)⟩

theorem agrees_iff {ld : Nat} (hf : Follows directive render pushes)
    (h : ∀ d, known d → (pushes d).map (Push.passing b) = (args d).map (Arg.passing b ld))
    (hless : ∀ d, ¬known d → (pushes d).length < (args d).length) (items : List (Item D)) :
    Agrees b ld (parseFormat directive) (items.flatMap (Item.render render))
        (items.flatMap (Item.each args)) ↔ ∀ d, .directive d ∈ items → known d := by
  rw [← moved_iff h hless items]
  constructor
  · intro hagree
    obtain ⟨nr, out, hnr, hparse, hout⟩ := hagree []
    obtain ⟨nr', hnr', hparse'⟩ := parse_items hf items []
    obtain rfl := Option.some.inj (hnr'.symm.trans hnr)
    obtain rfl := (Prod.mk.inj (Option.some.inj (hparse'.symm.trans hparse))).2
    exact hout
  · intro hout behind
    obtain ⟨nr, hnr, hparse⟩ := parse_items hf items behind
    exact ⟨nr, _, hnr, hparse, hout⟩

end

/-! ## The parsers -/

theorem printf_conv_passing (ld : Nat) (conv : Conv) (length : Length) (hL : length ≠ .L) :
    (printfConversion b conv.char length.formatLong).map (Push.passing b) =
      [(conv.printfArg length).passing b ld] := by
  cases length <;> cases conv <;> first
    | (cases b <;> rfl)
    | exact absurd rfl hL

theorem Width.passing (ld : Nat) (w : Width) :
    w.pushes.map (Push.passing b) = w.args.map (Arg.passing b ld) := by
  cases w <;> rfl

theorem precision_passing (ld : Nat) (pr : Option Width) :
    (precisionPushes pr).map (Push.passing b) = (precisionArgs pr).map (Arg.passing b ld) := by
  cases pr with
  | none => rfl
  | some w => exact w.passing ld

theorem PrintfDirective.passing (ld : Nat) (d : PrintfDirective) (hL : d.length ≠ .L) :
    (d.pushes b).map (Push.passing b) = d.args.map (Arg.passing b ld) := by
  rw [PrintfDirective.pushes, PrintfDirective.args, if_neg hL, List.map_append, List.map_append,
    List.map_append, List.map_append, d.width.passing ld, precision_passing ld,
    printf_conv_passing ld d.conv d.length hL]
  rfl

theorem PrintfDirective.pushes_less (d : PrintfDirective) (hL : ¬d.length ≠ .L) :
    (d.pushes b).length < d.args.length := by
  have hw := congrArg List.length (d.width.passing (b := b) 0)
  have hpr := congrArg List.length (precision_passing (b := b) 0 d.precision)
  simp only [List.length_map] at hw hpr
  rw [PrintfDirective.pushes, PrintfDirective.args, if_pos (not_not.mp hL)]
  simp only [List.length_append, hw, hpr, List.length_nil, List.length_cons]
  omega

theorem scanf_conv_passing (ld : Nat) (conv : Conv) (length : Length) :
    (scanfConversion b conv.char length.formatLong false).map (Push.passing b) =
      [Arg.pointer.passing b ld] := by
  cases length <;> cases conv <;> cases b <;> rfl

/-- A suppressed directive moves nothing. -/
theorem ScanfDirective.pushes_suppress (d : ScanfDirective) (hs : d.suppress = true) : d.pushes b = [] := by
  unfold ScanfDirective.pushes
  split
  · unfold scanfConversion
    simp [hs]
  · simp [hs]

theorem ScanfDirective.passing (ld : Nat) (d : ScanfDirective)
    (hd : d.suppress = true ∨ d.conv.isLongDouble = false) :
    (d.pushes b).map (Push.passing b) = d.args.map (Arg.passing b ld) := by
  cases hs : d.suppress with
  | true => rw [d.pushes_suppress hs, ScanfDirective.args, hs]; rfl
  | false =>
    have hL := hd.resolve_left (by simp [hs])
    cases hconv : d.conv with
    | single conv length allowed =>
      have hL : length ≠ .L := by simpa [hconv, ScanConv.isLongDouble] using hL
      rw [ScanfDirective.pushes, ScanfDirective.args, hconv, hs]
      simp only [hL, if_false]
      exact scanf_conv_passing ld conv length
    | set wide s =>
      rw [ScanfDirective.pushes, ScanfDirective.args, hconv, hs]
      cases b <;> rfl

theorem ScanfDirective.pushes_less (d : ScanfDirective)
    (hd : ¬(d.suppress = true ∨ d.conv.isLongDouble = false)) : (d.pushes b).length < d.args.length := by
  obtain ⟨hs, hL⟩ := not_or.mp hd
  cases hconv : d.conv with
  | single conv length allowed =>
    have hL : length = .L := by simpa [hconv, ScanConv.isLongDouble] using hL
    simp [ScanfDirective.pushes, ScanfDirective.args, hconv, hs, hL]
  | set wide s => exact absurd (by rw [hconv]; rfl) hL

/-- For every format of C99, the parsers move the arguments that the host consumes, each as it is passed,
if and only if the format has no directive with the length modifier `L` that takes an argument for its
conversion. -/
theorem formatParsers_agree (b : Build) (ld : Nat) :
    (∀ f : List (Item PrintfDirective),
      Agrees b ld (parsePrintfFormat b) (f.flatMap (Item.render PrintfDirective.render))
          (f.flatMap (Item.each PrintfDirective.args)) ↔
        ∀ d, .directive d ∈ f → d.length ≠ .L) ∧
    (∀ f : List (Item ScanfDirective),
      Agrees b ld (parseScanfFormat b) (f.flatMap (Item.render ScanfDirective.render))
          (f.flatMap (Item.each ScanfDirective.args)) ↔
        ∀ d, .directive d ∈ f → d.suppress = true ∨ d.conv.isLongDouble = false) :=
  ⟨agrees_iff printfDirective_follows (PrintfDirective.passing ld) PrintfDirective.pushes_less,
    agrees_iff scanfDirective_follows (ScanfDirective.passing ld) ScanfDirective.pushes_less⟩

/-- The directive `%Lf` of `printf`. -/
def longDouble : PrintfDirective := ⟨[], .number ⟨[], by simp⟩, none, .L, .f, by simp, rfl⟩

/-- For `%Lf`, C99 has an argument, and nothing is moved. -/
theorem formatParsers_longDouble :
    [Item.directive longDouble].flatMap (Item.render PrintfDirective.render) = bytes "%Lf" ∧
    parsePrintfFormat .ppc64 3 (cString (bytes "%Lf") []) = some (0, []) ∧
    longDouble.args = [.longDouble] ∧
    ¬Agrees .ppc64 16 (parsePrintfFormat .ppc64) (bytes "%Lf") longDouble.args := by
  have hparse : parsePrintfFormat .ppc64 3 (cString (bytes "%Lf") []) = some (0, []) := by decide
  refine ⟨by decide, hparse, rfl, fun h => ?_⟩
  obtain ⟨nr, out, hnr, hout, hmoved⟩ := h []
  obtain rfl := Option.some.inj ((show _ = some 3 by decide).symm.trans hnr)
  obtain rfl := (Prod.mk.inj (Option.some.inj (hparse.symm.trans hout))).2
  cases hmoved

end LibSpe2.Format
