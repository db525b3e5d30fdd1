import ProtocolGateway.Expressions.Expansion

/-!
# Expressions over the names of anchors

The meaning of an expression with names in it: the names are read as operands, and an operand has
the value of its anchor. `evaluate_expressions` puts the texts of the values in the places of the
names instead and reads what comes of it. For a value below zero its text is a sign and a numeral,
and a sign binds less tightly than a power.

* `readNamed` — the expression that a text is, its names being numerals.
* `namedArithmetic` — the values of these numerals.
* `SignsKept` — the powers of names below zero keep their values.
* `safeEvalExpression_replaceNames` — then the replaced text has the value of the expression.
-/

namespace ProtocolGateway

namespace Expressions

open Expression Numeral

/-! ## The numerals of integers -/

theorem foldlM_step_digits {s : List Char} (hs : ∀ c ∈ s, c.isDigit = true) {st : State}
    (hphase : st.phase = .whole) (hlast : st.last = .digit) :
    s.foldlM step st = some { st with digits := Nat.ofDigitChars 10 s st.digits } := by
  induction s generalizing st with
  | nil => simp
  | cons c s ih =>
    obtain ⟨hc, hs⟩ := List.forall_mem_cons.mp hs
    have hstep : step st c = some { st with digits := 10 * st.digits + digitValue c } := by
      rw [step, if_pos hc, hphase]
      simp [hlast]
    rw [List.foldlM_cons, hstep, Nat.ofDigitChars_cons]
    exact ih hs hphase hlast

/-- The digits of a number are a numeral. -/
theorem scan_toDigits (n : Nat) : ∃ st, scan (Nat.toDigits 10 n) = some st ∧
    st.accepts = true ∧ st.phase = .whole ∧ st.digits = n := by
  have hdigits : ∀ c ∈ Nat.toDigits 10 n, c.isDigit = true := fun c hc =>
    Nat.isDigit_of_mem_toDigits (by decide) (by decide) hc
  have hvalue : Nat.ofDigitChars 10 (Nat.toDigits 10 n) 0 = n := Nat.ofDigitChars_ten_toDigits
  have hzero : 0 < n → (Nat.toDigits 10 n).head? ≠ some '0' := Text.head?_toDigits_ne_zero n
  rcases htext : Nat.toDigits 10 n with _ | ⟨c, s⟩
  · exact absurd htext Nat.toDigits_ne_nil
  · rw [htext] at hdigits hvalue hzero
    obtain ⟨hc, hs⟩ := List.forall_mem_cons.mp hdigits
    rw [Nat.ofDigitChars_cons, Nat.mul_zero, Nat.zero_add] at hvalue
    rw [scan, start, if_pos hc, Option.bind_some, foldlM_step_digits hs rfl rfl]
    refine ⟨_, rfl, ?_, rfl, hvalue⟩
    rw [State.accepts, State.complete]
    simp only [Bool.and_eq_true, Bool.not_eq_true', decide_true, Bool.true_and]
    refine ⟨⟨rfl, trivial⟩, ?_⟩
    rw [Bool.and_eq_false_iff, decide_eq_false_iff_not, decide_eq_false_iff_not, not_not]
    by_cases hn : 0 < n
    · exact .inl fun heq => hzero hn (by rw [heq]; rfl)
    · exact .inr (hvalue.trans (by omega))

/-- The numeral of a number. -/
def natLiteral (n : Nat) : Literal :=
  ⟨Nat.toDigits 10 n, by
    obtain ⟨st, hst, haccepts, -, -⟩ := scan_toDigits n
    rw [hst]
    exact haccepts⟩

section Values

variable {D : Type} (nums : Inexact D)

theorem numeralValue_natLiteral {n : Nat}
    (h : (Nat.toDigits 10 n).length ≤ Text.maxDecimalDigits) :
    numeralValue nums (natLiteral n) = some (.int n) := by
  obtain ⟨st, hst, -, hphase, hdigits⟩ := scan_toDigits n
  rw [numeralValue, show (natLiteral n).text = Nat.toDigits 10 n from rfl, hst]
  simp only [hphase, if_true, h, hdigits]

end Values

/-! ## Names as operands -/

/-- An operand: a numeral, or a name. -/
abbrev Operand := Literal ⊕ List Char

/-- The tokens with the names for the variables. -/
def label : (Nat → List Char) → List (Token Literal) → List (Token Operand)
  | _, [] => []
  | ns, .var :: ts => .num (.inr (ns 0)) :: label (fun i => ns (i + 1)) ts
  | ns, .num l :: ts => .num (.inl l) :: label ns ts
  | ns, .op o :: ts => .op o :: label ns ts
  | ns, .lparen :: ts => .lparen :: label ns ts
  | ns, .rparen :: ts => .rparen :: label ns ts

/-- A name is an operand, as a variable is. -/
theorem walk_label (ns : Nat → List Char) (ts : List (Token Literal)) (ended : Bool) :
    walk ended (label ns ts) = walk ended ts := by
  induction ts generalizing ns ended with
  | nil => rfl
  | cons t ts ih =>
    have hstep (t' : Token Operand) (ns' : Nat → List Char) (h : t'.walk ended = t.walk ended) :
        walk ended (t' :: label ns' ts) = walk ended (t :: ts) := by
      rw [walk, walk, h]
      exact congrArg ((t.walk ended).bind ·) (funext fun ended => ih ns' ended)
    cases t with
    | op o => exact hstep (.op o) ns (by cases ended <;> cases o <;> rfl)
    | num l => exact hstep (.num (.inl l)) ns (by cases ended <;> rfl)
    | var => exact hstep (.num (.inr (ns 0))) _ (by cases ended <;> rfl)
    | lparen => exact hstep .lparen ns (by cases ended <;> rfl)
    | rparen => exact hstep .rparen ns (by cases ended <;> rfl)

/-- The text with a variable for each name. -/
def hollow (s : List Char) : List Char :=
  (segments 0 s).map fun
    | .char c => c
    | .name _ => 'x'

/-- The name at a place. -/
def nameAt (s : List Char) (i : Nat) : List Char := (names s).getD i []

/-- The expression that a text is. -/
def readNamed (s : List Char) : Option (Expr Operand) :=
  (lex (removeSpaces (hollow s))).bind fun ts => parse (label (nameAt s) ts)

/-- The value of an integer anchor. -/
def knownInt (anchors : Anchors) (name : List Char) : Option Int :=
  match anchors name with
  | some (.int i) => if printable i then some i else none
  | _ => none

/-- Every name is one of an integer anchor. -/
def AllInts (anchors : Anchors) (s : List Char) : Prop :=
  ∀ name ∈ names s, (knownInt anchors name).isSome

instance (anchors : Anchors) (s : List Char) : Decidable (AllInts anchors s) :=
  inferInstanceAs (Decidable (∀ name ∈ names s, _))

section Values

variable {D : Type} (nums : Inexact D) (anchors : Anchors)

/-- The number of a name. -/
def nameInt (name : List Char) : Int := (knownInt anchors name).getD 0

/-- The arithmetic in which a name has the value of its anchor. -/
def namedArithmetic : Arithmetic Operand (Option (Number D)) where
  numeral
    | .inl l => numeralValue nums l
    | .inr name => some (.int (nameInt anchors name))
  neg := (arithmetic nums).neg
  apply := (arithmetic nums).apply

/-- The value of an expression over the names of integer anchors, as a text. -/
def namedText (s : List Char) : Option (List Char) :=
  if AllInts anchors s then
    (((readNamed s).bind fun e => e.eval (namedArithmetic nums anchors) none).join).bind
      (resultText nums)
  else none

/-- **The powers keep their signs**: where a name below zero is the base of a power, the power of
the number without its sign is the same number with the sign changed. -/
def SignsKept (e : Expr Operand) : Prop :=
  ∀ name b, .binary .pow (.num (.inr name)) b ∈ e.parts → nameInt anchors name < 0 →
    ∀ k, b.eval (namedArithmetic nums anchors) none = some k →
      ((arithmetic nums).apply .pow (some (.int (nameInt anchors name).natAbs)) k).map
          (arithmetic nums).neg =
        (arithmetic nums).apply .pow (some (.int (nameInt anchors name))) k

/-- What is put in for an operand. -/
def placed : Operand → Bool × Literal
  | .inl l => (false, l)
  | .inr name => (decide (nameInt anchors name < 0), natLiteral (nameInt anchors name).natAbs)

theorem printable_nameInt (name : List Char) : printable (nameInt anchors name) = true := by
  unfold nameInt knownInt
  split
  · split
    · assumption
    · decide
  · decide

/-- The value of what is put in for an operand. -/
theorem signed_placed :
    (arithmetic nums).signed (placed anchors) = namedArithmetic nums anchors := by
  have hnumeral : ((arithmetic nums).signed (placed anchors)).numeral =
      (namedArithmetic nums anchors).numeral := by
    funext operand
    cases operand with
    | inl l => rfl
    | inr name =>
      have hvalue : numeralValue nums (natLiteral (nameInt anchors name).natAbs) =
          some (.int (nameInt anchors name).natAbs) :=
        numeralValue_natLiteral nums (of_decide_eq_true (printable_nameInt anchors name))
      by_cases hsign : nameInt anchors name < 0
      · rw [Arithmetic.signed_of_pos (decide_eq_true hsign)]
        show (numeralValue nums (natLiteral _)).map (Number.neg nums) = some (.int _)
        rw [hvalue, Option.map_some, Number.neg]
        exact congrArg (fun i => some (Number.int i)) (by omega)
      · rw [Arithmetic.signed_of_neg (by simpa [placed] using hsign)]
        show numeralValue nums (natLiteral _) = some (.int _)
        rw [hvalue]
        exact congrArg (fun i => some (Number.int i)) (by omega)
  exact Arithmetic.mk.injEq .. ▸ ⟨hnumeral, rfl, rfl⟩

theorem SignsKept.powersPlaced {e : Expr Operand} (h : SignsKept nums anchors e) :
    e.PowersPlaced (placed anchors) (arithmetic nums) none := by
  intro operand b hb hsign k hk
  cases operand with
  | inl l => cases hsign
  | inr name =>
    have hneg : nameInt anchors name < 0 := of_decide_eq_true hsign
    rw [signed_placed] at hk
    have hkept := h name b hb hneg k hk
    have hvalue : (arithmetic nums).numeral (natLiteral (nameInt anchors name).natAbs) =
        some (.int (nameInt anchors name).natAbs) :=
      numeralValue_natLiteral nums (of_decide_eq_true (printable_nameInt anchors name))
    have hnegated : (arithmetic nums).neg (some (.int (nameInt anchors name).natAbs)) =
        some (.int (nameInt anchors name)) := by
      show some (Number.int _) = _
      exact congrArg (fun i => some (Number.int i)) (by omega)
    show ((arithmetic nums).apply .pow ((arithmetic nums).numeral (natLiteral _)) k).map _ =
      (arithmetic nums).apply .pow ((arithmetic nums).neg
        ((arithmetic nums).numeral (natLiteral _))) k
    rw [hvalue, hnegated]
    exact hkept

/-- The text of an integer is read as its tokens. -/
theorem numberText_intText (name : List Char) :
    NumberText (intText (nameInt anchors name))
      (placeToken (placed anchors) (.num (.inr name))) := by
  unfold intText placeToken placed
  by_cases hsign : nameInt anchors name < 0
  · simp only [hsign, if_true, decide_true]
    exact (natLiteral _).numberText_neg
  · simp only [hsign, if_false, decide_false, Bool.false_eq_true]
    exact (natLiteral _).numberText

/-- The tokens with the numbers for the variables are those with the numbers for the names. -/
theorem fillEach_eq_placeTokens (ns : Nat → List Char) (ts : List (Token Literal)) :
    fillEach (fun i => placeToken (placed anchors) (.num (.inr (ns i)))) ts =
      placeTokens (placed anchors) (label ns ts) := by
  induction ts generalizing ns with
  | nil => rfl
  | cons t ts ih =>
    cases t with
    | var =>
      rw [fillEach, label, placeTokens_cons, ih]
    | _ => exact congrArg (_ :: ·) (ih ns)

end Values

/-! ## Names in a text -/

/-- The letters between the names begin no name. -/
theorem of_char_mem_segments {s : List Char} {skip : Nat} {c : Char}
    (h : .char c ∈ segments skip s) : nameStart c = false ∧ c ∈ s := by
  induction s generalizing skip with
  | nil => cases skip <;> cases h
  | cons d s ih =>
    cases skip with
    | succ skip =>
      obtain ⟨hstart, hmem⟩ := ih h
      exact ⟨hstart, List.mem_cons_of_mem _ hmem⟩
    | zero =>
      rw [segments] at h
      split at h
      · rcases List.mem_cons.mp h with hfirst | h
        · cases hfirst
        · obtain ⟨hstart, hmem⟩ := ih h
          exact ⟨hstart, List.mem_cons_of_mem _ hmem⟩
      · next hd =>
        rcases List.mem_cons.mp h with hfirst | h
        · cases hfirst
          exact ⟨Bool.eq_false_iff.mpr hd, List.mem_cons_self⟩
        · obtain ⟨hstart, hmem⟩ := ih h
          exact ⟨hstart, List.mem_cons_of_mem _ hmem⟩

/-- A name begins with a letter of the text that begins a name. -/
theorem of_name_mem_segments {s : List Char} {skip : Nat} {n : List Char}
    (h : .name n ∈ segments skip s) : ∃ c ∈ s, nameStart c = true := by
  induction s generalizing skip with
  | nil => cases skip <;> cases h
  | cons d s ih =>
    cases skip with
    | succ skip =>
      obtain ⟨c, hc, hstart⟩ := ih h
      exact ⟨c, List.mem_cons_of_mem _ hc, hstart⟩
    | zero =>
      rw [segments] at h
      split at h
      · next hd => exact ⟨d, List.mem_cons_self, hd⟩
      · rcases List.mem_cons.mp h with hfirst | h
        · cases hfirst
        · obtain ⟨c, hc, hstart⟩ := ih h
          exact ⟨c, List.mem_cons_of_mem _ hc, hstart⟩

theorem mem_names {s n : List Char} : n ∈ names s ↔ .name n ∈ segments 0 s := by
  unfold names
  rw [List.mem_filterMap]
  constructor
  · rintro ⟨seg, hseg, heq⟩
    cases seg with
    | char c => cases heq
    | name m =>
      cases heq
      exact hseg
  · exact fun h => ⟨.name n, h, rfl⟩

/-- Only the texts of the names that are there matter. -/
theorem replaceNames_congr {f g : List Char → List Char} {s : List Char}
    (h : ∀ n ∈ names s, f n = g n) : replaceNames f s = replaceNames g s := by
  unfold replaceNames
  refine List.flatMap_congr fun seg hseg => ?_
  cases seg with
  | char c => rfl
  | name n => exact h n (mem_names.mpr hseg)

/-- A text without names stays as it is. -/
theorem replaceNames_eq_self {f : List Char → List Char} {s : List Char}
    (h : ∀ c ∈ s, nameStart c = false) : replaceNames f s = s := by
  induction s with
  | nil => rfl
  | cons c s ih =>
    obtain ⟨hc, hs⟩ := List.forall_mem_cons.mp h
    have hsegments : segments 0 (c :: s) = .char c :: segments 0 s := by
      rw [segments, hc]
      rfl
    rw [replaceNames, hsegments]
    exact congrArg (c :: ·) (ih hs)

/-- The texts of the names stand where the variables did. -/
theorem replaceNames_eq_replaceEach (f : List Char → List Char) (s : List Char) :
    replaceNames f s = replaceEach (fun i => f (nameAt s i)) (hollow s) := by
  have hsegments : ∀ (segs : List Segment), (∀ c, .char c ∈ segs → c ≠ 'x') →
      (segs.flatMap fun
        | .char c => [c]
        | .name n => f n) =
        replaceEach (fun i => f ((segs.filterMap fun
          | .char _ => none
          | .name n => some n).getD i []))
          (segs.map fun
            | .char c => c
            | .name _ => 'x') := by
    intro segs hchars
    induction segs with
    | nil => rfl
    | cons seg segs ih =>
      have hrest := ih fun c hc => hchars c (List.mem_cons_of_mem _ hc)
      cases seg with
      | char c =>
        rw [List.flatMap_cons, List.map_cons, replaceEach, if_neg (hchars c List.mem_cons_self),
          hrest]
        rfl
      | name n =>
        rw [List.flatMap_cons, List.map_cons, replaceEach, if_pos rfl, hrest]
        rfl
  refine hsegments (segments 0 s) fun c hc => ?_
  rintro rfl
  exact absurd (of_char_mem_segments hc).1 (by decide)

/-- The blanks of a text are not in what is put in. -/
theorem removeSpaces_replaceEach {texts : Nat → List Char}
    (h : ∀ i, ∀ c ∈ texts i, Text.isSpace c = false) (s : List Char) :
    removeSpaces (replaceEach texts s) = replaceEach texts (removeSpaces s) := by
  induction s generalizing texts with
  | nil => rfl
  | cons c s ih =>
    by_cases hc : c = 'x'
    · subst hc
      have htext : removeSpaces (texts 0) = texts 0 :=
        List.filter_eq_self.mpr fun c hc => by rw [h 0 c hc]; rfl
      have hspaces : removeSpaces ('x' :: s) = 'x' :: removeSpaces s := rfl
      rw [replaceEach, if_pos rfl, hspaces, replaceEach, if_pos rfl, removeSpaces,
        List.filter_append]
      show removeSpaces (texts 0) ++ removeSpaces _ = _
      rw [htext, ih fun i => h (i + 1)]
    · rw [replaceEach, if_neg hc, removeSpaces, List.filter_cons]
      show (if _ then c :: removeSpaces (replaceEach texts s) else
        removeSpaces (replaceEach texts s)) = replaceEach texts (List.filter _ (c :: s))
      rw [ih h, List.filter_cons]
      split
      · rw [replaceEach, if_neg hc]
        rfl
      · rfl

section Values

variable {D : Type} (nums : Inexact D) (anchors : Anchors)

theorem nameText_of_knownInt {name : List Char} (h : (knownInt anchors name).isSome) :
    nameText nums anchors name = intText (nameInt anchors name) := by
  unfold knownInt at h
  split at h
  · next i hvalue =>
    split at h
    · next hprintable =>
      rw [nameText, nameInt, knownInt, hvalue]
      simp [hprintable, valueText]
    · cases h
  · cases h

/-- **The replaced text has the value of the expression**, where the powers keep their signs. -/
theorem safeEvalExpression_replaceNames {s : List Char} (hints : AllInts anchors s)
    {e : Expr Operand} (hread : readNamed s = some e) (hsigns : SignsKept nums anchors e) :
    safeEvalExpression nums (replaceNames (nameText nums anchors) s) =
      (e.eval (namedArithmetic nums anchors) none).join := by
  obtain ⟨ts, hlex, hparse⟩ := Option.bind_eq_some_iff.mp hread
  have hnumbers : ∀ i, NumberText (intText (nameInt anchors (nameAt s i)))
      (placeToken (placed anchors) (.num (.inr (nameAt s i)))) := fun i =>
    numberText_intText anchors _
  have hwalk : walk false ts = some true := by
    rw [← walk_label (nameAt s)]
    exact (parse_eq_some_iff.mp hparse).walk
  have htokens : lex (removeSpaces (replaceNames (nameText nums anchors) s)) =
      some (placeTokens (placed anchors) (label (nameAt s) ts)) := by
    rw [replaceNames_congr fun n hn => nameText_of_knownInt nums anchors (hints n hn),
      replaceNames_eq_replaceEach, removeSpaces_replaceEach fun i => (hnumbers i).noSpace,
      ← fillEach_eq_placeTokens]
    exact lexFrom_replaceEach hnumbers hlex (hwalk ▸ Option.some_ne_none true)
  have hreplaced : readExpression (replaceNames (nameText nums anchors) s) =
      some (e.place (placed anchors)) := by
    rw [readExpression, htokens]
    exact parse_placeTokens hparse
  rw [safeEvalExpression, hreplaced, Option.bind_some,
    Expr.eval_place (hsigns.powersPlaced nums anchors), signed_placed]

end Values

/-! ## The characters of arithmetic -/

/-- The characters of tokens. -/
theorem char_of_lexFrom {p : Pending} {s : List Char} {ts : List (Token Literal)}
    (h : lexFrom p s = some ts) :
    ∀ c ∈ s, isNumeralChar c = true ∨ c ∈ ['*', '/', '+', '-', '%', '(', ')', 'x'] := by
  induction s generalizing p ts with
  | nil => exact nofun
  | cons c s ih =>
    obtain ⟨em, q, rest, hnext, hrest, rfl⟩ := lexFrom_cons_eq_some_iff.mp h
    refine List.forall_mem_cons.mpr ⟨?_, ih hrest⟩
    obtain hextend | ⟨-, closed, fs, -, hfresh, -⟩ := Pending.next_eq_some_iff.mp hnext
    · cases p with
      | idle => cases hextend
      | number u =>
        rw [Pending.extend] at hextend
        split_ifs at hextend with hscan
        exact .inl (isNumeralChar_of_scan hscan c (by simp))
      | star | slash =>
        rw [Pending.extend] at hextend
        split_ifs at hextend with hc
        simp [hc]
    · rw [fresh] at hfresh
      split_ifs at hfresh with hscan hstar hslash
      · exact .inl (isNumeralChar_of_scan hscan c (by simp))
      · simp [hstar]
      · simp [hslash]
      · obtain ⟨t, ht, -⟩ := Option.map_eq_some_iff.mp hfresh
        rw [single] at ht
        split_ifs at ht with hc hc hc hc hc hc <;> simp [hc]

theorem mem_replaceNames {f : List Char → List Char} {s : List Char} {c : Char}
    (h : c ∈ replaceNames f s) : .char c ∈ segments 0 s ∨ ∃ n ∈ names s, c ∈ f n := by
  obtain ⟨seg, hseg, hc⟩ := List.mem_flatMap.mp h
  cases seg with
  | char d =>
    rw [List.mem_singleton.mp hc]
    exact .inl hseg
  | name n => exact .inr ⟨n, mem_names.mpr hseg, hc⟩

theorem mathInner_intText (i : Int) : ∀ c ∈ intText i, mathFormat.inner c = true := by
  have hdigits : ∀ c ∈ Nat.toDigits 10 i.natAbs, mathFormat.inner c = true := fun c hc => by
    have hdigit : c.isDigit = true := Nat.isDigit_of_mem_toDigits (by decide) (by decide) hc
    simp [mathFormat, hdigit]
  unfold intText
  split
  · exact List.forall_mem_cons.mpr ⟨rfl, hdigits⟩
  · exact hdigits

/-- What an expression over integers becomes has characters of arithmetic only. -/
theorem mathInner_replaceNames {D : Type} (nums : Inexact D) {anchors : Anchors} {s : List Char}
    (hints : AllInts anchors s) {e : Expr Operand} (hread : readNamed s = some e) :
    ∀ c ∈ replaceNames (nameText nums anchors) s, mathFormat.inner c = true := by
  obtain ⟨ts, hlex, -⟩ := Option.bind_eq_some_iff.mp hread
  intro c hc
  rcases mem_replaceNames hc with hseg | ⟨n, hn, hc⟩
  · obtain ⟨hstart, -⟩ := of_char_mem_segments hseg
    by_cases hspace : Text.isSpace c = true
    · simp [mathFormat, hspace]
    · have hmem : c ∈ removeSpaces (hollow s) :=
        List.mem_filter.mpr ⟨List.mem_map.mpr ⟨_, hseg, rfl⟩, by simpa using hspace⟩
      -- the letters of numerals would begin a name
      rcases char_of_lexFrom hlex c hmem with hnumeral | hother
      · rw [isNumeralChar, Bool.or_eq_true, decide_eq_true_iff] at hnumeral
        rcases hnumeral with hdigit | hletter
        · simp [mathFormat, hdigit]
        · simp only [List.mem_cons, List.not_mem_nil, or_false] at hletter
          rcases hletter with rfl | rfl | rfl | rfl | rfl | rfl <;>
            first | rfl | exact absurd hstart (by decide)
      · simp only [List.mem_cons, List.not_mem_nil, or_false] at hother
        rcases hother with rfl | rfl | rfl | rfl | rfl | rfl | rfl | rfl <;>
          first | rfl | exact absurd hstart (by decide)
  · rw [nameText_of_knownInt nums anchors (hints n hn)] at hc
    exact mathInner_intText _ c hc

end Expressions

end ProtocolGateway
