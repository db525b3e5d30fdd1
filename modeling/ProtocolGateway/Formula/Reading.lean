import ProtocolGateway.Text
import ProtocolGateway.Lib.Substitution
import Mathlib.Algebra.Order.Field.Rat
import Mathlib.Algebra.Order.Field.Basic

/-!
# Reading a formula

`safe_eval_expression` takes the blanks out of a text, parses what is left as an expression of the
language and evaluates the tree. Numbers are read as the rational numbers that they write.

* `Numeral.scan` — the decimal notation of the language.
* `lex` — the tokens of a text, each as long as it can be.
* `safeEvalExpression` — the value of a text.
* `lex_replaceVariable` — the tokens of a formula after the text of a number has replaced `x`.
-/

namespace ProtocolGateway

open Expression

/-! ## Numerals -/

namespace Numeral

/-- The part of a numeral that is being read. -/
inductive Phase
  | whole
  | fraction
  /-- the `e` of an exponent -/
  | mark
  | sign
  | exponent
  deriving DecidableEq

/-- The last character. -/
inductive Last
  | digit
  | underscore
  | other
  deriving DecidableEq

/-- What was read so far. -/
structure State where
  phase : Phase
  last : Last
  /-- there is a digit before the exponent -/
  mantissa : Bool
  /-- the first digit is a zero -/
  padded : Bool
  digits : Nat
  /-- the number of digits after the point -/
  places : Nat
  negative : Bool
  exponent : Nat

/-- The value of a digit. -/
def digitValue (c : Char) : Nat := c.toNat - 48

/-- The first character. -/
def start (c : Char) : Option State :=
  if c.isDigit then
    some
      { phase := .whole
        last := .digit
        mantissa := true
        padded := c = '0'
        digits := digitValue c
        places := 0
        negative := false
        exponent := 0 }
  else if c = '.' then
    some
      { phase := .fraction
        last := .other
        mantissa := false
        padded := false
        digits := 0
        places := 0
        negative := false
        exponent := 0 }
  else none

/-- The next character. -/
def step (st : State) (c : Char) : Option State :=
  if c.isDigit then
    match st.phase with
    | .whole => some { st with last := .digit, digits := 10 * st.digits + digitValue c }
    | .fraction =>
      some { st with
        last := .digit
        mantissa := true
        digits := 10 * st.digits + digitValue c
        places := st.places + 1 }
    | .mark | .sign | .exponent =>
      some { st with
        phase := .exponent
        last := .digit
        exponent := 10 * st.exponent + digitValue c }
  else if c = '_' then
    if st.last = .digit then some { st with last := .underscore } else none
  else if c = '.' then
    if st.phase = .whole ∧ st.last = .digit then some { st with phase := .fraction, last := .other }
    else none
  else if c = 'e' ∨ c = 'E' then
    if (st.phase = .whole ∨ st.phase = .fraction) ∧ st.mantissa ∧ st.last ≠ .underscore then
      some { st with phase := .mark, last := .other }
    else none
  else if c = '+' ∨ c = '-' then
    if st.phase = .mark then some { st with phase := .sign, negative := c = '-' } else none
  else none

/-- The characters of a numeral, or of the beginning of one. -/
def scan : List Char → Option State
  | [] => none
  | c :: cs => (start c).bind fun st => cs.foldlM step st

/-- Nothing is missing. -/
def State.complete (st : State) : Bool :=
  st.last ≠ .underscore &&
    match st.phase with
    | .whole | .exponent => true
    | .fraction => st.mantissa
    | .mark | .sign => false

/-- A numeral of the language: an integer has no zeros in front. -/
def State.accepts (st : State) : Bool :=
  st.complete && !(st.phase = .whole && st.padded && st.digits ≠ 0)

/-- The number. -/
def State.value (st : State) : ℚ :=
  st.digits * 10 ^ ((if st.negative then -(st.exponent : Int) else st.exponent) - st.places)

theorem State.value_nonneg (st : State) : 0 ≤ st.value :=
  mul_nonneg (Nat.cast_nonneg _) (zpow_nonneg (by norm_num) _)

theorem scan_append {s : List Char} (hs : s ≠ []) (t : List Char) :
    scan (s ++ t) = (scan s).bind fun st => t.foldlM step st := by
  cases s with
  | nil => exact absurd rfl hs
  | cons c s =>
    simp only [List.cons_append, scan]
    cases start c with
    | none => rfl
    | some st =>
      rw [Option.bind_some, Option.bind_some, List.foldlM_append]
      rfl

/-- The beginning of a numeral can be read. -/
theorem isSome_scan_left {s t : List Char} (hs : s ≠ []) (h : (scan (s ++ t)).isSome) :
    (scan s).isSome := by
  rw [scan_append hs] at h
  cases hscan : scan s with
  | none => rw [hscan] at h; cases h
  | some st => rfl

/-- The characters of numerals. -/
def isNumeralChar (c : Char) : Bool := c.isDigit || c ∈ ['_', '.', 'e', 'E', '+', '-']

theorem isNumeralChar_of_step {st st' : State} {c : Char} (h : step st c = some st') :
    isNumeralChar c = true := by
  rw [isNumeralChar, Bool.or_eq_true, decide_eq_true_iff]
  rw [step] at h
  split_ifs at h with hdigit hunderscore _ hpoint _ hmark _ hsign
  · exact .inl hdigit
  · simp [hunderscore]
  · simp [hpoint]
  · rcases hmark with rfl | rfl <;> simp
  · rcases hsign with rfl | rfl <;> simp

theorem isNumeralChar_of_start {st : State} {c : Char} (h : start c = some st) :
    isNumeralChar c = true := by
  rw [isNumeralChar, Bool.or_eq_true, decide_eq_true_iff]
  rw [start] at h
  split_ifs at h with hdigit hpoint
  · exact .inl hdigit
  · simp [hpoint]

/-- A numeral has no other characters. -/
theorem isNumeralChar_of_scan {s : List Char} (h : (scan s).isSome) :
    ∀ c ∈ s, isNumeralChar c = true := by
  have hsteps : ∀ (cs : List Char) (st : State), (cs.foldlM step st).isSome →
      ∀ c ∈ cs, isNumeralChar c = true := by
    intro cs
    induction cs with
    | nil => exact fun _ _ => nofun
    | cons c cs ih =>
      intro st hsome
      rw [List.foldlM_cons] at hsome
      cases hstep : step st c with
      | none =>
        rw [hstep] at hsome
        cases hsome
      | some st' =>
        rw [hstep] at hsome
        exact List.forall_mem_cons.mpr ⟨isNumeralChar_of_step hstep, ih st' hsome⟩
  cases s with
  | nil => cases h
  | cons c cs =>
    rw [scan] at h
    cases hstart : start c with
    | none =>
      rw [hstart] at h
      cases h
    | some st =>
      rw [hstart] at h
      exact List.forall_mem_cons.mpr ⟨isNumeralChar_of_start hstart, hsteps cs st h⟩

/-- A numeral goes on without a sign. -/
theorem numeralChar_of_step {st st' : State} {c : Char} (haccepts : st.accepts = true)
    (h : step st c = some st') : c.isDigit = true ∨ c ∈ ['_', '.', 'e', 'E'] := by
  rw [step] at h
  split_ifs at h with hdigit hunderscore _ hpoint _ hmark _ hsign hphase
  · exact .inl hdigit
  · simp [hunderscore]
  · simp [hpoint]
  · rcases hmark with rfl | rfl
    · simp
    · simp
  · -- a sign follows the mark of an exponent, where no numeral ends
    simp [State.accepts, State.complete, hphase] at haccepts

end Numeral

open Numeral

/-- A numeral of the language. -/
def Literal : Type := { s : List Char // (scan s).any State.accepts = true }

instance : DecidableEq Literal := inferInstanceAs (DecidableEq { s : List Char // _ })

namespace Literal

/-- Its text. -/
def text (l : Literal) : List Char := l.val

/-- Its number. -/
def value (l : Literal) : ℚ := ((scan l.text).map State.value).getD 0

theorem value_nonneg (l : Literal) : 0 ≤ l.value := by
  rw [value]
  cases scan l.text with
  | none => exact le_refl 0
  | some st => exact st.value_nonneg

theorem exists_scan (l : Literal) : ∃ st, scan l.text = some st ∧ st.accepts = true :=
  (Option.any_eq_true _ _).mp l.property

theorem text_ne_nil (l : Literal) : l.text ≠ [] := by
  obtain ⟨st, hst, -⟩ := l.exists_scan
  intro h
  rw [h] at hst
  cases hst

end Literal

/-! ## Tokens -/

/-- What is kept back until the next character: a numeral, or an operator that may be doubled. -/
inductive Pending
  | idle
  | number (s : List Char)
  | star
  | slash

/-- The token of a character that is one for itself. -/
def single (c : Char) : Option (Token Literal) :=
  if c = '+' then some (.op .add)
  else if c = '-' then some (.op .sub)
  else if c = '%' then some (.op .mod)
  else if c = '(' then some .lparen
  else if c = ')' then some .rparen
  else if c = 'x' then some .var
  else none

/-- The first character of a token. -/
def fresh (c : Char) : Option (List (Token Literal) × Pending) :=
  if (scan [c]).isSome then some ([], .number [c])
  else if c = '*' then some ([], .star)
  else if c = '/' then some ([], .slash)
  else (single c).map fun t => ([t], .idle)

namespace Pending

/-- A character that belongs to what is kept back. -/
def extend : Pending → Char → Option (List (Token Literal) × Pending)
  | .idle, _ => none
  | .number s, c => if (scan (s ++ [c])).isSome then some ([], .number (s ++ [c])) else none
  | .star, c => if c = '*' then some ([.op .pow], .idle) else none
  | .slash, c => if c = '/' then some ([.op .floorDiv], .idle) else none

/-- What is kept back is a token. -/
def close : Pending → Option (List (Token Literal))
  | .idle => some []
  | .number s => if h : (scan s).any State.accepts = true then some [.num ⟨s, h⟩] else none
  | .star => some [.op .mul]
  | .slash => some [.op .div]

/-- The next character. -/
def next (p : Pending) (c : Char) : Option (List (Token Literal) × Pending) :=
  match p.extend c with
  | some result => some result
  | none => p.close.bind fun closed => (fresh c).map fun result => (closed ++ result.1, result.2)

end Pending

/-- The tokens of a text, after what was kept back. -/
def lexFrom : Pending → List Char → Option (List (Token Literal))
  | p, [] => p.close
  | p, c :: cs => (p.next c).bind fun result => (lexFrom result.2 cs).map (result.1 ++ ·)

/-- The tokens of a text. -/
def lex (s : List Char) : Option (List (Token Literal)) := lexFrom .idle s

/-! ## Values -/

/-- Powers with a fractional exponent, which are no rational numbers. -/
abbrev Roots := ℚ → ℚ → Option ℚ

/-- `a ** b`. -/
def power (roots : Roots) (a b : ℚ) : Option ℚ :=
  if b.den = 1 then if a = 0 ∧ b < 0 then none else some (a ^ b.num) else roots a b

/-- The operations of `safe_eval_expression`. -/
def arithmetic (roots : Roots) : Arithmetic Literal ℚ where
  numeral := Literal.value
  neg := fun a => -a
  apply := fun o a b =>
    match o with
    | .add => some (a + b)
    | .sub => some (a - b)
    | .mul => some (a * b)
    | .div => if b = 0 then none else some (a / b)
    | .floorDiv => if b = 0 then none else some ((a / b).floor : ℚ)
    | .mod => if b = 0 then none else some (a - b * ((a / b).floor : ℚ))
    | .pow => power roots a b

/-- `re.sub(r"\s+", "", expression)`. -/
def removeSpaces (s : List Char) : List Char := s.filter fun c => !Text.isSpace c

/-- `ast.parse` of an arithmetic expression. -/
def readExpression (s : List Char) : Option (Expr Literal) := (lex (removeSpaces s)).bind parse

/-- `safe_eval_expression`: there are no variables. -/
def safeEvalExpression (roots : Roots) (s : List Char) : Option ℚ :=
  (readExpression s).bind (Expr.eval (arithmetic roots) none)

/-- `formula.replace("x", text)`. -/
def replaceVariable (text s : List Char) : List Char := s.flatMap fun c => if c = 'x' then text else [c]

/-- The variables replaced by one text after the other. -/
def replaceEach : (Nat → List Char) → List Char → List Char
  | _, [] => []
  | texts, c :: s =>
    if c = 'x' then texts 0 ++ replaceEach (fun i => texts (i + 1)) s else c :: replaceEach texts s

/-- The same text for all variables. -/
theorem replaceEach_const (text s : List Char) :
    replaceEach (fun _ => text) s = replaceVariable text s := by
  induction s with
  | nil => rfl
  | cons c s ih =>
    rw [replaceEach, ih, replaceVariable, replaceVariable, List.flatMap_cons]
    split
    · rfl
    · rfl

/-! ## From token to token -/

section Lexing

@[simp]
theorem extend_var (p : Pending) : p.extend 'x' = none := by
  cases p with
  | number s =>
    have hscan : scan (s ++ ['x']) = none := by
      cases s with
      | nil => rfl
      | cons c s =>
        rw [scan_append (List.cons_ne_nil c s)]
        cases scan (c :: s) with
        | none => rfl
        | some st => simp [step]
    simp [Pending.extend, hscan]
  | _ => rfl

theorem fresh_var : fresh 'x' = some ([.var], .idle) := rfl

/-- A question mark is part of no token. -/
theorem next_question (p : Pending) : p.next '?' = none := by
  have hfresh : fresh '?' = none := rfl
  have hextend : p.extend '?' = none := by
    cases p with
    | number s =>
      have hscan : scan (s ++ ['?']) = none := by
        cases s with
        | nil => rfl
        | cons c s =>
          rw [scan_append (List.cons_ne_nil c s)]
          cases scan (c :: s) with
          | none => rfl
          | some st => simp [step]
      simp [Pending.extend, hscan]
    | _ => rfl
  rw [Pending.next, hextend, hfresh]
  cases p.close with
  | none => rfl
  | some closed => rfl

theorem Pending.next_eq_some_iff {p q : Pending} {c : Char} {em : List (Token Literal)} :
    p.next c = some (em, q) ↔ p.extend c = some (em, q) ∨
      p.extend c = none ∧ ∃ closed fs, p.close = some closed ∧ fresh c = some (fs, q) ∧
        em = closed ++ fs := by
  rw [next]
  cases p.extend c with
  | some result => simp
  | none =>
    cases p.close with
    | none => simp
    | some closed =>
      cases fresh c with
      | none => simp
      | some result =>
        obtain ⟨fs, q'⟩ := result
        simp [and_comm, eq_comm]

theorem lexFrom_cons_eq_some_iff {p : Pending} {c : Char} {cs : List Char}
    {ts : List (Token Literal)} : lexFrom p (c :: cs) = some ts ↔
      ∃ em q rest, p.next c = some (em, q) ∧ lexFrom q cs = some rest ∧ ts = em ++ rest := by
  rw [lexFrom, Option.bind_eq_some_iff]
  constructor
  · rintro ⟨⟨em, q⟩, hnext, hmap⟩
    obtain ⟨rest, hrest, rfl⟩ := Option.map_eq_some_iff.mp hmap
    exact ⟨em, q, rest, hnext, hrest, rfl⟩
  · rintro ⟨em, q, rest, hnext, hrest, rfl⟩
    exact ⟨(em, q), hnext, Option.map_eq_some_iff.mpr ⟨rest, hrest, rfl⟩⟩

theorem question_not_mem {p : Pending} {s : List Char} {ts : List (Token Literal)}
    (h : lexFrom p s = some ts) : '?' ∉ s := by
  induction s generalizing p ts with
  | nil => exact List.not_mem_nil
  | cons c s ih =>
    obtain ⟨em, q, rest, hnext, hrest, -⟩ := lexFrom_cons_eq_some_iff.mp h
    rw [List.mem_cons, not_or]
    refine ⟨?_, ih hrest⟩
    rintro rfl
    rw [next_question] at hnext
    cases hnext

/-- A character that does not belong to what is kept back begins a token. -/
theorem lexFrom_close {p : Pending} {c : Char} {closed : List (Token Literal)}
    (hextend : p.extend c = none) (hclose : p.close = some closed) {cs : List Char}
    {ts : List (Token Literal)} (h : lexFrom .idle (c :: cs) = some ts) :
    lexFrom p (c :: cs) = some (closed ++ ts) := by
  obtain ⟨em, q, rest, hnext, hrest, rfl⟩ := lexFrom_cons_eq_some_iff.mp h
  obtain hidle | ⟨-, _, _, ⟨⟩, hfresh, rfl⟩ := Pending.next_eq_some_iff.mp hnext
  · cases hidle
  · refine lexFrom_cons_eq_some_iff.mpr ⟨closed ++ em, q, rest, ?_, hrest, ?_⟩
    · exact Pending.next_eq_some_iff.mpr (.inr ⟨hextend, closed, em, hclose, hfresh, rfl⟩)
    · rw [List.append_assoc]

/-- A character that is kept back leaves no token. -/
theorem lexFrom_cons_of_next {p q : Pending} {c : Char} (h : p.next c = some ([], q))
    (cs : List Char) : lexFrom p (c :: cs) = lexFrom q cs := by
  rw [lexFrom, h, Option.bind_some]
  dsimp only
  cases lexFrom q cs with
  | none => rfl
  | some ts => rfl

/-- A numeral is read to its end. -/
theorem lexFrom_number {s : List Char} (hs : s ≠ []) (t cs : List Char)
    (h : (scan (s ++ t)).isSome) :
    lexFrom (.number s) (t ++ cs) = lexFrom (.number (s ++ t)) cs := by
  induction t generalizing s with
  | nil => rw [List.append_nil, List.nil_append]
  | cons c t ih =>
    have hsplit : s ++ c :: t = (s ++ [c]) ++ t := by simp
    have hne : s ++ [c] ≠ [] := by simp
    rw [hsplit] at h ⊢
    have hextend : Pending.extend (.number s) c = some ([], .number (s ++ [c])) :=
      if_pos (isSome_scan_left hne h)
    rw [← ih hne h, List.cons_append]
    exact lexFrom_cons_of_next (Pending.next_eq_some_iff.mpr (.inl hextend)) _

theorem lexFrom_literal (l : Literal) (cs : List Char) :
    lexFrom .idle (l.text ++ cs) = lexFrom (.number l.text) cs := by
  obtain ⟨st, hst, -⟩ := l.exists_scan
  rcases htext : l.text with _ | ⟨c, t⟩
  · exact absurd htext l.text_ne_nil
  · have hsome : (scan ([c] ++ t)).isSome := by
      rw [List.singleton_append, ← htext, hst]
      rfl
    have hfresh : fresh c = some ([], .number [c]) :=
      if_pos (isSome_scan_left (List.cons_ne_nil c []) hsome)
    have hnext : Pending.next .idle c = some ([], .number [c]) :=
      Pending.next_eq_some_iff.mpr (.inr ⟨rfl, [], [], rfl, hfresh, rfl⟩)
    rw [List.cons_append, lexFrom_cons_of_next hnext]
    exact lexFrom_number (List.cons_ne_nil c []) t cs hsome

theorem close_literal (l : Literal) : (Pending.number l.text).close = some [.num l] :=
  dif_pos l.property

theorem close_number {s : List Char} {closed : List (Token Literal)}
    (h : (Pending.number s).close = some closed) : ∃ l, closed = [.num l] := by
  rw [Pending.close] at h
  split_ifs at h with hs
  exact ⟨_, (Option.some.inj h).symm⟩

/-- What was kept back of a numeral begins the tokens. -/
theorem head_lexFrom_number {s cs : List Char} {ts : List (Token Literal)}
    (h : lexFrom (.number s) cs = some ts) : ∃ l ts', ts = .num l :: ts' := by
  induction cs generalizing s ts with
  | nil =>
    obtain ⟨l, rfl⟩ := close_number h
    exact ⟨l, [], rfl⟩
  | cons c cs ih =>
    obtain ⟨em, q, rest, hnext, hrest, rfl⟩ := lexFrom_cons_eq_some_iff.mp h
    obtain hextend | ⟨-, closed, fs, hclose, -, rfl⟩ := Pending.next_eq_some_iff.mp hnext
    · rw [Pending.extend] at hextend
      split_ifs at hextend with hs
      cases hextend
      exact ih hrest
    · obtain ⟨l, rfl⟩ := close_number hclose
      exact ⟨l, fs ++ rest, rfl⟩

/-- A numeral is a token before anything that an operand is before. -/
theorem lexFrom_literal_close (l : Literal) {cs : List Char} {ts : List (Token Literal)}
    (h : lexFrom .idle cs = some ts) (hwalk : walk true ts ≠ none) :
    lexFrom (.number l.text) cs = some (.num l :: ts) := by
  cases cs with
  | nil =>
    obtain rfl := Option.some.inj h
    exact close_literal l
  | cons c cs =>
    refine lexFrom_close ?_ (close_literal l) h
    obtain ⟨st, hst, haccepts⟩ := l.exists_scan
    have happend : scan (l.text ++ [c]) = step st c := by
      rw [scan_append l.text_ne_nil, hst, Option.bind_some, List.foldlM_cons]
      cases step st c with
      | none => rfl
      | some st' => rfl
    refine if_neg fun hsome => ?_
    rw [happend] at hsome
    obtain ⟨st', hst'⟩ := Option.isSome_iff_exists.mp hsome
    obtain ⟨em, q, rest, hnext, hrest, rfl⟩ := lexFrom_cons_eq_some_iff.mp h
    obtain hidle | ⟨-, _, fs, ⟨⟩, hfresh, rfl⟩ := Pending.next_eq_some_iff.mp hnext
    · cases hidle
    · by_cases hstart : (scan [c]).isSome
      · -- the next token would be another number
        rw [fresh, if_pos hstart] at hfresh
        cases hfresh
        obtain ⟨l', ts', rfl⟩ := head_lexFrom_number hrest
        exact hwalk rfl
      · have hc : c ∈ ['_', 'e', 'E'] := by
          rcases numeralChar_of_step haccepts hst' with hdigit | hc
          · exact absurd (by simp [scan, start, hdigit]) hstart
          · rcases List.mem_cons.mp hc with rfl | hc
            · simp
            · rcases List.mem_cons.mp hc with rfl | hc
              · exact absurd rfl hstart
              · exact List.mem_cons_of_mem _ hc
        have hnone : fresh c = none := by
          rcases List.mem_cons.mp hc with rfl | hc
          · rfl
          · rw [List.mem_pair] at hc
            rcases hc with rfl | rfl
            · rfl
            · rfl
        rw [hnone] at hfresh
        cases hfresh

/-- What was kept back of a product or a quotient begins the tokens. -/
theorem head_lexFrom_double {p : Pending} (hp : p = .star ∨ p = .slash) {cs : List Char}
    {ts : List (Token Literal)} (h : lexFrom p cs = some ts) :
    ∃ o ts', o ≠ Op.sub ∧ ts = .op o :: ts' := by
  cases cs with
  | nil =>
    rcases hp with rfl | rfl
    · exact ⟨.mul, [], nofun, (Option.some.inj h).symm⟩
    · exact ⟨.div, [], nofun, (Option.some.inj h).symm⟩
  | cons c cs =>
    obtain ⟨em, q, rest, hnext, -, rfl⟩ := lexFrom_cons_eq_some_iff.mp h
    obtain hextend | ⟨-, closed, fs, hclose, -, rfl⟩ := Pending.next_eq_some_iff.mp hnext
    · rcases hp with rfl | rfl
      · rw [Pending.extend] at hextend
        split_ifs at hextend
        cases hextend
        exact ⟨.pow, rest, nofun, rfl⟩
      · rw [Pending.extend] at hextend
        split_ifs at hextend
        cases hextend
        exact ⟨.floorDiv, rest, nofun, rfl⟩
    · rcases hp with rfl | rfl
      · cases hclose
        exact ⟨.mul, fs ++ rest, nofun, rfl⟩
      · cases hclose
        exact ⟨.div, fs ++ rest, nofun, rfl⟩

/-- The sign of a product or a quotient is a token before anything that begins an operand. -/
theorem lexFrom_double_close {p : Pending} (hp : p = .star ∨ p = .slash)
    {closed : List (Token Literal)} (hclose : p.close = some closed) {cs : List Char}
    {ts : List (Token Literal)} (h : lexFrom .idle cs = some ts) (hwalk : walk false ts ≠ none) :
    lexFrom p cs = some (closed ++ ts) := by
  cases cs with
  | nil =>
    obtain rfl := Option.some.inj h
    rw [List.append_nil]
    exact hclose
  | cons c cs =>
    refine lexFrom_close ?_ hclose h
    by_contra hextend
    -- the sign would be doubled, and no operand begins with it
    have hnext : Pending.next .idle c = some ([], p) := by
      rcases hp with rfl | rfl
      · rw [Pending.extend] at hextend
        split_ifs at hextend with hc
        · rw [hc]
          rfl
        · exact absurd rfl hextend
      · rw [Pending.extend] at hextend
        split_ifs at hextend with hc
        · rw [hc]
          rfl
        · exact absurd rfl hextend
    rw [lexFrom_cons_of_next hnext] at h
    obtain ⟨o, ts', ho, rfl⟩ := head_lexFrom_double hp h
    refine hwalk ?_
    cases o with
    | sub => exact absurd rfl ho
    | _ => rfl

end Lexing

/-! ## The text of tokens -/

/-- The text of an operator. -/
def opText : Op → List Char
  | .add => ['+']
  | .sub => ['-']
  | .mul => ['*']
  | .div => ['/']
  | .floorDiv => ['/', '/']
  | .mod => ['%']
  | .pow => ['*', '*']

/-- The text of a token. -/
def tokenText : Token Literal → List Char
  | .num l => l.text
  | .var => ['x']
  | .op o => opText o
  | .lparen => ['(']
  | .rparen => [')']

/-- The text of a token before the text of tokens that may follow it. -/
theorem lexFrom_tokenText {ended : Bool} {t : Token Literal} {cs : List Char}
    {ts : List (Token Literal)} (h : lexFrom .idle cs = some ts)
    (hwalk : walk ended (t :: ts) ≠ none) : lexFrom .idle (tokenText t ++ cs) = some (t :: ts) := by
  cases t with
  | num l =>
    have hrest : walk true ts ≠ none := by
      cases ended
      · exact hwalk
      · exact absurd rfl hwalk
    rw [tokenText, lexFrom_literal]
    exact lexFrom_literal_close l h hrest
  | op o =>
    have hrest : walk false ts ≠ none := by
      cases ended
      · cases o <;> first | exact hwalk | exact absurd rfl hwalk
      · exact hwalk
    cases o with
    | mul =>
      have hnext : Pending.next .idle '*' = some ([], .star) := rfl
      rw [tokenText, opText, List.singleton_append, lexFrom_cons_of_next hnext]
      exact lexFrom_double_close (.inl rfl) rfl h hrest
    | div =>
      have hnext : Pending.next .idle '/' = some ([], .slash) := rfl
      rw [tokenText, opText, List.singleton_append, lexFrom_cons_of_next hnext]
      exact lexFrom_double_close (.inr rfl) rfl h hrest
    | pow =>
      refine lexFrom_cons_eq_some_iff.mpr ⟨[], .star, .op .pow :: ts, rfl, ?_, rfl⟩
      exact lexFrom_cons_eq_some_iff.mpr ⟨[.op .pow], .idle, ts, rfl, h, rfl⟩
    | floorDiv =>
      refine lexFrom_cons_eq_some_iff.mpr ⟨[], .slash, .op .floorDiv :: ts, rfl, ?_, rfl⟩
      exact lexFrom_cons_eq_some_iff.mpr ⟨[.op .floorDiv], .idle, ts, rfl, h, rfl⟩
    | add => exact lexFrom_cons_eq_some_iff.mpr ⟨[.op .add], .idle, ts, rfl, h, rfl⟩
    | sub => exact lexFrom_cons_eq_some_iff.mpr ⟨[.op .sub], .idle, ts, rfl, h, rfl⟩
    | mod => exact lexFrom_cons_eq_some_iff.mpr ⟨[.op .mod], .idle, ts, rfl, h, rfl⟩
  | var => exact lexFrom_cons_eq_some_iff.mpr ⟨[.var], .idle, ts, rfl, h, rfl⟩
  | lparen => exact lexFrom_cons_eq_some_iff.mpr ⟨[.lparen], .idle, ts, rfl, h, rfl⟩
  | rparen => exact lexFrom_cons_eq_some_iff.mpr ⟨[.rparen], .idle, ts, rfl, h, rfl⟩

/-- The text of tokens that may stand side by side is read as these tokens. -/
theorem lex_tokenText {ended : Bool} {ts : List (Token Literal)} (hwalk : walk ended ts ≠ none) :
    lex (ts.flatMap tokenText) = some ts := by
  induction ts generalizing ended with
  | nil => rfl
  | cons t ts ih =>
    obtain ⟨next, -, hrest⟩ := walk_cons_ne_none hwalk
    rw [List.flatMap_cons]
    exact lexFrom_tokenText (ih hrest) hwalk

/-! ## Replacing the variable -/

/-- A text that is read as the tokens of a number wherever an operand may begin. -/
structure NumberText (text : List Char) (number : List (Token Literal)) : Prop where
  walk : walk false number = some true
  lexes : ∀ {cs ts}, lexFrom .idle cs = some ts → Expression.walk true ts ≠ none →
    lexFrom .idle (text ++ cs) = some (number ++ ts)
  /-- it does not double the sign of a product or a quotient -/
  head : ∃ c t, text = c :: t ∧ c ≠ '*' ∧ c ≠ '/'
  noSpace : ∀ c ∈ text, Text.isSpace c = false

theorem isSpace_numeralChar {c : Char} (h : isNumeralChar c = true) : Text.isSpace c = false := by
  rw [isNumeralChar, Bool.or_eq_true, decide_eq_true_iff] at h
  rcases h with hdigit | hmem
  · simp only [Char.isDigit, Bool.and_eq_true, decide_eq_true_eq, UInt32.le_iff_toNat_le] at hdigit
    have hlow : 48 ≤ c.toNat := hdigit.1
    have hhigh : c.toNat ≤ 57 := hdigit.2
    simp only [Text.isSpace, Bool.or_eq_false_iff, Bool.and_eq_false_iff, decide_eq_false_iff_not,
      beq_eq_false_iff_ne]
    omega
  · simp only [List.mem_cons, List.not_mem_nil, or_false] at hmem
    rcases hmem with rfl | rfl | rfl | rfl | rfl | rfl <;> rfl

theorem Literal.isNumeralChar (l : Literal) : ∀ c ∈ l.text, Numeral.isNumeralChar c = true := by
  obtain ⟨st, hst, -⟩ := l.exists_scan
  exact isNumeralChar_of_scan (by rw [hst]; rfl)

theorem Literal.head (l : Literal) : ∃ c t, l.text = c :: t ∧ c ≠ '*' ∧ c ≠ '/' := by
  rcases htext : l.text with _ | ⟨c, t⟩
  · exact absurd htext l.text_ne_nil
  · have hc := l.isNumeralChar c (htext ▸ List.mem_cons_self)
    refine ⟨c, t, rfl, ?_, ?_⟩
    · rintro rfl
      exact absurd hc (by decide)
    · rintro rfl
      exact absurd hc (by decide)

/-- A number without a sign. -/
theorem Literal.numberText (l : Literal) : NumberText l.text [.num l] where
  walk := rfl
  lexes := fun h hwalk => by
    rw [lexFrom_literal]
    exact lexFrom_literal_close l h hwalk
  head := l.head
  noSpace := fun c hc => isSpace_numeralChar (l.isNumeralChar c hc)

/-- A number with a sign. -/
theorem Literal.numberText_neg (l : Literal) :
    NumberText ('-' :: l.text) [.op .sub, .num l] where
  walk := rfl
  lexes := fun {_ ts} h hwalk => lexFrom_cons_eq_some_iff.mpr
    ⟨[.op .sub], .idle, .num l :: ts, rfl, l.numberText.lexes h hwalk, rfl⟩
  head := ⟨'-', l.text, rfl, by decide, by decide⟩
  noSpace := List.forall_mem_cons.mpr ⟨rfl, l.numberText.noSpace⟩

/-- What is kept back is no variable. -/
theorem var_notMem_close {p : Pending} {closed : List (Token Literal)} (h : p.close = some closed) :
    .var ∉ closed := by
  cases p with
  | idle | star | slash =>
    cases h
    simp
  | number s =>
    obtain ⟨l, rfl⟩ := close_number h
    simp

/-- The other characters begin no variable. -/
theorem var_notMem_next {p q : Pending} {c : Char} {em : List (Token Literal)} (hc : c ≠ 'x')
    (h : p.next c = some (em, q)) : .var ∉ em := by
  obtain hextend | ⟨-, closed, fs, hclose, hfresh, rfl⟩ := Pending.next_eq_some_iff.mp h
  · cases p with
    | idle => cases hextend
    | number s | star | slash =>
      rw [Pending.extend] at hextend
      split_ifs at hextend
      cases hextend
      simp
  · have hfs : .var ∉ fs := by
      rw [fresh] at hfresh
      split_ifs at hfresh
      · cases hfresh
        simp
      · cases hfresh
        simp
      · cases hfresh
        simp
      · obtain ⟨t, ht, heq⟩ := Option.map_eq_some_iff.mp hfresh
        cases heq
        rw [single] at ht
        split_ifs at ht <;> cases ht <;> simp
    rw [List.mem_append, not_or]
    exact ⟨var_notMem_close hclose, hfs⟩

/-- **The tokens after replacements**: the tokens of the numbers stand where the variables did. -/
theorem lexFrom_replaceEach {texts : Nat → List Char} {numbers : Nat → List (Token Literal)}
    (hnumbers : ∀ i, NumberText (texts i) (numbers i)) {s : List Char} {p : Pending} {ended : Bool}
    {ts : List (Token Literal)} (h : lexFrom p s = some ts) (hwalk : walk ended ts ≠ none) :
    lexFrom p (replaceEach texts s) = some (fillEach numbers ts) := by
  induction s generalizing p ended ts texts numbers with
  | nil =>
    have hfill := fillEach_append (var_notMem_close h) numbers []
    rw [List.append_nil] at hfill
    rw [hfill]
    exact h.trans (congrArg some (List.append_nil ts).symm)
  | cons c s ih =>
    obtain ⟨em, q, rest, hnext, hrest, rfl⟩ := lexFrom_cons_eq_some_iff.mp h
    obtain ⟨next, hem, hwalkrest⟩ := walk_append_ne_none hwalk
    by_cases hc : c = 'x'
    · subst hc
      obtain hextend | ⟨-, closed, fs, hclose, hfresh, rfl⟩ := Pending.next_eq_some_iff.mp hnext
      · rw [extend_var] at hextend
        cases hextend
      · rw [fresh_var] at hfresh
        cases hfresh
        obtain ⟨between, hclosed, hvar⟩ := walk_append_ne_none (hem ▸ Option.some_ne_none next)
        obtain rfl : between = false := by
          cases between
          · rfl
          · exact absurd rfl hvar
        obtain rfl : next = true := by
          rw [walk_append, hclosed] at hem
          exact (Option.some.inj hem).symm
        have htail : ∀ i, NumberText (texts (i + 1)) (numbers (i + 1)) := fun i => hnumbers (i + 1)
        have hreplaced : lexFrom .idle (texts 0 ++ replaceEach (fun i => texts (i + 1)) s) =
            some (numbers 0 ++ fillEach (fun i => numbers (i + 1)) rest) := by
          refine (hnumbers 0).lexes (ih htail hrest hwalkrest) ?_
          rwa [walk_fillEach (fun i => (htail i).walk) hwalkrest]
        have hfill : fillEach numbers (closed ++ [.var] ++ rest) =
            closed ++ (numbers 0 ++ fillEach (fun i => numbers (i + 1)) rest) := by
          rw [List.append_assoc, fillEach_append (var_notMem_close hclose)]
          rfl
        rw [hfill]
        change lexFrom p (texts 0 ++ replaceEach (fun i => texts (i + 1)) s) = _
        obtain ⟨d, t, htext, hstar, hslash⟩ := (hnumbers 0).head
        rw [htext] at hreplaced ⊢
        refine lexFrom_close ?_ hclose hreplaced
        cases p with
        | idle => rfl
        | star => exact if_neg hstar
        | slash => exact if_neg hslash
        | number u =>
          -- a number does not stand before a variable
          obtain ⟨l, rfl⟩ := close_number hclose
          cases ended <;> cases hclosed
    · rw [fillEach_append (var_notMem_next hc hnext)]
      have hsame : replaceEach texts (c :: s) = c :: replaceEach texts s := by
        rw [replaceEach, if_neg hc]
      rw [hsame]
      exact lexFrom_cons_eq_some_iff.mpr ⟨em, q, _, hnext, ih hnumbers hrest hwalkrest, rfl⟩

/-- The blanks of a formula are not in the number. -/
theorem removeSpaces_replaceVariable {text : List Char} (h : ∀ c ∈ text, Text.isSpace c = false)
    (s : List Char) :
    removeSpaces (replaceVariable text s) = replaceVariable text (removeSpaces s) := by
  induction s with
  | nil => rfl
  | cons c s ih =>
    have hcons (c : Char) (s : List Char) : replaceVariable text (c :: s) =
        (if c = 'x' then text else [c]) ++ replaceVariable text s := rfl
    rw [hcons, removeSpaces, List.filter_append]
    change _ ++ removeSpaces (replaceVariable text s) = _
    rw [ih]
    by_cases hc : c = 'x'
    · subst hc
      have htext : text.filter (fun c => !Text.isSpace c) = text :=
        List.filter_eq_self.mpr fun c hc => by rw [h c hc]; rfl
      rw [if_pos rfl, htext]
      rfl
    · rw [if_neg hc]
      cases hspace : Text.isSpace c with
      | true => simp [removeSpaces, hspace]
      | false => simp [removeSpaces, hspace, hcons, hc]

/-- The tokens of a formula after the replacement. -/
theorem lex_replaceVariable {text : List Char} {number : List (Token Literal)}
    (hnumber : NumberText text number) {s : List Char} {ts : List (Token Literal)}
    {e : Expr Literal} (h : lex (removeSpaces s) = some ts) (hparse : parse ts = some e) :
    lex (removeSpaces (replaceVariable text s)) = some (fillTokens number ts) := by
  rw [removeSpaces_replaceVariable hnumber.noSpace]
  have hwalk : walk false ts = some true := (parse_eq_some_iff.mp hparse).walk
  rw [← replaceEach_const, ← fillEach_const]
  exact lexFrom_replaceEach (fun _ => hnumber) h (hwalk ▸ Option.some_ne_none true)

/-- A formula with a number without a sign. -/
theorem readExpression_replaceVariable {s : List Char} {e : Expr Literal}
    (h : readExpression s = some e) (l : Literal) :
    readExpression (replaceVariable l.text s) = some (e.fill l) := by
  obtain ⟨ts, hlex, hparse⟩ := Option.bind_eq_some_iff.mp h
  rw [readExpression, lex_replaceVariable l.numberText hlex hparse]
  exact parse_fillTokens hparse l

/-- A formula with a number with a sign. -/
theorem readExpression_replaceVariable_neg {s : List Char} {e : Expr Literal}
    (h : readExpression s = some e) (l : Literal) :
    readExpression (replaceVariable ('-' :: l.text) s) = some (e.fillNeg l) := by
  obtain ⟨ts, hlex, hparse⟩ := Option.bind_eq_some_iff.mp h
  rw [readExpression, lex_replaceVariable l.numberText_neg hlex hparse]
  exact parse_fillTokens_neg hparse l

end ProtocolGateway
