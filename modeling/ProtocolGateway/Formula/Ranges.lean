import ProtocolGateway.Formula.Reading
import ProtocolGateway.ExactArithmetic
import Mathlib.Tactic.NormNum

/-!
# High and low ranges

`apply_range_formula` takes the blocks `x?(low,high]->formula` out of a text with a regular
expression, and evaluates the formula of the first one whose interval holds the value, after the
text of the value has replaced its `x`. A `Context` adjustment does the same with the formula of a
case.

* `findBlocks` — the blocks as the expression finds them.
* `findBlocks_text` — it finds the blocks that were written.
* `SubstitutionMeans` — replacing the text gives the value of the formula.
* `substitutionMeans_iff` — it does exactly where no sign is taken out of a power that has one.
-/

namespace ProtocolGateway

open Expression Numeral

/-! ## The blocks of a text -/

/-- The groups of a match. -/
structure RawBlock where
  lower : List Char
  upper : List Char
  formula : List Char
  deriving DecidableEq

/-- `[\-0-9.]`. -/
def boundChar (c : Char) : Bool := c = '-' || c.isDigit || c = '.'

/-- `\s*`, where no blank may follow. -/
def skipSpaces (s : List Char) : List Char := s.dropWhile Text.isSpace

/-- One character of a class. -/
def expect (p : Char → Bool) : List Char → Option (List Char)
  | c :: s => if p c then some s else none
  | [] => none

/-- `([\-0-9.]+)`, where no such character may follow. -/
def matchBound (s : List Char) : Option (List Char × List Char) :=
  if s.takeWhile boundChar = [] then none
  else some (s.takeWhile boundChar, s.dropWhile boundChar)

/-- `(?=x\?|$)`: the end of the text, which is also before a last line break. -/
def blockEnds (s : List Char) : Bool := s = [] || s = ['\n'] || ['x', '?'].isPrefixOf s

/-- `(.+?)(?=x\?|$)`. -/
def matchLazy : List Char → Option (List Char × List Char)
  | [] => none
  | c :: s =>
    if c = '\n' then none
    else if blockEnds s then some ([c], s)
    else (matchLazy s).map fun (formula, rest) => (c :: formula, rest)

/-- `\s*(.+?)(?=x\?|$)`: as many blanks as leave a formula. -/
def matchFormula (s : List Char) : Option (List Char × List Char) :=
  (List.range ((s.takeWhile Text.isSpace).length + 1)).reverse.findSome? fun k =>
    matchLazy (s.drop k)

/-- The pattern of a block, and what follows the match. -/
def matchBlock (s : List Char) : Option (RawBlock × List Char) := do
  let s ← expect (· = 'x') s
  let s ← expect (· = '?') s
  let s ← expect (fun c => c = '(' || c = '[') (skipSpaces s)
  let (lower, s) ← matchBound (skipSpaces s)
  let s ← expect (· = ',') (skipSpaces s)
  let (upper, s) ← matchBound (skipSpaces s)
  let s ← expect (fun c => c = ')' || c = ']') (skipSpaces s)
  let s ← expect (· = '-') (skipSpaces s)
  let s ← expect (· = '>') s
  let (formula, s) ← matchFormula s
  return (⟨lower, upper, formula⟩, s)

/-- `re.findall`, where `skip` characters belong to the match before. -/
def findBlocks : Nat → List Char → List RawBlock
  | _, [] => []
  | skip + 1, _ :: s => findBlocks skip s
  | 0, c :: s =>
    match matchBlock (c :: s) with
    | some (block, rest) => block :: findBlocks (s.length - rest.length) s
    | none => findBlocks 0 s

/-- `logic.replace(" ", "")`. -/
def cleaned (s : List Char) : List Char := s.filter (· ≠ ' ')

/-! ## The value of a range -/

/-- A number without a sign. -/
def unsignedNumber (s : List Char) : Option ℚ :=
  (scan s).bind fun st => if st.complete then some st.value else none

/-- `float(text)` of a bound. -/
def floatOfBound : List Char → Option ℚ
  | '-' :: s => (unsignedNumber s).map fun a => -a
  | s => unsignedNumber s

/-- The text of a number, with a sign if it has one. -/
def Writes (text : List Char) (value : ℚ) : Prop :=
  (∃ l : Literal, l.text = text ∧ l.value = value) ∨
    ∃ l : Literal, '-' :: l.text = text ∧ -l.value = value ∧ value < 0

/-- A value and its text. -/
structure Raw where
  value : ℚ
  text : List Char
  writes : Writes text value

section Ranges

variable (roots : Roots) (raw : Raw)

/-- `safe_eval_expression(formula.replace("x", str(value)))`. -/
def substituted (formula : List Char) : Option ℚ :=
  safeEvalExpression roots (replaceVariable raw.text formula)

/-- The loop over the blocks. An evaluation that raises leaves the value. -/
def rangeLoop : List RawBlock → Except PyError ℚ
  | [] => .ok raw.value
  | block :: blocks =>
    match floatOfBound block.lower, floatOfBound block.upper with
    | some lower, some upper =>
      if lower < raw.value ∧ raw.value ≤ upper then
        .ok ((substituted roots raw block.formula).getD raw.value)
      else rangeLoop blocks
    | _, _ => .error .valueError

/-- `apply_range_formula`. -/
def applyRangeFormula (logic : List Char) : Except PyError ℚ :=
  rangeLoop roots raw (findBlocks 0 (cleaned logic))

/-- The formula of a `Context` case, which leaves the value if it raises. -/
def applyCaseFormula (formula : List Char) : ℚ := (substituted roots raw formula).getD raw.value

end Ranges

/-! ## What the texts stand for -/

/-- A text that is an arithmetic expression over `x`. -/
structure Formula where
  text : List Char
  expr : Expr Literal
  reads : readExpression text = some expr

/-- A bound in the notation of the blocks. -/
structure Bound where
  text : List Char
  value : ℚ
  chars : ∀ c ∈ text, boundChar c = true
  reads : floatOfBound text = some value

/-- A block. Its brackets say nothing: the interval is open below and closed above. -/
structure Block where
  opening : Char
  closing : Char
  opening_mem : opening ∈ ['(', '[']
  closing_mem : closing ∈ [')', ']']
  lower : Bound
  upper : Bound
  formula : Formula
  oneLine : '\n' ∉ formula.text

/-- The text of a block. -/
def Block.text (b : Block) : List Char :=
  'x' :: '?' :: b.opening :: (b.lower.text ++ ',' :: (b.upper.text ++
    b.closing :: '-' :: '>' :: b.formula.text))

/-- A `High_Low` text: blocks, with blanks anywhere. -/
structure RangeLogic where
  blocks : List Block
  text : List Char
  writes : cleaned text = cleaned (blocks.flatMap Block.text)

/-- The value of a formula where `x` is the number. -/
def Formula.valueAt (roots : Roots) (f : Formula) (v : ℚ) : Option ℚ :=
  f.expr.eval (arithmetic roots) (some v)

/-- The value of the first block whose interval holds the number, or the number itself. -/
def rangeValue (roots : Roots) (blocks : List Block) (v : ℚ) : ℚ :=
  match blocks.find? fun b => b.lower.value < v ∧ v ≤ b.upper.value with
  | some b => (b.formula.valueAt roots v).getD v
  | none => v

/-- **The property** of formulas for `Context` cases, a `High_Low` text and a number: the text of
the number in the place of `x` gives the value of each formula and of each expression in it, and
the range is that of the first block that holds the number. -/
structure SubstitutionMeans (roots : Roots) (cases : List Formula) (logic : RangeLogic)
    (raw : Raw) : Prop where
  formulas : ∀ f ∈ cases ++ logic.blocks.map Block.formula, ∀ e ∈ f.expr.parts, ∀ s,
    readExpression s = some e →
      substituted roots raw s = e.eval (arithmetic roots) (some raw.value)
  cases : ∀ f ∈ cases,
    applyCaseFormula roots raw f.text = (f.valueAt roots raw.value).getD raw.value
  ranges : applyRangeFormula roots raw logic.text = .ok (rangeValue roots logic.blocks raw.value)

/-- The power has the same value as the power without the sign, with the sign. -/
def PowerKept (roots : Roots) (v k : ℚ) : Prop :=
  if k.den = 1 then Odd k.num else (roots (-v) k).map (fun a => -a) = roots v k

/-- **The condition**: the number is not negative, or each power of `x` itself has an odd exponent. -/
def SignsKept (roots : Roots) (cases : List Formula) (logic : RangeLogic) (raw : Raw) : Prop :=
  raw.value < 0 → ∀ f ∈ cases ++ logic.blocks.map Block.formula, ∀ b,
    .binary .pow .var b ∈ f.expr.parts → ∀ k,
      b.eval (arithmetic roots) (some raw.value) = some k → PowerKept roots raw.value k

/-! ## The blocks are found -/

section Matching

variable {s t : List Char}

theorem skipSpaces_cons {c : Char} (hc : Text.isSpace c = false) :
    skipSpaces (c :: s) = c :: s := by
  rw [skipSpaces, List.dropWhile_cons, hc]
  rfl

theorem expect_cons {p : Char → Bool} {c : Char} (hc : p c = true) :
    expect p (c :: s) = some s := if_pos hc

/-- A bound before a character of another kind. -/
theorem matchBound_append {c : Char} (hs : s ≠ []) (hchars : ∀ c ∈ s, boundChar c = true)
    (hc : boundChar c = false) : matchBound (s ++ c :: t) = some (s, c :: t) := by
  have htake : (s ++ c :: t).takeWhile boundChar = s := by
    rw [List.takeWhile_append_of_pos hchars, List.takeWhile_cons, hc]
    simp
  have hdrop : (s ++ c :: t).dropWhile boundChar = c :: t := by
    rw [List.dropWhile_append_of_pos hchars, List.dropWhile_cons, hc]
    simp
  rw [matchBound, htake, hdrop, if_neg hs]

/-- The end of the text, or the next block. -/
def NextBlock (t : List Char) : Prop := t = [] ∨ ∃ t', t = 'x' :: '?' :: t'

/-- The formula is the text up to the next block: it has no question mark. -/
theorem matchLazy_append (hs : s ≠ []) (hline : '\n' ∉ s) (hquestion : '?' ∉ s)
    (ht : NextBlock t) : matchLazy (s ++ t) = some (s, t) := by
  induction s with
  | nil => exact absurd rfl hs
  | cons c s ih =>
    rw [List.mem_cons, not_or] at hline hquestion
    have hc : c ≠ '\n' := fun h => hline.1 h.symm
    rw [List.cons_append, matchLazy, if_neg hc]
    cases s with
    | nil =>
      have hends : blockEnds ([] ++ t) = true := by
        rcases ht with rfl | ⟨t', rfl⟩
        · rfl
        · simp [blockEnds]
      rw [if_pos hends]
      rfl
    | cons d s =>
      have hends : blockEnds (d :: s ++ t) = false := by
        have hd : d ≠ '\n' := fun h => hline.2 (by simp [h])
        have hprefix : ['x', '?'].isPrefixOf (d :: s ++ t) = false := by
          cases s with
          | nil =>
            rcases ht with rfl | ⟨t', rfl⟩
            · simp [List.isPrefixOf]
            · simp [List.isPrefixOf]
          | cons q s =>
            have hq : q ≠ '?' := fun h => hquestion.2 (by simp [h])
            simp [List.isPrefixOf, Ne.symm hq]
        rw [List.cons_append] at hprefix ⊢
        simp [blockEnds, hd, hprefix]
      rw [hends, ih (List.cons_ne_nil d s) hline.2 hquestion.2]
      rfl

/-- The blanks before a formula are not in the group. -/
theorem matchFormula_append {w g : List Char} {c : Char} (hw : ∀ c ∈ w, Text.isSpace c = true)
    (hc : Text.isSpace c = false) (hline : '\n' ∉ c :: g) (hquestion : '?' ∉ c :: g)
    (ht : NextBlock t) : matchFormula (w ++ (c :: g ++ t)) = some (c :: g, t) := by
  have htake : (w ++ (c :: g ++ t)).takeWhile Text.isSpace = w := by
    rw [List.takeWhile_append_of_pos hw, List.cons_append, List.takeWhile_cons, hc]
    exact List.append_nil w
  have hdrop : (w ++ (c :: g ++ t)).drop w.length = c :: g ++ t := List.drop_left
  rw [matchFormula, htake, List.range_succ, List.reverse_append, List.reverse_singleton,
    List.singleton_append, List.findSome?_cons, hdrop,
    matchLazy_append (List.cons_ne_nil c g) hline hquestion ht]

end Matching

/-! ### Blanks -/

theorem removeSpaces_append (s t : List Char) :
    removeSpaces (s ++ t) = removeSpaces s ++ removeSpaces t := List.filter_append ..

theorem cleaned_append (s t : List Char) : cleaned (s ++ t) = cleaned s ++ cleaned t :=
  List.filter_append ..

theorem removeSpaces_cleaned (s : List Char) : removeSpaces (cleaned s) = removeSpaces s := by
  rw [removeSpaces, cleaned, List.filter_filter]
  refine List.filter_congr fun c _ => ?_
  by_cases hc : c = ' '
  · subst hc
    rfl
  · simp [hc]

theorem removeSpaces_eq_nil {w : List Char} (hw : ∀ c ∈ w, Text.isSpace c = true) :
    removeSpaces w = [] :=
  List.filter_eq_nil_iff.mpr fun c hc => by simp [hw c hc]

theorem cleaned_eq_self {s : List Char} (hs : ' ' ∉ s) : cleaned s = s :=
  List.filter_eq_self.mpr fun c hc => by
    rw [decide_eq_true_iff]
    rintro rfl
    exact hs hc

namespace Formula

variable (f : Formula)

/-- No formula has a question mark. -/
theorem question_not_mem : '?' ∉ f.text := by
  obtain ⟨ts, hlex, -⟩ := Option.bind_eq_some_iff.mp f.reads
  intro hmem
  exact ProtocolGateway.question_not_mem hlex (List.mem_filter.mpr ⟨hmem, rfl⟩)

/-- A formula is not made of blanks. -/
theorem removeSpaces_ne_nil : removeSpaces f.text ≠ [] := by
  intro hnil
  have hreads := f.reads
  rw [readExpression, hnil] at hreads
  have hparse : parse ([] : List (Token Literal)) = some f.expr := hreads
  have hwalk := (parse_eq_some_iff.mp hparse).walk
  cases hwalk

/-- The group of a formula: the blanks at its front are left out, and it reads the same. -/
theorem exists_group : ∃ w c g, cleaned f.text = w ++ c :: g ∧
    (∀ c ∈ w, Text.isSpace c = true) ∧ Text.isSpace c = false ∧
      readExpression (c :: g) = some f.expr := by
  have hsplit : (cleaned f.text).takeWhile Text.isSpace ++
      (cleaned f.text).dropWhile Text.isSpace = cleaned f.text := List.takeWhile_append_dropWhile
  have hw : ∀ c ∈ (cleaned f.text).takeWhile Text.isSpace, Text.isSpace c = true :=
    fun c hc => List.mem_takeWhile_imp hc
  have hsame : removeSpaces ((cleaned f.text).dropWhile Text.isSpace) = removeSpaces f.text := by
    rw [← removeSpaces_cleaned f.text, ← hsplit, removeSpaces_append, removeSpaces_eq_nil hw,
      List.nil_append, hsplit]
  rcases hdrop : (cleaned f.text).dropWhile Text.isSpace with _ | ⟨c, g⟩
  · rw [hdrop] at hsame
    exact absurd hsame.symm f.removeSpaces_ne_nil
  · refine ⟨_, c, g, (hdrop ▸ hsplit).symm, hw, ?_, ?_⟩
    · have hhead := List.head?_dropWhile_not Text.isSpace (cleaned f.text)
      rw [hdrop] at hhead
      simpa using hhead
    · rw [readExpression, ← hdrop, hsame]
      exact f.reads

end Formula

theorem floatOfBound_nil : floatOfBound [] = none := rfl

namespace Bound

variable (b : Bound)

theorem text_ne_nil : b.text ≠ [] := by
  intro h
  have hreads := b.reads
  rw [h] at hreads
  cases hreads

/-- A bound begins with no blank, and has none. -/
theorem noSpace : ∀ c ∈ b.text, Text.isSpace c = false := by
  intro c hc
  refine isSpace_numeralChar ?_
  have hchar := b.chars c hc
  simp only [boundChar, Bool.or_eq_true, decide_eq_true_eq] at hchar
  rw [isNumeralChar, Bool.or_eq_true, decide_eq_true_iff]
  rcases hchar with (rfl | hdigit) | rfl
  · simp
  · exact .inl hdigit
  · simp

theorem cleaned_text : cleaned b.text = b.text :=
  cleaned_eq_self fun h => absurd (b.noSpace ' ' h) (by decide)

theorem skipSpaces_text (t : List Char) : skipSpaces (b.text ++ t) = b.text ++ t := by
  obtain ⟨c, s, hs⟩ := List.exists_cons_of_ne_nil b.text_ne_nil
  rw [hs, List.cons_append]
  exact skipSpaces_cons (b.noSpace c (hs ▸ List.mem_cons_self))

end Bound

namespace Block

variable (b : Block)

/-- What the pattern captures of a block. -/
def captured : RawBlock := ⟨b.lower.text, b.upper.text, skipSpaces (cleaned b.formula.text)⟩

theorem readExpression_captured : readExpression b.captured.formula = some b.formula.expr := by
  obtain ⟨w, c, g, hcleaned, hw, hc, hreads⟩ := b.formula.exists_group
  have hskip : skipSpaces (w ++ c :: g) = c :: g := by
    rw [skipSpaces, List.dropWhile_append_of_pos hw]
    exact skipSpaces_cons hc
  rw [captured, hcleaned, hskip]
  exact hreads

theorem cleaned_text : cleaned b.text = 'x' :: '?' :: b.opening :: (b.lower.text ++
    ',' :: (b.upper.text ++ b.closing :: '-' :: '>' :: cleaned b.formula.text)) := by
  have hcons {c : Char} (hc : c ≠ ' ') (s : List Char) : cleaned (c :: s) = c :: cleaned s := by
    rw [cleaned, List.filter_cons, if_pos (by simpa using hc)]
    rfl
  have hopening : b.opening ≠ ' ' := fun h => absurd (h ▸ b.opening_mem) (by decide)
  have hclosing : b.closing ≠ ' ' := fun h => absurd (h ▸ b.closing_mem) (by decide)
  rw [text, hcons (by decide), hcons (by decide), hcons hopening, cleaned_append,
    b.lower.cleaned_text, hcons (by decide), cleaned_append, b.upper.cleaned_text, hcons hclosing,
    hcons (by decide), hcons (by decide)]

/-- **The pattern matches a block**, up to the next one. -/
theorem matchBlock_text {t : List Char} (ht : NextBlock t) :
    matchBlock (cleaned b.text ++ t) = some (b.captured, t) := by
  obtain ⟨w, c, g, hcleaned, hw, hc, hreads⟩ := b.formula.exists_group
  have hmem : ∀ d ∈ c :: g, d ∈ b.formula.text := fun d hd =>
    List.mem_of_mem_filter (hcleaned ▸ List.mem_append_right w hd)
  have hskip : skipSpaces (w ++ c :: g) = c :: g := by
    rw [skipSpaces, List.dropWhile_append_of_pos hw]
    exact skipSpaces_cons hc
  have hformula := matchFormula_append hw hc (fun h => b.oneLine (hmem _ h))
    (fun h => b.formula.question_not_mem (hmem _ h)) ht
  have hopening : Text.isSpace b.opening = false ∧ (b.opening = '(' || b.opening = '[') = true := by
    rcases List.mem_pair.mp b.opening_mem with h | h <;> rw [h] <;> decide
  have hclosing : (Text.isSpace b.closing = false ∧ boundChar b.closing = false) ∧
      (b.closing = ')' || b.closing = ']') = true := by
    rcases List.mem_pair.mp b.closing_mem with h | h <;> rw [h] <;> decide
  have hlower (s : List Char) : matchBound (b.lower.text ++ ',' :: s) =
      some (b.lower.text, ',' :: s) :=
    matchBound_append b.lower.text_ne_nil b.lower.chars (by decide)
  have hupper (s : List Char) : matchBound (b.upper.text ++ b.closing :: s) =
      some (b.upper.text, b.closing :: s) :=
    matchBound_append b.upper.text_ne_nil b.upper.chars hclosing.1.2
  have hx (s : List Char) : expect (fun c => c = 'x') ('x' :: s) = some s := expect_cons rfl
  have hquestion (s : List Char) : expect (fun c => c = '?') ('?' :: s) = some s := expect_cons rfl
  have hcomma (s : List Char) : expect (fun c => c = ',') (skipSpaces (',' :: s)) = some s := by
    rw [skipSpaces_cons (by decide)]
    exact expect_cons rfl
  have hdash (s : List Char) : expect (fun c => c = '-') (skipSpaces ('-' :: s)) = some s := by
    rw [skipSpaces_cons (by decide)]
    exact expect_cons rfl
  have hangle (s : List Char) : expect (fun c => c = '>') ('>' :: s) = some s := expect_cons rfl
  have hopen (s : List Char) : expect (fun c => c = '(' || c = '[')
      (skipSpaces (b.opening :: s)) = some s := by
    rw [skipSpaces_cons hopening.1]
    exact expect_cons hopening.2
  have hclose (s : List Char) : expect (fun c => c = ')' || c = ']')
      (skipSpaces (b.closing :: s)) = some s := by
    rw [skipSpaces_cons hclosing.1.1]
    exact expect_cons hclosing.2
  rw [b.cleaned_text, captured, hcleaned, hskip, matchBlock]
  simp only [List.cons_append, List.append_assoc, Option.bind_eq_bind, hx, hquestion, hopen,
    Bound.skipSpaces_text, hlower, hcomma, hupper, hclose, hdash, hangle, Option.bind_some]
  rw [List.cons_append] at hformula
  rw [hformula]
  rfl

end Block

/-- The characters of a match are skipped. -/
theorem findBlocks_skip (s t : List Char) : findBlocks s.length (s ++ t) = findBlocks 0 t := by
  induction s with
  | nil => rfl
  | cons c s ih => exact ih

/-- **The blocks that were written are found**, in their order. -/
theorem findBlocks_text (blocks : List Block) :
    findBlocks 0 (cleaned (blocks.flatMap Block.text)) = blocks.map Block.captured := by
  induction blocks with
  | nil => rfl
  | cons b blocks ih =>
    have hnext : NextBlock (cleaned (blocks.flatMap Block.text)) := by
      cases blocks with
      | nil => exact .inl rfl
      | cons b' blocks =>
        rw [List.flatMap_cons, cleaned_append, b'.cleaned_text]
        exact .inr ⟨_, rfl⟩
    obtain ⟨s, hs⟩ : ∃ s, cleaned b.text = 'x' :: s := ⟨_, b.cleaned_text⟩
    have hmatch := b.matchBlock_text hnext
    rw [List.flatMap_cons, cleaned_append, List.map_cons, ← ih]
    rw [hs, List.cons_append] at hmatch ⊢
    rw [findBlocks, hmatch]
    dsimp only
    have hlength (t : List Char) : (s ++ t).length - t.length = s.length := by simp
    rw [hlength, findBlocks_skip]

/-! ## Formulas of numbers -/

section Substituting

variable {roots : Roots} {raw : Raw}

/-- No token has a blank. -/
theorem isSpace_tokenText (t : Token Literal) : ∀ c ∈ tokenText t, Text.isSpace c = false := by
  intro c hc
  cases t with
  | num l => exact l.numberText.noSpace c hc
  | op o =>
    cases o <;> simp only [tokenText, opText, List.mem_cons, List.not_mem_nil, or_false,
      or_self] at hc <;> rw [hc] <;> rfl
  | var | lparen | rparen =>
    rw [List.mem_singleton.mp hc]
    rfl

/-- Every expression of the grammar has a text. -/
theorem exists_readExpression {ts : List (Token Literal)} {e : Expr Literal}
    (h : Derives .sum ts e) : ∃ s, readExpression s = some e := by
  have hspaces : removeSpaces (ts.flatMap tokenText) = ts.flatMap tokenText := by
    refine List.filter_eq_self.mpr fun c hc => ?_
    obtain ⟨t, -, hc⟩ := List.mem_flatMap.mp hc
    rw [isSpace_tokenText t c hc]
    rfl
  have hwalk : walk false ts = some true := h.walk
  refine ⟨ts.flatMap tokenText, ?_⟩
  rw [readExpression, hspaces, lex_tokenText (hwalk ▸ Option.some_ne_none true)]
  exact parse_eq_some_iff.mpr h

/-- An odd power keeps the sign, an even one does not. -/
theorem powerKept_iff {l : Literal} {v k : ℚ} (hl : -l.value = v) (hv : v < 0) :
    ((arithmetic roots).apply .pow l.value k).map (arithmetic roots).neg =
      (arithmetic roots).apply .pow v k ↔ PowerKept roots v k := by
  have hne : l.value ≠ 0 := by
    intro h
    rw [← hl, h, neg_zero] at hv
    exact lt_irrefl 0 hv
  change (power roots l.value k).map (fun a => -a) = power roots v k ↔ _
  rw [PowerKept, ← hl, power, power, neg_neg]
  by_cases hk : k.den = 1
  · rw [if_pos hk, if_pos hk, if_pos hk, if_neg fun h => hne h.1,
      if_neg fun h => hne (neg_eq_zero.mp h.1), Option.map_some, Option.some.injEq]
    rcases Int.even_or_odd k.num with heven | hodd
    · refine iff_of_false ?_ (Int.not_odd_iff_even.mpr heven)
      rw [heven.neg_zpow]
      intro h
      exact zpow_ne_zero _ hne (self_eq_neg.mp h.symm)
    · exact iff_of_true (hodd.neg_zpow _).symm hodd
  · rw [if_neg hk, if_neg hk, if_neg hk]

/-- The text of a number in the place of `x`. -/
theorem substituted_eq {s : List Char} {e : Expr Literal} (h : readExpression s = some e)
    (hkept : raw.value < 0 → ∀ b, .binary .pow .var b ∈ e.parts → ∀ k,
      b.eval (arithmetic roots) (some raw.value) = some k → PowerKept roots raw.value k) :
    substituted roots raw s = e.eval (arithmetic roots) (some raw.value) := by
  rw [substituted, safeEvalExpression]
  rcases raw.writes with ⟨l, htext, hvalue⟩ | ⟨l, htext, hvalue, hneg⟩
  · rw [← htext, readExpression_replaceVariable h l, ← hvalue]
    exact e.eval_fill (arithmetic roots) none l
  · rw [← htext, readExpression_replaceVariable_neg h l]
    have hpowers : e.PowersKept (arithmetic roots) l := by
      intro b hb k hk
      change b.eval (arithmetic roots) (some (-l.value)) = some k at hk
      change _ = (arithmetic roots).apply .pow (-l.value) k
      rw [hvalue] at hk ⊢
      exact (powerKept_iff hvalue hneg).mpr (hkept hneg b hb k hk)
    rw [← hvalue]
    exact Expr.eval_fillNeg hpowers none

/-- **A power of `x` has its value only where it keeps the sign.** -/
theorem powerKept_of_substituted {b : Expr Literal} {r : List (Token Literal)}
    (hb : Derives .factor r b) (hneg : raw.value < 0)
    (hpower : ∀ s, readExpression s = some (.binary .pow .var b) → substituted roots raw s =
      (Expr.binary .pow .var b).eval (arithmetic roots) (some raw.value))
    (hexponent : ∀ s, readExpression s = some b →
      substituted roots raw s = b.eval (arithmetic roots) (some raw.value)) {k : ℚ}
    (hk : b.eval (arithmetic roots) (some raw.value) = some k) : PowerKept roots raw.value k := by
  rcases raw.writes with ⟨l, -, hvalue⟩ | ⟨l, htext, hvalue, -⟩
  · exact absurd (hvalue ▸ l.value_nonneg) (not_le_of_gt hneg)
  · have hfill {e : Expr Literal} {s : List Char} (hs : readExpression s = some e) :
        substituted roots raw s = (e.fillNeg l).eval (arithmetic roots) none := by
      rw [substituted, safeEvalExpression, ← htext, readExpression_replaceVariable_neg hs l]
      rfl
    obtain ⟨s, hs⟩ := exists_readExpression (Derives.unsigned (.pow .var hb)).sum_of_factor
    obtain ⟨t, ht⟩ := exists_readExpression hb.sum_of_factor
    have hp := hpower s hs
    have he := hexponent t ht
    rw [hfill hs, ← hvalue] at hp
    rw [hfill ht, ← hvalue] at he
    rw [← hvalue] at hk
    have hkept := Expr.kept_of_eval_fillNeg hp he hk
    change _ = (arithmetic roots).apply .pow (-l.value) k at hkept
    rw [hvalue] at hkept
    exact (powerKept_iff hvalue hneg).mp hkept

/-- The loop takes the first block whose interval holds the number. -/
theorem rangeLoop_captured {blocks : List Block}
    (h : ∀ b ∈ blocks, substituted roots raw b.captured.formula =
      b.formula.valueAt roots raw.value) :
    rangeLoop roots raw (blocks.map Block.captured) = .ok (rangeValue roots blocks raw.value) := by
  induction blocks with
  | nil => rfl
  | cons b blocks ih =>
    have hlower : floatOfBound b.captured.lower = some b.lower.value := b.lower.reads
    have hupper : floatOfBound b.captured.upper = some b.upper.value := b.upper.reads
    rw [List.map_cons, rangeLoop, hlower, hupper]
    dsimp only
    rw [rangeValue, List.find?_cons]
    by_cases hholds : b.lower.value < raw.value ∧ raw.value ≤ b.upper.value
    · rw [if_pos hholds, h b List.mem_cons_self, decide_eq_true hholds]
    · rw [if_neg hholds, decide_eq_false hholds]
      exact ih fun b' hb' => h b' (List.mem_cons_of_mem _ hb')

end Substituting

/-- **Substitution means evaluation exactly where the signs are kept.** -/
theorem substitutionMeans_iff (roots : Roots) (cases : List Formula) (logic : RangeLogic)
    (raw : Raw) :
    SubstitutionMeans roots cases logic raw ↔ SignsKept roots cases logic raw := by
  constructor
  · intro h hneg f hf b hb k hk
    obtain ⟨ts, -, hparse⟩ := Option.bind_eq_some_iff.mp f.reads
    obtain ⟨r, hr⟩ := ((parse_eq_some_iff.mp hparse).exponent hb).resolve_right nofun
    have hexponent : b ∈ f.expr.parts := Expr.parts_subset hb
      (List.mem_cons_of_mem _ (List.mem_append_right _ b.mem_parts_self))
    exact powerKept_of_substituted hr hneg (h.formulas f hf _ hb)
      (h.formulas f hf b hexponent) hk
  · intro h
    have hreads {f : Formula} (hf : f ∈ cases ++ logic.blocks.map Block.formula)
        {e : Expr Literal} (he : e ∈ f.expr.parts) {s : List Char}
        (hs : readExpression s = some e) :
        substituted roots raw s = e.eval (arithmetic roots) (some raw.value) :=
      substituted_eq hs fun hneg b hb => h hneg f hf b (Expr.parts_subset he hb)
    refine ⟨fun f hf e he s hs => hreads hf he hs, fun f hf => ?_, ?_⟩
    · rw [applyCaseFormula, hreads (List.mem_append_left _ hf) f.expr.mem_parts_self f.reads]
      rfl
    · rw [applyRangeFormula, logic.writes, findBlocks_text]
      refine rangeLoop_captured fun b hb => ?_
      have hf : b.formula ∈ cases ++ logic.blocks.map Block.formula :=
        List.mem_append_right _ (List.mem_map_of_mem hb)
      exact hreads hf b.formula.expr.mem_parts_self b.readExpression_captured

/-! ## The formulas of a host -/

/-- A host that finds the blocks of a `High_Low` adjustment and evaluates their formulas. -/
structure ExactHost.Evaluates (x : ExactHost) (roots : Roots) (raw : Raw) (highLow : Json)
    (logic : RangeLogic) : Prop where
  blocks : x.rangeBlocks highLow = logic.blocks.map fun b =>
    ⟨b.lower.value, b.upper.value, String.ofList b.captured.formula⟩
  evaluate : ∀ s, x.evaluate (String.ofList s) raw.value = substituted roots raw s

/-- The scaling of the decoder is `apply_range_formula` of the text. -/
theorem ExactHost.Evaluates.applyRangeFormula {x : ExactHost} {roots : Roots} {raw : Raw}
    {highLow : Json} {logic : RangeLogic} (h : x.Evaluates roots raw highLow logic) :
    ProtocolGateway.applyRangeFormula roots raw logic.text =
      .ok (x.applyRangeFormula raw.value highLow) := by
  rw [ProtocolGateway.applyRangeFormula, logic.writes, findBlocks_text,
    ExactHost.applyRangeFormula, h.blocks]
  generalize logic.blocks = blocks
  induction blocks with
  | nil => rfl
  | cons b blocks ih =>
    have hlower : floatOfBound b.captured.lower = some b.lower.value := b.lower.reads
    have hupper : floatOfBound b.captured.upper = some b.upper.value := b.upper.reads
    rw [List.map_cons, rangeLoop, hlower, hupper, List.map_cons, List.find?_cons]
    dsimp only
    by_cases hholds : b.lower.value < raw.value ∧ raw.value ≤ b.upper.value
    · rw [if_pos hholds, decide_eq_true hholds, ← h.evaluate]
    · rw [if_neg hholds, decide_eq_false hholds]
      exact ih

/-! ### A square of a negative number -/

/-- `2`. -/
def two : Literal := ⟨['2'], rfl⟩

/-- `3.0`. -/
def three : Literal := ⟨['3', '.', '0'], rfl⟩

theorem two_value : two.value = 2 := by
  have hscan : scan two.text = some ⟨.whole, .digit, true, false, 2, 0, false, 0⟩ := rfl
  rw [Literal.value, hscan]
  norm_num [State.value]

theorem three_value : three.value = 3 := by
  have hscan : scan three.text = some ⟨.fraction, .digit, true, false, 30, 1, false, 0⟩ := rfl
  rw [Literal.value, hscan]
  norm_num [State.value]

/-- `x**2`. -/
def squareFormula : Formula where
  text := ['x', '*', '*', '2']
  expr := .binary .pow .var (.num two)
  reads := rfl

/-- A text without blocks. -/
def noRanges : RangeLogic := ⟨[], [], rfl⟩

/-- `-3.0`. -/
def minusThree : Raw where
  value := -3
  text := ['-', '3', '.', '0']
  writes := .inr ⟨three, rfl, by rw [three_value], by norm_num⟩

/-- `-3.0**2` is minus nine. -/
theorem not_substitutionMeans_square :
    ¬SubstitutionMeans (fun _ _ => none) [squareFormula] noRanges minusThree := by
  intro h
  have hvalue := h.formulas squareFormula List.mem_cons_self _ (Expr.mem_parts_self _) _
    squareFormula.reads
  have htext : substituted (fun _ _ => none) minusThree squareFormula.text =
      (power (fun _ _ => none) three.value two.value).map fun a => -a := by
    rw [substituted, safeEvalExpression,
      show minusThree.text = '-' :: three.text from rfl,
      readExpression_replaceVariable_neg squareFormula.reads three]
    rfl
  have hbound : squareFormula.expr.eval (arithmetic fun _ _ => none) (some minusThree.value) =
      power (fun _ _ => none) (-3) two.value := rfl
  rw [htext, hbound, two_value, three_value] at hvalue
  norm_num [power] at hvalue

end ProtocolGateway
