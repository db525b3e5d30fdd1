import ProtocolGateway.Lib.Expression
import Mathlib.Data.List.Flatten

/-!
# Numbers put in for the variable

What becomes of an expression when the tokens of a number are put in for its variable. A number
without a sign is an atom, as the variable is. A number with a sign is a factor: in the base of a
power the sign goes to the power, so that `x ** 2` at `-3` becomes `-(3 ** 2)`.

* `walk` — the tokens of an expression alternate between operands and operators.
* `Derives.fill`, `Derives.fillNeg` — the grammar after the number has been put in.
* `Arithmetic`, `Expr.eval` — the value of an expression.
* `eval_fill`, `eval_fillNeg` — the value after the number has been put in.
-/

universe u v

namespace Expression

variable {N : Type u} {V : Type v}

/-! ## Operands and operators -/

/-- One token on: whether an operand has ended with it, given whether one had ended before it. -/
def Token.walk : Bool → Token N → Option Bool
  | false, .num _ | false, .var => some true
  | false, .lparen | false, .op .sub => some false
  | true, .op _ => some false
  | true, .rparen => some true
  | _, _ => none

/-- All tokens on. -/
def walk : Bool → List (Token N) → Option Bool
  | ended, [] => some ended
  | ended, t :: ts => (t.walk ended).bind fun ended => walk ended ts

theorem walk_append (ended : Bool) (l r : List (Token N)) :
    walk ended (l ++ r) = (walk ended l).bind fun ended => walk ended r := by
  induction l generalizing ended with
  | nil => rfl
  | cons t l ih =>
    simp only [List.cons_append, walk]
    cases t.walk ended with
    | none => rfl
    | some ended' => exact ih ended'

/-- What may stand after a token. -/
theorem walk_cons_ne_none {ended : Bool} {t : Token N} {ts : List (Token N)}
    (h : walk ended (t :: ts) ≠ none) : ∃ next, t.walk ended = some next ∧ walk next ts ≠ none := by
  rw [walk] at h
  cases hstep : t.walk ended with
  | none =>
    rw [hstep] at h
    exact absurd rfl h
  | some next =>
    rw [hstep] at h
    exact ⟨next, rfl, h⟩

/-- What may stand after tokens. -/
theorem walk_append_ne_none {ended : Bool} {l r : List (Token N)}
    (h : walk ended (l ++ r) ≠ none) : ∃ next, walk ended l = some next ∧ walk next r ≠ none := by
  rw [walk_append] at h
  cases hstep : walk ended l with
  | none =>
    rw [hstep] at h
    exact absurd rfl h
  | some next =>
    rw [hstep] at h
    exact ⟨next, rfl, h⟩

/-- A tail follows an operand, and the other phrases do not. -/
def Phrase.follows : Phrase N → Bool
  | .termTail _ | .sumTail _ => true
  | _ => false

/-- A phrase ends with an operand. -/
theorem Derives.walk {ph : Phrase N} {ts : List (Token N)} {e : Expr N} (h : Derives ph ts e) :
    walk ph.follows ts = some true := by
  induction h with
  | num | var | termEnd | sumEnd => rfl
  | @paren ts e _ ih =>
    have hinner : Expression.walk false ts = some true := ih
    simp [Expression.walk, Token.walk, Phrase.follows, walk_append, hinner]
  | base _ ih | unsigned _ ih => exact ih
  | @pow l r a b _ _ ihl ihr =>
    have hl : Expression.walk false l = some true := ihl
    have hr : Expression.walk false r = some true := ihr
    simp [Expression.walk, Token.walk, Phrase.follows, walk_append, hl, hr]
  | @neg ts e _ ih =>
    have hinner : Expression.walk false ts = some true := ih
    simp [Expression.walk, Token.walk, Phrase.follows, hinner]
  | @term l r a e _ _ ihl ihr | @sum l r a e _ _ ihl ihr =>
    have hl : Expression.walk false l = some true := ihl
    have hr : Expression.walk true r = some true := ihr
    simp [Phrase.follows, walk_append, hl, hr]
  | @termMore o a b l r e _ _ _ ihl ihr | @sumMore o a b l r e _ _ _ ihl ihr =>
    have hl : Expression.walk false l = some true := ihl
    have hr : Expression.walk true r = some true := ihr
    simp [Expression.walk, Token.walk, Phrase.follows, walk_append, hl, hr]

/-! ## Putting in a number -/

/-- The tokens with others for the variable. -/
def fillTokens (number : List (Token N)) (ts : List (Token N)) : List (Token N) :=
  ts.flatMap fun
    | .var => number
    | t => [t]

@[simp]
theorem fillTokens_nil (number : List (Token N)) : fillTokens number [] = [] := rfl

theorem fillTokens_append (number l r : List (Token N)) :
    fillTokens number (l ++ r) = fillTokens number l ++ fillTokens number r :=
  List.flatMap_append

@[simp]
theorem fillTokens_var (number ts : List (Token N)) :
    fillTokens number (.var :: ts) = number ++ fillTokens number ts := rfl

@[simp]
theorem fillTokens_num (number : List (Token N)) (n : N) (ts : List (Token N)) :
    fillTokens number (.num n :: ts) = .num n :: fillTokens number ts := rfl

@[simp]
theorem fillTokens_op (number : List (Token N)) (o : Op) (ts : List (Token N)) :
    fillTokens number (.op o :: ts) = .op o :: fillTokens number ts := rfl

@[simp]
theorem fillTokens_lparen (number ts : List (Token N)) :
    fillTokens number (.lparen :: ts) = .lparen :: fillTokens number ts := rfl

@[simp]
theorem fillTokens_rparen (number ts : List (Token N)) :
    fillTokens number (.rparen :: ts) = .rparen :: fillTokens number ts := rfl

/-- The tokens with others for the variables, one after the other. -/
def fillEach : (Nat → List (Token N)) → List (Token N) → List (Token N)
  | _, [] => []
  | numbers, .var :: ts => numbers 0 ++ fillEach (fun i => numbers (i + 1)) ts
  | numbers, .num n :: ts => .num n :: fillEach numbers ts
  | numbers, .op o :: ts => .op o :: fillEach numbers ts
  | numbers, .lparen :: ts => .lparen :: fillEach numbers ts
  | numbers, .rparen :: ts => .rparen :: fillEach numbers ts

theorem fillEach_cons {t : Token N} (h : t ≠ .var) (numbers : Nat → List (Token N))
    (ts : List (Token N)) : fillEach numbers (t :: ts) = t :: fillEach numbers ts := by
  cases t with
  | var => exact absurd rfl h
  | _ => rfl

/-- Tokens without a variable stay as they are. -/
theorem fillEach_append {l : List (Token N)} (h : .var ∉ l) (numbers : Nat → List (Token N))
    (r : List (Token N)) : fillEach numbers (l ++ r) = l ++ fillEach numbers r := by
  induction l with
  | nil => rfl
  | cons t l ih =>
    rw [List.mem_cons, not_or] at h
    rw [List.cons_append, fillEach_cons (Ne.symm h.1), ih h.2]
    rfl

/-- The same tokens for all variables. -/
theorem fillEach_const (number ts : List (Token N)) :
    fillEach (fun _ => number) ts = fillTokens number ts := by
  induction ts with
  | nil => rfl
  | cons t ts ih =>
    cases t with
    | var => exact congrArg (number ++ ·) ih
    | _ => exact congrArg (_ :: ·) ih

/-- Tokens that end an operand stand where the variables did. -/
theorem walk_fillEach {numbers : Nat → List (Token N)}
    (hnumbers : ∀ i, walk false (numbers i) = some true) {ended : Bool} {ts : List (Token N)}
    (h : walk ended ts ≠ none) : walk ended (fillEach numbers ts) = walk ended ts := by
  induction ts generalizing numbers ended with
  | nil => rfl
  | cons t ts ih =>
    obtain ⟨next, hstep, hrest⟩ := walk_cons_ne_none h
    by_cases ht : t = .var
    · subst ht
      cases ended with
      | true => cases hstep
      | false =>
        obtain rfl := Option.some.inj hstep
        rw [fillEach, walk_append, hnumbers, Option.bind_some, ih (fun i => hnumbers (i + 1)) hrest]
        rfl
    · rw [fillEach_cons ht, walk, walk, hstep, Option.bind_some, Option.bind_some,
        ih hnumbers hrest]

namespace Expr

/-- A number without a sign in the place of the variable. -/
def fill (n : N) : Expr N → Expr N
  | .num a => .num a
  | .var => .num n
  | .paren e => .paren (e.fill n)
  | .neg e => .neg (e.fill n)
  | .binary o l r => .binary o (l.fill n) (r.fill n)

/-- A number with a sign in the place of the variable: a power of it is a power with a sign. -/
def fillNeg (n : N) : Expr N → Expr N
  | .num a => .num a
  | .var => .neg (.num n)
  | .paren e => .paren (e.fillNeg n)
  | .neg e => .neg (e.fillNeg n)
  | .binary .pow .var r => .neg (.binary .pow (.num n) (r.fillNeg n))
  | .binary o l r => .binary o (l.fillNeg n) (r.fillNeg n)

theorem fillNeg_binary {n : N} {o : Op} {l r : Expr N} (h : ¬(o = .pow ∧ l = .var)) :
    (Expr.binary o l r).fillNeg n = .binary o (l.fillNeg n) (r.fillNeg n) := by
  rw [fillNeg]
  rintro rfl rfl
  exact h ⟨rfl, rfl⟩

end Expr

/-- The phrase after a change of the expression read so far. -/
def Phrase.map (f : Expr N → Expr N) : Phrase N → Phrase N
  | .termTail acc => .termTail (f acc)
  | .sumTail acc => .sumTail (f acc)
  | .atom => .atom
  | .power => .power
  | .factor => .factor
  | .term => .term
  | .sum => .sum

/-- A number without a sign keeps the grammar. -/
theorem Derives.fill {ph : Phrase N} {ts : List (Token N)} {e : Expr N} (h : Derives ph ts e)
    (n : N) : Derives (ph.map (Expr.fill n)) (fillTokens [.num n] ts) (e.fill n) := by
  induction h with
  | num a => exact .num a
  | var => exact .num n
  | paren _ ih =>
    rw [fillTokens_lparen, fillTokens_append]
    exact .paren ih
  | base _ ih => exact .base ih
  | pow _ _ ihl ihr =>
    rw [fillTokens_append]
    exact .pow ihl ihr
  | unsigned _ ih => exact .unsigned ih
  | neg _ ih => exact .neg ih
  | term _ _ ihl ihr =>
    rw [fillTokens_append]
    exact .term ihl ihr
  | termEnd a => exact .termEnd _
  | termMore hop _ _ ihl ihr =>
    rw [fillTokens_op, fillTokens_append]
    exact .termMore hop ihl ihr
  | sum _ _ ihl ihr =>
    rw [fillTokens_append]
    exact .sum ihl ihr
  | sumEnd a => exact .sumEnd _
  | sumMore hop _ _ ihl ihr =>
    rw [fillTokens_op, fillTokens_append]
    exact .sumMore hop ihl ihr

/-- What becomes of a phrase with a signed number: the variable is no atom any more, and a power
may have got a sign. -/
def FillsNeg (n : N) : Phrase N → List (Token N) → Expr N → Prop
  | .atom, ts, e => (ts = [.var] ∧ e = .var) ∨
      (e ≠ .var ∧ Derives .atom (fillTokens [.op .sub, .num n] ts) (e.fillNeg n))
  | .power, ts, e => Derives .factor (fillTokens [.op .sub, .num n] ts) (e.fillNeg n)
  | ph, ts, e => Derives (ph.map (Expr.fillNeg n)) (fillTokens [.op .sub, .num n] ts) (e.fillNeg n)

/-- A signed number takes its sign out of the powers. -/
theorem Derives.fillNeg {ph : Phrase N} {ts : List (Token N)} {e : Expr N} (h : Derives ph ts e)
    (n : N) : FillsNeg n ph ts e := by
  have hnumber : Derives .factor [.op .sub, .num n] (.neg (.num n)) :=
    .neg (.unsigned (.base (.num n)))
  induction h with
  | num a => exact .inr ⟨nofun, .num a⟩
  | var => exact .inl ⟨rfl, rfl⟩
  | paren _ ih =>
    refine .inr ⟨nofun, ?_⟩
    rw [fillTokens_lparen, fillTokens_append]
    exact .paren ih
  | base _ ih =>
    rcases ih with ⟨rfl, rfl⟩ | ⟨-, hatom⟩
    · exact hnumber
    · exact .unsigned (.base hatom)
  | @pow l r a b _ _ ihl ihr =>
    have hexponent : Derives .factor (fillTokens [.op .sub, .num n] r) (b.fillNeg n) := ihr
    rcases ihl with ⟨rfl, rfl⟩ | ⟨hne, hatom⟩
    · exact .neg (.unsigned (.pow (.num n) hexponent))
    · show Derives .factor _ _
      rw [fillTokens_append, Expr.fillNeg_binary fun h => hne h.2]
      exact .unsigned (.pow hatom hexponent)
  | unsigned _ ih => exact ih
  | neg _ ih => exact .neg ih
  | term _ _ ihl ihr =>
    show Derives .term _ _
    rw [fillTokens_append]
    exact .term ihl ihr
  | termEnd a => exact .termEnd _
  | @termMore o a b l r e hop _ _ ihl ihr =>
    show Derives (.termTail _) _ _
    have htail : Derives (.termTail ((Expr.binary o a b).fillNeg n))
      (fillTokens [.op .sub, .num n] r) (e.fillNeg n) := ihr
    rw [Expr.fillNeg_binary (by rintro ⟨rfl, -⟩; cases hop)] at htail
    rw [fillTokens_op, fillTokens_append]
    exact .termMore hop ihl htail
  | sum _ _ ihl ihr =>
    show Derives .sum _ _
    rw [fillTokens_append]
    exact .sum ihl ihr
  | sumEnd a => exact .sumEnd _
  | @sumMore o a b l r e hop _ _ ihl ihr =>
    show Derives (.sumTail _) _ _
    have htail : Derives (.sumTail ((Expr.binary o a b).fillNeg n))
      (fillTokens [.op .sub, .num n] r) (e.fillNeg n) := ihr
    rw [Expr.fillNeg_binary (by rintro ⟨rfl, -⟩; cases hop)] at htail
    rw [fillTokens_op, fillTokens_append]
    exact .sumMore hop ihl htail

/-- After an unsigned number. -/
theorem parse_fillTokens {ts : List (Token N)} {e : Expr N} (h : parse ts = some e) (n : N) :
    parse (fillTokens [.num n] ts) = some (e.fill n) :=
  parse_eq_some_iff.mpr ((parse_eq_some_iff.mp h).fill n)

/-- After a signed number. -/
theorem parse_fillTokens_neg {ts : List (Token N)} {e : Expr N} (h : parse ts = some e) (n : N) :
    parse (fillTokens [.op .sub, .num n] ts) = some (e.fillNeg n) :=
  parse_eq_some_iff.mpr ((parse_eq_some_iff.mp h).fillNeg n)

/-! ## Values -/

/-- The numbers an expression is about. -/
structure Arithmetic (N : Type u) (V : Type v) where
  numeral : N → V
  neg : V → V
  /-- `none` where the operation raises -/
  apply : Op → V → V → Option V

/-- The value of an expression, where the variable has the value `x`. -/
def Expr.eval (A : Arithmetic N V) (x : Option V) : Expr N → Option V
  | .num n => some (A.numeral n)
  | .var => x
  | .paren e => e.eval A x
  | .neg e => (e.eval A x).map A.neg
  | .binary o l r => (l.eval A x).bind fun a => (r.eval A x).bind fun b => A.apply o a b

/-- The expression and the expressions in it. -/
def Expr.parts : Expr N → List (Expr N)
  | .num n => [.num n]
  | .var => [.var]
  | .paren e => .paren e :: e.parts
  | .neg e => .neg e :: e.parts
  | .binary o l r => .binary o l r :: (l.parts ++ r.parts)

theorem Expr.mem_parts_self (e : Expr N) : e ∈ e.parts := by
  cases e <;> exact List.mem_cons_self

/-- The parts of a part are parts. -/
theorem Expr.parts_subset {e e' : Expr N} (h : e' ∈ e.parts) : e'.parts ⊆ e.parts := by
  induction e with
  | num | var =>
    rw [List.mem_singleton.mp h]
    exact List.Subset.refl _
  | paren e ih | neg e ih =>
    rcases List.mem_cons.mp h with rfl | h
    · exact List.Subset.refl _
    · exact List.subset_cons_of_subset _ (ih h)
  | binary o l r ihl ihr =>
    rcases List.mem_cons.mp h with rfl | h
    · exact List.Subset.refl _
    · refine List.subset_cons_of_subset _ ?_
      rcases List.mem_append.mp h with h | h
      · exact List.subset_append_of_subset_left _ (ihl h)
      · exact List.subset_append_of_subset_right _ (ihr h)

/-- A number without a sign gives the variable its value. -/
theorem Expr.eval_fill (A : Arithmetic N V) (y : Option V) (n : N) (e : Expr N) :
    (e.fill n).eval A y = e.eval A (some (A.numeral n)) := by
  induction e with
  | num a => rfl
  | var => rfl
  | paren e ih => exact ih
  | neg e ih => rw [fill, eval, eval, ih]
  | binary o l r ihl ihr => rw [fill, eval, eval, ihl, ihr]

/-- The powers of the variable in an expression keep their values when the sign is taken out. -/
def Expr.PowersKept (A : Arithmetic N V) (n : N) (e : Expr N) : Prop :=
  ∀ b, .binary .pow .var b ∈ e.parts → ∀ k, b.eval A (some (A.neg (A.numeral n))) = some k →
    (A.apply .pow (A.numeral n) k).map A.neg = A.apply .pow (A.neg (A.numeral n)) k

theorem Expr.PowersKept.of_parts {A : Arithmetic N V} {n : N} {e e' : Expr N}
    (h : e.PowersKept A n) (hparts : e'.parts ⊆ e.parts) : e'.PowersKept A n :=
  fun b hb => h b (hparts hb)

/-- A number with a sign gives the variable its value where the powers are kept. -/
theorem Expr.eval_fillNeg {A : Arithmetic N V} {n : N} {e : Expr N} (h : e.PowersKept A n)
    (y : Option V) : (e.fillNeg n).eval A y = e.eval A (some (A.neg (A.numeral n))) := by
  induction e with
  | num a => rfl
  | var => rfl
  | paren e ih => exact ih (h.of_parts (List.subset_cons_self _ _))
  | neg e ih => rw [fillNeg, eval, eval, ih (h.of_parts (List.subset_cons_self _ _))]
  | binary o l r ihl ihr =>
    have hl := ihl (h.of_parts (List.subset_cons_of_subset _ (List.subset_append_left _ _)))
    have hr := ihr (h.of_parts (List.subset_cons_of_subset _ (List.subset_append_right _ _)))
    by_cases hpower : o = .pow ∧ l = .var
    · obtain ⟨rfl, rfl⟩ := hpower
      have hkept := h r (mem_parts_self _)
      rw [fillNeg]
      simp only [eval, hr, Option.bind_some]
      cases hexponent : r.eval A (some (A.neg (A.numeral n))) with
      | none => rfl
      | some k => exact hkept k hexponent
    · rw [fillNeg_binary hpower, eval, eval, hl, hr]

/-- A power of the variable itself has its value only where it is kept. -/
theorem Expr.kept_of_eval_fillNeg {A : Arithmetic N V} {n : N} {b : Expr N} {y : Option V}
    (hpower : ((Expr.binary .pow .var b).fillNeg n).eval A y =
      (Expr.binary .pow .var b).eval A (some (A.neg (A.numeral n))))
    (hexponent : (b.fillNeg n).eval A y = b.eval A (some (A.neg (A.numeral n)))) {k : V}
    (hk : b.eval A (some (A.neg (A.numeral n))) = some k) :
    (A.apply .pow (A.numeral n) k).map A.neg = A.apply .pow (A.neg (A.numeral n)) k := by
  rw [fillNeg] at hpower
  simp only [eval, hexponent, hk, Option.bind_some] at hpower
  exact hpower

/-- The expression a tail follows. -/
def Phrase.acc : Phrase N → Option (Expr N)
  | .termTail acc | .sumTail acc => some acc
  | _ => none

/-- The exponent of a power of the variable in an expression is a factor of its own, unless the
power is in the expression that a tail follows. -/
theorem Derives.exponent {ph : Phrase N} {ts : List (Token N)} {e b : Expr N}
    (h : Derives ph ts e) (hb : .binary .pow .var b ∈ e.parts) :
    (∃ r, Derives .factor r b) ∨ ∃ acc ∈ ph.acc, .binary .pow .var b ∈ acc.parts := by
  induction h with
  | num | var => simp [Expr.parts] at hb
  | paren _ ih | neg _ ih =>
    rcases List.mem_cons.mp hb with heq | hb
    · cases heq
    · exact .inl ((ih hb).resolve_right nofun)
  | base _ ih | unsigned _ ih => exact .inl ((ih hb).resolve_right nofun)
  | pow _ hexponent ihl ihr =>
    rcases List.mem_cons.mp hb with heq | hb
    · cases heq
      exact .inl ⟨_, hexponent⟩
    · rcases List.mem_append.mp hb with hb | hb
      · exact .inl ((ihl hb).resolve_right nofun)
      · exact .inl ((ihr hb).resolve_right nofun)
  | term _ _ ihl ihr | sum _ _ ihl ihr =>
    rcases ihr hb with hfound | ⟨_, ⟨⟩, hmem⟩
    · exact .inl hfound
    · exact .inl ((ihl hmem).resolve_right nofun)
  | termEnd a | sumEnd a => exact .inr ⟨a, rfl, hb⟩
  | termMore hop _ _ ihl ihr | sumMore hop _ _ ihl ihr =>
    rcases ihr hb with hfound | ⟨_, ⟨⟩, hmem⟩
    · exact .inl hfound
    · rcases List.mem_cons.mp hmem with heq | hmem
      · cases heq
        cases hop
      · rcases List.mem_append.mp hmem with hmem | hmem
        · exact .inr ⟨_, rfl, hmem⟩
        · exact .inl ((ihl hmem).resolve_right nofun)

/-! ## Numbers put in for numerals -/

section Place

universe w

variable {M : Type w} (f : N → Bool × M)

/-- The numeral that stands for a numeral, with a sign or without one. -/
def placeToken : Token N → List (Token M)
  | .num n => if (f n).1 then [.op .sub, .num (f n).2] else [.num (f n).2]
  | .var => [.var]
  | .op o => [.op o]
  | .lparen => [.lparen]
  | .rparen => [.rparen]

/-- The tokens with other numerals. -/
def placeTokens (ts : List (Token N)) : List (Token M) := ts.flatMap (placeToken f)

theorem placeTokens_cons (t : Token N) (ts : List (Token N)) :
    placeTokens f (t :: ts) = placeToken f t ++ placeTokens f ts := List.flatMap_cons

theorem placeTokens_op (o : Op) (ts : List (Token N)) :
    placeTokens f (.op o :: ts) = .op o :: placeTokens f ts := rfl

theorem placeTokens_lparen (ts : List (Token N)) :
    placeTokens f (.lparen :: ts) = .lparen :: placeTokens f ts := rfl

theorem placeTokens_append (l r : List (Token N)) :
    placeTokens f (l ++ r) = placeTokens f l ++ placeTokens f r := List.flatMap_append

/-- An expression with a sign before it, or without one. -/
def Expr.signed (sign : Bool) (e : Expr M) : Expr M := if sign then .neg e else e

/-- The expression with other numerals: a power of a numeral with a sign is a power with a sign. -/
def Expr.place : Expr N → Expr M
  | .num n => .signed (f n).1 (.num (f n).2)
  | .var => .var
  | .paren e => .paren e.place
  | .neg e => .neg e.place
  | .binary .pow (.num n) r => .signed (f n).1 (.binary .pow (.num (f n).2) r.place)
  | .binary o l r => .binary o l.place r.place

variable {f}

theorem Expr.place_binary {o : Op} {l r : Expr N} (h : ∀ n, ¬(o = .pow ∧ l = .num n)) :
    (Expr.binary o l r).place f = .binary o (l.place f) (r.place f) := by
  rw [place]
  rintro n rfl rfl
  exact h n ⟨rfl, rfl⟩

variable (f)

/-- The phrase with other numerals. -/
def Phrase.place : Phrase N → Phrase M
  | .termTail acc => .termTail (acc.place f)
  | .sumTail acc => .sumTail (acc.place f)
  | .atom => .atom
  | .power => .power
  | .factor => .factor
  | .term => .term
  | .sum => .sum

/-- What becomes of a phrase: a numeral may be no atom any more, and a power may have got a sign. -/
def Places : Phrase N → List (Token N) → Expr N → Prop
  | .atom, ts, e => (∃ n, ts = [.num n] ∧ e = .num n) ∨
      ((∀ n, e ≠ .num n) ∧ Derives .atom (placeTokens f ts) (e.place f))
  | .power, ts, e => Derives .factor (placeTokens f ts) (e.place f)
  | ph, ts, e => Derives (ph.place f) (placeTokens f ts) (e.place f)

variable {f}

/-- A power, or an atom, of a numeral with the sign before it. -/
theorem Derives.signed {n : N} {ts : List (Token M)} {e : Expr M}
    (h : Derives .power (.num (f n).2 :: ts) e) :
    Derives .factor (placeToken f (.num n) ++ ts) (.signed (f n).1 e) := by
  rw [placeToken, Expr.signed]
  by_cases hsign : (f n).1 = true
  · rw [if_pos hsign, if_pos hsign]
    exact .neg (.unsigned h)
  · rw [if_neg hsign, if_neg hsign]
    exact .unsigned h

/-- Numerals take their signs out of the powers. -/
theorem Derives.place {ph : Phrase N} {ts : List (Token N)} {e : Expr N} (h : Derives ph ts e) :
    Places f ph ts e := by
  induction h with
  | num n => exact .inl ⟨n, rfl, rfl⟩
  | var => exact .inr ⟨nofun, .var⟩
  | paren _ ih =>
    refine .inr ⟨nofun, ?_⟩
    rw [placeTokens_lparen, placeTokens_append]
    exact .paren ih
  | base _ ih =>
    rcases ih with ⟨n, rfl, rfl⟩ | ⟨-, hatom⟩
    · exact (Derives.base (.num (f n).2)).signed
    · exact .unsigned (.base hatom)
  | @pow l r a b _ _ ihl ihr =>
    have hexponent : Derives .factor (placeTokens f r) (b.place f) := ihr
    rcases ihl with ⟨n, rfl, rfl⟩ | ⟨hne, hatom⟩
    · exact (Derives.pow (.num (f n).2) hexponent).signed
    · show Derives .factor _ _
      rw [placeTokens_append, Expr.place_binary fun n h => hne n h.2]
      exact .unsigned (.pow hatom hexponent)
  | unsigned _ ih => exact ih
  | neg _ ih => exact .neg ih
  | term _ _ ihl ihr =>
    show Derives .term _ _
    rw [placeTokens_append]
    exact .term ihl ihr
  | termEnd a => exact .termEnd _
  | @termMore o a b l r e hop _ _ ihl ihr =>
    show Derives (.termTail _) _ _
    have htail : Derives (.termTail ((Expr.binary o a b).place f)) (placeTokens f r)
      (e.place f) := ihr
    have hfactor : Derives .factor (placeTokens f l) (b.place f) := ihl
    rw [Expr.place_binary (by rintro n ⟨rfl, -⟩; cases hop)] at htail
    rw [placeTokens_op, placeTokens_append]
    exact .termMore hop hfactor htail
  | sum _ _ ihl ihr =>
    show Derives .sum _ _
    rw [placeTokens_append]
    exact .sum ihl ihr
  | sumEnd a => exact .sumEnd _
  | @sumMore o a b l r e hop _ _ ihl ihr =>
    show Derives (.sumTail _) _ _
    have htail : Derives (.sumTail ((Expr.binary o a b).place f)) (placeTokens f r)
      (e.place f) := ihr
    have hterm : Derives .term (placeTokens f l) (b.place f) := ihl
    rw [Expr.place_binary (by rintro n ⟨rfl, -⟩; cases hop)] at htail
    rw [placeTokens_op, placeTokens_append]
    exact .sumMore hop hterm htail

/-- After other numerals have been put in. -/
theorem parse_placeTokens {ts : List (Token N)} {e : Expr N} (h : parse ts = some e) :
    parse (placeTokens f ts) = some (e.place f) :=
  parse_eq_some_iff.mpr (parse_eq_some_iff.mp h).place

/-- The arithmetic in which a numeral has the value of what is put in for it. -/
def Arithmetic.signed (f : N → Bool × M) (A : Arithmetic M V) : Arithmetic N V where
  numeral := fun n => if (f n).1 then A.neg (A.numeral (f n).2) else A.numeral (f n).2
  neg := A.neg
  apply := A.apply

theorem Arithmetic.signed_of_pos {A : Arithmetic M V} {n : N} (h : (f n).1 = true) :
    (A.signed f).numeral n = A.neg (A.numeral (f n).2) := if_pos h

theorem Arithmetic.signed_of_neg {A : Arithmetic M V} {n : N} (h : ¬(f n).1 = true) :
    (A.signed f).numeral n = A.numeral (f n).2 := if_neg h

/-- The powers of numerals in an expression keep their values when signs are taken out. -/
def Expr.PowersPlaced (f : N → Bool × M) (A : Arithmetic M V) (x : Option V) (e : Expr N) : Prop :=
  ∀ n b, .binary .pow (.num n) b ∈ e.parts → (f n).1 = true →
    ∀ k, b.eval (A.signed f) x = some k →
      (A.apply .pow (A.numeral (f n).2) k).map A.neg =
        A.apply .pow (A.neg (A.numeral (f n).2)) k

theorem Expr.PowersPlaced.of_parts {A : Arithmetic M V} {x : Option V} {e e' : Expr N}
    (h : e.PowersPlaced f A x) (hparts : e'.parts ⊆ e.parts) : e'.PowersPlaced f A x :=
  fun n b hb => h n b (hparts hb)

/-- **An expression has its value with what was put in**, where the powers are kept. -/
theorem Expr.eval_place {A : Arithmetic M V} {x : Option V} {e : Expr N}
    (h : e.PowersPlaced f A x) : (e.place f).eval A x = e.eval (A.signed f) x := by
  induction e with
  | num n =>
    rw [place, eval, signed]
    by_cases hsign : (f n).1 = true
    · rw [if_pos hsign, Arithmetic.signed_of_pos hsign]
      rfl
    · rw [if_neg hsign, Arithmetic.signed_of_neg hsign]
      rfl
  | var => rfl
  | paren e ih => exact ih (h.of_parts (List.subset_cons_self _ _))
  | neg e ih =>
    rw [place, eval, eval, ih (h.of_parts (List.subset_cons_self _ _))]
    rfl
  | binary o l r ihl ihr =>
    have hl := ihl (h.of_parts (List.subset_cons_of_subset _ (List.subset_append_left _ _)))
    have hr := ihr (h.of_parts (List.subset_cons_of_subset _ (List.subset_append_right _ _)))
    by_cases hpower : ∃ n, o = .pow ∧ l = .num n
    · obtain ⟨n, rfl, rfl⟩ := hpower
      have hkept := h n r (mem_parts_self _)
      rw [place, signed, eval, eval, Option.bind_some]
      by_cases hsign : (f n).1 = true
      · rw [if_pos hsign, Arithmetic.signed_of_pos hsign, eval, eval, eval, Option.bind_some, hr]
        cases hexponent : r.eval (A.signed f) x with
        | none => rfl
        | some k => exact hkept hsign k hexponent
      · rw [if_neg hsign, Arithmetic.signed_of_neg hsign, eval, eval, Option.bind_some, hr]
        rfl
    · rw [place_binary (not_exists.mp hpower), eval, eval, hl, hr]
      rfl

end Place

end Expression
