import Mathlib.Data.List.Basic

/-!
# Arithmetic expressions

Arithmetic over one variable: its tokens, its grammar, and the recursive descent that reads it.
Parentheses stay in the tree, so a tree says which tokens it was read from.

* `Derives` — the grammar, from the sums down to the numbers: `-` as a sign binds tighter than the
  products and looser than `**`, which groups to the right.
* `parse` — the recursive descent, with as much fuel as the tokens can use.
* `parse_eq_some_iff` — it reads exactly the expressions of the grammar, and so each text has one
  reading.
* `Follows` — which tokens stand side by side in an expression.
-/

universe u

namespace Expression

variable {N : Type u}

/-- The operators. -/
inductive Op
  | add
  | sub
  | mul
  | div
  | floorDiv
  | mod
  | pow
  deriving DecidableEq

/-- The operators of a sum. -/
def Op.additive : Op → Bool
  | .add | .sub => true
  | _ => false

/-- The operators of a product. -/
def Op.multiplicative : Op → Bool
  | .mul | .div | .floorDiv | .mod => true
  | _ => false

/-- A token, with the numerals of `N`. -/
inductive Token (N : Type u)
  | num (n : N)
  | var
  | op (o : Op)
  | lparen
  | rparen
  deriving DecidableEq

/-- An expression, with its parentheses. -/
inductive Expr (N : Type u)
  | num (n : N)
  | var
  | paren (e : Expr N)
  | neg (e : Expr N)
  | binary (o : Op) (l r : Expr N)
  deriving DecidableEq

/-- The phrases of the grammar. A tail is what follows the expression that was read so far. -/
inductive Phrase (N : Type u)
  | atom
  | power
  | factor
  | term
  | termTail (acc : Expr N)
  | sum
  | sumTail (acc : Expr N)

/-! ## The grammar -/

/-- The tokens are a phrase, and this is its expression. -/
inductive Derives : Phrase N → List (Token N) → Expr N → Prop
  | num (n : N) : Derives .atom [.num n] (.num n)
  | var : Derives .atom [.var] .var
  | paren {ts e} : Derives .sum ts e → Derives .atom (.lparen :: (ts ++ [.rparen])) (.paren e)
  | base {ts e} : Derives .atom ts e → Derives .power ts e
  /-- the exponent is a factor, with a sign or a power of its own -/
  | pow {l r a b} : Derives .atom l a → Derives .factor r b →
      Derives .power (l ++ .op .pow :: r) (.binary .pow a b)
  | unsigned {ts e} : Derives .power ts e → Derives .factor ts e
  | neg {ts e} : Derives .factor ts e → Derives .factor (.op .sub :: ts) (.neg e)
  | term {l r a e} : Derives .factor l a → Derives (.termTail a) r e → Derives .term (l ++ r) e
  | termEnd (a) : Derives (.termTail a) [] a
  | termMore {o a b l r e} : o.multiplicative = true → Derives .factor l b →
      Derives (.termTail (.binary o a b)) r e → Derives (.termTail a) (.op o :: (l ++ r)) e
  | sum {l r a e} : Derives .term l a → Derives (.sumTail a) r e → Derives .sum (l ++ r) e
  | sumEnd (a) : Derives (.sumTail a) [] a
  | sumMore {o a b l r e} : o.additive = true → Derives .term l b →
      Derives (.sumTail (.binary o a b)) r e → Derives (.sumTail a) (.op o :: (l ++ r)) e

/-- A factor alone is a sum. -/
theorem Derives.sum_of_factor {ts : List (Token N)} {e : Expr N} (h : Derives .factor ts e) :
    Derives .sum ts e := by
  have hterm : Derives .term (ts ++ []) e := .term h (.termEnd e)
  have hsum : Derives .sum (ts ++ [] ++ []) e := .sum hterm (.sumEnd e)
  rwa [List.append_nil, List.append_nil] at hsum

/-! ## The recursive descent -/

/-- Reads a phrase from the front of the tokens. The fuel bounds the depth of the calls. -/
def descend : Nat → Phrase N → List (Token N) → Option (Expr N × List (Token N))
  | 0, _, _ => none
  | n + 1, .atom, ts =>
    match ts with
    | .num a :: ts => some (.num a, ts)
    | .var :: ts => some (.var, ts)
    | .lparen :: ts =>
      match descend n .sum ts with
      | some (e, .rparen :: rest) => some (.paren e, rest)
      | _ => none
    | _ => none
  | n + 1, .power, ts =>
    match descend n .atom ts with
    | some (a, .op .pow :: rest) =>
      (descend n .factor rest).map fun (b, rest) => (.binary .pow a b, rest)
    | result => result
  | n + 1, .factor, ts =>
    match ts with
    | .op .sub :: ts => (descend n .factor ts).map fun (e, rest) => (.neg e, rest)
    | ts => descend n .power ts
  | n + 1, .term, ts => (descend n .factor ts).bind fun (a, rest) => descend n (.termTail a) rest
  | n + 1, .termTail a, ts =>
    match ts with
    | .op o :: rest =>
      if o.multiplicative then
        (descend n .factor rest).bind fun (b, rest) => descend n (.termTail (.binary o a b)) rest
      else some (a, ts)
    | _ => some (a, ts)
  | n + 1, .sum, ts => (descend n .term ts).bind fun (a, rest) => descend n (.sumTail a) rest
  | n + 1, .sumTail a, ts =>
    match ts with
    | .op o :: rest =>
      if o.additive then
        (descend n .term rest).bind fun (b, rest) => descend n (.sumTail (.binary o a b)) rest
      else some (a, ts)
    | _ => some (a, ts)

/-- The calls in which a phrase can start before its first token is used. -/
def Phrase.depth : Phrase N → Nat
  | .atom | .termTail _ | .sumTail _ => 1
  | .power => 2
  | .factor => 3
  | .term => 4
  | .sum => 5

/-- The fuel a phrase of so many tokens needs. -/
def fuel (ph : Phrase N) (ts : List (Token N)) : Nat := 6 * ts.length + ph.depth

/-- The expression that the tokens are. -/
def parse (ts : List (Token N)) : Option (Expr N) :=
  match descend (fuel .sum ts) .sum ts with
  | some (e, []) => some e
  | _ => none

/-! ## What is read is in the grammar -/

theorem derives_of_descend {n : Nat} {ph : Phrase N} {ts rest : List (Token N)} {e : Expr N}
    (h : descend n ph ts = some (e, rest)) : ∃ front, ts = front ++ rest ∧ Derives ph front e := by
  induction n generalizing ph ts e rest with
  | zero => cases h
  | succ n ih =>
    cases ph with
    | atom =>
      simp only [descend] at h
      split at h
      · injection h with h
        injection h with he hrest
        subst he hrest
        exact ⟨_, (List.singleton_append).symm, .num _⟩
      · injection h with h
        injection h with he hrest
        subst he hrest
        exact ⟨_, (List.singleton_append).symm, .var⟩
      · split at h
        · next hsum =>
          injection h with h
          injection h with he hrest
          subst he hrest
          obtain ⟨front, rfl, hfront⟩ := ih hsum
          exact ⟨_, by simp, .paren hfront⟩
        · cases h
      · cases h
    | power =>
      simp only [descend] at h
      split at h
      · next a tail hatom =>
        obtain ⟨⟨b, rest'⟩, hexponent, hpair⟩ := Option.map_eq_some_iff.mp h
        injection hpair with he hrest
        subst he hrest
        obtain ⟨left, rfl, hleft⟩ := ih hatom
        obtain ⟨right, rfl, hright⟩ := ih hexponent
        exact ⟨_, by simp, .pow hleft hright⟩
      · obtain ⟨front, rfl, hfront⟩ := ih h
        exact ⟨front, rfl, .base hfront⟩
    | factor =>
      simp only [descend] at h
      split at h
      · obtain ⟨⟨a, rest'⟩, hfactor, hpair⟩ := Option.map_eq_some_iff.mp h
        injection hpair with he hrest
        subst he hrest
        obtain ⟨front, rfl, hfront⟩ := ih hfactor
        exact ⟨_ :: front, rfl, .neg hfront⟩
      · obtain ⟨front, rfl, hfront⟩ := ih h
        exact ⟨front, rfl, .unsigned hfront⟩
    | term =>
      simp only [descend] at h
      obtain ⟨⟨a, tail⟩, hfactor, htail⟩ := Option.bind_eq_some_iff.mp h
      obtain ⟨left, rfl, hleft⟩ := ih hfactor
      obtain ⟨right, rfl, hright⟩ := ih htail
      exact ⟨left ++ right, by simp, .term hleft hright⟩
    | termTail a =>
      simp only [descend] at h
      split at h
      · split at h
        · next hop =>
          obtain ⟨⟨b, tail⟩, hfactor, htail⟩ := Option.bind_eq_some_iff.mp h
          obtain ⟨left, rfl, hleft⟩ := ih hfactor
          obtain ⟨right, rfl, hright⟩ := ih htail
          exact ⟨_, by simp, .termMore hop hleft hright⟩
        · injection h with h
          injection h with he hrest
          subst he hrest
          exact ⟨[], rfl, .termEnd _⟩
      · injection h with h
        injection h with he hrest
        subst he hrest
        exact ⟨[], rfl, .termEnd _⟩
    | sum =>
      simp only [descend] at h
      obtain ⟨⟨a, tail⟩, hterm, htail⟩ := Option.bind_eq_some_iff.mp h
      obtain ⟨left, rfl, hleft⟩ := ih hterm
      obtain ⟨right, rfl, hright⟩ := ih htail
      exact ⟨left ++ right, by simp, .sum hleft hright⟩
    | sumTail a =>
      simp only [descend] at h
      split at h
      · split at h
        · next hop =>
          obtain ⟨⟨b, tail⟩, hterm, htail⟩ := Option.bind_eq_some_iff.mp h
          obtain ⟨left, rfl, hleft⟩ := ih hterm
          obtain ⟨right, rfl, hright⟩ := ih htail
          exact ⟨_, by simp, .sumMore hop hleft hright⟩
        · injection h with h
          injection h with he hrest
          subst he hrest
          exact ⟨[], rfl, .sumEnd _⟩
      · injection h with h
        injection h with he hrest
        subst he hrest
        exact ⟨[], rfl, .sumEnd _⟩

/-! ## What is in the grammar is read -/

/-- The operators that would go on with a phrase. -/
def Phrase.absorbs : Phrase N → Op → Bool
  | .atom, _ => false
  | .power, o | .factor, o => o = .pow
  | .term, o | .termTail _, o => o = .pow || o.multiplicative
  | .sum, _ | .sumTail _, _ => true

/-- The phrase ends before these tokens. -/
def Stops (ph : Phrase N) (rest : List (Token N)) : Prop :=
  ∀ o rest', rest = .op o :: rest' → ph.absorbs o = false

theorem Stops.of_le {ph ph' : Phrase N} {rest : List (Token N)} (h : Stops ph rest)
    (hle : ∀ o, ph.absorbs o = false → ph'.absorbs o = false) : Stops ph' rest :=
  fun o rest' hrest => hle o (h o rest' hrest)

theorem stops_nil (ph : Phrase N) : Stops ph [] := nofun

theorem stops_rparen (ph : Phrase N) (rest : List (Token N)) : Stops ph (.rparen :: rest) := nofun

theorem stops_op {ph : Phrase N} {o : Op} (h : ph.absorbs o = false) (rest : List (Token N)) :
    Stops ph (.op o :: rest) := by
  rintro _ _ ⟨⟩
  exact h

theorem Stops.absorbs {ph : Phrase N} {o : Op} {rest : List (Token N)}
    (h : Stops ph (.op o :: rest)) : ph.absorbs o = false := h o rest rfl

/-- An atom begins with no operator. -/
theorem Derives.atom_head {ts : List (Token N)} {e : Expr N} (h : Derives .atom ts e) :
    ∃ t ts', ts = t :: ts' ∧ ∀ o, t ≠ .op o := by
  cases h with
  | num n => exact ⟨_, _, rfl, nofun⟩
  | var => exact ⟨_, _, rfl, nofun⟩
  | paren _ => exact ⟨_, _, rfl, nofun⟩

/-- Nor does a power. -/
theorem Derives.power_head {ts : List (Token N)} {e : Expr N} (h : Derives .power ts e) :
    ∃ t ts', ts = t :: ts' ∧ ∀ o, t ≠ .op o := by
  cases h with
  | base hbase => exact hbase.atom_head
  | pow hbase _ =>
    obtain ⟨t, ts', rfl, ht⟩ := hbase.atom_head
    exact ⟨t, _, rfl, ht⟩

/-- A product's tail does not go on with a factor. -/
theorem stops_factor_of_termTail {a : Expr N} {r : List (Token N)} {e : Expr N}
    (h : Derives (.termTail a) r e) {rest : List (Token N)} (hrest : Stops (.term : Phrase N) rest) :
    Stops .factor (r ++ rest) := by
  cases h with
  | termEnd =>
    refine hrest.of_le fun o ho => ?_
    exact (Bool.or_eq_false_iff.mp ho).1
  | @termMore o _ _ _ _ _ hop _ _ =>
    refine stops_op ?_ _
    cases o <;> first | rfl | cases hop

/-- A sum's tail does not go on with a term. -/
theorem stops_term_of_sumTail {a : Expr N} {r : List (Token N)} {e : Expr N}
    (h : Derives (.sumTail a) r e) {rest : List (Token N)} (hrest : Stops (.sum : Phrase N) rest) :
    Stops .term (r ++ rest) := by
  cases h with
  | sumEnd => exact hrest.of_le fun o ho => absurd ho (by simp [Phrase.absorbs])
  | @sumMore o _ _ _ _ _ hop _ _ =>
    refine stops_op ?_ _
    cases o <;> first | rfl | cases hop

/-- A tail that nothing goes on with is at its end. -/
theorem descend_termTail_end {n : Nat} {a : Expr N} {rest : List (Token N)}
    (hrest : Stops (.termTail a) rest) : descend (n + 1) (.termTail a) rest = some (a, rest) := by
  simp only [descend]
  split
  · rw [if_neg]
    exact Bool.eq_false_iff.mp (Bool.or_eq_false_iff.mp hrest.absorbs).2
  · rfl

theorem descend_sumTail_end {n : Nat} {a : Expr N} {rest : List (Token N)}
    (hrest : Stops (.sumTail a) rest) : descend (n + 1) (.sumTail a) rest = some (a, rest) := by
  simp only [descend]
  split
  · exact absurd hrest.absorbs (by simp [Phrase.absorbs])
  · rfl

/-- **Every phrase is read**, with the fuel it needs, up to the tokens that follow it. -/
theorem Derives.descend {ph : Phrase N} {ts : List (Token N)} {e : Expr N} (h : Derives ph ts e) :
    ∀ {n : Nat}, fuel ph ts ≤ n → ∀ (rest : List (Token N)), Stops ph rest →
      descend n ph (ts ++ rest) = some (e, rest) := by
  induction h with
  | num a =>
    rintro (_ | n) hn rest -
    · exact absurd hn (by simp [fuel])
    · rfl
  | var =>
    rintro (_ | n) hn rest -
    · exact absurd hn (by simp [fuel])
    · rfl
  | @paren ts e _ ih =>
    rintro (_ | n) hn rest -
    · exact absurd hn (by simp [fuel])
    · have hinner := ih (n := n) (by simp [fuel, Phrase.depth] at hn ⊢; omega)
        _ (stops_rparen .sum rest)
      simp [Expression.descend, hinner]
  | @base ts e _ ih =>
    rintro (_ | n) hn rest hrest
    · exact absurd hn (by simp [fuel, Phrase.depth])
    · have hatom := ih (n := n) (by simp [fuel, Phrase.depth] at hn ⊢; omega) rest
        fun _ _ _ => rfl
      simp only [Expression.descend, hatom]
      split
      · next heq =>
        injection heq with heq
        injection heq with _ heq
        subst heq
        exact absurd hrest.absorbs (by simp [Phrase.absorbs])
      · rfl
  | @pow l r a b _ _ ihbase ihexponent =>
    rintro (_ | n) hn rest hrest
    · exact absurd hn (by simp [fuel, Phrase.depth])
    · have hatom := ihbase (n := n) (by simp [fuel, Phrase.depth] at hn ⊢; omega)
        (.op .pow :: (r ++ rest)) fun _ _ _ => rfl
      have hfactor := ihexponent (n := n) (by simp [fuel, Phrase.depth] at hn ⊢; omega) rest hrest
      simp [Expression.descend, hatom, hfactor]
  | @unsigned ts e hpower ih =>
    rintro (_ | n) hn rest hrest
    · exact absurd hn (by simp [fuel, Phrase.depth])
    · have hread := ih (n := n) (by simp [fuel, Phrase.depth] at hn ⊢; omega) rest hrest
      simp only [Expression.descend]
      split
      · next heq =>
        -- a power begins with no sign
        obtain ⟨t, ts', rfl, ht⟩ := hpower.power_head
        exact absurd (List.cons.inj heq).1 (ht .sub)
      · exact hread
  | @neg ts e _ ih =>
    rintro (_ | n) hn rest hrest
    · exact absurd hn (by simp [fuel, Phrase.depth])
    · have hread := ih (n := n) (by simp [fuel, Phrase.depth] at hn ⊢; omega) rest hrest
      simp [Expression.descend, hread]
  | @term l r a e _ htail ihleft ihtail =>
    rintro (_ | n) hn rest hrest
    · exact absurd hn (by simp [fuel, Phrase.depth])
    · have hleft := ihleft (n := n) (by simp [fuel, Phrase.depth] at hn ⊢; omega)
        _ (stops_factor_of_termTail htail hrest)
      have hright := ihtail (n := n) (by simp [fuel, Phrase.depth] at hn ⊢; omega) rest hrest
      simp only [Expression.descend, List.append_assoc, hleft, Option.bind_some, hright]
  | termEnd a =>
    rintro (_ | n) hn rest hrest
    · exact absurd hn (by simp [fuel, Phrase.depth])
    · exact descend_termTail_end hrest
  | @termMore o a b l r e hop _ htail ihleft ihtail =>
    rintro (_ | n) hn rest hrest
    · exact absurd hn (by simp [fuel, Phrase.depth])
    · have hleft := ihleft (n := n) (by simp [fuel, Phrase.depth] at hn ⊢; omega)
        _ (stops_factor_of_termTail htail hrest)
      have hright := ihtail (n := n) (by simp [fuel, Phrase.depth] at hn ⊢; omega) rest hrest
      simp only [Expression.descend, List.cons_append, List.append_assoc, hop, if_true, hleft,
        Option.bind_some, hright]
  | @sum l r a e _ htail ihleft ihtail =>
    rintro (_ | n) hn rest hrest
    · exact absurd hn (by simp [fuel, Phrase.depth])
    · have hleft := ihleft (n := n) (by simp [fuel, Phrase.depth] at hn ⊢; omega)
        _ (stops_term_of_sumTail htail hrest)
      have hright := ihtail (n := n) (by simp [fuel, Phrase.depth] at hn ⊢; omega) rest hrest
      simp only [Expression.descend, List.append_assoc, hleft, Option.bind_some, hright]
  | sumEnd a =>
    rintro (_ | n) hn rest hrest
    · exact absurd hn (by simp [fuel, Phrase.depth])
    · exact descend_sumTail_end hrest
  | @sumMore o a b l r e hop _ htail ihleft ihtail =>
    rintro (_ | n) hn rest hrest
    · exact absurd hn (by simp [fuel, Phrase.depth])
    · have hleft := ihleft (n := n) (by simp [fuel, Phrase.depth] at hn ⊢; omega)
        _ (stops_term_of_sumTail htail hrest)
      have hright := ihtail (n := n) (by simp [fuel, Phrase.depth] at hn ⊢; omega) rest hrest
      simp only [Expression.descend, List.cons_append, List.append_assoc, hop, if_true, hleft,
        Option.bind_some, hright]

/-- **The recursive descent reads the grammar.** -/
theorem parse_eq_some_iff {ts : List (Token N)} {e : Expr N} :
    parse ts = some e ↔ Derives .sum ts e := by
  rw [parse]
  constructor
  · intro h
    split at h
    · next hdescend =>
      obtain rfl := Option.some.inj h
      obtain ⟨front, rfl, hfront⟩ := derives_of_descend hdescend
      rwa [List.append_nil]
    · cases h
  · intro h
    have hdescend := h.descend (Nat.le_refl _) [] (stops_nil _)
    rw [List.append_nil] at hdescend
    rw [hdescend]

end Expression
