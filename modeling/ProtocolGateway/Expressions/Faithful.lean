import ProtocolGateway.Expressions.NamedValues

/-!
# Faithful expansions

What a cell should be expanded to is said token by token: `Yields` is what a token stands for, and
`Faithful` that the results are the choices of one text for each piece, the letters between the
tokens staying as they are. `faithful_of_fits` says when the passes of `evaluate_expressions` do
this.

They do not wherever a bracket is matched with what another one closes: in `[x]_[1~3]` the range is
looked for from the first bracket on, and the name, the underscore and the second bracket are lost.
-/

namespace ProtocolGateway

namespace Expressions

open Expression Placeholders

/-! ## What a token stands for -/

/-- A name. -/
def IsName (x : List Char) : Prop :=
  ∃ c cs, x = c :: cs ∧ nameStart c = true ∧ ∀ d ∈ cs, nameChar d = true

/-- The bound of a range: its text, the text with the anchor put in, and its value. -/
inductive Bound (anchors : Anchors) : List Char → List Char → Int → Prop
  | name {x : List Char} {i : Int} : IsName x → knownInt anchors x = some i →
      Bound anchors x (intText i) i
  | numeral {x : List Char} : x ≠ [] → (∀ c ∈ x, c.isDigit = true) →
      Bound anchors x x (Nat.ofDigitChars 10 x 0)
  | negative {x : List Char} : x ≠ [] → (∀ c ∈ x, c.isDigit = true) →
      Bound anchors ('-' :: x) ('-' :: x) (-(Nat.ofDigitChars 10 x 0))

/-- `[a~b]`, with blanks around the bounds. -/
structure RangeToken (anchors : Anchors) (token : List Char) where
  lead : List Char
  start : List Char
  startText : List Char
  gap₁ : List Char
  gap₂ : List Char
  stop : List Char
  stopText : List Char
  trail : List Char
  lower : Int
  upper : Int
  blank : ∀ c ∈ lead ++ gap₁ ++ gap₂ ++ trail, Text.isSpace c = true
  start_bound : Bound anchors start startText lower
  stop_bound : Bound anchors stop stopText upper
  token_eq : token = lead ++ (start ++ (gap₁ ++ '~' :: (gap₂ ++ (stop ++ trail))))

/-- The numbers from one bound to the other. -/
def rangeTexts (a b : Int) : List (List Char) :=
  (List.range ((a - b).natAbs + 1)).map fun k : Nat => intText (min a b + k)

section Faithful

variable {D : Type} (nums : Inexact D) (anchors : Anchors)

/-- **What a token stands for**: the value of an anchor, itself if it has an unknown name, the
numbers of a range, the value of an expression over the names of integers. Every other token stands
for one text. -/
structure Yields (token : List Char) (texts : List (List Char)) : Prop where
  known : ∀ value, anchors token = some value → texts = [valueText nums value]
  unknown : anchors token = none → (∃ n ∈ names token, anchors n = none) →
    texts = [varFormat.bracketed token]
  range : anchors token = none → ∀ r : RangeToken anchors token,
    texts = rangeTexts r.lower r.upper
  value : anchors token = none → ∀ text, namedText nums anchors token = some text →
    texts = [text]
  single : anchors token = none → IsEmpty (RangeToken anchors token) → ∃ text, texts = [text]

/-- **The expansion of a cell is faithful**: the results are the choices of one text for each piece,
letters stay as they are, and tokens have the texts they stand for. -/
def Faithful (expr : List Char) (results : Except PyError (List (List Char))) : Prop :=
  ∃ texts : Piece Char → List (List Char),
    results = .ok (choices ((pieces varFormat 0 expr).map texts)) ∧
      (∀ a, texts (.letter a) = [[a]]) ∧
      ∀ token, .placeholder token ∈ pieces varFormat 0 expr →
        Yields nums anchors token (texts (.placeholder token))

/-- The token with the values of its names. -/
def contentOf (token : List Char) : List Char :=
  if namesKnown anchors token then replaceNames (nameText nums anchors) token else token

/-- The pattern of a range reads the bounds: they have no sign and are not too long, and the token
is on one line outside of them. -/
structure RangeToken.Fits {anchors : Anchors} {token : List Char} (r : RangeToken anchors token) :
    Prop where
  start_digits : ∀ c ∈ r.startText, c.isDigit = true
  stop_digits : ∀ c ∈ r.stopText, c.isDigit = true
  start_length : r.startText.length ≤ Text.maxDecimalDigits
  stop_length : r.stopText.length ≤ Text.maxDecimalDigits
  lead_line : '\n' ∉ r.lead
  trail_line : '\n' ∉ r.trail

/-- **The token is read as it is meant**: a range can be read, no other token looks like one, and
the powers in an expression keep their signs. -/
structure TokenFits (token : List Char) : Prop where
  ranges : ∀ r : RangeToken anchors token, r.Fits
  apart : IsEmpty (RangeToken anchors token) →
    rangeIn (contentOf nums anchors token ++ [']']) = none
  signs : ∀ e, readNamed token = some e → SignsKept nums anchors e

end Faithful

/-! ## The names of a range -/

theorem segments_skip (l s : List Char) : segments l.length (l ++ s) = segments 0 s := by
  induction l with
  | nil => rfl
  | cons c l ih => exact ih

theorem segments_append {l : List Char} (h : ∀ c ∈ l, nameStart c = false) (s : List Char) :
    segments 0 (l ++ s) = l.map .char ++ segments 0 s := by
  induction l with
  | nil => rfl
  | cons c l ih =>
    obtain ⟨hc, hl⟩ := List.forall_mem_cons.mp h
    rw [List.cons_append, segments, hc]
    exact congrArg (Segment.char c :: ·) (ih hl)

/-- No name goes on into the text. -/
def Ends (s : List Char) : Prop := ∀ c, s.head? = some c → nameChar c = false

theorem IsName.segments {x s : List Char} (hx : IsName x) (hs : Ends s) :
    segments 0 (x ++ s) = .name x :: segments 0 s := by
  obtain ⟨c, cs, rfl, hc, hcs⟩ := hx
  have htake : (cs ++ s).takeWhile nameChar = cs := by
    rw [List.takeWhile_append_of_pos hcs]
    cases s with
    | nil => exact List.append_nil cs
    | cons d s =>
      rw [List.takeWhile_cons_of_neg (by rw [hs d rfl]; exact Bool.false_ne_true), List.append_nil]
  rw [List.cons_append, Expressions.segments, if_pos hc, htake, segments_skip]

theorem isDigit_iff {c : Char} : c.isDigit = true ↔ 48 ≤ c.toNat ∧ c.toNat ≤ 57 := by
  change (decide ('0'.val ≤ c.val) && decide (c.val ≤ '9'.val)) = true ↔ _
  simp only [Bool.and_eq_true, decide_eq_true_eq, UInt32.le_iff_toNat_le]
  exact Iff.rfl

theorem isAlpha_iff {c : Char} : c.isAlpha = true ↔
    (65 ≤ c.toNat ∧ c.toNat ≤ 90) ∨ (97 ≤ c.toNat ∧ c.toNat ≤ 122) := by
  change (decide ('A'.val ≤ c.val ∧ c.val ≤ 'Z'.val) ||
    (decide ('a'.val ≤ c.val) && decide (c.val ≤ 'z'.val))) = true ↔ _
  simp only [Bool.or_eq_true, Bool.and_eq_true, decide_eq_true_eq, UInt32.le_iff_toNat_le]
  exact Iff.rfl

theorem nameStart_of_isDigit {c : Char} (h : c.isDigit = true) : nameStart c = false := by
  rw [isDigit_iff] at h
  rw [nameStart, Bool.or_eq_false_iff, decide_eq_false_iff_not, ← Bool.not_eq_true, isAlpha_iff]
  refine ⟨by omega, ?_⟩
  rintro rfl
  exact absurd h.2 (by decide)

theorem nameChar_of_isSpace {c : Char} (h : Text.isSpace c = true) : nameChar c = false := by
  have hne : c ≠ '_' := by
    rintro rfl
    exact absurd h (by decide)
  have hcode : ¬((65 ≤ c.toNat ∧ c.toNat ≤ 90) ∨ (97 ≤ c.toNat ∧ c.toNat ≤ 122)) ∧
      ¬(48 ≤ c.toNat ∧ c.toNat ≤ 57) := by
    simp only [Text.isSpace, Bool.or_eq_true, Bool.and_eq_true, decide_eq_true_eq,
      beq_iff_eq] at h
    omega
  rw [← isAlpha_iff, ← isDigit_iff] at hcode
  rw [nameChar, Char.isAlphanum, Bool.or_eq_false_iff, Bool.or_eq_false_iff,
    decide_eq_false_iff_not]
  exact ⟨⟨Bool.eq_false_iff.mpr hcode.1, Bool.eq_false_iff.mpr hcode.2⟩, hne⟩

theorem nameStart_of_nameChar {c : Char} (h : nameChar c = false) : nameStart c = false := by
  rw [nameChar, Bool.or_eq_false_iff] at h
  rw [nameStart, Bool.or_eq_false_iff]
  refine ⟨?_, h.2⟩
  have halpha := h.1
  rw [Char.isAlphanum, Bool.or_eq_false_iff] at halpha
  exact halpha.1

theorem ends_blank {w t : List Char} (hw : ∀ c ∈ w, Text.isSpace c = true) (ht : Ends t) :
    Ends (w ++ t) := by
  cases w with
  | nil => exact ht
  | cons c w =>
    rintro d ⟨⟩
    exact nameChar_of_isSpace (hw c List.mem_cons_self)

section Ranges

variable {D : Type} (nums : Inexact D) {anchors : Anchors}

/-- The segments with the values of the names. -/
def segmentText (anchors : Anchors) : Segment → List Char
  | .char c => [c]
  | .name n => nameText nums anchors n

theorem flatMap_chars (l : List Char) :
    (l.map Segment.char).flatMap (segmentText nums anchors) = l := by
  induction l with
  | nil => rfl
  | cons c l ih => exact congrArg (c :: ·) ih

theorem name_notMem_chars (l : List Char) (n : List Char) : .name n ∉ l.map Segment.char := by
  intro h
  obtain ⟨c, -, hc⟩ := List.mem_map.mp h
  cases hc

/-- The segments of a bound. -/
theorem Bound.segments {x text : List Char} {i : Int} (h : Bound anchors x text i) {s : List Char}
    (hs : Ends s) : ∃ segs, segments 0 (x ++ s) = segs ++ segments 0 s ∧
      segs.flatMap (segmentText nums anchors) = text ∧
      ∀ n, .name n ∈ segs → (knownInt anchors n).isSome := by
  cases h with
  | name hname hvalue =>
    refine ⟨[.name x], hname.segments hs, ?_, fun n hn => ?_⟩
    · rw [List.flatMap_cons, List.flatMap_nil, List.append_nil, segmentText,
        nameText_of_knownInt nums anchors (by rw [hvalue]; rfl), nameInt, hvalue]
      rfl
    · cases List.mem_singleton.mp hn
      rw [hvalue]
      rfl
  | numeral _ hdigits =>
    refine ⟨x.map .char, segments_append (fun c hc => nameStart_of_isDigit (hdigits c hc)) s,
      flatMap_chars nums x, fun n hn => absurd hn (name_notMem_chars x n)⟩
  | @negative x _ hdigits =>
    refine ⟨('-' :: x).map .char, segments_append ?_ s, flatMap_chars nums ('-' :: x),
      fun n hn => absurd hn (name_notMem_chars _ n)⟩
    exact List.forall_mem_cons.mpr ⟨rfl, fun c hc => nameStart_of_isDigit (hdigits c hc)⟩

/-- **A range with the values of its names**, which are all integers. -/
theorem RangeToken.replaced {token : List Char} (r : RangeToken anchors token) :
    replaceNames (nameText nums anchors) token =
        r.lead ++ (r.startText ++ (r.gap₁ ++ '~' :: (r.gap₂ ++ (r.stopText ++ r.trail)))) ∧
      AllInts anchors token := by
  obtain ⟨lead, start, startText, gap₁, gap₂, stop, stopText, trail, lower, upper, hblank, hstart,
    hstop, rfl⟩ := r
  simp only [List.mem_append] at hblank
  have hlead : ∀ c ∈ lead, nameStart c = false := fun c hc =>
    nameStart_of_nameChar (nameChar_of_isSpace (hblank c (.inl (.inl (.inl hc)))))
  have hgap₁ : ∀ c ∈ gap₁, Text.isSpace c = true := fun c hc => hblank c (.inl (.inl (.inr hc)))
  have hgap₂ : ∀ c ∈ gap₂, Text.isSpace c = true := fun c hc => hblank c (.inl (.inr hc))
  have htrail : ∀ c ∈ trail, Text.isSpace c = true := fun c hc => hblank c (.inr hc)
  have hchars {w : List Char} (hw : ∀ c ∈ w, Text.isSpace c = true) :
      ∀ c ∈ w, nameStart c = false := fun c hc =>
    nameStart_of_nameChar (nameChar_of_isSpace (hw c hc))
  have htilde : Ends ('~' :: (gap₂ ++ (stop ++ trail))) := by
    rintro d ⟨⟩
    rfl
  have hend : Ends trail := by
    have := ends_blank htrail (t := []) nofun
    rwa [List.append_nil] at this
  obtain ⟨segs₁, hsegs₁, htext₁, hnames₁⟩ := hstart.segments nums (ends_blank hgap₁ htilde)
  obtain ⟨segs₂, hsegs₂, htext₂, hnames₂⟩ := hstop.segments nums hend
  have htrailSegments : Expressions.segments 0 trail = trail.map .char := by
    have hall := segments_append (hchars htrail) []
    rwa [List.append_nil, show Expressions.segments 0 [] = [] from rfl, List.append_nil] at hall
  have hsegments : Expressions.segments 0
      (lead ++ (start ++ (gap₁ ++ '~' :: (gap₂ ++ (stop ++ trail))))) =
      lead.map .char ++ (segs₁ ++ (gap₁.map .char ++ (Segment.char '~' ::
        (gap₂.map .char ++ (segs₂ ++ trail.map .char))))) := by
    have hone : Expressions.segments 0 ('~' :: (gap₂ ++ (stop ++ trail))) =
        .char '~' :: Expressions.segments 0 (gap₂ ++ (stop ++ trail)) := rfl
    rw [segments_append hlead, hsegs₁, segments_append (hchars hgap₁), hone,
      segments_append (hchars hgap₂), hsegs₂, htrailSegments]
  constructor
  · show (Expressions.segments 0 _).flatMap (segmentText nums anchors) = _
    rw [hsegments]
    simp only [List.flatMap_append, List.flatMap_cons, flatMap_chars, htext₁, htext₂]
    rfl
  · intro n hn
    rw [mem_names, hsegments] at hn
    simp only [List.mem_append, List.mem_cons] at hn
    rcases hn with hn | hn | hn | hn | hn | hn | hn
    · exact absurd hn (name_notMem_chars _ n)
    · exact hnames₁ n hn
    · exact absurd hn (name_notMem_chars _ n)
    · cases hn
    · exact absurd hn (name_notMem_chars _ n)
    · exact hnames₂ n hn
    · exact absurd hn (name_notMem_chars _ n)

end Ranges

/-! ## The pattern at a range -/

theorem isDigit_of_isSpace {c : Char} (h : Text.isSpace c = true) : c.isDigit = false := by
  have hchar := nameChar_of_isSpace h
  rw [nameChar, Char.isAlphanum, Bool.or_eq_false_iff, Bool.or_eq_false_iff] at hchar
  exact hchar.1.2

theorem rangeHere_of_not_digit {c : Char} (h : c.isDigit = false) (s : List Char) :
    rangeHere (c :: s) = none := by
  have htake : (c :: s).takeWhile Char.isDigit = [] :=
    List.takeWhile_cons_of_neg (by rw [h]; exact Bool.false_ne_true)
  unfold rangeHere
  rw [htake]
  dsimp only
  split
  · exact if_pos (.inl rfl)
  · rfl

/-- The lazy part goes over blanks. -/
theorem rangeIn_blank {w : List Char} (hw : ∀ c ∈ w, Text.isSpace c = true) (hline : '
' ∉ w)
    (t : List Char) : rangeIn (w ++ t) = rangeIn t := by
  induction w with
  | nil => rfl
  | cons c w ih =>
    obtain ⟨hc, hw⟩ := List.forall_mem_cons.mp hw
    rw [List.mem_cons, not_or] at hline
    rw [List.cons_append, rangeIn, rangeHere_of_not_digit (isDigit_of_isSpace hc)]
    exact (if_neg (Ne.symm hline.1)).trans (ih hw hline.2)

theorem closeRange_blank {w : List Char} (hw : ∀ c ∈ w, Text.isSpace c = true) (hline : '
' ∉ w) :
    closeRange (w ++ [']']) = some [] := by
  induction w with
  | nil => rfl
  | cons c w ih =>
    obtain ⟨hc, hw⟩ := List.forall_mem_cons.mp hw
    rw [List.mem_cons, not_or] at hline
    have hclosing : c ≠ ']' := by
      rintro rfl
      exact absurd hc (by decide)
    rw [List.cons_append, closeRange, if_neg hclosing, if_neg (Ne.symm hline.1)]
    exact ih hw hline.2

theorem span_of_pos_neg {p : Char → Bool} {u t : List Char} (hu : ∀ c ∈ u, p c = true)
    (ht : ∀ c, t.head? = some c → p c = false) :
    (u ++ t).takeWhile p = u ∧ (u ++ t).dropWhile p = t := by
  rw [List.takeWhile_append_of_pos hu, List.dropWhile_append_of_pos hu]
  cases t with
  | nil => exact ⟨List.append_nil u, rfl⟩
  | cons c t =>
    have hc : ¬p c = true := by
      rw [ht c rfl]
      exact Bool.false_ne_true
    rw [List.takeWhile_cons_of_neg hc, List.dropWhile_cons_of_neg hc]
    exact ⟨List.append_nil u, rfl⟩

/-- **The pattern reads a range.** -/
theorem rangeIn_range {lead start gap₁ gap₂ stop trail : List Char}
    (hblank : ∀ c ∈ lead ++ gap₁ ++ gap₂ ++ trail, Text.isSpace c = true)
    (hlead : '
' ∉ lead) (htrail : '
' ∉ trail) (hstart : ∀ c ∈ start, c.isDigit = true)
    (hstop : ∀ c ∈ stop, c.isDigit = true) (hstart₀ : start ≠ []) (hstop₀ : stop ≠ []) :
    rangeIn (lead ++ (start ++ (gap₁ ++ '~' :: (gap₂ ++ (stop ++ (trail ++ [']'])))))) =
      some ⟨start, stop, []⟩ := by
  simp only [List.mem_append] at hblank
  have hgap₁ : ∀ c ∈ gap₁, Text.isSpace c = true := fun c hc => hblank c (.inl (.inl (.inr hc)))
  have hgap₂ : ∀ c ∈ gap₂, Text.isSpace c = true := fun c hc => hblank c (.inl (.inr hc))
  have htrails : ∀ c ∈ trail, Text.isSpace c = true := fun c hc => hblank c (.inr hc)
  have hspaceDigit {c : Char} (hc : c.isDigit = true) : Text.isSpace c = false := by
    by_contra hspace
    rw [isDigit_of_isSpace (by simpa using hspace)] at hc
    cases hc
  have hhead {w t : List Char} (hw : ∀ c ∈ w, Text.isSpace c = true)
      (ht : ∀ c, t.head? = some c → c.isDigit = false) :
      ∀ c, (w ++ t).head? = some c → c.isDigit = false := by
    cases w with
    | nil => exact ht
    | cons d w =>
      rintro c ⟨⟩
      exact isDigit_of_isSpace (hw d List.mem_cons_self)
  rw [rangeIn_blank (fun c hc => hblank c (.inl (.inl (.inl hc)))) hlead]
  obtain ⟨d, start', rfl⟩ := List.exists_cons_of_ne_nil hstart₀
  -- the digits, the blanks, the tilde, the blanks and the digits, each as far as they go
  have hfirst := span_of_pos_neg hstart (hhead hgap₁
    (t := '~' :: (gap₂ ++ (stop ++ (trail ++ [']'])))) (by rintro c ⟨⟩; rfl))
  have hsecond := span_of_pos_neg (t := '~' :: (gap₂ ++ (stop ++ (trail ++ [']'])))) hgap₁
    (by rintro c ⟨⟩; rfl)
  have hthird := span_of_pos_neg (t := stop ++ (trail ++ [']'])) hgap₂ (by
    obtain ⟨e, stop', rfl⟩ := List.exists_cons_of_ne_nil hstop₀
    rintro c ⟨⟩
    exact hspaceDigit (hstop e List.mem_cons_self))
  have hfourth := span_of_pos_neg hstop (hhead htrails (t := [']']) (by rintro c ⟨⟩; rfl))
  have hhere : rangeHere (d :: start' ++ (gap₁ ++ '~' :: (gap₂ ++ (stop ++ (trail ++ [']'])))))
      = some ⟨d :: start', stop, []⟩ := by
    unfold rangeHere
    rw [hfirst.1, hfirst.2, hsecond.2]
    simp only [hthird.2, hfourth.1, hfourth.2]
    rw [if_neg (by simp [hstop₀]), closeRange_blank htrails htrail]
    rfl
  rw [List.cons_append] at hhere ⊢
  rw [rangeIn, hhere]

/-- There is a tilde in a range. -/
theorem tilde_mem_of_rangeIn {s : List Char} {m : RangeMatch} (h : rangeIn s = some m) :
    '~' ∈ s := by
  induction s with
  | nil => cases h
  | cons c s ih =>
    rw [rangeIn] at h
    split at h
    · next hhere =>
      unfold rangeHere at hhere
      dsimp only at hhere
      split at hhere
      · next t ht =>
        have hmem : '~' ∈ ((c :: s).dropWhile Char.isDigit).dropWhile Text.isSpace := by
          rw [ht]
          exact List.mem_cons_self
        exact (List.dropWhile_suffix _).mem ((List.dropWhile_suffix _).mem hmem)
      · cases hhere
    · split at h
      · cases h
      · exact List.mem_cons_of_mem _ (ih h)

/-! ## What the passes make of a token -/

section Tokens

variable {D : Type} (nums : Inexact D) {anchors : Anchors}

theorem inner_of_mathInner {c : Char} (h : mathFormat.inner c = true) :
    varFormat.inner c = true := by
  simp only [varFormat, Bool.and_eq_true, decide_eq_true_eq]
  constructor
  · rintro rfl
    exact absurd h (by decide)
  · rintro rfl
    exact absurd h (by decide)

theorem inner_of_isDigit {c : Char} (h : c.isDigit = true) : varFormat.inner c = true :=
  inner_of_mathInner (by simp [mathFormat, h])

theorem inner_of_isSpace {c : Char} (h : Text.isSpace c = true) : varFormat.inner c = true :=
  inner_of_mathInner (by simp [mathFormat, h])

theorem mathInner_of_nameStart {c : Char} (h : nameStart c = true) :
    mathFormat.inner c = false := by
  by_contra hinner
  simp only [mathFormat, Bool.not_eq_false, Bool.or_eq_true, decide_eq_true_eq] at hinner
  rcases hinner with (hdigit | hletter) | hspace
  · rw [nameStart_of_isDigit hdigit] at h
    cases h
  · simp only [List.mem_cons, List.not_mem_nil, or_false] at hletter
    rcases hletter with rfl | rfl | rfl | rfl | rfl | rfl | rfl | rfl <;> cases h
  · rw [nameStart_of_nameChar (nameChar_of_isSpace hspace)] at h
    cases h

/-- A text in which all names are replaced by themselves is itself. -/
theorem replaceNames_self (s : List Char) : replaceNames (fun n => n) s = s := by
  have hskip : ∀ (s : List Char) (skip : Nat), (segments skip s).flatMap (fun
      | .char c => [c]
      | .name n => n) = s.drop skip := by
    intro s
    induction s with
    | nil => intro skip; cases skip <;> rfl
    | cons c s ih =>
      intro skip
      cases skip with
      | succ skip => exact ih skip
      | zero =>
        rw [segments]
        split
        · rw [List.flatMap_cons, ih, List.drop_zero]
          have hsplit : s.takeWhile nameChar ++ s.drop (s.takeWhile nameChar).length = s :=
            List.prefix_iff_eq_append.mp (List.takeWhile_prefix _)
          exact congrArg (c :: ·) hsplit
        · exact congrArg (c :: ·) (ih 0)
  exact hskip s 0

/-- Where all names are integers, the token has their values. -/
theorem contentOf_of_ints {token : List Char} (h : AllInts anchors token) :
    contentOf nums anchors token = replaceNames (nameText nums anchors) token := by
  unfold contentOf
  split
  · rfl
  · next hknown =>
    have hnone : names token = [] := by
      by_contra hne
      refine hknown ?_
      rw [namesKnown, Bool.and_eq_true, List.all_eq_true]
      refine ⟨decide_eq_true hne, fun n hn => ?_⟩
      have hint := h n hn
      unfold knownInt at hint
      split at hint
      · next hvalue => rw [hvalue]; rfl
      · cases hint
    have hself : replaceNames (nameText nums anchors) token = replaceNames (fun n => n) token :=
      replaceNames_congr fun n hn => by
        rw [hnone] at hn
        exact absurd hn List.not_mem_nil
    rw [hself, replaceNames_self]

/-- What the first pass leaves of a token that is no anchor. -/
theorem leftOf_token {token : List Char} (hanchor : anchors token = none) (hne : token ≠ [])
    (hfree : BracketFree token) :
    leftOf nums anchors (.placeholder token) = tokenOf (contentOf nums anchors token) := by
  simp only [leftOf, hanchor, contentOf]
  split
  · rfl
  · exact (if_pos ⟨hne, hfree⟩).symm

theorem choices_singleton (texts : List (List Char)) : choices [texts] = texts := by
  rw [choices, choices]
  simp

/-- The texts of a token. -/
theorem pieceTexts_token {token : List Char} (hanchor : anchors token = none) (hne : token ≠ [])
    (hfree : BracketFree token) :
    pieceTexts nums anchors (.placeholder token) =
      if contentOf nums anchors token ≠ [] ∧ BracketFree (contentOf nums anchors token) then
        evaluated nums (.placeholder (contentOf nums anchors token))
      else [varFormat.bracketed (contentOf nums anchors token)] := by
  rw [pieceTexts, leftOf_token nums hanchor hne hfree, tokenOf]
  split
  · exact choices_singleton _
  · rw [List.map_map]
    exact choices_letters _

theorem pieceTexts_known {token : List Char} {value : PyValue} (h : anchors token = some value) :
    pieceTexts nums anchors (.placeholder token) = [valueText nums value] := by
  simp only [pieceTexts, leftOf, h, List.map_map]
  exact choices_letters _

theorem evaluated_of_none {content : List Char} (h : rangeIn (content ++ [']']) = none) :
    evaluated nums (.placeholder content) = [mathToken nums content] := by
  simp only [evaluated, h]

theorem between_eq_rangeTexts (a b : Nat) :
    (between a b).map (Nat.toDigits 10) = rangeTexts a b := by
  have hlength : max a b + 1 - min a b = ((a : Int) - b).natAbs + 1 := by omega
  rw [between, rangeTexts, List.range'_eq_map_range, List.map_map, hlength]
  refine List.map_congr_left fun k _ => ?_
  have hvalue : min (a : Int) b + k = ((min a b + k : Nat) : Int) := by omega
  rw [hvalue, intText, if_neg (by omega)]
  rfl

/-- A bound of digits is the number that is read. -/
theorem Bound.intOfDigits {x text : List Char} {i : Int} (h : Bound anchors x text i)
    (hdigits : ∀ c ∈ text, c.isDigit = true) (hlength : text.length ≤ Text.maxDecimalDigits) :
    text ≠ [] ∧ ∃ n : Nat, i = n ∧ intOfDigits text = some n := by
  have hread : Expressions.intOfDigits text = some (Nat.ofDigitChars 10 text 0) := if_pos hlength
  cases h with
  | name _ _ =>
    by_cases hneg : i < 0
    · have hsign := hdigits '-' (by rw [intText, if_pos hneg]; exact List.mem_cons_self)
      cases hsign
    · rw [intText, if_neg hneg] at hread ⊢
      refine ⟨Nat.toDigits_ne_nil, i.natAbs, by omega, ?_⟩
      rw [hread, Nat.ofDigitChars_ten_toDigits]
  | numeral hne _ => exact ⟨hne, _, rfl, hread⟩
  | negative _ _ => cases hdigits '-' List.mem_cons_self

/-- **A token has the texts that it stands for.** -/
theorem yields_of_fits {token : List Char} (hne : token ≠ []) (hfree : BracketFree token)
    (hfits : anchors token = none → TokenFits nums anchors token) :
    Yields nums anchors token (pieceTexts nums anchors (.placeholder token)) where
  known value hvalue := pieceTexts_known nums hvalue
  unknown hanchor hunknown := by
    obtain ⟨n, hn, hnone⟩ := hunknown
    have hcontent : contentOf nums anchors token = token := by
      unfold contentOf
      rw [if_neg]
      intro hknown
      rw [namesKnown, Bool.and_eq_true, List.all_eq_true] at hknown
      have hsome := hknown.2 n hn
      rw [hnone] at hsome
      cases hsome
    have hempty : IsEmpty (RangeToken anchors token) := ⟨fun r => by
      have hint := (r.replaced nums).2 n hn
      rw [knownInt, hnone] at hint
      cases hint⟩
    have hrange := (hfits hanchor).apart hempty
    rw [hcontent] at hrange
    rw [pieceTexts_token nums hanchor hne hfree, hcontent, if_pos ⟨hne, hfree⟩,
      evaluated_of_none nums hrange, mathToken, if_neg]
    -- the name is no arithmetic
    intro hmath
    obtain ⟨c, hc, hstart⟩ := of_name_mem_segments (mem_names.mp hn)
    have hinner := List.all_eq_true.mp hmath c hc
    exact Bool.false_ne_true ((mathInner_of_nameStart hstart).symm.trans hinner)
  range hanchor r := by
    have hr := (hfits hanchor).ranges r
    obtain ⟨hreplaced, hints⟩ := r.replaced nums
    have hcontent := (contentOf_of_ints nums hints).trans hreplaced
    obtain ⟨hstart₀, a, ha, hreadStart⟩ :=
      r.start_bound.intOfDigits hr.start_digits hr.start_length
    obtain ⟨hstop₀, b, hb, hreadStop⟩ := r.stop_bound.intOfDigits hr.stop_digits hr.stop_length
    have hrange := rangeIn_range r.blank hr.lead_line hr.trail_line hr.start_digits hr.stop_digits
      hstart₀ hstop₀
    have hclosed : rangeIn (contentOf nums anchors token ++ [']']) =
        some ⟨r.startText, r.stopText, []⟩ := by
      rw [hcontent]
      simpa only [List.append_assoc, List.cons_append] using hrange
    have hplain : contentOf nums anchors token ≠ [] ∧
        BracketFree (contentOf nums anchors token) := by
      rw [hcontent]
      refine ⟨by simp, fun c hc => ?_⟩
      have hblank := r.blank
      simp only [List.mem_append, List.mem_cons] at hc hblank
      rcases hc with hc | hc | hc | rfl | hc | hc | hc
      · exact inner_of_isSpace (hblank c (.inl (.inl (.inl hc))))
      · exact inner_of_isDigit (hr.start_digits c hc)
      · exact inner_of_isSpace (hblank c (.inl (.inl (.inr hc))))
      · rfl
      · exact inner_of_isSpace (hblank c (.inl (.inr hc)))
      · exact inner_of_isDigit (hr.stop_digits c hc)
      · exact inner_of_isSpace (hblank c (.inr hc))
    rw [pieceTexts_token nums hanchor hne hfree, if_pos hplain, evaluated]
    simp only [hclosed, expanded, hreadStart, hreadStop]
    rw [between_eq_rangeTexts, ha, hb]
  value hanchor text htext := by
    unfold namedText at htext
    split at htext
    · next hints =>
      obtain ⟨value, hvalue, htext⟩ := Option.bind_eq_some_iff.mp htext
      obtain ⟨e, hread, heval⟩ := Option.bind_eq_some_iff.mp (Option.join_eq_some_iff.mp hvalue)
      have hcontent := contentOf_of_ints nums hints
      have hsafe := safeEvalExpression_replaceNames nums anchors hints hread
        ((hfits hanchor).signs e hread)
      rw [heval, Option.join_some, ← hcontent] at hsafe
      have hmath : ∀ c ∈ contentOf nums anchors token, mathFormat.inner c = true := by
        rw [hcontent]
        exact mathInner_replaceNames nums hints hread
      have hplain : contentOf nums anchors token ≠ [] ∧
          BracketFree (contentOf nums anchors token) := by
        refine ⟨fun hnil => ?_, fun c hc => inner_of_mathInner (hmath c hc)⟩
        rw [hnil] at hsafe
        cases hsafe
      have hrange : rangeIn (contentOf nums anchors token ++ [']']) = none := by
        by_contra hsome
        obtain ⟨m, hm⟩ := Option.ne_none_iff_exists'.mp hsome
        rcases List.mem_append.mp (tilde_mem_of_rangeIn hm) with hmem | hmem
        · exact absurd (hmath _ hmem) (by decide)
        · exact absurd hmem (by decide)
      rw [pieceTexts_token nums hanchor hne hfree, if_pos hplain, evaluated_of_none nums hrange,
        mathToken, if_pos (List.all_eq_true.mpr hmath), replaceMaths, hsafe, Option.bind_some, htext]
      rfl
    · cases htext
  single hanchor hempty := by
    rw [pieceTexts_token nums hanchor hne hfree]
    split
    · exact ⟨_, evaluated_of_none nums ((hfits hanchor).apart hempty)⟩
    · exact ⟨_, rfl⟩

/-- **Expansions are faithful** where no bracket is matched with what another one closes and every
token is read as it is meant. -/
theorem faithful_of_fits {expr : List Char} (hclear : Clear (left nums anchors expr))
    (hfits : ∀ token, .placeholder token ∈ pieces varFormat 0 expr → anchors token = none →
      TokenFits nums anchors token) :
    Faithful nums anchors expr (evaluateExpressions nums expr anchors) := by
  refine ⟨pieceTexts nums anchors, evaluateExpressions_of_clear nums anchors hclear, fun a => ?_,
    fun token htoken => ?_⟩
  · exact choices_singleton [[a]]
  · obtain ⟨hne, hfree⟩ := of_mem_pieces htoken
    exact yields_of_fits nums hne hfree (hfits token htoken)

/-- A range of digits fits. -/
theorem RangeToken.fits_of_digits {d d' : List Char} (hd : ∀ c ∈ d, c.isDigit = true)
    (hd' : ∀ c ∈ d', c.isDigit = true) (hlength : d.length ≤ Text.maxDecimalDigits)
    (hlength' : d'.length ≤ Text.maxDecimalDigits) (r : RangeToken anchors (d ++ '~' :: d')) :
    r.Fits := by
  obtain ⟨lead, start, startText, gap₁, gap₂, stop, stopText, trail, lower, upper, -, hstart,
    hstop, heq⟩ := r
  have hassoc : d ++ '~' :: d' = (lead ++ (start ++ gap₁)) ++ '~' :: (gap₂ ++ (stop ++ trail)) := by
    rw [heq]
    simp
  have htilde {u : List Char} (hu : ∀ c ∈ u, c.isDigit = true) : '~' ∉ u := fun h => by
    cases hu _ h
  obtain ⟨rfl, -, rfl⟩ :=
    (List.append_cons_inj_of_notMem (htilde hd) (htilde hd')).mp hassoc
  simp only [List.forall_mem_append, List.length_append] at hd hd' hlength hlength'
  -- a bound of digits is a numeral
  have hbound {x text : List Char} {i : Int} (h : Bound anchors x text i)
      (hx : ∀ c ∈ x, c.isDigit = true) : text = x := by
    cases h with
    | name hname _ =>
      obtain ⟨c, cs, rfl, hc, -⟩ := hname
      rw [nameStart_of_isDigit (hx c List.mem_cons_self)] at hc
      cases hc
    | numeral _ _ => rfl
    | negative _ _ => rfl
  obtain rfl := hbound hstart hd.2.1
  obtain rfl := hbound hstop hd'.2.1
  refine ⟨hd.2.1, hd'.2.1, ?_, ?_, fun h => ?_, fun h => ?_⟩
  · show startText.length ≤ _
    omega
  · show stopText.length ≤ _
    omega
  · cases hd.1 _ h
  · cases hd'.2.2 _ h

/-- Without a tilde there is no range. -/
theorem isEmpty_rangeToken {token : List Char} (h : '~' ∉ token) :
    IsEmpty (RangeToken anchors token) :=
  ⟨fun r => h (by rw [r.token_eq]; simp)⟩

end Tokens

/-- Integers only. -/
def integersOnly : Inexact Unit where
  literal := fun _ => ()
  neg := fun _ => ()
  apply := fun _ _ _ => none
  whole := fun _ => none
  text := fun _ => []
  anchorText := fun _ => []

/-- A base address. -/
def baseAnchor : Anchors := fun name =>
  if name = "base".toList then some (.int 40000) else none

theorem tokenFits_range : TokenFits integersOnly baseAnchor "1~3".toList where
  ranges r := by
    have hone : ∀ c ∈ ['1'], c.isDigit = true := List.forall_mem_singleton.mpr rfl
    have hthree : ∀ c ∈ ['3'], c.isDigit = true := List.forall_mem_singleton.mpr rfl
    exact RangeToken.fits_of_digits hone hthree (by decide) (by decide) r
  apart hempty := hempty.elim
    { lead := []
      start := ['1']
      startText := ['1']
      gap₁ := []
      gap₂ := []
      stop := ['3']
      stopText := ['3']
      trail := []
      lower := 1
      upper := 3
      blank := nofun
      start_bound := .numeral (by decide) (List.forall_mem_singleton.mpr rfl)
      stop_bound := .numeral (by decide) (List.forall_mem_singleton.mpr rfl)
      token_eq := rfl }
  signs e h := by cases h

theorem tokenFits_sum : TokenFits integersOnly baseAnchor "base+2".toList where
  ranges r := (isEmpty_rangeToken (by decide)).elim r
  apart _ := by decide +kernel
  signs e h := by
    have hread : readNamed "base+2".toList =
        some (.binary .add (.num (.inr "base".toList)) (.num (.inl (natLiteral 2)))) := by decide +kernel
    obtain rfl := Option.some.inj (hread.symm.trans h)
    intro name b hb
    simp [Expr.parts] at hb

theorem faithful_range_and_sum :
    Faithful integersOnly baseAnchor "cell_[1~3]_[base+2]".toList
      (evaluateExpressions integersOnly "cell_[1~3]_[base+2]".toList baseAnchor) := by
  refine faithful_of_fits integersOnly ?_ fun token htoken _ => ?_
  · have hleft : left integersOnly baseAnchor "cell_[1~3]_[base+2]".toList =
        "cell_".toList.map .letter ++ [.placeholder "1~3".toList, .letter '_',
          .placeholder "40000+2".toList] := by decide +kernel
    rw [hleft]
    refine Clear.letters (by decide) ⟨fun h => ?_, fun m hm => ?_, fun h => ?_, fun _ t ht => ?_,
      fun m hm => ?_, trivial⟩
    · cases h
    · cases hm
      exact ⟨rfl, rfl⟩
    · cases h
    · rw [List.mem_singleton.mp ht]
      decide +kernel
    · cases hm
  · have hpieces : pieces varFormat 0 "cell_[1~3]_[base+2]".toList =
        "cell_".toList.map .letter ++ [.placeholder "1~3".toList, .letter '_',
          .placeholder "base+2".toList] := by decide +kernel
    rw [hpieces, List.mem_append] at htoken
    rcases htoken with hletter | htoken
    · obtain ⟨c, -, hc⟩ := List.mem_map.mp hletter
      cases hc
    · simp only [List.mem_cons, Piece.placeholder.injEq, reduceCtorEq, List.not_mem_nil, false_or,
        or_false] at htoken
      rcases htoken with rfl | rfl
      · exact tokenFits_range
      · exact tokenFits_sum

/-- No anchors. -/
def noAnchors : Anchors := fun _ => none

/-- An anchor below zero. -/
def negativeAnchor : Anchors := fun name => if name = ['n'] then some (.int (-3)) else none

/-- The unknown name and the underscore before a range are lost, and the square of a number below
zero has a sign. -/
theorem not_faithful :
    ¬Faithful integersOnly noAnchors "[x]_[1~3]".toList
      (evaluateExpressions integersOnly "[x]_[1~3]".toList noAnchors) ∧
    ¬Faithful integersOnly negativeAnchor "[n**2]".toList
      (evaluateExpressions integersOnly "[n**2]".toList negativeAnchor) := by
  constructor
  · rintro ⟨texts, hresults, hletter, hyields⟩
    have hpieces : pieces varFormat 0 "[x]_[1~3]".toList =
        [.placeholder ['x'], .letter '_', .placeholder "1~3".toList] := by decide +kernel
    have hunknown : texts (.placeholder ['x']) = [varFormat.bracketed ['x']] := by
      refine (hyields ['x'] ?_).unknown rfl ⟨['x'], ?_, rfl⟩
      · rw [hpieces]
        exact List.mem_cons_self
      · decide
    have hsearch : searchRange (evaluateVariables integersOnly noAnchors "[x]_[1~3]".toList) =
        some ([], ⟨['1'], ['3'], []⟩) := by decide +kernel
    have hstart : intOfDigits ['1'] = some 1 := by decide
    have hstop : intOfDigits ['3'] = some 3 := by decide
    have heach : ∀ i ∈ between 1 3,
        evaluateRanges ([] ++ (Nat.toDigits 10 i ++ [])) = .ok [Nat.toDigits 10 i] := by
      intro i hi
      have hbounds : 1 ≤ i ∧ i < 4 := by simpa [between] using hi
      have hcases : i = 1 ∨ i = 2 ∨ i = 3 := by omega
      rcases hcases with rfl | rfl | rfl
      · exact evaluateRanges_of_none rfl
      · exact evaluateRanges_of_none rfl
      · exact evaluateRanges_of_none rfl
    rw [evaluateExpressions, evaluateRanges_of_some hsearch hstart hstop heach, hpieces] at hresults
    have hfirst : ['1'] ∈ choices
        ([.placeholder ['x'], .letter '_', .placeholder "1~3".toList].map texts) := by
      rw [← Except.ok.inj hresults]
      decide +kernel
    rw [List.map_cons, hunknown, choices_singleton_cons] at hfirst
    obtain ⟨t, -, ht⟩ := List.mem_map.mp hfirst
    cases ht
  · rintro ⟨texts, hresults, -, hyields⟩
    have hpieces : pieces varFormat 0 "[n**2]".toList = [.placeholder "n**2".toList] := by
      decide +kernel
    have hvalue : texts (.placeholder "n**2".toList) = [['9']] := by
      refine (hyields "n**2".toList ?_).value (by decide) ['9'] (by decide +kernel)
      rw [hpieces]
      exact List.mem_cons_self
    have hsearch :
        searchRange (evaluateVariables integersOnly negativeAnchor "[n**2]".toList) = none := by
      decide +kernel
    rw [evaluateExpressions, evaluateRanges_of_none hsearch, hpieces, List.map_cons, List.map_nil,
      hvalue] at hresults
    exact absurd (Except.ok.inj hresults) (by decide +kernel)

end Expressions

end ProtocolGateway
