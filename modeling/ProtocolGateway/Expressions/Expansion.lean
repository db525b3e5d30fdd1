import ProtocolGateway.Expressions.Evaluate

/-!
# What the passes make of the pieces of a cell

The passes over a whole text are compared with what they make of its pieces one by one: letters,
and tokens in brackets. A bracket may only be matched together with the token that it opens. `Clear`
says that the other brackets stay out of the matches, at every stage of the expansion of the ranges,
and `evaluateExpressions_of_clear` that the results are then the choices of one text for each piece.

* `left` — the pieces that the first pass leaves.
* `stages` — what the rest of a text may look like while ranges in it are being expanded.
* `evaluateRanges_render` — the ranges expand in their places, by induction on the pieces.
* `map_evaluateMath` — the arithmetic is evaluated in its places.
-/

namespace ProtocolGateway

namespace Expressions

open Placeholders

/-! ## Brackets -/

/-- No letter of the text is a bracket. -/
def BracketFree (s : List Char) : Prop := ∀ c ∈ s, varFormat.inner c = true

instance (s : List Char) : Decidable (BracketFree s) :=
  List.decidableBAll (fun c => varFormat.inner c = true) s

theorem BracketFree.opening_notMem {s : List Char} (h : BracketFree s) : '[' ∉ s := fun hmem =>
  absurd (h _ hmem) (by decide)

theorem BracketFree.closing_notMem {s : List Char} (h : BracketFree s) : ']' ∉ s := fun hmem =>
  absurd (h _ hmem) (by decide)

theorem takeWhile_closed {p : Char → Bool} (hp : p ']' = false) (u t : List Char) :
    (u ++ ']' :: t).takeWhile p = u.takeWhile p := by
  induction u with
  | nil => exact List.takeWhile_cons_of_neg (by rw [hp]; exact Bool.false_ne_true)
  | cons c u ih =>
    rw [List.cons_append, List.takeWhile_cons, List.takeWhile_cons, ih]

theorem dropWhile_closed {p : Char → Bool} (hp : p ']' = false) (u t : List Char) :
    (u ++ ']' :: t).dropWhile p = u.dropWhile p ++ ']' :: t := by
  induction u with
  | nil => exact List.dropWhile_cons_of_neg (by rw [hp]; exact Bool.false_ne_true)
  | cons c u ih =>
    rw [List.cons_append, List.dropWhile_cons, List.dropWhile_cons, ih]
    split
    · rfl
    · rfl

/-! ## The pattern of a range -/

/-- The match with another text after it. -/
def RangeMatch.before (m : RangeMatch) (t : List Char) : RangeMatch := { m with after := t }

theorem closeRange_closed {u : List Char} (hu : ']' ∉ u) (t : List Char) :
    closeRange (u ++ ']' :: t) = (closeRange (u ++ [']'])).map fun _ => t := by
  induction u with
  | nil => rfl
  | cons c u ih =>
    rw [List.mem_cons, not_or] at hu
    rw [List.cons_append, List.cons_append, closeRange, closeRange, if_neg (Ne.symm hu.1),
      if_neg (Ne.symm hu.1)]
    split
    · rfl
    · exact ih hu.2

/-- What follows the closing bracket does not matter. -/
theorem rangeHere_closed {u : List Char} (hu : ']' ∉ u) (t : List Char) :
    rangeHere (u ++ ']' :: t) = (rangeHere (u ++ [']'])).map (·.before t) := by
  unfold rangeHere
  simp only [takeWhile_closed (p := Char.isDigit) rfl, dropWhile_closed (p := Char.isDigit) rfl,
    dropWhile_closed (p := Text.isSpace) rfl]
  rcases hrest : (u.dropWhile Char.isDigit).dropWhile Text.isSpace with _ | ⟨c, v⟩
  · rfl
  · by_cases hc : c = '~'
    · subst hc
      have hv : ']' ∉ (v.dropWhile Text.isSpace).dropWhile Char.isDigit := fun hmem => by
        refine hu ((List.dropWhile_suffix (p := Char.isDigit)).mem ?_)
        refine (List.dropWhile_suffix (p := Text.isSpace)).mem ?_
        rw [hrest]
        refine List.mem_cons_of_mem _ ((List.dropWhile_suffix (p := Text.isSpace)).mem ?_)
        exact (List.dropWhile_suffix (p := Char.isDigit)).mem hmem
      simp only [List.cons_append, takeWhile_closed (p := Char.isDigit) rfl,
        dropWhile_closed (p := Char.isDigit) rfl, dropWhile_closed (p := Text.isSpace) rfl]
      split
      · rfl
      · rw [closeRange_closed hv, Option.map_map, Option.map_map]
        rfl
    · have hother (t : List Char) : c :: v ++ t = c :: (v ++ t) := rfl
      rw [hother, hother]
      split
      · next heq => exact absurd (List.cons.inj heq).1 hc
      · split
        · next heq => exact absurd (List.cons.inj heq).1 hc
        · rfl

/-- A range in brackets is the same before every text. -/
theorem rangeIn_closed {u : List Char} (hu : ']' ∉ u) {m : RangeMatch}
    (h : rangeIn (u ++ [']']) = some m) (t : List Char) :
    rangeIn (u ++ ']' :: t) = some (m.before t) := by
  induction u with
  | nil => cases h
  | cons c u ih =>
    have hhere := rangeHere_closed hu t
    rw [List.mem_cons, not_or] at hu
    rw [List.cons_append] at h hhere ⊢
    rw [rangeIn] at h ⊢
    rw [hhere]
    split at h
    · next hfound =>
      cases h
      rw [List.cons_append] at *
      rw [hfound]
      rfl
    · next hnone =>
      rw [List.cons_append, hnone]
      split at h
      · cases h
      · next hline =>
        rw [Option.map_none]
        exact (if_neg hline).trans (ih hu.2 h)

/-! ## The pieces of a cell -/

section Pieces

variable {D : Type} (nums : Inexact D) (anchors : Anchors)

/-- The text of the pieces. -/
def renderAll (qs : List (Piece Char)) : List Char := qs.flatMap varFormat.render

/-- A text as a token, or as letters if it is none. -/
def tokenOf (content : List Char) : List (Piece Char) :=
  if content ≠ [] ∧ BracketFree content then [.placeholder content]
  else (varFormat.bracketed content).map .letter

/-- What the first pass leaves of a piece. -/
def leftOf : Piece Char → List (Piece Char)
  | .letter a => [.letter a]
  | .placeholder content =>
    match anchors content with
    | some value => (valueText nums value).map .letter
    | none =>
      if namesKnown anchors content then tokenOf (replaceNames (nameText nums anchors) content)
      else [.placeholder content]

/-- What the first pass leaves. -/
def left (expr : List Char) : List (Piece Char) :=
  (pieces varFormat 0 expr).flatMap (leftOf nums anchors)

theorem renderAll_letters (s : List Char) : renderAll (s.map .letter) = s := by
  induction s with
  | nil => rfl
  | cons c s ih => exact congrArg (c :: ·) ih

theorem renderAll_tokenOf (content : List Char) :
    renderAll (tokenOf content) = varFormat.bracketed content := by
  unfold tokenOf
  split
  · exact List.append_nil _
  · exact renderAll_letters _

theorem renderAll_append (qs rs : List (Piece Char)) :
    renderAll (qs ++ rs) = renderAll qs ++ renderAll rs := List.flatMap_append

/-- The first pass, piece by piece. -/
theorem evaluateVariables_eq (expr : List Char) :
    evaluateVariables nums anchors expr = renderAll (left nums anchors expr) := by
  unfold evaluateVariables Placeholders.replace left renderAll
  rw [List.flatMap_assoc]
  refine List.flatMap_congr fun q _ => ?_
  cases q with
  | letter a => rfl
  | placeholder content =>
    show replaceVars nums anchors content = renderAll (leftOf nums anchors (.placeholder content))
    cases hvalue : anchors content with
    | some value =>
      rw [replaceVars, leftOf, hvalue]
      exact (renderAll_letters _).symm
    | none =>
      simp only [replaceVars, leftOf, hvalue]
      split
      · exact (renderAll_tokenOf _).symm
      · exact (List.append_nil _).symm

end Pieces

/-! ## The expansion of the ranges -/

/-- The texts that a piece is expanded to. -/
def expanded : Piece Char → List (List Char)
  | .letter a => [[a]]
  | .placeholder content =>
    match rangeIn (content ++ [']']) with
    | none => [varFormat.bracketed content]
    | some m =>
      match intOfDigits m.start, intOfDigits m.stop with
      | some a, some b => (between a b).map (Nat.toDigits 10)
      | _, _ => []

/-- What pieces may look like while their ranges are expanded from left to right. -/
def stages : List (Piece Char) → List (List Char)
  | [] => [[]]
  | q :: qs => renderAll (q :: qs) :: (expanded q).flatMap fun text => (stages qs).map (text ++ ·)

theorem renderAll_mem_stages (qs : List (Piece Char)) : renderAll qs ∈ stages qs := by
  cases qs with
  | nil => exact List.mem_singleton_self _
  | cons q qs => exact List.mem_cons_self

theorem append_mem_stages {q : Piece Char} {qs : List (Piece Char)} {text t : List Char}
    (htext : text ∈ expanded q) (ht : t ∈ stages qs) : text ++ t ∈ stages (q :: qs) :=
  List.mem_cons_of_mem _ (List.mem_flatMap.mpr ⟨text, htext, List.mem_map.mpr ⟨t, ht, rfl⟩⟩)

/-- **The brackets stay apart.** A bracket that opens no token, or a token without a range, is not
the beginning of a range with what follows it, and a bracket that opens no token is not one of
arithmetic. The bounds of the ranges can be read. -/
def Clear : List (Piece Char) → Prop
  | [] => True
  | .letter a :: qs =>
    (a = '[' → (∀ t ∈ stages qs, rangeIn t = none) ∧
      ∀ t ∈ choices (qs.map expanded), mathFormat.contentAt t = none) ∧ Clear qs
  | .placeholder content :: qs =>
    (rangeIn (content ++ [']']) = none → ∀ t ∈ stages qs, rangeIn (content ++ ']' :: t) = none) ∧
      (∀ m, rangeIn (content ++ [']']) = some m →
        (intOfDigits m.start).isSome ∧ (intOfDigits m.stop).isSome) ∧ Clear qs

/-- Letters that are no opening brackets stay apart. -/
theorem Clear.letters {l : List Char} {qs : List (Piece Char)} (hl : '[' ∉ l) (h : Clear qs) :
    Clear (l.map .letter ++ qs) := by
  induction l with
  | nil => exact h
  | cons a l ih =>
    rw [List.mem_cons, not_or] at hl
    exact ⟨fun ha => absurd ha.symm hl.1, ih hl.2⟩

/-- No bracket of the text is the beginning of a range, with `t` after the text. -/
def Inert (pre t : List Char) : Prop :=
  ∀ pre₁ pre₂, pre = pre₁ ++ '[' :: pre₂ → rangeIn (pre₂ ++ t) = none

theorem Inert.nil (t : List Char) : Inert [] t := fun pre₁ pre₂ h => by cases pre₁ <;> cases h

/-- The search goes through such a text. -/
theorem Inert.searchRange {pre t : List Char} (h : Inert pre t) :
    searchRange (pre ++ t) = (searchRange t).map fun found => (pre ++ found.1, found.2) := by
  induction pre with
  | nil => cases hfound : Expressions.searchRange t <;> exact hfound
  | cons c pre ih =>
    have hrest : Inert pre t := fun pre₁ pre₂ heq => h (c :: pre₁) pre₂ (by rw [heq]; rfl)
    have hhere : (if c = '[' then rangeIn (pre ++ t) else none) = none := by
      split
      · next hc => exact h [] pre (by rw [hc]; rfl)
      · rfl
    rw [List.cons_append, Expressions.searchRange, hhere, ih hrest, Option.map_map]
    rfl

/-- Text without an opening bracket can be added. -/
theorem Inert.append {pre text t : List Char} (h : Inert pre (text ++ t)) (htext : '[' ∉ text) :
    Inert (pre ++ text) t := by
  intro pre₁ pre₂ heq
  rcases List.append_eq_append_iff.mp heq with ⟨middle, rfl, hmiddle⟩ | ⟨middle, hpre, hmiddle⟩
  · exact absurd (hmiddle ▸ List.mem_append_right _ List.mem_cons_self) htext
  · cases middle with
    | nil =>
      have htextcons : text = '[' :: pre₂ := hmiddle.symm
      exact absurd (htextcons ▸ List.mem_cons_self) htext
    | cons c middle =>
      obtain ⟨hc, hpre₂⟩ := List.cons.inj hmiddle
      rw [← hc] at hpre
      rw [show pre₂ = middle ++ text from hpre₂, List.append_assoc]
      exact h pre₁ middle hpre

/-- So can a bracket that is not the beginning of a range. -/
theorem Inert.bracket {pre text t : List Char} (h : Inert pre ('[' :: (text ++ t)))
    (htext : '[' ∉ text) (hnone : rangeIn (text ++ t) = none) :
    Inert (pre ++ '[' :: text) t := by
  have hopened : Inert (pre ++ ['[']) (text ++ t) := by
    intro pre₁ pre₂ heq
    rcases List.eq_nil_or_concat pre₂ with rfl | ⟨pre₂, c, rfl⟩
    · exact hnone
    · rw [List.concat_eq_append, ← List.cons_append, ← List.append_assoc] at heq
      obtain ⟨hpre, hc⟩ := List.append_inj' heq rfl
      cases hc
      rw [List.concat_eq_append, List.append_assoc]
      exact h pre₁ pre₂ hpre
  have happended := hopened.append htext
  rwa [List.append_assoc] at happended

theorem evaluateRanges_of_none {expr : List Char} (h : searchRange expr = none) :
    evaluateRanges expr = .ok [expr] := by
  rw [evaluateRanges]
  split
  · rfl
  · next hfound =>
    rw [h] at hfound
    cases hfound

/-- One expansion. -/
theorem evaluateRanges_of_some {expr before : List Char} {m : RangeMatch} {a b : Nat}
    (h : searchRange expr = some (before, m)) (ha : intOfDigits m.start = some a)
    (hb : intOfDigits m.stop = some b) {f : Nat → List (List Char)}
    (hf : ∀ i ∈ between a b,
      evaluateRanges (before ++ (Nat.toDigits 10 i ++ m.after)) = .ok (f i)) :
    evaluateRanges expr = .ok ((between a b).flatMap f) := by
  have hmap : ∀ is : List Nat, (∀ i ∈ is,
      evaluateRanges (before ++ (Nat.toDigits 10 i ++ m.after)) = .ok (f i)) →
      is.mapM (fun i => evaluateRanges (before ++ (Nat.toDigits 10 i ++ m.after))) =
        .ok (is.map f) := by
    intro is his
    induction is with
    | nil => rfl
    | cons i is ih =>
      rw [List.mapM_cons, his i List.mem_cons_self,
        ih fun j hj => his j (List.mem_cons_of_mem _ hj)]
      rfl
  rw [evaluateRanges]
  split
  · next hnone =>
    rw [h] at hnone
    cases hnone
  · next before' m' hfound =>
    rw [h] at hfound
    cases hfound
    rw [ha, hb]
    dsimp only
    rw [hmap _ hf]
    rfl

/-- The tokens have no brackets in them. -/
def TokensBracketFree (qs : List (Piece Char)) : Prop :=
  ∀ content, .placeholder content ∈ qs → BracketFree content

/-- **The ranges are expanded in their places**, behind a text that is done. -/
theorem evaluateRanges_render {qs : List (Piece Char)} (hclear : Clear qs)
    (hfree : TokensBracketFree qs) {pre : List Char} (hinert : ∀ t ∈ stages qs, Inert pre t) :
    evaluateRanges (pre ++ renderAll qs) =
      .ok ((choices (qs.map expanded)).map (pre ++ ·)) := by
  induction qs generalizing pre with
  | nil =>
    have hsearch := (hinert [] (List.mem_singleton_self _)).searchRange
    exact evaluateRanges_of_none hsearch
  | cons q qs ih =>
    have hfree' : TokensBracketFree qs := fun content h =>
      hfree content (List.mem_cons_of_mem _ h)
    -- a piece that stays as it is becomes a part of what is done
    have hstays (text : List Char) (hrest : Clear qs) (hq : expanded q = [text])
        (hrender : varFormat.render q = text) (hdone : ∀ t ∈ stages qs, Inert (pre ++ text) t) :
        evaluateRanges (pre ++ renderAll (q :: qs)) =
          .ok ((choices ((q :: qs).map expanded)).map (pre ++ ·)) := by
      have htail := ih hrest hfree' hdone
      rw [List.append_assoc] at htail
      rw [List.map_cons, hq, choices_singleton_cons, List.map_map, renderAll, List.flatMap_cons,
        hrender]
      refine htail.trans (congrArg Except.ok (List.map_congr_left fun t _ => ?_))
      exact List.append_assoc _ _ _
    cases q with
    | letter a =>
      obtain ⟨hbracket, hrest⟩ := hclear
      refine hstays [a] hrest rfl rfl fun t ht => ?_
      have hstage : Inert pre ([a] ++ t) :=
        hinert _ (append_mem_stages (List.mem_singleton_self _) ht)
      by_cases ha : a = '['
      · subst ha
        exact Inert.bracket hstage List.not_mem_nil ((hbracket rfl).1 t ht)
      · exact hstage.append (by simpa using Ne.symm ha)
    | placeholder content =>
      obtain ⟨hapart, hreadable, hrest⟩ := hclear
      have hcontent : BracketFree content := hfree content List.mem_cons_self
      cases hrange : rangeIn (content ++ [']']) with
      | none =>
        have hexpanded : expanded (.placeholder content) = [varFormat.bracketed content] := by
          rw [expanded, hrange]
        refine hstays _ hrest hexpanded rfl fun t ht => ?_
        have hstage := hinert _ (append_mem_stages (q := .placeholder content)
          (hexpanded ▸ List.mem_singleton_self _) ht)
        refine Inert.bracket hstage ?_ ?_
        · intro hmem
          rcases List.mem_append.mp hmem with hmem | hmem
          · exact hcontent.opening_notMem hmem
          · exact absurd (List.mem_singleton.mp hmem) (by decide)
        · rw [List.append_assoc]
          exact hapart hrange t ht
      | some m =>
        obtain ⟨ha, hb⟩ := hreadable m hrange
        obtain ⟨a, ha⟩ := Option.isSome_iff_exists.mp ha
        obtain ⟨b, hb⟩ := Option.isSome_iff_exists.mp hb
        have hexpanded : expanded (.placeholder content) =
            (between a b).map (Nat.toDigits 10) := by
          simp only [expanded, hrange, ha, hb]
        have hfound : searchRange (pre ++ renderAll (.placeholder content :: qs)) =
            some (pre, m.before (renderAll qs)) := by
          rw [(hinert _ (renderAll_mem_stages _)).searchRange]
          have htoken : renderAll (.placeholder content :: qs) =
              '[' :: (content ++ ']' :: renderAll qs) := by
            simp [renderAll, Format.render, Format.bracketed, varFormat]
          rw [htoken, searchRange, if_pos rfl,
            rangeIn_closed hcontent.closing_notMem hrange]
          simp
        rw [evaluateRanges_of_some hfound ha hb (f := fun i =>
          (choices (qs.map expanded)).map fun t => pre ++ (Nat.toDigits 10 i ++ t))]
        · rw [List.map_cons, choices, hexpanded, List.flatMap_map, List.map_flatMap]
          simp only [List.map_map]
          rfl
        · intro i hi
          have hdone : ∀ t ∈ stages qs, Inert (pre ++ Nat.toDigits 10 i) t := fun t ht => by
            refine (hinert _ (append_mem_stages ?_ ht)).append (bracket_notMem_toDigits i)
            rw [hexpanded]
            exact List.mem_map_of_mem hi
          have htail := ih hrest hfree' hdone
          rw [List.append_assoc] at htail
          refine htail.trans (congrArg Except.ok (List.map_congr_left fun t _ => ?_))
          exact List.append_assoc _ _ _

/-! ## The arithmetic -/

section Arithmetic

variable {D : Type} (nums : Inexact D)

/-- What the last pass makes of the text of a token. -/
def mathToken (content : List Char) : List Char :=
  if content.all mathFormat.inner then replaceMaths nums content
  else varFormat.bracketed content

/-- The texts that a piece becomes in the end. -/
def evaluated : Piece Char → List (List Char)
  | .letter a => [[a]]
  | .placeholder content =>
    match rangeIn (content ++ [']']) with
    | none => [mathToken nums content]
    | some _ => expanded (.placeholder content)

/-- The last pass at a token. -/
theorem evaluateMath_bracketed {content : List Char} (hne : content ≠ [])
    (hfree : BracketFree content) (t : List Char) :
    evaluateMath nums (varFormat.bracketed content ++ t) =
      mathToken nums content ++ evaluateMath nums t := by
  unfold mathToken
  split
  · next hmath => exact replace_placeholder hne (List.all_eq_true.mp hmath) t
  · next hmath =>
    have hnone : mathFormat.contentAt (content ++ ']' :: t) = none := by
      refine Option.eq_none_iff_forall_ne_some.mpr fun found hfound => hmath ?_
      obtain ⟨-, hinner, rest, heq⟩ := contentAt_eq_some_iff.mp hfound
      have hfoundfree : ']' ∉ found := fun hmem => absurd (hinner _ hmem) (by decide)
      have hsame : content = found := by
        have htake := congrArg (List.takeWhile fun c => c ≠ ']') heq
        rwa [takeWhile_closed rfl, show mathFormat.closing = ']' from rfl, takeWhile_closed rfl,
          List.takeWhile_eq_self_iff.mpr, List.takeWhile_eq_self_iff.mpr] at htake
        · intro c hc
          exact decide_eq_true fun h => hfoundfree (h ▸ hc)
        · intro c hc
          exact decide_eq_true fun h => hfree.closing_notMem (h ▸ hc)
      exact List.all_eq_true.mpr (hsame ▸ hinner)
    have hopened : evaluateMath nums ('[' :: (content ++ ']' :: t)) =
        '[' :: evaluateMath nums (content ++ ']' :: t) := replace_cons fun _ => hnone
    have hcontent : evaluateMath nums (content ++ ']' :: t) =
        content ++ evaluateMath nums (']' :: t) := replace_append hfree.opening_notMem
    have hclosed : evaluateMath nums (']' :: t) = ']' :: evaluateMath nums t :=
      replace_cons fun h => absurd h (by decide)
    have htext : varFormat.bracketed content ++ t = '[' :: (content ++ ']' :: t) := by
      simp [Format.bracketed, varFormat]
    rw [htext, hopened, hcontent, hclosed]
    simp [Format.bracketed, varFormat]

/-- **The arithmetic is evaluated in its places.** -/
theorem map_evaluateMath {qs : List (Piece Char)} (hclear : Clear qs)
    (hfree : TokensBracketFree qs) (hne : ∀ content, .placeholder content ∈ qs → content ≠ []) :
    (choices (qs.map expanded)).map (evaluateMath nums) = choices (qs.map (evaluated nums)) := by
  induction qs with
  | nil => rfl
  | cons q qs ih =>
    have htail (hrest : Clear qs) := ih hrest
      (fun content h => hfree content (List.mem_cons_of_mem _ h))
      (fun content h => hne content (List.mem_cons_of_mem _ h))
    -- the pass goes through the text of a piece and on to the next one
    have hpiece (f : List Char → List Char) (hrest : Clear qs)
        (hq : evaluated nums q = (expanded q).map f)
        (hmath : ∀ text ∈ expanded q, ∀ t ∈ choices (qs.map expanded),
          evaluateMath nums (text ++ t) = f text ++ evaluateMath nums t) :
        (choices ((q :: qs).map expanded)).map (evaluateMath nums) =
          choices ((q :: qs).map (evaluated nums)) := by
      rw [List.map_cons, List.map_cons, choices, choices, hq, List.map_flatMap, List.flatMap_map,
        ← htail hrest]
      refine List.flatMap_congr fun text htext => ?_
      rw [List.map_map, List.map_map]
      exact List.map_congr_left fun t ht => hmath text htext t ht
    cases q with
    | letter a =>
      refine hpiece id hclear.2 rfl fun text htext t ht => ?_
      rw [List.mem_singleton.mp htext]
      exact replace_cons fun ha => (hclear.1 ha).2 t ht
    | placeholder content =>
      obtain ⟨-, hreadable, hrest⟩ := hclear
      cases hrange : rangeIn (content ++ [']']) with
      | none =>
        refine hpiece (fun _ => mathToken nums content) hrest ?_ fun text htext t _ => ?_
        · simp only [evaluated, expanded, hrange]
          rfl
        · simp only [expanded, hrange] at htext
          rw [List.mem_singleton.mp htext]
          exact evaluateMath_bracketed nums (hne content List.mem_cons_self)
            (hfree content List.mem_cons_self) t
      | some m =>
        obtain ⟨ha, hb⟩ := hreadable m hrange
        obtain ⟨a, ha⟩ := Option.isSome_iff_exists.mp ha
        obtain ⟨b, hb⟩ := Option.isSome_iff_exists.mp hb
        refine hpiece id hrest ?_ fun text htext t _ => ?_
        · simp only [evaluated, hrange, List.map_id]
        · simp only [expanded, hrange, ha, hb] at htext
          obtain ⟨i, -, rfl⟩ := List.mem_map.mp htext
          exact replace_append (bracket_notMem_toDigits i)

/-! ## The three passes -/

variable (anchors : Anchors)

/-- The texts that a piece of the cell becomes. -/
def pieceTexts (q : Piece Char) : List (List Char) :=
  choices ((leftOf nums anchors q).map (evaluated nums))

/-- The tokens that the first pass leaves are tokens. -/
theorem of_mem_left {expr content : List Char}
    (h : .placeholder content ∈ left nums anchors expr) :
    content ≠ [] ∧ BracketFree content := by
  obtain ⟨q, hq, hleft⟩ := List.mem_flatMap.mp h
  cases q with
  | letter a => cases List.mem_singleton.mp hleft
  | placeholder token =>
    obtain ⟨hne, hfree⟩ := of_mem_pieces hq
    cases hvalue : anchors token with
    | some value =>
      simp only [leftOf, hvalue] at hleft
      obtain ⟨a, -, ha⟩ := List.mem_map.mp hleft
      cases ha
    | none =>
      simp only [leftOf, hvalue] at hleft
      split at hleft
      · unfold tokenOf at hleft
        split at hleft
        · next hreplaced =>
          cases List.mem_singleton.mp hleft
          exact hreplaced
        · obtain ⟨a, -, ha⟩ := List.mem_map.mp hleft
          cases ha
      · cases List.mem_singleton.mp hleft
        exact ⟨hne, hfree⟩

/-- **Where the brackets stay apart, the results are the choices of one text for each piece.** -/
theorem evaluateExpressions_of_clear {expr : List Char} (h : Clear (left nums anchors expr)) :
    evaluateExpressions nums expr anchors =
      .ok (choices ((pieces varFormat 0 expr).map (pieceTexts nums anchors))) := by
  have hfree : TokensBracketFree (left nums anchors expr) := fun content hmem =>
    (of_mem_left nums anchors hmem).2
  have hranges := @evaluateRanges_render _ h hfree [] fun t _ => Inert.nil t
  rw [List.nil_append] at hranges
  rw [evaluateExpressions, evaluateVariables_eq, hranges]
  refine congrArg Except.ok ?_
  have hid : (choices ((left nums anchors expr).map expanded)).map ([] ++ ·) =
      choices ((left nums anchors expr).map expanded) := List.map_id _
  rw [hid, map_evaluateMath nums h hfree fun content hmem => (of_mem_left nums anchors hmem).1,
    left, List.map_flatMap, choices_flatMap]
  rfl

end Arithmetic

end Expressions

end ProtocolGateway
