import Mathlib.Data.List.Basic
import Mathlib.Data.List.Infix

/-!
# Texts with a hole, scanned and rewritten

A text that holds a value at some places is a list of `Piece`s: letters, and holes where the value
goes. The module says when rewriting such a text does not depend on the value.

* `sub` — the left-to-right substitution of a scanner: at each position a `Finder` either lets the
  letter stand or replaces a stretch of the text.
* `Keeps` — no stretch that is replaced begins or ends inside a filled hole; then the rewriting
  is one of the text with holes (`sub_fill`).
* `marked` — the scan for a list of words, longest first, each hit turned into a marker. No word
  is left in what it keeps (`not_infix_marked`), and where the words that are hit do not run
  across the filled holes, what is marked does not depend on the value (`marked_fill`).
-/

namespace Holes

variable {α : Type}

/-- One place of a text: a letter, or the hole the value goes in. -/
inductive Piece (α : Type) where
  /-- a letter of the text -/
  | lit (a : α)
  /-- the place of the value -/
  | hole
  deriving DecidableEq, Repr

/-- A text with holes. -/
abbrev Template (α : Type) := List (Piece α)

/-- The text with `s` in every hole. -/
def fill : Template α → List α → List α
  | [], _ => []
  | .lit a :: t, s => a :: fill t s
  | .hole :: t, s => s ++ fill t s

@[simp] theorem fill_nil (s : List α) : fill [] s = [] := rfl

@[simp] theorem fill_lit (a : α) (t : Template α) (s : List α) :
    fill (.lit a :: t) s = a :: fill t s := rfl

@[simp] theorem fill_hole (t : Template α) (s : List α) :
    fill (.hole :: t) s = s ++ fill t s := rfl

@[simp] theorem fill_append (t u : Template α) (s : List α) :
    fill (t ++ u) s = fill t s ++ fill u s := by
  induction t with
  | nil => rfl
  | cons p t ih => cases p <;> simp [ih]

/-- A text without holes does not see the value. -/
@[simp] theorem fill_map_lit (l s : List α) : fill (l.map .lit) s = l := by
  induction l with
  | nil => rfl
  | cons a l ih => simp [ih]

/-- The letters before the next hole. -/
def litRun : Template α → List α
  | .lit a :: t => a :: litRun t
  | _ => []

theorem litRun_prefix (t : Template α) (s : List α) : litRun t <+: fill t s := by
  induction t with
  | nil => exact List.nil_prefix
  | cons p t ih =>
    cases p with
    | lit a => exact List.cons_prefix_cons.mpr ⟨rfl, ih⟩
    | hole => exact List.nil_prefix

/-! ## Lines -/

/-- A piece that ends a line: a letter that does. -/
def Piece.ends (p : α → Bool) : Piece α → Bool
  | .lit a => p a
  | .hole => false

theorem splitOnP_append {p : α → Bool} {s : List α} (hs : ∀ a ∈ s, p a = false) (l : List α) :
    (s ++ l).splitOnP p = (l.splitOnP p).modifyHead (s ++ ·) := by
  induction s with
  | nil =>
    have hid : (fun l : List α => [] ++ l) = id := rfl
    rw [List.nil_append, hid, List.modifyHead_id]
    rfl
  | cons a s ih =>
    rw [List.cons_append, List.splitOnP_cons_eq_if_modifyHead, hs a (by simp), ih]
    · exact List.modifyHead_modifyHead
    · intro b hb
      exact hs b (by simp [hb])

/-- The lines of a filled text are the filled lines of the text, when the value has no line
break. -/
theorem splitOnP_fill {p : α → Bool} {s : List α} (hs : ∀ a ∈ s, p a = false) (t : Template α) :
    (fill t s).splitOnP p = (t.splitOnP (Piece.ends p)).map (fill · s) := by
  induction t with
  | nil => simp
  | cons q t ih =>
    obtain ⟨l, ls, hl⟩ : ∃ l ls, t.splitOnP (Piece.ends p) = l :: ls :=
      List.exists_cons_of_ne_nil (List.splitOnP_ne_nil _ _)
    rw [hl] at ih
    cases q with
    | lit a =>
      rw [fill_lit, List.splitOnP_cons_eq_if_modifyHead, List.splitOnP_cons_eq_if_modifyHead, ih, hl]
      rcases ha : p a <;> simp [Piece.ends, ha]
    | hole =>
      rw [fill_hole, splitOnP_append hs, List.splitOnP_cons_eq_if_modifyHead, ih, hl]
      simp [Piece.ends]

theorem fill_intercalate (sep : α) (ts : List (Template α)) (s : List α) :
    fill ([.lit sep].intercalate ts) s = [sep].intercalate (ts.map (fill · s)) := by
  induction ts with
  | nil => rfl
  | cons t ts ih =>
    cases ts with
    | nil => simp
    | cons t' ts =>
      rw [List.intercalate_cons_cons, List.map_cons, List.map_cons, List.intercalate_cons_cons,
        fill_append, fill_append, ih]
      rfl

theorem infix_append_cons {sep : α} {w l m : List α} (hw : sep ∉ w) (h : w <:+: l ++ sep :: m) :
    w <:+: l ∨ w <:+: m := by
  obtain ⟨before, after, h⟩ := h
  rw [List.append_assoc, List.append_eq_append_iff] at h
  rcases h with ⟨l', rfl, h⟩ | ⟨l', rfl, h⟩
  · -- the word begins in the first text, and the separator is not in it
    rcases List.append_eq_append_iff.mp h with ⟨w', rfl, -⟩ | ⟨w', rfl, hrest⟩
    · exact .inl ⟨before, w', by simp⟩
    · cases w' with
      | nil => exact .inl ⟨before, [], by simp⟩
      | cons b w' =>
        obtain ⟨rfl, -⟩ := List.cons.inj hrest
        simp at hw
  · -- the word begins after the first text
    cases l' with
    | nil =>
      cases w with
      | nil => exact .inl (List.nil_infix)
      | cons b w =>
        obtain ⟨rfl, -⟩ := List.cons.inj h
        simp at hw
    | cons b l' =>
      obtain ⟨-, rfl⟩ := List.cons.inj h
      exact .inr ⟨l', after, by simp⟩

/-- A word without the separator that stands in joined texts stands in one of them. -/
theorem exists_infix_of_intercalate {sep : α} {w : List α} (hw : sep ∉ w) (hne : w ≠ [])
    {ls : List (List α)} (h : w <:+: [sep].intercalate ls) : ∃ l ∈ ls, w <:+: l := by
  induction ls with
  | nil => exact absurd (List.infix_nil.mp h) hne
  | cons l ls ih =>
    cases ls with
    | nil => exact ⟨l, by simp, by simpa using h⟩
    | cons l' ls =>
      rw [List.intercalate_cons_cons, List.append_assoc] at h
      rcases infix_append_cons hw h with h | h
      · exact ⟨l, by simp, h⟩
      · obtain ⟨m, hm, hin⟩ := ih h
        exact ⟨m, List.mem_cons_of_mem _ hm, hin⟩

/-! ## Substitution -/

/-- What a scanner finds at a position, from the letter before it and the text after it: the
replacement, and how many letters it stands for. -/
abbrev Finder (α : Type) := Option α → List α → Option (List α × Nat)

/-- Replace what `p` finds, from left to right: `skip` letters still belong to the last hit. A hit
on no letters at all is none. -/
def sub (p : Finder α) : Option α → Nat → List α → List α
  | _, _, [] => []
  | _, skip + 1, a :: l => sub p (some a) skip l
  | prev, 0, a :: l =>
    match p prev (a :: l) with
    | some (r, n + 1) => r ++ sub p (some a) n l
    | _ => a :: sub p (some a) 0 l

/-- The letter before what comes after `l`. -/
def lastOr (prev : Option α) : List α → Option α
  | [] => prev
  | a :: l => lastOr (some a) l

/-- Nothing is found at any position of `l`, with `rest` after it. -/
def Passes (p : Finder α) : Option α → List α → List α → Prop
  | _, [], _ => True
  | prev, a :: l, rest => p prev (a :: l ++ rest) = none ∧ Passes p (some a) l rest

instance Passes.decidable (p : Finder α) [DecidableEq α] :
    ∀ (prev : Option α) (l rest : List α), Decidable (Passes p prev l rest)
  | _, [], _ => isTrue trivial
  | prev, a :: l, rest =>
    have := Passes.decidable p (some a) l rest
    inferInstanceAs (Decidable (p prev (a :: l ++ rest) = none ∧ Passes p (some a) l rest))

/-- **The scan cuts no filled hole.** With `s` in the holes of `t`, every hit of `p` begins and
ends on pieces of `t`, and rewriting turns `t` into `u`. -/
inductive Keeps (p : Finder α) (s : List α) : Option α → Template α → Template α → Prop
  /-- the end of the text -/
  | done {prev} : Keeps p s prev [] []
  /-- a letter where nothing is found -/
  | lit {prev a t u} : p prev (a :: fill t s) = none → Keeps p s (some a) t u →
      Keeps p s prev (.lit a :: t) (.lit a :: u)
  /-- a value in which nothing is found -/
  | hole {prev t u} : Passes p prev s (fill t s) → Keeps p s (lastOr prev s) t u →
      Keeps p s prev (.hole :: t) (.hole :: u)
  /-- a hit on whole pieces, replaced by whole pieces -/
  | hit {prev} (t₁ r : Template α) {t₂ u} : fill t₁ s ≠ [] →
      p prev (fill t₁ s ++ fill t₂ s) = some (fill r s, (fill t₁ s).length) →
      Keeps p s (lastOr prev (fill t₁ s)) t₂ u → Keeps p s prev (t₁ ++ t₂) (r ++ u)

theorem sub_skip (p : Finder α) (l rest : List α) (prev : Option α) :
    sub p prev l.length (l ++ rest) = sub p (lastOr prev l) 0 rest := by
  induction l generalizing prev with
  | nil => rfl
  | cons a l ih => exact ih (some a)

theorem sub_passes {p : Finder α} {l rest : List α} {prev : Option α} (h : Passes p prev l rest) :
    sub p prev 0 (l ++ rest) = l ++ sub p (lastOr prev l) 0 rest := by
  induction l generalizing prev with
  | nil => rfl
  | cons a l ih =>
    obtain ⟨hnone, hrest⟩ := h
    have hstep : sub p prev 0 (a :: (l ++ rest)) = a :: sub p (some a) 0 (l ++ rest) := by
      rw [sub, show p prev (a :: (l ++ rest)) = none from hnone]
    rw [List.cons_append, hstep, ih hrest]
    rfl

theorem sub_hit {p : Finder α} {l rest r : List α} {prev : Option α} (hne : l ≠ [])
    (h : p prev (l ++ rest) = some (r, l.length)) :
    sub p prev 0 (l ++ rest) = r ++ sub p (lastOr prev l) 0 rest := by
  cases l with
  | nil => exact absurd rfl hne
  | cons a l =>
    have hstep : sub p prev 0 (a :: (l ++ rest)) = r ++ sub p (some a) l.length (l ++ rest) := by
      rw [sub, show p prev (a :: (l ++ rest)) = some (r, l.length + 1) from h]
    rw [List.cons_append, hstep, sub_skip]
    rfl

/-- **A scan that cuts no filled hole is a rewriting of the text with holes.** -/
theorem sub_fill {p : Finder α} {s : List α} {prev : Option α} {t u : Template α}
    (h : Keeps p s prev t u) : sub p prev 0 (fill t s) = fill u s := by
  induction h with
  | done => rfl
  | @lit prev a t u hnone _ ih =>
    have hpass : Passes p prev [a] (fill t s) := ⟨hnone, trivial⟩
    exact (sub_passes hpass).trans (congrArg (a :: ·) ih)
  | hole hpass _ ih => rw [fill_hole, sub_passes hpass, fill_hole]; exact congrArg _ ih
  | hit t₁ r hne hfound _ ih =>
    rw [fill_append, sub_hit hne hfound, fill_append]
    exact congrArg _ ih

theorem passes_append {p : Finder α} {l m rest : List α} {prev : Option α} :
    Passes p prev (l ++ m) rest ↔ Passes p prev l (m ++ rest) ∧ Passes p (lastOr prev l) m rest := by
  induction l generalizing prev with
  | nil => simp [Passes, lastOr]
  | cons a l ih => simp [Passes, lastOr, ih, and_assoc]

/-- A filled text in which nothing is found at all is kept. -/
theorem keeps_of_passes {p : Finder α} {s : List α} {t : Template α} {prev : Option α}
    (h : Passes p prev (fill t s) []) : Keeps p s prev t t := by
  induction t generalizing prev with
  | nil => exact .done
  | cons q t ih =>
    cases q with
    | lit a =>
      obtain ⟨hnone, hrest⟩ := h
      refine .lit ?_ (ih hrest)
      simpa using hnone
    | hole =>
      obtain ⟨hs, hrest⟩ := passes_append.mp h
      refine .hole ?_ (ih hrest)
      simpa using hs

/-! ## Words -/

theorem prefix_eq {v w text : List α} (hv : v <+: text) (hw : w <+: text)
    (h : v.length = w.length) : v = w :=
  (List.prefix_of_prefix_length_le hv hw h.le).eq_of_length h

variable [DecidableEq α]

/-- The first of the words that the text begins with. -/
def firstWord (words : List (List α)) (text : List α) : Option (List α) :=
  words.find? (·.isPrefixOf text)

/-- The words are tried longest first. -/
def LongestFirst (words : List (List α)) : Prop :=
  words.Pairwise fun v w => w.length ≤ v.length

/-- Tried longest first, the word found is the longest one the text begins with. -/
theorem firstWord_eq_some_iff {words : List (List α)} (hlong : LongestFirst words)
    {text w : List α} :
    firstWord words text = some w ↔
      w ∈ words ∧ w <+: text ∧ ∀ v ∈ words, v <+: text → v.length ≤ w.length := by
  induction words with
  | nil => simp [firstWord]
  | cons v words ih =>
    obtain ⟨hv, hlong⟩ := List.pairwise_cons.mp hlong
    by_cases hpre : v <+: text
    · have hfound : firstWord (v :: words) text = some v := by
        simp [firstWord, List.isPrefixOf_iff_prefix.mpr hpre]
      rw [hfound]
      constructor
      · rintro ⟨⟩
        refine ⟨by simp, hpre, ?_⟩
        intro x hx _
        rcases List.mem_cons.mp hx with rfl | hx
        · exact le_rfl
        · exact hv x hx
      · rintro ⟨hw, hwpre, hmax⟩
        -- the word is as long as the first one, and both begin the text
        have hle : w.length ≤ v.length := by
          rcases List.mem_cons.mp hw with rfl | hw
          · exact le_rfl
          · exact hv w hw
        exact congrArg some (prefix_eq hpre hwpre (le_antisymm (hmax v (by simp) hpre) hle))
    · have hskip : firstWord (v :: words) text = firstWord words text := by
        simp [firstWord, hpre]
      rw [hskip, ih hlong]
      constructor
      · rintro ⟨hw, hwpre, hmax⟩
        refine ⟨List.mem_cons_of_mem _ hw, hwpre, ?_⟩
        intro x hx hxpre
        rcases List.mem_cons.mp hx with rfl | hx
        · exact absurd hxpre hpre
        · exact hmax x hx hxpre
      · rintro ⟨hw, hwpre, hmax⟩
        refine ⟨?_, hwpre, fun x hx => hmax x (List.mem_cons_of_mem _ hx)⟩
        rcases List.mem_cons.mp hw with rfl | hw
        · exact absurd hwpre hpre
        · exact hw

theorem firstWord_eq_none_iff {words : List (List α)} {text : List α} :
    firstWord words text = none ↔ ∀ w ∈ words, ¬w <+: text := by
  simp [firstWord, List.find?_eq_none]

/-- The finder of a list of words: each hit is replaced by the marker. -/
def wordFinder (words : List (List α)) (marker : List α) : Finder α := fun _ text =>
  (firstWord words text).map fun w => (marker, w.length)

/-- The text with a hole for every hit on one of the words. -/
def marked (words : List (List α)) : Nat → List α → Template α
  | _, [] => []
  | skip + 1, _ :: l => marked words skip l
  | 0, a :: l =>
    match firstWord words (a :: l) with
    | some (_ :: w) => .hole :: marked words w.length l
    | _ => .lit a :: marked words 0 l

/-- Putting the marker in for the words is filling the holes with it. -/
theorem sub_wordFinder (words : List (List α)) (marker : List α) (prev : Option α) (skip : Nat)
    (l : List α) :
    sub (wordFinder words marker) prev skip l = fill (marked words skip l) marker := by
  induction l generalizing prev skip with
  | nil => cases skip <;> rfl
  | cons a l ih =>
    cases skip with
    | succ skip => exact ih (some a) skip
    | zero =>
      rw [sub, marked, wordFinder]
      rcases firstWord words (a :: l) with _ | _ | ⟨b, w⟩
      · exact congrArg (a :: ·) (ih _ _)
      · exact congrArg (a :: ·) (ih _ _)
      · exact congrArg (marker ++ ·) (ih _ _)

theorem marked_skip (words : List (List α)) (l rest : List α) :
    marked words l.length (l ++ rest) = marked words 0 rest := by
  induction l with
  | nil => rfl
  | cons a l ih => exact ih

/-! ### What is kept holds no word -/

theorem prefix_of_prefix_marked {words : List (List α)} {w l : List α}
    (h : w.map .lit <+: marked words 0 l) : w <+: l := by
  induction l generalizing w with
  | nil =>
    have hnil : w = [] := by simpa [marked] using h
    rw [hnil]
  | cons a l ih =>
    cases w with
    | nil => exact List.nil_prefix
    | cons b w =>
      rw [marked] at h
      split at h
      · -- a hit puts a hole first, and no letter is a hole
        rw [List.map_cons, List.cons_prefix_cons] at h
        cases h.1
      · rw [List.map_cons, List.cons_prefix_cons, Piece.lit.injEq] at h
        exact List.cons_prefix_cons.mpr ⟨h.1, ih h.2⟩

/-- **No word is left.** Outside the markers no word stands in the marked text. -/
theorem not_infix_marked {words : List (List α)} (hne : [] ∉ words) {w : List α} (hw : w ∈ words)
    (skip : Nat) (l : List α) : ¬w.map .lit <:+: marked words skip l := by
  obtain ⟨b, w, rfl⟩ : ∃ b w', w = b :: w' :=
    List.exists_cons_of_ne_nil fun h => hne (h ▸ hw)
  induction l generalizing skip with
  | nil => cases skip <;> simp [marked]
  | cons a l ih =>
    cases skip with
    | succ skip => exact ih skip
    | zero =>
      intro h
      rw [marked] at h
      split at h
      · rcases List.infix_cons_iff.mp h with hpre | hinf
        · rw [List.map_cons, List.cons_prefix_cons] at hpre
          cases hpre.1
        · exact ih _ hinf
      · rename_i hnone
        rcases List.infix_cons_iff.mp h with hpre | hinf
        · -- the word begins at this letter, where the scan found none
          rw [List.map_cons, List.cons_prefix_cons, Piece.lit.injEq] at hpre
          have hword : b :: w <+: a :: l :=
            List.cons_prefix_cons.mpr ⟨hpre.1, prefix_of_prefix_marked hpre.2⟩
          rcases hfound : firstWord words (a :: l) with _ | _ | ⟨c, v⟩
          · exact firstWord_eq_none_iff.mp hfound _ hw hword
          · exact hne (List.mem_of_find?_eq_some hfound)
          · exact hnone c v hfound
        · exact ih _ hinf

/-! ### What is marked does not depend on the value -/

/-- The text with a marker for every hole and for every hit on `words` between the holes. -/
def hide (words : List (List α)) : Nat → Template α → Template α
  | _, [] => []
  | _, .hole :: t => .hole :: hide words 0 t
  | skip + 1, .lit _ :: t => hide words skip t
  | 0, .lit a :: t =>
    match firstWord words (litRun (.lit a :: t)) with
    | some (_ :: w) => .hole :: hide words w.length t
    | _ => .lit a :: hide words 0 t

/-- **The words do not run across the filled holes.** Where the scan for `words` and `s` stands
before a letter of the text, every word that begins there is one of `words` and ends before the
next hole; where it stands before a filled hole, no word that begins there is longer than `s`. -/
def Aligned (words : List (List α)) (s : List α) : Nat → Template α → Prop
  | _, [] => True
  | _, .hole :: t =>
    (∀ w ∈ words, w <+: s ++ fill t s → w.length ≤ s.length) ∧ Aligned words s 0 t
  | skip + 1, .lit _ :: t => Aligned words s skip t
  | 0, .lit a :: t =>
    (∀ w, w = s ∨ w ∈ words → w <+: a :: fill t s → w ∈ words ∧ w <+: litRun (.lit a :: t)) ∧
      Aligned words s (((firstWord words (litRun (.lit a :: t))).getD []).length - 1) t

instance Aligned.decidable (words : List (List α)) (s : List α) :
    ∀ (skip : Nat) (t : Template α), Decidable (Aligned words s skip t)
  | 0, [] => isTrue trivial
  | _ + 1, [] => isTrue trivial
  | 0, .hole :: t =>
    have := Aligned.decidable words s 0 t
    inferInstanceAs (Decidable ((∀ w ∈ words, w <+: s ++ fill t s → w.length ≤ s.length) ∧
      Aligned words s 0 t))
  | _ + 1, .hole :: t =>
    have := Aligned.decidable words s 0 t
    inferInstanceAs (Decidable ((∀ w ∈ words, w <+: s ++ fill t s → w.length ≤ s.length) ∧
      Aligned words s 0 t))
  | skip + 1, .lit _ :: t => Aligned.decidable words s skip t
  | 0, .lit a :: t =>
    have := Aligned.decidable words s
      (((firstWord words (litRun (.lit a :: t))).getD []).length - 1) t
    have : Decidable (∀ w, w = s ∨ w ∈ words → w <+: a :: fill t s →
        w ∈ words ∧ w <+: litRun (.lit a :: t)) :=
      decidable_of_iff (∀ w ∈ s :: words, w <+: a :: fill t s →
        w ∈ words ∧ w <+: litRun (.lit a :: t)) (by simp only [List.mem_cons])
    inferInstanceAs (Decidable (_ ∧ _))

/-- **What is marked does not depend on the value.** When no word runs across the filled holes, the
scan for the words and the value marks the holes and what it would mark between them. -/
theorem marked_fill {words all : List (List α)} {s : List α} (hs : s ≠ []) (hne : [] ∉ words)
    (hall : ∀ w, w ∈ all ↔ w = s ∨ w ∈ words) (hwords : LongestFirst words)
    (hlong : LongestFirst all) {skip : Nat} {t : Template α} (hskip : skip ≤ (litRun t).length)
    (h : Aligned words s skip t) : marked all skip (fill t s) = hide words skip t := by
  induction t generalizing skip with
  | nil => cases skip <;> rfl
  | cons p t ih =>
    cases p with
    | hole =>
      obtain rfl : skip = 0 := Nat.le_zero.mp hskip
      obtain ⟨hmax, hrest⟩ := h
      -- at the value the longest word is the value itself
      have hfound : firstWord all (s ++ fill t s) = some s := by
        rw [firstWord_eq_some_iff hlong]
        refine ⟨(hall s).mpr (.inl rfl), List.prefix_append _ _, ?_⟩
        intro v hv hpre
        rcases (hall v).mp hv with rfl | hv
        · exact le_rfl
        · exact hmax v hv hpre
      obtain ⟨b, s', rfl⟩ := List.exists_cons_of_ne_nil hs
      rw [fill_hole, hide, List.cons_append, marked, ← List.cons_append, hfound]
      exact congrArg (Piece.hole :: ·)
        ((marked_skip all s' _).trans (ih (Nat.zero_le _) hrest))
    | lit a =>
      cases skip with
      | succ skip => exact ih (Nat.le_of_succ_le_succ hskip) h
      | zero =>
        obtain ⟨hin, hrest⟩ := h
        have hrun : litRun (.lit a :: t) <+: a :: fill t s := litRun_prefix (.lit a :: t) s
        -- both scans find the same word here
        have hsame : firstWord all (a :: fill t s) = firstWord words (litRun (.lit a :: t)) := by
          ext w
          rw [firstWord_eq_some_iff hlong, firstWord_eq_some_iff hwords]
          constructor
          · rintro ⟨hw, hpre, hmax⟩
            obtain ⟨hw', hpre'⟩ := hin w ((hall w).mp hw) hpre
            refine ⟨hw', hpre', ?_⟩
            intro v hv hvpre
            exact hmax v ((hall v).mpr (.inr hv)) (hvpre.trans hrun)
          · rintro ⟨hw, hpre, hmax⟩
            refine ⟨(hall w).mpr (.inr hw), hpre.trans hrun, ?_⟩
            intro v hv hvpre
            obtain ⟨hv', hvpre'⟩ := hin v ((hall v).mp hv) hvpre
            exact hmax v hv' hvpre'
        rw [fill_lit, marked, hide, hsame]
        rcases hfound : firstWord words (litRun (.lit a :: t)) with _ | w
        · rw [hfound] at hrest
          exact congrArg (Piece.lit a :: ·) (ih (Nat.zero_le _) hrest)
        · rw [hfound] at hrest
          obtain ⟨hw, hpre, -⟩ := (firstWord_eq_some_iff hwords).mp hfound
          obtain ⟨b, w', rfl⟩ : ∃ b w', w = b :: w' :=
            List.exists_cons_of_ne_nil fun h => hne (h ▸ hw)
          have hle : w'.length ≤ (litRun t).length := by
            have := hpre.length_le
            simpa [litRun] using this
          exact congrArg (Piece.hole :: ·) (ih hle hrest)

end Holes
