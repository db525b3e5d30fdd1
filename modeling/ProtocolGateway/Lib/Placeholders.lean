import Mathlib.Data.List.Basic
import Mathlib.Data.List.TakeWhile

/-!
# Texts with placeholders

A text has a placeholder where an opening letter, some letters of a class and a closing letter
follow one another. `pieces` scans a text for them from left to right, as a search that goes on
behind what it has found.

* `render_pieces` — the pieces of a text make up the text.
* `pieces_cons`, `pieces_placeholder` — the pieces of a text by its first piece.
* `choices` — the texts that result from one choice for each piece, the first piece varying most
  slowly.
-/

universe u

namespace Placeholders

variable {α : Type u}

/-- A letter, or a placeholder with its content. -/
inductive Piece (α : Type u)
  | letter (a : α)
  | placeholder (content : List α)
  deriving DecidableEq, Repr

/-- The letters that open and close a placeholder, and those that may stand in it. -/
structure Format (α : Type u) where
  opening : α
  closing : α
  inner : α → Bool
  closing_not_inner : inner closing = false

variable [DecidableEq α] (fmt : Format α)

namespace Format

/-- The text of a placeholder. -/
def bracketed (content : List α) : List α := fmt.opening :: (content ++ [fmt.closing])

/-- The content of the placeholder that has been opened before the text. -/
def contentAt (s : List α) : Option (List α) :=
  if s.takeWhile fmt.inner ≠ [] ∧ (s.dropWhile fmt.inner).head? = some fmt.closing then
    some (s.takeWhile fmt.inner)
  else none

/-- The text of a piece. -/
def render : Piece α → List α
  | .letter a => [a]
  | .placeholder content => fmt.bracketed content

end Format

/-- The pieces of a text, where `skip` letters belong to the last placeholder. -/
def pieces : Nat → List α → List (Piece α)
  | _, [] => []
  | skip + 1, _ :: s => pieces skip s
  | 0, a :: s =>
    if a = fmt.opening then
      match fmt.contentAt s with
      | some content => .placeholder content :: pieces (content.length + 1) s
      | none => .letter a :: pieces 0 s
    else .letter a :: pieces 0 s

/-- Replace the placeholders. -/
def replace (f : List α → List α) (s : List α) : List α :=
  (pieces fmt 0 s).flatMap fun
    | .letter a => [a]
    | .placeholder content => f content

variable {fmt}

theorem pieces_skip (l s : List α) : pieces fmt l.length (l ++ s) = pieces fmt 0 s := by
  induction l with
  | nil => rfl
  | cons a l ih => exact ih

/-- What a placeholder contains, and what comes after it. -/
theorem contentAt_eq_some_iff {s content : List α} :
    fmt.contentAt s = some content ↔
      content ≠ [] ∧ (∀ a ∈ content, fmt.inner a = true) ∧
        ∃ rest, s = content ++ fmt.closing :: rest := by
  unfold Format.contentAt
  constructor
  · intro h
    split at h
    · next hfound =>
      cases h
      refine ⟨hfound.1, fun a ha => List.mem_takeWhile_imp ha, ?_⟩
      obtain ⟨rest, hrest⟩ := List.head?_eq_some_iff.mp hfound.2
      exact ⟨rest, by rw [← hrest, List.takeWhile_append_dropWhile]⟩
    · cases h
  · rintro ⟨hne, hinner, rest, rfl⟩
    have hclosing : ¬fmt.inner fmt.closing = true := by
      rw [fmt.closing_not_inner]
      exact Bool.false_ne_true
    have htake : (content ++ fmt.closing :: rest).takeWhile fmt.inner = content := by
      rw [List.takeWhile_append_of_pos hinner, List.takeWhile_cons_of_neg hclosing, List.append_nil]
    have hdrop : (content ++ fmt.closing :: rest).dropWhile fmt.inner = fmt.closing :: rest := by
      rw [List.dropWhile_append_of_pos hinner, List.dropWhile_cons_of_neg hclosing]
    rw [htake, hdrop, if_pos ⟨hne, rfl⟩]

/-- A letter that opens no placeholder. -/
theorem pieces_cons {a : α} {s : List α} (h : a = fmt.opening → fmt.contentAt s = none) :
    pieces fmt 0 (a :: s) = .letter a :: pieces fmt 0 s := by
  rw [pieces]
  split
  · next ha => rw [h ha]
  · rfl

/-- A placeholder. -/
theorem pieces_placeholder {content : List α} (hne : content ≠ [])
    (hinner : ∀ a ∈ content, fmt.inner a = true) (s : List α) :
    pieces fmt 0 (fmt.bracketed content ++ s) = .placeholder content :: pieces fmt 0 s := by
  have hcontent : fmt.contentAt (content ++ [fmt.closing] ++ s) = some content :=
    contentAt_eq_some_iff.mpr ⟨hne, hinner, s, by simp⟩
  rw [Format.bracketed, List.cons_append, pieces, if_pos rfl, hcontent]
  have hlength : content.length + 1 = (content ++ [fmt.closing]).length := by simp
  exact congrArg (Piece.placeholder content :: ·) (hlength ▸ pieces_skip _ s)

/-- Letters that open no placeholder. -/
theorem pieces_append {l s : List α} (h : fmt.opening ∉ l) :
    pieces fmt 0 (l ++ s) = l.map .letter ++ pieces fmt 0 s := by
  induction l with
  | nil => rfl
  | cons a l ih =>
    rw [List.mem_cons, not_or] at h
    rw [List.cons_append, pieces_cons fun ha => absurd ha.symm h.1, ih h.2]
    rfl

/-- The first piece of a text. -/
theorem pieces_cases (a : α) (s : List α) :
    (pieces fmt 0 (a :: s) = .letter a :: pieces fmt 0 s) ∨
      ∃ content rest, content ≠ [] ∧ (∀ b ∈ content, fmt.inner b = true) ∧
        a :: s = fmt.bracketed content ++ rest ∧
        pieces fmt 0 (a :: s) = .placeholder content :: pieces fmt 0 rest := by
  by_cases h : a = fmt.opening → fmt.contentAt s = none
  · exact Or.inl (pieces_cons h)
  · rw [Classical.not_imp, ← ne_eq, Option.ne_none_iff_exists'] at h
    obtain ⟨rfl, content, hcontent⟩ := h
    obtain ⟨hne, hinner, rest, rfl⟩ := contentAt_eq_some_iff.mp hcontent
    have heq : fmt.opening :: (content ++ fmt.closing :: rest) = fmt.bracketed content ++ rest := by
      simp [Format.bracketed]
    refine Or.inr ⟨content, rest, hne, hinner, heq, ?_⟩
    rw [heq, pieces_placeholder hne hinner]

/-- **The pieces of a text make up the text.** -/
theorem render_pieces (s : List α) : (pieces fmt 0 s).flatMap fmt.render = s := by
  induction hlength : s.length using Nat.strong_induction_on generalizing s with
  | _ n ih =>
    cases s with
    | nil => rfl
    | cons a s =>
      rcases @pieces_cases _ _ fmt a s with h | ⟨content, rest, hne, hinner, heq, h⟩
      · rw [h, List.flatMap_cons, ih s.length (by simp [← hlength]) s rfl]
        rfl
      · have hlt : rest.length < n := by
          rw [← hlength, heq, Format.bracketed]
          simp only [List.cons_append, List.length_cons, List.length_append]
          omega
        rw [h, List.flatMap_cons, ih _ hlt rest rfl, heq]
        rfl

/-- Every placeholder has letters of the class, and at least one. -/
theorem of_mem_pieces {s content : List α} (h : .placeholder content ∈ pieces fmt 0 s) :
    content ≠ [] ∧ ∀ a ∈ content, fmt.inner a = true := by
  induction hlength : s.length using Nat.strong_induction_on generalizing s with
  | _ n ih =>
    cases s with
    | nil => cases h
    | cons a s =>
      rcases @pieces_cases _ _ fmt a s with hcase | ⟨content', rest, hne, hinner, heq, hcase⟩
      · rw [hcase] at h
        rcases List.mem_cons.mp h with hfirst | h
        · cases hfirst
        · exact ih s.length (by simp [← hlength]) h rfl
      · rw [hcase] at h
        rcases List.mem_cons.mp h with hfirst | h
        · cases hfirst
          exact ⟨hne, hinner⟩
        · refine ih _ ?_ h rfl
          rw [← hlength, heq, Format.bracketed]
          simp only [List.cons_append, List.length_cons, List.length_append]
          omega

section Replace

variable {f : List α → List α}

theorem replace_cons {a : α} {s : List α} (h : a = fmt.opening → fmt.contentAt s = none) :
    replace fmt f (a :: s) = a :: replace fmt f s := by
  rw [replace, pieces_cons h]
  rfl

theorem replace_append {l s : List α} (h : fmt.opening ∉ l) :
    replace fmt f (l ++ s) = l ++ replace fmt f s := by
  induction l with
  | nil => rfl
  | cons a l ih =>
    rw [List.mem_cons, not_or] at h
    rw [List.cons_append, replace_cons fun ha => absurd ha.symm h.1, ih h.2]
    rfl

theorem replace_placeholder {content : List α} (hne : content ≠ [])
    (hinner : ∀ a ∈ content, fmt.inner a = true) (s : List α) :
    replace fmt f (fmt.bracketed content ++ s) = f content ++ replace fmt f s := by
  rw [replace, pieces_placeholder hne hinner]
  rfl

end Replace

/-! ## Choices -/

/-- One text for each choice, the first one varying most slowly. -/
def choices : List (List (List α)) → List (List α)
  | [] => [[]]
  | texts :: rest => texts.flatMap fun text => (choices rest).map (text ++ ·)

omit [DecidableEq α] in
theorem choices_singleton_cons (text : List α) (rest : List (List (List α))) :
    choices ([text] :: rest) = (choices rest).map (text ++ ·) := by
  rw [choices, List.flatMap_cons, List.flatMap_nil, List.append_nil]

omit [DecidableEq α] in
/-- Letters are chosen as they are. -/
theorem choices_letters (l : List α) : choices (l.map fun a => [[a]]) = [l] := by
  induction l with
  | nil => rfl
  | cons a l ih =>
    rw [List.map_cons, choices_singleton_cons, ih]
    rfl

omit [DecidableEq α] in
/-- Choices from two lists are choices from both. -/
theorem choices_append (xs ys : List (List (List α))) :
    choices (xs ++ ys) = (choices xs).flatMap fun text => (choices ys).map (text ++ ·) := by
  induction xs with
  | nil =>
    rw [List.nil_append, choices, List.flatMap_cons, List.flatMap_nil, List.append_nil]
    exact (List.map_id _).symm
  | cons texts xs ih =>
    rw [List.cons_append, choices, choices, ih, List.flatMap_assoc]
    refine List.flatMap_congr fun text _ => ?_
    rw [List.map_flatMap, List.flatMap_map]
    refine List.flatMap_congr fun t _ => ?_
    rw [List.map_map]
    exact List.map_congr_left fun _ _ => (List.append_assoc _ _ _).symm

omit [DecidableEq α] in
/-- Choices from some lists each are choices of choices. -/
theorem choices_flatMap {β : Type*} (f : β → List (List (List α))) (bs : List β) :
    choices (bs.flatMap f) = choices (bs.map fun b => choices (f b)) := by
  induction bs with
  | nil => rfl
  | cons b bs ih => rw [List.flatMap_cons, choices_append, ih, List.map_cons, choices]

end Placeholders
