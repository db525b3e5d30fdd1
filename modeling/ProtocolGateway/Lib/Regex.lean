import ProtocolGateway.Lib.Holes

/-!
# Backtracking regular expressions

The expressions a backtracking engine runs, with the meaning the engine gives them: the ends of a
match, in the order in which the engine comes to them. The first one is the match.

* `Regex` — classes, greedy repetitions of a class, sequence, choice, groups, back references and
  word boundaries.
* `Regex.ends` — the ends of a match in the engine's order.
* `Regex.finder` — the scanner of `Holes.sub` for an expression and a replacement text.
-/

/-- A regular expression over letters. -/
inductive Regex (α : Type) where
  /-- one letter of a class -/
  | one (p : α → Bool)
  /-- as many letters of a class as there are, between two counts -/
  | rep (p : α → Bool) (least : Nat) (most : Option Nat)
  /-- one after the other -/
  | seq (r q : Regex α)
  /-- the first, or else the second -/
  | alt (r q : Regex α)
  /-- a numbered group -/
  | group (i : Nat) (r : Regex α)
  /-- the text of a numbered group again -/
  | backref (i : Nat)
  /-- a place with a letter of the class on one side only -/
  | boundary (p : α → Bool)

namespace Regex

variable {α : Type}

/-- Where the engine stands: the letter before, the text after, the groups matched so far. -/
structure At (α : Type) where
  prev : Option α
  rest : List α
  groups : List (Nat × List α)

/-- `n` letters on. -/
def At.advance (st : At α) (n : Nat) : At α :=
  { st with prev := Holes.lastOr st.prev (st.rest.take n), rest := st.rest.drop n }

/-- The text between two places. -/
def At.upTo (st st' : At α) : List α := st.rest.take (st.rest.length - st'.rest.length)

/-- The text of a group, the last one matched under its number. -/
def At.groupText (st : At α) (i : Nat) : List α := (st.groups.lookup i).getD []

/-- The places where a match of the expression can end, in the order the engine tries them. -/
def ends [DecidableEq α] : Regex α → At α → List (At α)
  | one p, st =>
    match st.rest with
    | a :: _ => if p a then [st.advance 1] else []
    | [] => []
  | rep p least most, st =>
    let run := (st.rest.takeWhile p).length
    let upper := most.elim run (min run)
    -- greedy: the longest repetition first
    (List.range' least (upper + 1 - least)).reverse.map st.advance
  | seq r q, st => (r.ends st).flatMap q.ends
  | alt r q, st => r.ends st ++ q.ends st
  | group i r, st => (r.ends st).map fun e => { e with groups := (i, st.upTo e) :: e.groups }
  | backref i, st =>
    if (st.groupText i).isPrefixOf st.rest then [st.advance (st.groupText i).length] else []
  | boundary p, st =>
    if (st.prev.any p) = (st.rest.head?.any p) then [] else [st]

/-- The match of the expression at a place. -/
def first [DecidableEq α] (r : Regex α) (prev : Option α) (text : List α) : Option (At α) :=
  (r.ends ⟨prev, text, []⟩).head?

/-- The first match of the expression in a text, from the left. -/
def search [DecidableEq α] (r : Regex α) (prev : Option α) : List α → Option (At α)
  | [] => r.first prev []
  | a :: text => (r.first prev (a :: text)).or (r.search (some a) text)

/-- A part of a replacement text: letters, or the text of a group. -/
inductive Part (α : Type) where
  /-- letters -/
  | text (l : List α)
  /-- the text of a group -/
  | group (i : Nat)

/-- The replacement for a match. -/
def expand (st : At α) (parts : List (Part α)) : List α :=
  parts.flatMap fun
    | .text l => l
    | .group i => st.groupText i

/-- The scanner that replaces the matches of an expression. -/
def finder [DecidableEq α] (r : Regex α) (parts : List (Part α)) : Holes.Finder α :=
  fun prev text => (r.first prev text).map fun st =>
    (expand st parts, text.length - st.rest.length)

/-- One expression after the other. -/
def all : List (Regex α) → Regex α
  | [] => rep (fun _ => false) 0 none
  | [r] => r
  | r :: rs => seq r (all rs)

/-- One of the expressions, the first that matches. -/
def any : Regex α → List (Regex α) → Regex α
  | r, [] => r
  | r, q :: rs => alt r (any q rs)

/-! ## Matching whole texts -/

/-- `re.match` with an expression between `^` and `$`, which also holds before a last line break. -/
def fullMatch (r : Regex Char) (text : List Char) : Bool :=
  (r.ends ⟨none, text, []⟩).any fun e => e.rest = [] || e.rest = ['\n']

/-- The text is one that the expression can match, whatever stands around it. -/
def Matches [DecidableEq α] (r : Regex α) (s : List α) : Prop :=
  ∀ prev t groups, ∃ e ∈ r.ends ⟨prev, s ++ t, groups⟩, e.rest = t

namespace Matches

variable [DecidableEq α] {r q : Regex α} {s u : List α}

theorem one {p : α → Bool} {a : α} (h : p a = true) : (Regex.one p).Matches [a] := by
  intro prev t groups
  refine ⟨At.advance ⟨prev, [a] ++ t, groups⟩ 1, ?_, rfl⟩
  simp only [ends, List.singleton_append, h, if_true, List.mem_singleton]

/-- A repetition can stop early. -/
theorem rep {p : α → Bool} {least : Nat} (hall : ∀ a ∈ s, p a = true) (hleast : least ≤ s.length) :
    (Regex.rep p least none).Matches s := by
  intro prev t groups
  have hrun : s.length ≤ ((s ++ t).takeWhile p).length := by
    rw [List.takeWhile_append_of_pos hall, List.length_append]
    omega
  refine ⟨At.advance ⟨prev, s ++ t, groups⟩ s.length, ?_, List.drop_left⟩
  simp only [ends, Option.elim, List.mem_map, List.mem_reverse, List.mem_range']
  exact ⟨s.length, ⟨s.length - least, by omega, by omega⟩, rfl⟩

theorem seq (hr : r.Matches s) (hq : q.Matches u) : (Regex.seq r q).Matches (s ++ u) := by
  intro prev t groups
  rw [List.append_assoc]
  obtain ⟨e, he, hrest⟩ := hr prev (u ++ t) groups
  obtain ⟨e', he', hrest'⟩ := hq e.prev t e.groups
  refine ⟨e', List.mem_flatMap.mpr ⟨e, he, ?_⟩, hrest'⟩
  rw [← hrest] at he'
  exact he'

theorem alt_left (h : r.Matches s) : (Regex.alt r q).Matches s := by
  intro prev t groups
  obtain ⟨e, he, hrest⟩ := h prev t groups
  exact ⟨e, List.mem_append_left _ he, hrest⟩

theorem alt_right (h : q.Matches s) : (Regex.alt r q).Matches s := by
  intro prev t groups
  obtain ⟨e, he, hrest⟩ := h prev t groups
  exact ⟨e, List.mem_append_right _ he, hrest⟩

/-- A choice matches what one of its members matches. -/
theorem any {rs : List (Regex α)} (h : ∃ q ∈ r :: rs, q.Matches s) : (Regex.any r rs).Matches s := by
  induction rs generalizing r with
  | nil =>
    obtain ⟨q, hq, hmatch⟩ := h
    rwa [List.mem_singleton.mp hq] at hmatch
  | cons r' rs ih =>
    obtain ⟨q, hq, hmatch⟩ := h
    rcases List.mem_cons.mp hq with rfl | hq
    · exact alt_left hmatch
    · exact alt_right (ih ⟨q, hq, hmatch⟩)

theorem fullMatch {r : Regex Char} {text : List Char} (h : r.Matches text) :
    r.fullMatch text = true := by
  obtain ⟨e, he, hrest⟩ := h none [] []
  rw [List.append_nil] at he
  exact List.any_eq_true.mpr ⟨e, he, by simp [hrest]⟩

end Matches

/-- An expression that is a text. -/
def literal [DecidableEq α] (s : List α) : Regex α := all (s.map fun a => one (· = a))

theorem Matches.literal [DecidableEq α] (s : List α) : (Regex.literal s).Matches s := by
  induction s with
  | nil => exact Matches.rep (by simp) (by simp)
  | cons a s ih =>
    cases s with
    | nil => exact Matches.one (by simp)
    | cons b s => exact Matches.seq (Matches.one (by simp)) ih

end Regex
