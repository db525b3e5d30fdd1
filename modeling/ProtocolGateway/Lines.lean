import ProtocolGateway.Text
import Mathlib.Data.List.Basic

/-!
# The lines of a text file

How the gateway and the scanner cut a text file into lines, and what is read back from a file that
was written as lines.
-/

namespace ProtocolGateway

namespace Text

/-- What opening a file as text does to its line ends. -/
def universalNewlines : List Char → List Char
  | [] => []
  | '\r' :: '\n' :: cs => '\n' :: universalNewlines cs
  | '\r' :: cs => '\n' :: universalNewlines cs
  | c :: cs => c :: universalNewlines cs

/-- The lines of a file, without the newline that ends each of them. -/
def fileLines (text : List Char) : List (List Char) :=
  let lines := (universalNewlines text).splitOn '\n'
  if lines.getLast? = some [] then lines.dropLast else lines

theorem universalNewlines_eq_self {text : List Char} (h : '\r' ∉ text) :
    universalNewlines text = text := by
  fun_induction universalNewlines text with
  | case1 => rfl
  | case2 cs ih => exact absurd List.mem_cons_self h
  | case3 cs _ ih => exact absurd List.mem_cons_self h
  | case4 c cs _ _ ih => rw [ih fun hmem => h (List.mem_cons_of_mem _ hmem)]

/-- What is in a joined text is in one of the texts, or separates them. -/
theorem mem_intercalate {sep c : Char} {lines : List (List Char)}
    (h : c ∈ [sep].intercalate lines) : c = sep ∨ ∃ line ∈ lines, c ∈ line := by
  induction lines with
  | nil => simp at h
  | cons line lines ih =>
    cases lines with
    | nil => exact Or.inr ⟨line, List.mem_cons_self, by simpa using h⟩
    | cons line' lines =>
      rw [List.intercalate_cons_cons, List.append_assoc, List.mem_append, List.mem_append,
        List.mem_singleton] at h
      rcases h with h | h | h
      · exact Or.inr ⟨line, List.mem_cons_self, h⟩
      · exact Or.inl h
      · obtain h | ⟨l, hl, hc⟩ := ih h
        · exact Or.inl h
        · exact Or.inr ⟨l, List.mem_cons_of_mem _ hl, hc⟩

/-- An empty line at the end is the separator in front of it. -/
theorem intercalate_concat_nil {sep : Char} {lines : List (List Char)} (h : lines ≠ []) :
    [sep].intercalate (lines ++ [[]]) = [sep].intercalate lines ++ [sep] := by
  induction lines with
  | nil => exact absurd rfl h
  | cons line lines ih =>
    cases lines with
    | nil => simp
    | cons line' lines =>
      have ih := ih (List.cons_ne_nil _ _)
      rw [List.cons_append] at ih
      rw [List.cons_append, List.cons_append, List.intercalate_cons_cons, ih,
        List.intercalate_cons_cons, List.append_assoc (line ++ [sep])]

/-- A file that was written line by line, with an empty line at its end, is read line by line. -/
theorem fileLines_intercalate {lines : List (List Char)}
    (h : ∀ line ∈ lines, '\n' ∉ line ∧ '\r' ∉ line) :
    fileLines (['\n'].intercalate (lines ++ [[]])) = lines := by
  have hr : '\r' ∉ ['\n'].intercalate (lines ++ [[]]) := by
    intro hmem
    obtain hc | ⟨line, hline, hc⟩ := mem_intercalate hmem
    · exact absurd hc (by decide)
    · rcases List.mem_append.mp hline with hline | hline
      · exact (h line hline).2 hc
      · obtain rfl := List.mem_singleton.mp hline
        exact List.not_mem_nil hc
  have hsplit : (['\n'].intercalate (lines ++ [[]])).splitOn '\n' = lines ++ [[]] := by
    refine List.splitOn_intercalate '\n' (fun line hline => ?_) (by simp)
    rcases List.mem_append.mp hline with hline | hline
    · exact (h line hline).1
    · obtain rfl := List.mem_singleton.mp hline
      exact List.not_mem_nil
  unfold fileLines
  rw [universalNewlines_eq_self hr, hsplit]
  simp

/-! ## `splitlines` -/

/-- The characters `str.splitlines()` splits at. -/
def isLineBreak (c : Char) : Bool :=
  let n := c.toNat
  (10 ≤ n && n ≤ 13) || (28 ≤ n && n ≤ 30) || n == 0x85 || n == 0x2028 || n == 0x2029

/-- `text.splitlines()`. -/
def splitlines (text : List Char) : List (List Char) :=
  let lines := (universalNewlines text).splitOnP isLineBreak
  if lines.getLast? = some [] then lines.dropLast else lines

/-- What is made of the lines of a text, if nothing is made of an empty one. -/
theorem filterMap_splitlines {β : Type} {f : List Char → Option β} (hf : f [] = none)
    (text : List Char) :
    (splitlines text).filterMap f = (text.splitOnP isLineBreak).filterMap f := by
  have hbreak : isLineBreak '\n' = true ∧ isLineBreak '\r' = true := by decide
  have hnewlines : ∃ line rest rest',
      (universalNewlines text).splitOnP isLineBreak = line :: rest ∧
        text.splitOnP isLineBreak = line :: rest' ∧ rest.filterMap f = rest'.filterMap f := by
    fun_induction universalNewlines text with
    | case1 => exact ⟨[], [], [], rfl, rfl, rfl⟩
    | case2 cs ih =>
      obtain ⟨line, rest, rest', hrest, hrest', heq⟩ := ih
      refine ⟨[], line :: rest, [] :: line :: rest', ?_, ?_, ?_⟩
      · rw [List.splitOnP_cons_eq_if_modifyHead, if_pos hbreak.1, hrest]
      · rw [List.splitOnP_cons_eq_if_modifyHead, if_pos hbreak.2,
          List.splitOnP_cons_eq_if_modifyHead, if_pos hbreak.1, hrest']
      · rw [List.filterMap_cons_none hf, List.filterMap_cons, List.filterMap_cons, heq]
    | case3 cs _ ih =>
      obtain ⟨line, rest, rest', hrest, hrest', heq⟩ := ih
      refine ⟨[], line :: rest, line :: rest', ?_, ?_, ?_⟩
      · rw [List.splitOnP_cons_eq_if_modifyHead, if_pos hbreak.1, hrest]
      · rw [List.splitOnP_cons_eq_if_modifyHead, if_pos hbreak.2, hrest']
      · rw [List.filterMap_cons, List.filterMap_cons, heq]
    | case4 c cs _ _ ih =>
      obtain ⟨line, rest, rest', hrest, hrest', heq⟩ := ih
      rw [List.splitOnP_cons_eq_if_modifyHead, List.splitOnP_cons_eq_if_modifyHead, hrest, hrest']
      split
      · refine ⟨[], line :: rest, line :: rest', rfl, rfl, ?_⟩
        rw [List.filterMap_cons, List.filterMap_cons, heq]
      · exact ⟨c :: line, rest, rest', rfl, rfl, heq⟩
  have hlast (lines : List (List Char)) : (if lines.getLast? = some [] then lines.dropLast
      else lines).filterMap f = lines.filterMap f := by
    split
    · next hnil =>
      obtain ⟨init, rfl⟩ := List.getLast?_eq_some_iff.mp hnil
      rw [List.dropLast_concat, List.filterMap_append, List.filterMap_cons_none hf,
        List.filterMap_nil, List.append_nil]
    · rfl
  obtain ⟨line, rest, rest', hrest, hrest', heq⟩ := hnewlines
  rw [splitlines, hlast, hrest, hrest', List.filterMap_cons, List.filterMap_cons, heq]

/-- The lines of a text that was written as lines are the lines of its lines. -/
theorem filterMap_splitlines_intercalate {β : Type} {f : List Char → Option β} (hf : f [] = none)
    (lines : List (List Char)) :
    (splitlines (['\n'].intercalate lines ++ ['\n'])).filterMap f =
      lines.flatMap fun line => (splitlines line).filterMap f := by
  have hbreak : isLineBreak '\n' = true := by decide
  have hsplit (l rest : List Char) : ((l ++ '\n' :: rest).splitOnP isLineBreak).filterMap f =
      (splitlines l).filterMap f ++ (rest.splitOnP isLineBreak).filterMap f := by
    rw [List.splitOnP_append_cons l rest hbreak, List.filterMap_append, filterMap_splitlines hf]
  have hnil : ([] : List Char).splitOnP isLineBreak = [[]] := rfl
  rw [filterMap_splitlines hf]
  induction lines with
  | nil => simp [List.splitOnP_cons_eq_if_modifyHead, hbreak, hf]
  | cons line lines ih =>
    rw [List.flatMap_cons, ← ih]
    cases lines with
    | nil =>
      rw [List.intercalate_singleton, hsplit, hnil]
      simp [List.splitOnP_cons_eq_if_modifyHead, hbreak, hf]
    | cons line' lines =>
      rw [List.intercalate_cons_cons, List.append_assoc, List.append_assoc, List.singleton_append,
        hsplit]

end Text

end ProtocolGateway
