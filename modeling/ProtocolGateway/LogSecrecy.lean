import ProtocolGateway.LogRedaction

/-!
# A secret leaves no trace in the log

What `redact` writes, for one registered secret that takes two values.

* `redactMarked` — the written text with a hole for every secret that was replaced. No registered
  secret without a line break stands between the holes (`not_infix_redactMarked`).
* `LeaksNothing` — two values of a secret give one text, and no secret stands between the holes.
* `Intact`, `leaksNothing_of_intact` — it does so where the patterns and the other secrets leave
  the value whole, and replace the same things for both values.
* `not_leaksNothing_quote` — the pattern for `password=` ends at a quotation mark, and what
  follows it in the value is written.
-/

namespace ProtocolGateway

namespace LogRedaction

open Holes

variable {u : UnicodeTables} {secrets : Secrets}

/-! ## The holes of the written text -/

/-- The line of `redactLine` with a hole for every secret. -/
def markedLine (u : UnicodeTables) (secrets : Secrets) (code : Bool) (line : List Char) :
    Template Char :=
  marked (alternatives secrets) 0 (applyPatterns (linePatterns u code) line)

/-- The text of `redact` with a hole for every secret. -/
def redactMarked (u : UnicodeTables) (secrets : Secrets) (text : List Char) : Template Char :=
  [.lit '\n'].intercalate
    ((lineModes u false (text.splitOnP (· == '\n'))).zipWith (markedLine u secrets)
      (text.splitOnP (· == '\n')))

@[simp] theorem mem_alternatives {w : List Char} : w ∈ alternatives secrets ↔ w ∈ secrets.words :=
  List.mem_insertionSort _

theorem longestFirst_alternatives (secrets : Secrets) : LongestFirst (alternatives secrets) := by
  have htotal : Std.Total fun v w : List Char => w.length ≤ v.length :=
    ⟨fun v w => Nat.le_total w.length v.length⟩
  have htrans : IsTrans (List Char) fun v w => w.length ≤ v.length :=
    ⟨fun _ _ _ hvw hwx => Nat.le_trans hwx hvw⟩
  exact List.pairwise_insertionSort _ _

theorem ne_nil_of_mem {w : List Char} (hw : w ∈ secrets.words) : w ≠ [] := by
  rintro rfl
  exact absurd (secrets.long [] hw) (by decide)

theorem nil_not_mem_alternatives (secrets : Secrets) : [] ∉ alternatives secrets :=
  fun h => ne_nil_of_mem (mem_alternatives.mp h) rfl

/-- The line is its marked text, with the marker in the holes. -/
theorem fill_markedLine (code : Bool) (line : List Char) :
    fill (markedLine u secrets code line) redacted = redactLine u secrets code line := by
  rw [redactLine, markedLine, ← sub_wordFinder _ _ none]
  split_ifs with hnone
  · -- without secrets nothing is found
    have halt : alternatives secrets = [] := by rw [alternatives, hnone]; rfl
    have hkept : Passes (wordFinder [] redacted) none
        (applyPatterns (linePatterns u code) line) [] := by
      generalize applyPatterns (linePatterns u code) line = l
      generalize (none : Option Char) = prev
      induction l generalizing prev with
      | nil => trivial
      | cons c l ih => exact ⟨rfl, ih _⟩
    have h := sub_passes hkept
    rw [List.append_nil] at h
    rw [halt, h]
    simp [sub]
  · rfl

theorem fill_redactMarked (text : List Char) :
    fill (redactMarked u secrets text) redacted = redact u secrets text := by
  rw [redact_eq, redactMarked, fill_intercalate, List.map_zipWith]
  simp only [fill_markedLine]

/-- **No secret is left.** A registered secret without a line break stands nowhere in what is
written, outside the markers that replaced secrets. -/
theorem not_infix_redactMarked {w : List Char} (hw : w ∈ secrets.words) (hbreak : '\n' ∉ w)
    (text : List Char) : ¬w.map .lit <:+: redactMarked u secrets text := by
  intro h
  have hsep : Piece.lit '\n' ∉ w.map Piece.lit := by simpa using hbreak
  have hne : w.map Piece.lit ≠ [] := by simpa using ne_nil_of_mem hw
  obtain ⟨part, hpart, hin⟩ := exists_infix_of_intercalate hsep hne h
  obtain ⟨i, hi, rfl⟩ := List.mem_iff_getElem.mp hpart
  rw [List.getElem_zipWith] at hin
  exact not_infix_marked (nil_not_mem_alternatives secrets) (mem_alternatives.mpr hw) _ _ hin

/-! ## Two values of a secret -/

/-- The value is registered, as it is. -/
def Registers (u : UnicodeTables) (secrets : Secrets) (s : List Char) : Prop :=
  ∀ w, w ∈ (registerSecret u secrets (some s)).words ↔ w = s ∨ w ∈ secrets.words

/-- What is said of a message and a secret: whichever of two values the secret has, the message is
written alike, and no registered secret is written outside the markers. -/
def LeaksNothing (u : UnicodeTables) (secrets : Secrets) (t : Template Char) (s₁ s₂ : List Char) :
    Prop :=
  redact u (registerSecret u secrets (some s₁)) (fill t s₁) =
      redact u (registerSecret u secrets (some s₂)) (fill t s₂) ∧
    ∀ s, s = s₁ ∨ s = s₂ → ∀ w ∈ (registerSecret u secrets (some s)).words,
      ¬w.map .lit <:+: redactMarked u (registerSecret u secrets (some s)) (fill t s)

/-- No match of the patterns begins or ends inside a value, and for both values the same
stretches are replaced by the same text: the patterns turn the line `t` into the line `t'`. -/
def KeepsAll (s₁ s₂ : List Char) : List (Finder Char) → Template Char → Template Char → Prop
  | [], t, t' => t = t'
  | p :: ps, t, t' =>
    ∃ r, Keeps p s₁ none t r ∧ Keeps p s₂ none t r ∧ KeepsAll s₁ s₂ ps r t'

/-- The patterns and the other secrets leave the values whole in a line. -/
def LineIntact (u : UnicodeTables) (secrets : Secrets) (s₁ s₂ : List Char) (code : Bool)
    (t : Template Char) : Prop :=
  ∃ t', KeepsAll s₁ s₂ (linePatterns u code) t t' ∧
    Aligned (alternatives secrets) s₁ 0 t' ∧ Aligned (alternatives secrets) s₂ 0 t'

/-- The lines of a message with holes. -/
def templateLines (t : Template Char) : List (Template Char) :=
  t.splitOnP (Piece.ends (· == '\n'))

/-- The lines of the message that are read as code. -/
def modes (u : UnicodeTables) (t : Template Char) (s : List Char) : List Bool :=
  lineModes u false ((templateLines t).map (fill · s))

/-- **The condition.** No registered secret has a line break, the same lines of the message are
read as code, and in each line the patterns and the other secrets leave the values whole. -/
structure Intact (u : UnicodeTables) (secrets : Secrets) (t : Template Char)
    (s₁ s₂ : List Char) : Prop where
  unbroken : ∀ w, w = s₁ ∨ w = s₂ ∨ w ∈ secrets.words → '\n' ∉ w
  modes_eq : modes u t s₁ = modes u t s₂
  lines : ∀ x ∈ (modes u t s₁).zip (templateLines t), LineIntact u secrets s₁ s₂ x.1 x.2

theorem applyPatterns_fill {ps : List (Finder Char)} {s₁ s₂ : List Char} {t t' : Template Char}
    (h : KeepsAll s₁ s₂ ps t t') :
    applyPatterns ps (fill t s₁) = fill t' s₁ ∧ applyPatterns ps (fill t s₂) = fill t' s₂ := by
  induction ps generalizing t with
  | nil => cases h; exact ⟨rfl, rfl⟩
  | cons p ps ih =>
    obtain ⟨r, h₁, h₂, hrest⟩ := h
    rw [applyPatterns, applyPatterns, List.foldl_cons, List.foldl_cons, sub_fill h₁, sub_fill h₂]
    exact ih hrest

theorem marked_of_registers {s : List Char} (hs : Registers u secrets s) {t : Template Char}
    (h : Aligned (alternatives secrets) s 0 t) :
    marked (alternatives (registerSecret u secrets (some s))) 0 (fill t s) =
      hide (alternatives secrets) 0 t := by
  refine marked_fill ?_ (nil_not_mem_alternatives secrets) ?_ (longestFirst_alternatives _)
    (longestFirst_alternatives _) (Nat.zero_le _) h
  · exact ne_nil_of_mem ((hs s).mpr (.inl rfl))
  · intro w
    rw [mem_alternatives, mem_alternatives]
    exact hs w

/-- In a line that leaves the values whole both are marked alike. -/
theorem markedLine_eq {s₁ s₂ : List Char} (h₁ : Registers u secrets s₁)
    (h₂ : Registers u secrets s₂) {code : Bool} {t : Template Char}
    (h : LineIntact u secrets s₁ s₂ code t) :
    markedLine u (registerSecret u secrets (some s₁)) code (fill t s₁) =
      markedLine u (registerSecret u secrets (some s₂)) code (fill t s₂) := by
  obtain ⟨t', hkeeps, ha₁, ha₂⟩ := h
  obtain ⟨hp₁, hp₂⟩ := applyPatterns_fill hkeeps
  rw [markedLine, markedLine, hp₁, hp₂, marked_of_registers h₁ ha₁, marked_of_registers h₂ ha₂]

/-- The lines of a filled message are the filled lines of the message. -/
theorem lines_fill {s : List Char} (hs : '\n' ∉ s) (t : Template Char) :
    (fill t s).splitOnP (· == '\n') = (templateLines t).map (fill · s) := by
  apply splitOnP_fill
  intro c hc
  simpa using fun h : c = '\n' => hs (h ▸ hc)

theorem redactMarked_eq {s : List Char} (hs : '\n' ∉ s) (t : Template Char) :
    redactMarked u (registerSecret u secrets (some s)) (fill t s) =
      [.lit '\n'].intercalate (((modes u t s).zip (templateLines t)).map fun x =>
        markedLine u (registerSecret u secrets (some s)) x.1 (fill x.2 s)) := by
  rw [redactMarked, lines_fill hs, modes, ← List.map_uncurry_zip_eq_zipWith, List.zip_map_right,
    List.map_map]
  rfl

/-- **A secret leaves no trace where the message leaves it whole.** The text that is written, holes
included, is then the same for both values, and no registered secret stands in it. -/
theorem leaksNothing_of_intact {t : Template Char} {s₁ s₂ : List Char}
    (h₁ : Registers u secrets s₁) (h₂ : Registers u secrets s₂)
    (h : Intact u secrets t s₁ s₂) : LeaksNothing u secrets t s₁ s₂ := by
  constructor
  · rw [← fill_redactMarked, ← fill_redactMarked]
    rw [redactMarked_eq (h.unbroken s₁ (.inl rfl)),
      redactMarked_eq (h.unbroken s₂ (.inr (.inl rfl))),
      ← h.modes_eq]
    congr 2
    apply List.map_congr_left
    intro x hx
    exact markedLine_eq h₁ h₂ (h.lines x hx)
  · intro s hs w hw
    apply not_infix_redactMarked hw
    apply h.unbroken
    -- a word that is registered is the value, or was registered before
    rcases hs with rfl | rfl
    · rcases (h₁ w).mp hw with hw | hw
      · exact .inl hw
      · exact .inr (.inr hw)
    · rcases (h₂ w).mp hw with hw | hw
      · exact .inr (.inl hw)
      · exact .inr (.inr hw)

/-! ### A value with a quotation mark -/

/-- The tables on the characters below `U+0080`. -/
def asciiTables : UnicodeTables where
  isDecimal := isAsciiDigit
  isAlnum c := isAsciiDigit c || isLower c || isUpper c
  isDigit := isAsciiDigit
  lower := Text.lower

/-- A message that shows the secret after `key`. -/
def shown (key : String) : Template Char := key.toList.map .lit ++ [.hole]

/-- A value that the empty set of secrets takes in is registered as it is. -/
theorem registers_none {s : List Char} (h : (registerSecret u .none (some s)).words = [s]) :
    Registers u .none s := by
  intro w
  rw [h]
  simp [Secrets.none]

/-- The rest of a password after its quotation mark is written, and the two passwords can be told
apart. -/
theorem not_leaksNothing_quote :
    Registers asciiTables .none "it's-mine".toList ∧
      Registers asciiTables .none "it's-yours".toList ∧
      ¬LeaksNothing asciiTables .none (shown "password=") "it's-mine".toList
        "it's-yours".toList := by
  refine ⟨registers_none (by decide), registers_none (by decide), ?_⟩
  intro h
  exact absurd h.1 (by decide)

/-- A password is hidden in a message in which no pattern finds anything. -/
theorem leaksNothing_signed_in :
    LeaksNothing asciiTables .none (shown "signed in with ") "hunter22".toList
      "swordfish".toList := by
  refine leaksNothing_of_intact (registers_none (by decide)) (registers_none (by decide))
    ⟨?_, by decide, ?_⟩
  · rintro w (rfl | rfl | hw)
    · decide
    · decide
    · cases hw
  · have hlines : (modes asciiTables (shown "signed in with ") "hunter22".toList).zip
        (templateLines (shown "signed in with ")) = [(false, shown "signed in with ")] := by
      decide
    rw [hlines]
    intro x hx
    rw [List.mem_singleton.mp hx]
    refine ⟨shown "signed in with ", ?_, by decide, by decide⟩
    refine ⟨_, keeps_of_passes ?_, keeps_of_passes ?_, _, keeps_of_passes ?_, keeps_of_passes ?_, _,
      keeps_of_passes ?_, keeps_of_passes ?_, _, keeps_of_passes ?_, keeps_of_passes ?_, _,
      keeps_of_passes ?_, keeps_of_passes ?_, _, keeps_of_passes ?_, keeps_of_passes ?_, rfl⟩
    all_goals decide

end LogRedaction

end ProtocolGateway
