import ProtocolGateway.Text

/-!
# PostgreSQL identifiers

Metric and protocol names become the names of columns and tables: blanks around them go, letters are
lowered, every other character than a letter, a digit or an underscore becomes an underscore, and the
name is cut to the 63 bytes PostgreSQL keeps of an identifier.

* `isIdentifier_cleanColumnName`, `isIdentifier_safeTableName` — the names are identifiers.
-/

namespace ProtocolGateway

namespace Timescale

/-! ## Identifiers -/

/-- A lower-case letter or an underscore. -/
def startsIdentifier (c : Char) : Bool := ('a' ≤ c && c ≤ 'z') || c == '_'

/-- A lower-case letter, a digit or an underscore. -/
def continuesIdentifier (c : Char) : Bool := startsIdentifier c || ('0' ≤ c && c ≤ '9')

/-- An unquoted identifier PostgreSQL keeps as it is. -/
def isIdentifier : List Char → Bool
  | [] => false
  | c :: cs => startsIdentifier c && cs.all continuesIdentifier && decide (cs.length < 63)

/-! ## Cleaning -/

/-- `c.lower()`. The capital letters beyond ASCII whose lower case is an ASCII letter are the Kelvin
sign and the dotted I; the others stay, as their lower case is beyond ASCII too. -/
def lowerCase (c : Char) : List Char :=
  if 'A' ≤ c ∧ c ≤ 'Z' then [Char.ofNat (c.toNat + 32)]
  else if c.toNat = 0x212A then ['k']
  else if c.toNat = 0x130 then ['i', Char.ofNat 0x307]
  else [c]

/-- The characters the pattern `[^a-zA-Z0-9_]` does not match. -/
def isKept (c : Char) : Bool := continuesIdentifier c || ('A' ≤ c && c ≤ 'Z')

/-- `re.sub(r'[^a-zA-Z0-9_]', '_', name.strip().lower())`. -/
def substituted (name : List Char) : List Char :=
  ((Text.strip name).flatMap lowerCase).map fun c => if isKept c then c else '_'

/-- An underscore in front, unless `re.match(r'^[a-zA-Z_]', name)`. -/
def guardStart : List Char → List Char
  | [] => ['_']
  | c :: cs => if startsIdentifier c || ('A' ≤ c && c ≤ 'Z') then c :: cs else '_' :: c :: cs

/-- `_clean_column_name`. -/
def cleanColumnName (metricName : List Char) : List Char :=
  (guardStart (substituted metricName)).take 63

/-- `_safe_table_name`. -/
def safeTableName (protocol : List Char) : List Char :=
  ("device_metrics_wide__".toList ++ guardStart (substituted protocol)).take 63

/-! ## Cleaned names are identifiers -/

/-- What holds of the ASCII characters holds of the capital letters. -/
theorem of_capital {P : Char → Prop} (ascii : ∀ n < 128, P (Char.ofNat n)) {c : Char}
    (h : c ≤ 'Z') : P c := by
  have hlt : c.toNat < 128 := Nat.lt_of_le_of_lt h (by decide)
  rw [← Char.ofNat_toNat c]
  exact ascii c.toNat hlt

theorem continuesIdentifier_capital {c : Char} (h : 'A' ≤ c ∧ c ≤ 'Z') :
    continuesIdentifier (Char.ofNat (c.toNat + 32)) :=
  of_capital (P := fun c => 'A' ≤ c ∧ c ≤ 'Z' → continuesIdentifier (Char.ofNat (c.toNat + 32)))
    (by decide +kernel) h.2 h

/-- An identifier has no capital letters. -/
theorem not_capital {c : Char} (h : continuesIdentifier c) : ('A' ≤ c && c ≤ 'Z') = false := by
  by_cases hc : c ≤ 'Z'
  · exact of_capital (P := fun c => continuesIdentifier c → ('A' ≤ c && c ≤ 'Z') = false)
      (by decide +kernel) hc h
  · rw [decide_eq_false hc, Bool.and_false]

/-- Lowering leaves no capital letter that is kept. -/
theorem continuesIdentifier_of_lowerCase {c d : Char} (h : d ∈ lowerCase c) (hkept : isKept d) :
    continuesIdentifier d := by
  unfold lowerCase at h
  split_ifs at h with hupper hkelvin hdotted
  · rw [List.mem_singleton.mp h]
    exact continuesIdentifier_capital hupper
  · rw [List.mem_singleton.mp h]
    rfl
  · rcases List.mem_pair.mp h with rfl | rfl
    · rfl
    · exact absurd hkept (by decide)
  · obtain rfl := List.mem_singleton.mp h
    rw [isKept, Bool.or_eq_true] at hkept
    refine hkept.resolve_right ?_
    intro hcapital
    rw [Bool.and_eq_true, decide_eq_true_eq, decide_eq_true_eq] at hcapital
    exact hupper hcapital

theorem continuesIdentifier_substituted {name : List Char} {c : Char} (h : c ∈ substituted name) :
    continuesIdentifier c := by
  obtain ⟨d, hd, rfl⟩ := List.mem_map.mp h
  obtain ⟨e, -, hde⟩ := List.mem_flatMap.mp hd
  cases hkept : isKept d with
  | false => rfl
  | true => exact continuesIdentifier_of_lowerCase hde hkept

/-- The start of a name that is guarded. -/
theorem guardStart_cons {name : List Char} (h : ∀ c ∈ name, continuesIdentifier c) :
    ∃ c cs, guardStart name = c :: cs ∧ startsIdentifier c ∧ ∀ d ∈ cs, continuesIdentifier d := by
  cases name with
  | nil => exact ⟨'_', [], rfl, rfl, by simp⟩
  | cons c cs =>
    have hcapital := not_capital (h c (List.mem_cons_self ..))
    rw [guardStart, hcapital, Bool.or_false]
    by_cases hstart : startsIdentifier c
    · exact ⟨c, cs, if_pos hstart, hstart, fun d hd => h d (List.mem_cons_of_mem _ hd)⟩
    · exact ⟨'_', c :: cs, if_neg hstart, rfl, h⟩

/-- A cut keeps an identifier. -/
theorem isIdentifier_take {c : Char} {cs : List Char} (hstart : startsIdentifier c)
    (hrest : ∀ d ∈ cs, continuesIdentifier d) : isIdentifier ((c :: cs).take 63) := by
  rw [List.take_succ_cons, isIdentifier, hstart, Bool.true_and, Bool.and_eq_true, List.all_eq_true,
    decide_eq_true_eq]
  refine ⟨fun d hd => hrest d (List.mem_of_mem_take hd), ?_⟩
  rw [List.length_take]
  omega

/-- **Column names are identifiers.** -/
theorem isIdentifier_cleanColumnName (metricName : List Char) :
    isIdentifier (cleanColumnName metricName) := by
  obtain ⟨c, cs, hname, hstart, hrest⟩ :=
    guardStart_cons fun d (hd : d ∈ substituted metricName) => continuesIdentifier_substituted hd
  rw [cleanColumnName, hname]
  exact isIdentifier_take hstart hrest

/-- **Table names are identifiers.** -/
theorem isIdentifier_safeTableName (protocol : List Char) :
    isIdentifier (safeTableName protocol) := by
  obtain ⟨c, cs, hname, hstart, hrest⟩ :=
    guardStart_cons fun d (hd : d ∈ substituted protocol) => continuesIdentifier_substituted hd
  rw [safeTableName, hname]
  refine @isIdentifier_take 'd' ("evice_metrics_wide__".toList ++ c :: cs) rfl ?_
  intro d hd
  rcases List.mem_append.mp hd with hfixed | hd
  · exact List.all_eq_true.mp (by decide) d hfixed
  · rcases List.mem_cons.mp hd with rfl | hd
    · rw [continuesIdentifier, hstart, Bool.true_or]
    · exact hrest d hd

/-! ## Tables of one name -/

/-- What is left of a protocol's name in the names of its table and views. -/
def shortName (protocol : List Char) : List Char := (guardStart (substituted protocol)).take 42

theorem safeTableName_eq (protocol : List Char) :
    safeTableName protocol = "device_metrics_wide__".toList ++ shortName protocol := by
  rw [safeTableName, List.take_append]
  rfl

/-- Tables of one name belong to protocols shortened to one name. -/
theorem shortName_eq_iff {p q : List Char} :
    shortName p = shortName q ↔ safeTableName p = safeTableName q := by
  rw [safeTableName_eq, safeTableName_eq, List.append_cancel_left_eq]

end Timescale

end ProtocolGateway
