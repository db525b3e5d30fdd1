import ProtocolGateway.CodeTables

/-!
# The check of a value before it is written

`validate_registry_entry` has three families of rules: a code table admits its keys, a text type
admits texts of letters, digits, underscores and hyphens, and the other entries admit a range of
numbers. A text that its rule rejects is handed on to the numeric rule.

* `Admits` — what each family promises of the result.
* `Sure` — when the conversions and the pattern of the source do what the promise needs.
* `admits_iff` — the promise is kept exactly then.
-/

namespace ProtocolGateway

/-! ## The conversion -/

namespace PyValue

variable (host : Host) (val : PyValue)

/-- `int(float(value))` raises `OverflowError`: an infinity, or an integer no `float` can hold. -/
def Overflows : Prop := val.toFloatInt host = .error .overflowError

/-- `int(float(value))`, `none` where it raises. -/
def converted : Option Int := (val.toFloatInt host).toOption

/-- The integer part of the number a value converts to. An integer is its own. -/
def integerPart : PyValue → Option Int
  | .int i => some i
  | val => val.converted host

variable {host} {val}

theorem error_of_truncate {f : Float} {err : PyError} (h : truncate f = .error err) :
    err = .valueError ∨ err = .overflowError := by
  rw [truncate] at h
  split at h
  · injection h with h
    rw [← h]
    split
    · exact .inr rfl
    · exact .inl rfl
  · cases h

/-- The conversion gives a number, or it raises `ValueError`, or it overflows. -/
theorem toFloatInt_cases (host : Host) (val : PyValue) :
    (∃ i, val.toFloatInt host = .ok i) ∨ val.toFloatInt host = .error .valueError ∨
      val.Overflows host := by
  have herror : ∀ err, val.toFloatInt host = .error err →
      err = .valueError ∨ err = .overflowError := by
    intro err h
    cases val with
    | int i =>
      rw [toFloatInt] at h
      exact .inr (error_of_roundToDouble h)
    | float f => exact error_of_truncate h
    | str s =>
      rw [toFloatInt] at h
      split at h
      · exact error_of_truncate h
      · injection h with h
        exact .inl h.symm
  rcases h : val.toFloatInt host with err | i
  · rcases herror err h with rfl | rfl
    · exact .inr (.inl rfl)
    · exact .inr (.inr h)
  · exact .inl ⟨i, rfl⟩

/-- A value that is no number has no integer part. -/
theorem integerPart_eq_none (h : val.toFloatInt host = .error .valueError) :
    val.integerPart host = none := by
  cases val with
  | int i =>
    rw [toFloatInt] at h
    cases error_of_roundToDouble h
  | float f => simp [integerPart, converted, h, Except.toOption]
  | str s => simp [integerPart, converted, h, Except.toOption]

end PyValue

/-! ## The promise -/

/-- A letter, a digit, an underscore or a hyphen: `[a-zA-Z0-9_\-]`. -/
def isTextChar (c : Char) : Bool := c.isAlphanum || c = '_' || c = '-'

/-- The text begins with another character: `re.match` of `[^a-zA-Z0-9_\-]`. -/
def startsForbidden (s : String) : Bool := s.toList.head?.any fun c => !isTextChar c

/-- The pattern of the source matches as it is documented to. -/
def Host.MatchesForbidden (host : Host) : Prop :=
  ∀ s, host.reMatch "[^a-zA-Z0-9_\\-]" s = startsForbidden s

/-- The text types of the validation. -/
def RegistryMapEntry.isText (e : RegistryMapEntry) : Prop :=
  e.dataType ∈ [.ascii, .string, .string16, .string32]

instance (e : RegistryMapEntry) : Decidable e.isText :=
  inferInstanceAs (Decidable (_ ∈ _))

section Promise

variable (host : Host) (ps : ProtocolSettings) (e : RegistryMapEntry) (val : PyValue)

/-- The text is a key of the entry's code table. -/
def IsCode (key : String) : Prop := ((ps.getEntryCodeDict e).lookup key).isSome

instance (key : String) : Decidable (IsCode ps e key) := inferInstanceAs (Decidable (_ = true))

/-- The number is in the entry's range. -/
def InRange (i : Int) : Prop := e.valueMin ≤ i ∧ i ≤ e.valueMax

instance (i : Int) : Decidable (InRange e i) := inferInstanceAs (Decidable (_ ∧ _))

/-- With a code table: the value's raw or integer form is a key. -/
def CodeAdmitted : Prop :=
  IsCode ps e (val.text host) ∨ ∃ i ∈ val.integerPart host, IsCode ps e (toString i)

/-- For a text type: a text of admitted characters, not empty, that the pattern of the entry
matches if there is one. -/
def TextAdmitted : Prop :=
  ∃ s, val = .str s ∧ s ≠ "" ∧ (∀ c ∈ s.toList, isTextChar c) ∧
    (e.valueRegex ≠ "" → host.reMatch e.valueRegex s = true)

/-- Otherwise: a number whose integer part is in the range. -/
def NumberAdmitted : Prop := ∃ i ∈ val.integerPart host, InRange e i

/-- **The promise of the validation**: a number is returned, and it is not zero exactly for the
values that the code table or the range admits, and for texts only if the text is admitted. -/
def Admits (result : Except PyError Nat) : Prop :=
  ∃ n, result = .ok n ∧
    (ps.getEntryCodeDict e ≠ [] → (n ≠ 0 ↔ CodeAdmitted host ps e val)) ∧
    (ps.getEntryCodeDict e = [] → e.isText → n ≠ 0 → TextAdmitted host e val) ∧
    (ps.getEntryCodeDict e = [] → ¬e.isText → (n ≠ 0 ↔ NumberAdmitted host e val))

/-! ## The condition -/

/-- With a code table: the conversion does not overflow, and brings no integer to another key. -/
def CodeSure : Prop :=
  ¬val.Overflows host ∧
    ∀ i ∈ val.converted host, IsCode ps e (toString i) → CodeAdmitted host ps e val

/-- Otherwise: the conversion does not overflow, and brings no integer across the range's ends. -/
def NumberSure : Prop :=
  ¬val.Overflows host ∧
    ∀ i ∈ val.converted host, InRange e i ↔ NumberAdmitted host e val

/-- The text is no number in the entry's range. -/
def NotInRange : Prop :=
  ¬val.Overflows host ∧ ∀ i ∈ val.converted host, ¬InRange e i

/-- For a text type: a text that begins with a forbidden character, or is empty, is no number in
the range either, and one that begins with an admitted character has no other ones, unless the
pattern of the entry keeps it out. -/
def TextSure : Prop :=
  ∀ s, val = .str s →
    if s = "" ∨ startsForbidden s = true then NotInRange host e val
    else (∀ c ∈ s.toList, isTextChar c) ∨
      e.valueRegex ≠ "" ∧ (host.reMatch e.valueRegex s = false ∨
        e.concatenate = true ∧ e.concatenateRegisters = [])

/-- **The condition** on an entry and a value. -/
def Sure : Prop :=
  if ps.getEntryCodeDict e ≠ [] then CodeSure host ps e val
  else if e.isText then TextSure host e val
  else NumberSure host e val

end Promise

/-! ## The promise is kept exactly under the condition -/

section Validation

variable {host : Host} {ps : ProtocolSettings} {e : RegistryMapEntry} {val : PyValue}
  {pack32 pack64 : Float → Except PyError (List Byte)}

/-- The numeric rule. -/
theorem validateNumber_eq (h : ¬val.Overflows host) :
    ProtocolSettings.validateNumber (floatArithmetic host ps pack32 pack64) e val =
      .ok (if ∃ i ∈ val.converted host, InRange e i then 1 else 0) := by
  rw [ProtocolSettings.validateNumber]
  rcases val.toFloatInt_cases host with ⟨i, hi⟩ | hvalue | hover
  · simp [floatArithmetic, PyValue.converted, hi, InRange, Except.toOption]
  · simp [floatArithmetic, PyValue.converted, hvalue, Except.toOption]
  · exact absurd hover h

theorem validateNumber_overflow (h : val.Overflows host) :
    ProtocolSettings.validateNumber (floatArithmetic host ps pack32 pack64) e val =
      .error .overflowError := by
  have hraise : (floatArithmetic host ps pack32 pack64).toFloatInt val = .error .overflowError := h
  rw [ProtocolSettings.validateNumber, hraise]

/-- A value that is no number is admitted by no range. -/
theorem not_numberAdmitted (h : val.toFloatInt host = .error .valueError) :
    ¬NumberAdmitted host e val := by
  rintro ⟨i, hi, -⟩
  rw [PyValue.integerPart_eq_none h] at hi
  cases hi

theorem not_admits_error {err : PyError} : ¬Admits host ps e val (.error err) := by
  rintro ⟨n, hn, -⟩
  cases hn

theorem admits_of_codes (hcodes : ps.getEntryCodeDict e ≠ []) {n : Nat} :
    Admits host ps e val (.ok n) ↔ (n ≠ 0 ↔ CodeAdmitted host ps e val) := by
  constructor
  · rintro ⟨m, hm, hcode, -⟩
    rw [Except.ok.inj hm]
    exact hcode hcodes
  · intro h
    exact ⟨n, rfl, fun _ => h, fun hnil => absurd hnil hcodes, fun hnil => absurd hnil hcodes⟩

theorem admits_of_number (hcodes : ps.getEntryCodeDict e = []) (htext : ¬e.isText) {n : Nat} :
    Admits host ps e val (.ok n) ↔ (n ≠ 0 ↔ NumberAdmitted host e val) := by
  constructor
  · rintro ⟨m, hm, -, -, hnumber⟩
    rw [Except.ok.inj hm]
    exact hnumber hcodes htext
  · intro h
    exact ⟨n, rfl, fun hne => absurd hcodes hne, fun _ ht => absurd ht htext, fun _ _ => h⟩

theorem admits_of_text (hcodes : ps.getEntryCodeDict e = []) (htext : e.isText) {n : Nat} :
    Admits host ps e val (.ok n) ↔ (n ≠ 0 → TextAdmitted host e val) := by
  constructor
  · rintro ⟨m, hm, -, hadmitted, -⟩
    rw [Except.ok.inj hm]
    exact hadmitted hcodes htext
  · intro h
    exact ⟨n, rfl, fun hne => absurd hcodes hne, fun _ _ => h, fun _ ht => absurd htext ht⟩

theorem validate_codes_ok (hcodes : ps.getEntryCodeDict e ≠ []) {i : Int}
    (hi : val.toFloatInt host = .ok i) :
    ps.validateRegistryEntry (floatArithmetic host ps pack32 pack64) e val =
      .ok (if IsCode ps e (toString i) ∨ IsCode ps e (val.text host) then 1 else 0) := by
  have hconvert : (floatArithmetic host ps pack32 pack64).toFloatInt val = .ok i := hi
  rw [ProtocolSettings.validateRegistryEntry]
  simp only [if_pos hcodes, hconvert, Bool.or_eq_true, IsCode]
  rfl

theorem validate_codes_valueError (hcodes : ps.getEntryCodeDict e ≠ [])
    (hvalue : val.toFloatInt host = .error .valueError) :
    ps.validateRegistryEntry (floatArithmetic host ps pack32 pack64) e val =
      .ok (if IsCode ps e (val.text host) then 1 else 0) := by
  have hconvert : (floatArithmetic host ps pack32 pack64).toFloatInt val = .error .valueError :=
    hvalue
  rw [ProtocolSettings.validateRegistryEntry]
  simp only [if_pos hcodes, hconvert, IsCode]
  rfl

theorem validate_codes_overflow (hcodes : ps.getEntryCodeDict e ≠ [])
    (hover : val.Overflows host) :
    ps.validateRegistryEntry (floatArithmetic host ps pack32 pack64) e val =
      .error .overflowError := by
  have hconvert : (floatArithmetic host ps pack32 pack64).toFloatInt val =
      .error .overflowError := hover
  rw [ProtocolSettings.validateRegistryEntry]
  simp only [if_pos hcodes, hconvert]

/-- What is converted is the integer part, but for integers. -/
theorem codeAdmitted_of_converted {i : Int} (hi : val.toFloatInt host = .ok i)
    (h : CodeAdmitted host ps e val) : IsCode ps e (toString i) ∨ IsCode ps e (val.text host) := by
  rcases h with htext | ⟨j, hj, hkey⟩
  · exact .inr htext
  · cases val with
    | int k =>
      -- the raw form of an integer is its own text
      obtain rfl : k = j := Option.some.inj hj
      exact .inr hkey
    | float f =>
      simp only [PyValue.integerPart, PyValue.converted, hi, Except.toOption, Option.mem_def,
        Option.some.injEq] at hj
      exact .inl (hj ▸ hkey)
    | str s =>
      simp only [PyValue.integerPart, PyValue.converted, hi, Except.toOption, Option.mem_def,
        Option.some.injEq] at hj
      exact .inl (hj ▸ hkey)

/-- The rule of the code tables. -/
theorem admits_iff_codeSure (hcodes : ps.getEntryCodeDict e ≠ []) :
    Admits host ps e val
        (ps.validateRegistryEntry (floatArithmetic host ps pack32 pack64) e val) ↔
      CodeSure host ps e val := by
  rw [CodeSure]
  rcases val.toFloatInt_cases host with ⟨i, hi⟩ | hvalue | hover
  · have hsafe : ¬val.Overflows host := by rw [PyValue.Overflows, hi]; exact nofun
    have hconverted : val.converted host = some i := by rw [PyValue.converted, hi]; rfl
    rw [validate_codes_ok hcodes hi, hconverted, admits_of_codes hcodes]
    constructor
    · refine fun h => ⟨hsafe, ?_⟩
      rintro _ ⟨⟩ hkey
      rw [← h, if_pos (.inl hkey)]
      exact Nat.one_ne_zero
    · rintro ⟨-, h⟩
      constructor
      · intro hne
        have hkey : IsCode ps e (toString i) ∨ IsCode ps e (val.text host) := by
          by_contra hno
          exact hne (if_neg hno)
        rcases hkey with hkey | hkey
        · exact h i rfl hkey
        · exact .inl hkey
      · intro hadmitted
        rw [if_pos (codeAdmitted_of_converted hi hadmitted)]
        exact Nat.one_ne_zero
  · have hsafe : ¬val.Overflows host := by rw [PyValue.Overflows, hvalue]; exact nofun
    have hconverted : val.converted host = none := by rw [PyValue.converted, hvalue]; rfl
    rw [validate_codes_valueError hcodes hvalue, hconverted, admits_of_codes hcodes]
    refine iff_of_true ?_ ⟨hsafe, nofun⟩
    simp [CodeAdmitted, PyValue.integerPart_eq_none hvalue]
  · rw [validate_codes_overflow hcodes hover]
    exact iff_of_false not_admits_error fun h => h.1 hover

/-- The numeric rule, for the entries it is meant for. -/
theorem admits_iff_numberSure (hcodes : ps.getEntryCodeDict e = []) (htext : ¬e.isText) :
    Admits host ps e val
        (ps.validateRegistryEntry (floatArithmetic host ps pack32 pack64) e val) ↔
      NumberSure host e val := by
  have hnumber : ps.validateRegistryEntry (floatArithmetic host ps pack32 pack64) e val =
      ProtocolSettings.validateNumber (floatArithmetic host ps pack32 pack64) e val := by
    rw [ProtocolSettings.validateRegistryEntry]
    simp only [hcodes, ne_eq, not_true_eq_false, if_false]
    exact if_neg htext
  rw [hnumber, NumberSure]
  by_cases hover : val.Overflows host
  · rw [validateNumber_overflow hover]
    exact iff_of_false not_admits_error fun h => h.1 hover
  · rw [validateNumber_eq hover, admits_of_number hcodes htext]
    rcases val.toFloatInt_cases host with ⟨i, hi⟩ | hvalue | hover'
    · have hconverted : val.converted host = some i := by rw [PyValue.converted, hi]; rfl
      simp [hconverted, hover]
    · have hconverted : val.converted host = none := by rw [PyValue.converted, hvalue]; rfl
      simp [hconverted, hover, not_numberAdmitted hvalue]
    · exact absurd hover' hover

/-- A text that is handed on to the numeric rule. -/
theorem admits_iff_notInRange (hcodes : ps.getEntryCodeDict e = []) (htext : e.isText)
    (hno : ¬TextAdmitted host e val) :
    Admits host ps e val
        (ProtocolSettings.validateNumber (floatArithmetic host ps pack32 pack64) e val) ↔
      NotInRange host e val := by
  rw [NotInRange]
  by_cases hover : val.Overflows host
  · rw [validateNumber_overflow hover]
    exact iff_of_false not_admits_error fun h => h.1 hover
  · rw [validateNumber_eq hover, admits_of_text hcodes htext]
    simp [hover, hno]

/-- The text rule for a value that is no text. -/
theorem validate_text_number (hcodes : ps.getEntryCodeDict e = []) (htext : e.isText)
    (hval : (floatArithmetic host ps pack32 pack64).str? val = none) :
    ps.validateRegistryEntry (floatArithmetic host ps pack32 pack64) e val = .ok 0 := by
  rw [ProtocolSettings.validateRegistryEntry]
  simp only [hcodes, ne_eq, not_true_eq_false, if_false, hval]
  exact if_pos htext

/-- The text rule for a text. -/
theorem validate_text (hre : host.MatchesForbidden) (hcodes : ps.getEntryCodeDict e = [])
    (htext : e.isText) (s : String) :
    ps.validateRegistryEntry (floatArithmetic host ps pack32 pack64) e (.str s) =
      if s = "" ∨ startsForbidden s = true then
        ProtocolSettings.validateNumber (floatArithmetic host ps pack32 pack64) e (.str s)
      else .ok (if e.valueRegex = "" then 1
        else if host.reMatch e.valueRegex s then
          if e.concatenate then e.concatenateRegisters.length else 1
        else 0) := by
  have hmatch : (floatArithmetic host ps pack32 pack64).reMatch "[^a-zA-Z0-9_\\-]" s =
      startsForbidden s := hre s
  have hstr : (floatArithmetic host ps pack32 pack64).str? (.str s) = some s := rfl
  rw [ProtocolSettings.validateRegistryEntry]
  simp only [hcodes, ne_eq, not_true_eq_false, if_false, hstr, hmatch]
  rw [if_pos (show e.dataType ∈ [.ascii, .string, .string16, .string32] from htext)]
  by_cases hs : s = ""
  · simp [hs]
  · by_cases hforbidden : startsForbidden s = true
    · simp [hforbidden]
    · rw [if_pos ⟨hs, hforbidden⟩, if_neg (not_or.mpr ⟨hs, hforbidden⟩)]
      rfl

/-- The text rule. -/
theorem admits_iff_textSure (hre : host.MatchesForbidden) (hcodes : ps.getEntryCodeDict e = [])
    (htext : e.isText) :
    Admits host ps e val
        (ps.validateRegistryEntry (floatArithmetic host ps pack32 pack64) e val) ↔
      TextSure host e val := by
  have hnumber : (floatArithmetic host ps pack32 pack64).str? val = none →
      (∀ s, val ≠ .str s) → (Admits host ps e val
        (ps.validateRegistryEntry (floatArithmetic host ps pack32 pack64) e val) ↔
      TextSure host e val) := by
    intro hval hno
    rw [validate_text_number hcodes htext hval, admits_of_text hcodes htext]
    exact iff_of_true (fun h => absurd rfl h) fun s hs => absurd hs (hno s)
  cases val with
  | int i => exact hnumber rfl nofun
  | float f => exact hnumber rfl nofun
  | str s =>
    rw [validate_text hre hcodes htext s, TextSure]
    simp only [PyValue.str.injEq, forall_eq']
    by_cases hhanded : s = "" ∨ startsForbidden s = true
    · rw [if_pos hhanded, if_pos hhanded]
      refine admits_iff_notInRange hcodes htext ?_
      rintro ⟨_, ⟨⟩, hne, hall, -⟩
      rcases hhanded with hempty | hforbidden
      · exact hne hempty
      · -- the first character of the text is forbidden
        rw [startsForbidden, Option.any_eq_true] at hforbidden
        obtain ⟨c, hc, hbad⟩ := hforbidden
        simp [hall c (List.mem_of_mem_head? hc)] at hbad
    · rw [if_neg hhanded, if_neg hhanded, admits_of_text hcodes htext]
      have hne : s ≠ "" := fun h => hhanded (.inl h)
      by_cases hkept : e.valueRegex ≠ "" ∧ (host.reMatch e.valueRegex s = false ∨
          e.concatenate = true ∧ e.concatenateRegisters = [])
      · refine iff_of_true ?_ (.inr hkept)
        obtain ⟨hregex, hnone | ⟨hconcatenate, hnil⟩⟩ := hkept
        · simp [hregex, hnone]
        · simp [hregex, hconcatenate, hnil]
      · -- the text is admitted by the pattern, so the result is not zero
        have hregex : e.valueRegex ≠ "" → host.reMatch e.valueRegex s = true := by
          intro hset
          by_contra hnone
          exact hkept ⟨hset, .inl (by simpa using hnone)⟩
        have hlength : e.valueRegex ≠ "" → e.concatenate = true →
            e.concatenateRegisters.length ≠ 0 := by
          intro hset hconcatenate hzero
          exact hkept ⟨hset, .inr ⟨hconcatenate, List.length_eq_zero_iff.mp hzero⟩⟩
        have hcount : (if e.valueRegex = "" then 1
            else if host.reMatch e.valueRegex s then
              if e.concatenate then e.concatenateRegisters.length else 1
            else 0) ≠ 0 := by
          split_ifs with hset hmatch hconcatenate
          · exact Nat.one_ne_zero
          · exact hlength hset hconcatenate
          · exact Nat.one_ne_zero
          · exact absurd (hregex hset) hmatch
        constructor
        · intro h
          obtain ⟨_, ⟨⟩, -, hall, -⟩ := h hcount
          exact .inl hall
        · rintro (hall | hout) -
          · exact ⟨s, rfl, hne, hall, hregex⟩
          · exact absurd hout hkept

/-- **The validation keeps its promise exactly under the condition.** -/
theorem admits_iff (hre : host.MatchesForbidden) :
    Admits host ps e val
        (ps.validateRegistryEntry (floatArithmetic host ps pack32 pack64) e val) ↔
      Sure host ps e val := by
  rw [Sure]
  split_ifs with hcodes htext
  · exact admits_iff_codeSure hcodes
  · exact admits_iff_textSure hre (not_not.mp hcodes) htext
  · exact admits_iff_numberSure (not_not.mp hcodes) htext

end Validation

/-! ### A text with a blank -/

/-- A host that knows the pattern of the texts, and no numbers. -/
def textHost : Host := { (default : Host) with
  reMatch := fun pattern s => pattern = "[^a-zA-Z0-9_\\-]" && startsForbidden s }

/-- A text register named `model`. -/
def modelEntry : RegistryMapEntry :=
  Row.entry { cell := "0", variableName := "model", dataType := .ascii } .holding
    { register := 0 } 0

/-- The text `"a b"` is accepted for a text register. -/
theorem not_admits_blank :
    ¬Admits textHost {} modelEntry (.str "a b")
      (({} : ProtocolSettings).validateRegistryEntry
        (floatArithmetic textHost {} (fun _ => .ok []) fun _ => .ok []) modelEntry
        (.str "a b")) := by
  have hone : ({} : ProtocolSettings).validateRegistryEntry
      (floatArithmetic textHost {} (fun _ => .ok []) fun _ => .ok []) modelEntry (.str "a b") =
      .ok 1 := rfl
  rw [hone, admits_of_text rfl (by decide)]
  intro h
  obtain ⟨_, ⟨⟩, -, hall, -⟩ := h Nat.one_ne_zero
  have hblank : ' ' ∈ "a b".toList := by simp
  exact absurd (hall ' ' hblank) (by simp [isTextChar])

/-- The text `"a_b"` is accepted as promised. -/
theorem admits_underscore :
    Admits textHost {} modelEntry (.str "a_b")
        (({} : ProtocolSettings).validateRegistryEntry
          (floatArithmetic textHost {} (fun _ => .ok []) fun _ => .ok []) modelEntry
          (.str "a_b")) ↔
      Sure textHost {} modelEntry (.str "a_b") :=
  admits_iff fun _ => rfl

end ProtocolGateway
