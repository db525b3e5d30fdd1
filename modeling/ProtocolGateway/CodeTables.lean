import Mathlib.Algebra.Ring.Nat
import Std.Data.String.ToInt
import ProtocolGateway.WriteVariable
import ProtocolGateway.MemberFilter

/-!
# Code tables in both directions

A code table shows a description for a decoded number, and writing looks the number up again from
the description. Showing goes through a `float`; looking up strips and lowers the text that is
asked for, and only lowers the descriptions it is compared with.

* `getCode` — `get_code_by_value`.
* `roundToDouble_idem` — a number that has been a `float` once is one.
* `codesInvert_iff` — for a table with distinct descriptions the two directions invert each other
  exactly when no description has blanks around it and no key's `float` is another key.
-/

namespace ProtocolGateway

/-! ## Numbers that are floats -/

/-- A number of 53 bits and zeros after them is not moved by rounding. -/
theorem roundMagnitude_mul {q s : Nat} (hlow : 2 ^ 52 ≤ q) (hhigh : q < 2 ^ 53) :
    roundMagnitude (q * 2 ^ s) = q * 2 ^ s := by
  have hunit : 0 < 2 ^ s := Nat.two_pow_pos s
  have hpos : q * 2 ^ s ≠ 0 := Nat.mul_ne_zero (by omega) hunit.ne'
  have hlog : (q * 2 ^ s).log2 = 52 + s := by
    rw [Nat.log2_eq_iff hpos]
    constructor
    · rw [Nat.pow_add]
      exact Nat.mul_le_mul_right _ hlow
    · rw [show 52 + s + 1 = 53 + s by omega, Nat.pow_add]
      exact (Nat.mul_lt_mul_right hunit).mpr hhigh
  by_cases hsmall : q * 2 ^ s < 2 ^ 53
  · exact roundMagnitude_of_lt hsmall
  · rw [roundMagnitude, if_neg hsmall, hlog, show 52 + s - 52 = s by omega]
    dsimp only
    rw [Nat.mul_mod_left, Nat.mul_div_cancel _ hunit, if_neg (by omega)]

/-- Rounding moves nothing that has been rounded. -/
theorem roundMagnitude_idem (n : Nat) :
    roundMagnitude (roundMagnitude n) = roundMagnitude n := by
  by_cases hsmall : n < 2 ^ 53
  · rw [roundMagnitude_of_lt hsmall, roundMagnitude_of_lt hsmall]
  · have hn : n ≠ 0 := by omega
    have hlog : 53 ≤ n.log2 := (Nat.le_log2 hn).mpr (Nat.le_of_not_lt hsmall)
    generalize hs : n.log2 - 52 = s
    have hlow : 2 ^ 52 * 2 ^ s ≤ n := by
      rw [← Nat.pow_add, show 52 + s = n.log2 by omega]
      exact Nat.log2_self_le hn
    have hhigh : n < 2 ^ 53 * 2 ^ s := by
      rw [← Nat.pow_add, show 53 + s = n.log2 + 1 by omega]
      exact Nat.lt_log2_self
    have hunit : 0 < 2 ^ s := Nat.two_pow_pos s
    -- the quotient has 53 bits, or is `2 ^ 53` after rounding up
    obtain ⟨q, hq, hqlow, hqhigh⟩ :
        ∃ q, roundMagnitude n = q * 2 ^ s ∧ 2 ^ 52 ≤ q ∧ q ≤ 2 ^ 53 := by
      have hdivlow : 2 ^ 52 ≤ n / 2 ^ s := (Nat.le_div_iff_mul_le hunit).mpr hlow
      have hdivhigh : n / 2 ^ s < 2 ^ 53 := (Nat.div_lt_iff_lt_mul hunit).mpr hhigh
      rw [roundMagnitude, if_neg hsmall, hs]
      refine ⟨_, rfl, ?_, ?_⟩
      · split <;> omega
      · split <;> omega
    rw [hq]
    rcases Nat.lt_or_eq_of_le hqhigh with hlt | rfl
    · exact roundMagnitude_mul hqlow hlt
    · have hdouble : 2 ^ 53 * 2 ^ s = 2 ^ 52 * 2 ^ (s + 1) := by
        rw [← Nat.pow_add, ← Nat.pow_add, show 53 + s = 52 + (s + 1) by omega]
      rw [hdouble]
      exact roundMagnitude_mul le_rfl (by decide)

/-- A number that has been a `float` once is one. -/
theorem roundToDouble_idem {i r : Int} (h : roundToDouble i = .ok r) : roundToDouble r = .ok r := by
  unfold roundToDouble at h ⊢
  dsimp only at h ⊢
  generalize 2 ^ 1024 = limit at h ⊢
  split at h
  · cases h
  · next hsmall =>
    injection h with h
    have hmag : r.natAbs = roundMagnitude i.natAbs := by
      rw [← h]
      split <;> simp
    rw [hmag, roundMagnitude_idem, if_neg hsmall, ← hmag]
    congr 1
    split <;> omega

/-! ## The two directions -/

namespace ProtocolSettings

variable (ps : ProtocolSettings)

/-- `get_code_by_value` of an entry and a text. -/
def getCode (e : RegistryMapEntry) (value fallback : String) : Except PyError String :=
  (codeOf (normalized value) (ps.getEntryCodeDict e)).map fun code => code.getD fallback

/-- The write path falls back on the text it asks for. -/
theorem getCodeByValue_eq (e : RegistryMapEntry) (value : String) :
    ps.getCodeByValue e value = ps.getCode e value value := rfl

end ProtocolSettings

/-- A code table with canonical integer keys. -/
def codeTable (table : List (Int × String)) : List (String × Json) :=
  table.map fun kd => (toString kd.1, .str kd.2)

/-- The descriptions differ, ignoring case. -/
def DistinctDescriptions (table : List (Int × String)) : Prop :=
  (table.map fun kd => lowerText kd.2).Nodup

/-- The two directions invert each other for an entry: the description shown for a key gives the
key back, as it is and after the write path has stripped and lowered it; a text that is no
description gives the fallback. -/
structure CodesInvert (ps : ProtocolSettings) (host : Host) (e : RegistryMapEntry)
    (table : List (Int × String)) : Prop where
  shown : ∀ kd ∈ table, ∃ description,
    ps.codeDescriptionForValue host e (.int kd.1) = .ok (some description) ∧
      ∀ fallback, ps.getCode e description fallback = .ok (toString kd.1) ∧
        ps.getCode e (normalized description) fallback = .ok (toString kd.1)
  fallback : ∀ value fallback, (∀ kd ∈ table, lowerText kd.2 ≠ normalized value) →
    ps.getCode e value fallback = .ok fallback

/-- The condition on a table: no description has blanks around it, and every key is a number that
a `float` can hold, if only roughly, without becoming another key. -/
def Invertible (table : List (Int × String)) : Prop :=
  ∀ kd ∈ table, Text.strip kd.2.toList = kd.2.toList ∧
    ∃ r, roundToDouble kd.1 = .ok r ∧ (r = kd.1 ∨ r ∉ table.map Prod.fst)

/-! ## Lookups in a table -/

section Lookups

variable {ps : ProtocolSettings} {host : Host} {e : RegistryMapEntry} {table : List (Int × String)}

theorem toString_int_inj {i j : Int} (h : toString i = toString j) : i = j :=
  Int.repr_injective h

/-- Looking a key up in a code table is looking its number up. -/
theorem lookup_codeTable (table : List (Int × String)) (k : Int) :
    ((codeTable table).lookup (toString k)).bind Json.text? = table.lookup k := by
  induction table with
  | nil => rfl
  | cons kd table ih =>
    obtain ⟨k', d⟩ := kd
    by_cases hk : k = k'
    · subst hk
      simp [codeTable, Json.text?]
    · have hne : (toString k == toString k') = false := by
        simpa using fun h => hk (toString_int_inj h)
      have hne' : (k == k') = false := by simpa using hk
      rw [codeTable, List.map_cons, List.lookup_cons, List.lookup_cons, hne, hne']
      exact ih

/-- Looking a text up is looking for the first description it equals, ignoring case. -/
theorem codeOf_codeTable (value : String) (table : List (Int × String)) :
    ProtocolSettings.codeOf value (codeTable table) =
      .ok ((table.find? fun kd => value = lowerText kd.2).map fun kd => toString kd.1) := by
  induction table with
  | nil => rfl
  | cons kd table ih =>
    obtain ⟨k, d⟩ := kd
    rw [codeTable, List.map_cons, ProtocolSettings.codeOf]
    by_cases hd : value = lowerText d
    · simp [Json.text?, hd]
    · simp only [Json.text?, if_neg hd]
      rw [List.find?_cons_of_neg (by simpa using hd)]
      exact ih

/-- In a table with distinct keys a row is what its key looks up. -/
theorem lookup_of_mem (hkeys : (table.map Prod.fst).Nodup) {k : Int} {d : String} :
    table.lookup k = some d ↔ (k, d) ∈ table :=
  @Dict.get?_eq_some_iff _ _ _ ⟨table, hkeys⟩ _ _

theorem lookup_eq_none (hkeys : (table.map Prod.fst).Nodup) {k : Int} :
    table.lookup k = none ↔ k ∉ table.map Prod.fst :=
  @Dict.get?_eq_none_iff _ _ _ ⟨table, hkeys⟩ _

/-- Among distinct descriptions a row is the one its description finds. -/
theorem find?_of_mem (hdistinct : DistinctDescriptions table) {kd : Int × String}
    (hmem : kd ∈ table) :
    (table.find? fun row => lowerText kd.2 = lowerText row.2) = some kd := by
  have hsome : (table.find? fun row => lowerText kd.2 = lowerText row.2).isSome := by
    rw [List.find?_isSome]
    exact ⟨kd, hmem, by simp⟩
  obtain ⟨row, hrow⟩ := Option.isSome_iff_exists.mp hsome
  have hsame : lowerText kd.2 = lowerText row.2 := by simpa using List.find?_some hrow
  rw [hrow]
  exact congrArg some (List.inj_on_of_nodup_map hdistinct (List.mem_of_find?_eq_some hrow) hmem
    hsame.symm)

theorem lowerText_toList (d : String) : (lowerText d).toList = Text.lower d.toList := by
  rw [lowerText, String.toList_ofList]

theorem normalized_eq (d : String) :
    (normalized d).toList = Text.lower (Text.strip d.toList) := by
  rw [normalized, lowerText_toList, String.toList_ofList]

/-- A text that has been stripped and lowered is not changed by doing so again. -/
theorem normalized_normalized (d : String) : normalized (normalized d) = normalized d := by
  apply String.toList_injective
  rw [normalized_eq, normalized_eq, Text.strip_lower, Text.lower_lower, Text.strip_strip]

/-- Without blanks around it a description is looked for as it is compared. -/
theorem normalized_eq_lowerText_iff (d : String) :
    normalized d = lowerText d ↔ Text.strip d.toList = d.toList := by
  constructor
  · intro h
    have hlist := congrArg String.toList h
    rw [normalized_eq, lowerText_toList] at hlist
    have hlength : (Text.strip d.toList).length = d.toList.length := by
      simpa [Text.lower] using congrArg List.length hlist
    have hsub : Text.strip d.toList <+: d.toList.dropWhile Text.isSpace :=
      List.rdropWhile_prefix _ _
    exact (hsub.sublist.trans (List.dropWhile_sublist _)).eq_of_length hlength
  · intro h
    rw [normalized, h, String.ofList_toList]

/-! ## When the two directions agree -/

variable (htable : ps.getEntryCodeDict e = codeTable table)

include htable

/-- A key is shown with the description of its `float`, or else with its own. -/
theorem description_of_round {k r : Int} (hr : roundToDouble k = .ok r) :
    ps.codeDescriptionForValue host e (.int k) =
      .ok ((table.lookup r).orElse fun _ => table.lookup k) := by
  rw [ProtocolSettings.codeDescriptionForValue, htable]
  simp only [PyValue.toFloatInt, hr, PyValue.text, lookup_codeTable]

/-- A key that no `float` can hold is not shown at all. -/
theorem round_of_description {k : Int} {shown : Option String} (hne : table ≠ [])
    (h : ps.codeDescriptionForValue host e (.int k) = .ok shown) : ∃ r, roundToDouble k = .ok r := by
  rcases hround : roundToDouble k with err | r
  · have herr : err = .overflowError := error_of_roundToDouble hround
    have hrows : (codeTable table).isEmpty = false := by
      rw [List.isEmpty_eq_false_iff]
      exact fun hnil => hne (List.map_eq_nil_iff.mp hnil)
    rw [ProtocolSettings.codeDescriptionForValue, htable] at h
    simp only [PyValue.toFloatInt, hround, herr, hrows] at h
    cases h
  · exact ⟨r, rfl⟩

theorem getCode_eq (value fallback : String) :
    ps.getCode e value fallback = .ok (((table.find? fun kd => normalized value = lowerText kd.2).map
      fun kd => toString kd.1).getD fallback) := by
  rw [ProtocolSettings.getCode, htable, codeOf_codeTable]
  rfl

/-- A text that is no description has no code. -/
theorem getCode_fallback {value : String} (fallback : String)
    (h : ∀ kd ∈ table, lowerText kd.2 ≠ normalized value) :
    ps.getCode e value fallback = .ok fallback := by
  have hnone : (table.find? fun kd => normalized value = lowerText kd.2) = none := by
    rw [List.find?_eq_none]
    intro kd hkd
    simpa using (h kd hkd).symm
  rw [getCode_eq htable, hnone]
  rfl

/-- The code of a description is its key, when no blanks are around it. -/
theorem getCode_of_mem (hdistinct : DistinctDescriptions table) {kd : Int × String}
    (hmem : kd ∈ table) {value : String} (hvalue : normalized value = lowerText kd.2)
    (fallback : String) : ps.getCode e value fallback = .ok (toString kd.1) := by
  rw [getCode_eq htable, hvalue, find?_of_mem hdistinct hmem]
  rfl

/-- A text whose code is a key is its description, ignoring case and blanks around it. -/
theorem normalized_of_getCode (hkeys : (table.map Prod.fst).Nodup) {kd : Int × String}
    (hmem : kd ∈ table) {value : String}
    (h : ∀ fallback, ps.getCode e value fallback = .ok (toString kd.1)) :
    normalized value = lowerText kd.2 := by
  -- asked for with two fallbacks, the code is one that was found
  rcases hfound : table.find? fun row => normalized value = lowerText row.2 with _ | row
  · have hempty := h ""
    have hdash := h "-"
    rw [getCode_eq htable, hfound] at hempty hdash
    rw [← hempty] at hdash
    exact absurd hdash (by decide)
  · have hcode := h ""
    rw [getCode_eq htable, hfound] at hcode
    have hkey : row.1 = kd.1 := toString_int_inj (Except.ok.inj hcode)
    have hrow : row = kd :=
      List.inj_on_of_nodup_map hkeys (List.mem_of_find?_eq_some hfound) hmem hkey
    have := List.find?_some hfound
    rw [hrow] at this
    simpa using this

/-- **Code tables invert exactly when their descriptions have no blanks around them and their keys
survive a `float`.** -/
theorem codesInvert_iff (hkeys : (table.map Prod.fst).Nodup)
    (hdistinct : DistinctDescriptions table) :
    CodesInvert ps host e table ↔ Invertible table := by
  constructor
  · intro h
    have hround : ∀ kd ∈ table, ∃ r, roundToDouble kd.1 = .ok r := by
      intro kd hkd
      obtain ⟨shown, hshown, -⟩ := h.shown kd hkd
      exact round_of_description htable (List.ne_nil_of_mem hkd) hshown
    -- a key whose float is a key is shown with the description of that key, which has one code
    have hfloat : ∀ kd ∈ table, ∀ r, roundToDouble kd.1 = .ok r → r ∈ table.map Prod.fst →
        r = kd.1 := by
      intro kd hkd r hr hkey
      obtain ⟨rd, hrd, rfl⟩ := List.mem_map.mp hkey
      obtain ⟨shown, hshown, hcode⟩ := h.shown kd hkd
      obtain ⟨shown', hroundShown, hroundCode⟩ := h.shown rd hrd
      have hlookup : table.lookup rd.1 = some rd.2 := (lookup_of_mem hkeys).mpr hrd
      rw [description_of_round htable hr, hlookup] at hshown
      rw [description_of_round htable (roundToDouble_idem hr), hlookup] at hroundShown
      have hsame : shown = shown' :=
        (Option.some.inj (Except.ok.inj hshown)).symm.trans
          (Option.some.inj (Except.ok.inj hroundShown))
      have := (hcode "").1
      rw [hsame, (hroundCode "").1] at this
      exact toString_int_inj (Except.ok.inj this)
    intro kd hkd
    obtain ⟨r, hr⟩ := hround kd hkd
    have hrkey : r = kd.1 ∨ r ∉ table.map Prod.fst := by
      by_cases hkey : r ∈ table.map Prod.fst
      · exact .inl (hfloat kd hkd r hr hkey)
      · exact .inr hkey
    refine ⟨?_, r, hr, hrkey⟩
    -- the key is shown with its own description, whose code is the key
    obtain ⟨shown, hshown, hcode⟩ := h.shown kd hkd
    have hlookup : table.lookup kd.1 = some kd.2 := (lookup_of_mem hkeys).mpr hkd
    have hown : shown = kd.2 := by
      rw [description_of_round htable hr, hlookup] at hshown
      rcases hrkey with rfl | hnot
      · rw [hlookup] at hshown
        exact (Option.some.inj (Except.ok.inj hshown)).symm
      · rw [(lookup_eq_none hkeys).mpr hnot] at hshown
        exact (Option.some.inj (Except.ok.inj hshown)).symm
    subst hown
    exact (normalized_eq_lowerText_iff _).mp
      (normalized_of_getCode htable hkeys hkd fun fallback => (hcode fallback).1)
  · intro h
    refine ⟨?_, fun value fallback hno => getCode_fallback htable fallback hno⟩
    intro kd hkd
    obtain ⟨hstrip, r, hr, hrkey⟩ := h kd hkd
    have hlookup : table.lookup kd.1 = some kd.2 := (lookup_of_mem hkeys).mpr hkd
    have hnormal : normalized kd.2 = lowerText kd.2 := (normalized_eq_lowerText_iff _).mpr hstrip
    refine ⟨kd.2, ?_, fun fallback => ⟨?_, ?_⟩⟩
    · rw [description_of_round htable hr, hlookup]
      rcases hrkey with rfl | hnot
      · rw [hlookup]
        rfl
      · rw [(lookup_eq_none hkeys).mpr hnot]
        rfl
    · exact getCode_of_mem htable hdistinct hkd hnormal fallback
    · exact getCode_of_mem htable hdistinct hkd ((normalized_normalized _).trans hnormal) fallback

end Lookups

/-! ### A description with a blank -/

/-- A protocol with one table. -/
def tableProtocol (table : List (Int × String)) : ProtocolSettings where
  codes := [("mode_codes", .dict (codeTable table))]

/-- A holding register with the variable name `mode`. -/
def modeEntry : RegistryMapEntry :=
  Row.entry { cell := "0", variableName := "mode" } .holding { register := 0 } 0

theorem getEntryCodeDict_tableProtocol (table : List (Int × String)) (hne : table ≠ []) :
    (tableProtocol table).getEntryCodeDict modeEntry = codeTable table := by
  obtain ⟨kd, table, rfl⟩ := List.exists_cons_of_ne_nil hne
  rfl

/-- A description with a blank after it is shown for its key and not found again. -/
theorem not_codesInvert_trailing_blank :
    ¬CodesInvert (tableProtocol [(0, "Off"), (1, "Eco ")]) default modeEntry
      [(0, "Off"), (1, "Eco ")] := by
  intro h
  obtain ⟨shown, hshown, hcode⟩ := h.shown (1, "Eco ") (by simp)
  have hround : roundToDouble 1 = .ok 1 := roundToDouble_of_lt (by decide)
  have heco : shown = "Eco " := by
    rw [description_of_round (getEntryCodeDict_tableProtocol _ (by simp)) hround] at hshown
    exact (Option.some.inj (Except.ok.inj hshown)).symm
  have hlost := (hcode "none").1
  rw [heco, getCode_fallback (getEntryCodeDict_tableProtocol _ (by simp)) "none" (by decide)]
    at hlost
  exact absurd hlost (by decide)

/-- Without the blank both keys come back. -/
theorem codesInvert_off_eco :
    CodesInvert (tableProtocol [(0, "Off"), (1, "Eco")]) default modeEntry
        [(0, "Off"), (1, "Eco")] ↔ Invertible [(0, "Off"), (1, "Eco")] :=
  codesInvert_iff (getEntryCodeDict_tableProtocol _ (by simp)) (by decide)
    (by unfold DistinctDescriptions; decide)

end ProtocolGateway
