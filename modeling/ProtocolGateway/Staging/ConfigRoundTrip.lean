import ProtocolGateway.Staging.Settings
import ProtocolGateway.Lib.Trim
import Mathlib.Data.List.Infix
import Mathlib.Data.List.Dedup

/-!
# Writing and reading `config.cfg`

`buildConfigText` writes values as they are; the parser trims them, cuts them at `#`, replaces `%`
sequences, and takes every line for itself.
-/

namespace ProtocolGateway

open ConfigParser Trim
open Text (isSpace strip fileLines fileLines_intercalate mem_intercalate)

/-! ## Lines -/

/-- A text that is one line without blanks around it. -/
def IsLine (s : List Char) : Prop := Trimmed isSpace s ∧ '\n' ∉ s ∧ '\r' ∉ s

/-- A text `OPTCRE` can take for the name of an option. -/
structure IsOptionName (k : String) : Prop where
  line : IsLine k.toList
  ne_nil : k.toList ≠ []
  noDelimiter : '=' ∉ k.toList ∧ ':' ∉ k.toList
  noComment : ∀ c, k.toList.head? = some c → c ≠ '#' ∧ c ≠ ';'

/-- A header is taken for a header. -/
theorem header?_headerLine {s : String} (h : s ≠ "") : header? (headerLine s) = some s.toList := by
  have hne : s.toList ≠ [] := by simpa using h
  have hstop : ((s.toList ++ [']']).rdropWhile (· ≠ ']')) = s.toList ++ [']'] :=
    List.rdropWhile_concat_neg _ _ _ (by decide)
  have hlen : ¬(s.toList ++ [']']).length < 2 := by
    have := List.length_pos_of_ne_nil hne
    rw [List.length_append, List.length_singleton]
    omega
  rw [headerLine, List.cons_append, header?]
  simp only [hstop, if_neg hlen, List.dropLast_concat]

/-- A header has no blanks around it. -/
theorem clean?_headerLine (s : String) : clean? (headerLine s) = some (headerLine s) := by
  have htrimmed : strip (headerLine s) = headerLine s := by
    refine Trimmed.trim_eq ⟨fun x hx => ?_, fun x hx => ?_⟩
    · obtain rfl : '[' = x := Option.some.inj hx
      decide
    · rw [headerLine, List.getLast?_concat] at hx
      obtain rfl := Option.some.inj hx
      decide
  unfold clean?
  rw [htrimmed]
  rfl

/-- What is left of a setting's line once the blanks around it are removed. -/
theorem strip_settingLine {k : String} (hk : IsOptionName k) (v : String) :
    strip (settingLine k v) = k.toList ++ ' ' :: '=' :: rstrip (' ' :: v.toList) := by
  have hline : settingLine k v = (k.toList ++ [' ']) ++ '=' :: ' ' :: v.toList := by
    simp [settingLine]
  rw [hline, Text.strip_eq_trim, trim_append_cons (by decide) (by simp)]
  · simp [rstrip]
  · intro y hy
    rw [List.head?_append_of_ne_nil _ hk.ne_nil] at hy
    exact hk.line.1.1 y hy

theorem clean?_settingLine {k : String} (hk : IsOptionName k) (v : String) :
    clean? (settingLine k v) =
      some (k.toList ++ ' ' :: '=' :: rstrip (' ' :: v.toList)) := by
  unfold clean?
  rw [strip_settingLine hk]
  refine if_neg fun h => ?_
  rw [List.head?_append_of_ne_nil _ hk.ne_nil] at h
  rcases h with h | h
  · exact (hk.noComment _ h).1 rfl
  · exact (hk.noComment _ h).2 rfl

/-- `OPTCRE` finds the name and the value of a setting's line. -/
theorem option?_settingLine {k : String} (hk : IsOptionName k) {v : List Char}
    (hv : Trimmed isSpace v) :
    option? (k.toList ++ ' ' :: '=' :: rstrip (' ' :: v)) = some (k.toList, v) := by
  have hname : ((k.toList ++ ' ' :: '=' :: rstrip (' ' :: v)).takeWhile
      fun c => c ≠ '=' ∧ c ≠ ':') = k.toList ++ [' '] := by
    have hkeep : ∀ c ∈ k.toList ++ [' '], decide (c ≠ '=' ∧ c ≠ ':') = true := by
      intro c hc
      rw [decide_eq_true_eq]
      rcases List.mem_append.mp hc with hc | hc
      · exact ⟨fun h => hk.noDelimiter.1 (h ▸ hc), fun h => hk.noDelimiter.2 (h ▸ hc)⟩
      · obtain rfl := List.mem_singleton.mp hc
        decide
    rw [show k.toList ++ ' ' :: '=' :: rstrip (' ' :: v) =
      (k.toList ++ [' ']) ++ '=' :: rstrip (' ' :: v) by simp,
      List.takeWhile_append_of_pos hkeep, List.takeWhile_cons_of_neg (by decide), List.append_nil]
  have hdrop : (k.toList ++ ' ' :: '=' :: rstrip (' ' :: v)).drop (k.toList ++ [' ']).length =
      '=' :: rstrip (' ' :: v) := by
    rw [show k.toList ++ ' ' :: '=' :: rstrip (' ' :: v) =
      (k.toList ++ [' ']) ++ '=' :: rstrip (' ' :: v) by simp, List.drop_left]
  have hblank : ∀ x ∈ [' '], isSpace x = true := by
    intro x hx
    obtain rfl := List.mem_singleton.mp hx
    decide
  have hrstrip : rstrip (k.toList ++ [' ']) = k.toList := by
    rw [rstrip, rdropWhile_append_of_forall hblank, rdropWhile_eq_self hk.line.1.2]
  have hvalue : strip (rstrip (' ' :: v)) = v := by
    rw [Text.strip_eq_trim, rstrip, trim_rdropWhile, trim_cons (by decide), hv.trim_eq]
  unfold option?
  simp only [hname, hdrop, hrstrip, hvalue]

/-- Fewer than two elements stay up to the last `a` of a list if none behind the first is one. -/
theorem length_rdropWhile_lt_two {rest : List Char} {a : Char} :
    (rest.rdropWhile (· ≠ a)).length < 2 ↔ a ∉ rest.drop 1 := by
  cases rest with
  | nil => simp
  | cons x l =>
    rw [List.drop_one, List.tail_cons]
    by_cases ha : a ∈ l
    · obtain ⟨s, t, rfl⟩ := List.append_of_mem ha
      rw [← List.cons_append, rdropWhile_append_cons (by simp)]
      refine iff_of_false ?_ (not_not.mpr ha)
      simp only [List.length_append, List.length_cons]
      omega
    · have hall : ∀ c ∈ l, decide (c ≠ a) = true := by
        intro c hc
        rw [decide_eq_true_eq]
        rintro rfl
        exact ha hc
      have hlen := (List.rdropWhile_prefix (· ≠ a) [x]).length_le
      rw [← List.singleton_append, rdropWhile_append_of_forall hall]
      rw [List.length_singleton] at hlen
      exact iff_of_true (by omega) ha

/-- A line opens a header if a `]` stands behind its `[` and at least one character. -/
theorem header?_eq_none_iff {text : List Char} :
    header? text = none ↔ (text.head? = some '[' → ']' ∉ text.drop 2) := by
  cases text with
  | nil => simp [header?]
  | cons c rest =>
    by_cases hc : c = '['
    · subst hc
      rw [header?, List.head?_cons, List.drop_succ_cons, ← length_rdropWhile_lt_two]
      split
      · next hlen => simpa using hlen
      · next hlen => simpa using hlen
    · simp [header?, hc]

/-! ## One line -/

/-- The value of an option in what has been read. -/
def ConfigParser.Reading.value? (st : Reading) (s k : String) : Option (List Char) :=
  ((st.contents.options s).get? k).map rawValue

theorem options_set (contents : Contents) (s : String) (d : Dict String (List (List Char)))
    (s' : String) :
    Contents.options (contents.set s d) s' = if s' = s then d else contents.options s' := by
  unfold Contents.options
  rw [Dict.get?_set]
  split <;> rfl

/-- What a reading has found: the sections `secs` and the settings `done`. -/
structure Reads (st : Reading) (secs : List String) (done : List (SettingKey × List Char)) :
    Prop where
  sections : ∀ s, s ∈ st.contents.keys ↔ s = defaultSection ∨ s ∈ secs
  values : ∀ s k v, st.value? s k = some v ↔ ((s, k), v) ∈ done
  cursect : ∀ s, st.cursect = some s → s ∈ secs
  optname : ∀ s k, st.cursect = some s → st.optname = some k → ∃ v, ((s, k), v) ∈ done

variable {optionxform : String → String} {st : Reading} {secs : List String}
  {done : List (SettingKey × List Char)}

/-- Before the first line nothing has been found. -/
theorem Reads.init : Reads {} [] [] := by
  refine ⟨fun s => ?_, fun s k v => ?_, fun s hs => ?_, fun s k hs => ?_⟩
  · rw [show ({} : Reading).contents = Dict.empty.set defaultSection Dict.empty from rfl,
      Dict.mem_keys_set]
    simp [Dict.keys]
  · refine iff_of_false ?_ List.not_mem_nil
    rw [Reading.value?, show ({} : Reading).contents =
      Dict.empty.set defaultSection Dict.empty from rfl, options_set]
    split
    · simp [Dict.get?]
    · simp [Contents.options, Dict.get?]
  · cases hs
  · cases hs

/-- A line that does not start with a blank continues nothing. -/
theorem readLine_of_clean {line text : List Char} (hclean : clean? line = some text)
    (hne : text ≠ []) (hindent : ∀ x, line.head? = some x → ¬isSpace x) :
    st.readLine optionxform line = st.handleRest optionxform 0 text := by
  obtain ⟨c, text, rfl⟩ := List.exists_cons_of_ne_nil hne
  have hzero : (line.takeWhile isSpace).length = 0 := by
    cases line with
    | nil => rfl
    | cons x line => rw [List.takeWhile_cons_of_neg (hindent x rfl), List.length_nil]
  unfold Reading.readLine
  rw [hclean]
  dsimp only
  rw [hzero, if_neg fun h => absurd h.2.2 (Nat.not_lt_zero _)]

/-- A header opens a new section. -/
theorem Reads.header (h : Reads st secs done) {s : String} (hne : s ≠ "")
    (hdefault : s ≠ defaultSection) (hnew : s ∉ secs) (hdone : ∀ kv ∈ done, kv.1.1 ≠ s) :
    ∃ st', st.readLine optionxform (headerLine s) = some st' ∧ Reads st' (secs ++ [s]) done ∧
      st'.cursect = some s := by
  have hkeys : s ∉ st.contents.keys := by
    rw [h.sections, not_or]
    exact ⟨hdefault, hnew⟩
  rw [readLine_of_clean (clean?_headerLine s) (by simp [headerLine])
    fun x hx => by obtain rfl : '[' = x := Option.some.inj hx; decide]
  refine ⟨{ contents := st.contents.set s Dict.empty, cursect := some s, optname := none,
            indentLevel := 0 }, ?_, ⟨fun s' => ?_, fun s' k v => ?_, fun s' hs' => ?_, ?_⟩, rfl⟩
  · unfold Reading.handleRest
    rw [header?_headerLine hne]
    dsimp only
    rw [String.ofList_toList, Reading.handleHeader, if_neg hdefault, if_neg hkeys]
  · rw [Dict.mem_keys_set, h.sections, List.mem_append, List.mem_singleton]
    tauto
  · unfold Reading.value?
    rw [options_set]
    split
    · next heq =>
      refine iff_of_false (by simp [Dict.get?]) fun hmem => ?_
      exact hdone _ hmem heq
    · exact h.values s' k v
  · exact List.mem_append_right _ (List.mem_singleton.mpr (Option.some.inj hs').symm)
  · intro s' k _ hk
    cases hk

/-- What is left of a setting's line opens no header if the line does not. -/
theorem header?_clean_settingLine {k v : String} (hk : IsOptionName k)
    (hheader : k.toList.head? = some '[' → ']' ∉ (settingLine k v).drop 2) :
    header? (k.toList ++ ' ' :: '=' :: rstrip (' ' :: v.toList)) = none := by
  refine header?_eq_none_iff.mpr fun hhead hmem => ?_
  rw [List.head?_append_of_ne_nil _ hk.ne_nil] at hhead
  refine hheader hhead ?_
  have hprefix : k.toList ++ ' ' :: '=' :: rstrip (' ' :: v.toList) <+: settingLine k v := by
    obtain ⟨t, ht⟩ := List.rdropWhile_prefix isSpace (' ' :: v.toList)
    refine ⟨t, ?_⟩
    rw [settingLine, List.append_assoc, List.append_assoc, List.cons_append, List.cons_append,
      rstrip, ht]
    rfl
  exact (List.IsPrefix.drop hprefix 2).subset hmem

/-- What `_handle_option` does with an option that is not there yet. -/
theorem handleOption_of_option? {text name value : List Char} {s : String}
    (htext : option? text = some (name, value)) (hname : name ≠ [])
    (hnew : optionxform (String.ofList name) ∉ (st.contents.options s).keys) :
    st.handleOption optionxform 0 s text =
      some { st with
        contents := st.contents.set s
          ((st.contents.options s).set (optionxform (String.ofList name)) [value])
        optname := some (optionxform (String.ofList name)), indentLevel := 0 } := by
  obtain ⟨c, name, rfl⟩ := List.exists_cons_of_ne_nil hname
  unfold Reading.handleOption
  rw [htext]
  exact if_neg hnew

/-- A setting's line adds the setting to the current section. -/
theorem Reads.setting (h : Reads st secs done) {s k v : String}
    (hcur : st.cursect = some s) (hk : IsOptionName k) (hxform : optionxform k = k)
    (hv : Trimmed isSpace v.toList)
    (hheader : k.toList.head? = some '[' → ']' ∉ (settingLine k v).drop 2)
    (hnew : ∀ kv ∈ done, kv.1 ≠ (s, k)) :
    ∃ st', st.readLine optionxform (settingLine k v) = some st' ∧
      Reads st' secs (done ++ [((s, k), v.toList)]) ∧ st'.cursect = some s := by
  have hkey : k ∉ (st.contents.options s).keys := by
    intro hmem
    obtain ⟨pieces, hpieces⟩ := Dict.mem_keys.mp hmem
    have hvalue : st.value? s k = some (rawValue pieces) := by
      rw [Reading.value?, Dict.get?_eq_some_iff.mpr hpieces]
      rfl
    exact hnew _ ((h.values s k _).mp hvalue) rfl
  have hstart : ∀ x, (settingLine k v).head? = some x → ¬isSpace x := by
    intro x hx
    rw [settingLine, List.append_assoc, List.head?_append_of_ne_nil _ hk.ne_nil] at hx
    exact hk.line.1.1 x hx
  rw [readLine_of_clean (clean?_settingLine hk v) (by simp) hstart, Reading.handleRest,
    header?_clean_settingLine hk hheader]
  dsimp only
  rw [hcur, Option.bind_some,
    handleOption_of_option? (option?_settingLine hk hv) hk.ne_nil (by
      rw [String.ofList_toList, hxform]
      exact hkey), String.ofList_toList, hxform]
  refine ⟨_, rfl, ⟨fun s' => ?_, fun s' k' v' => ?_, fun s' hs' => h.cursect s' (hcur ▸ hs'),
    fun s' k' hs' hk' => ?_⟩, hcur⟩
  · rw [Dict.mem_keys_set, h.sections]
    refine ⟨fun hmem => hmem.elim ?_ id, Or.inr⟩
    rintro rfl
    exact Or.inr (h.cursect _ hcur)
  · have hraw : rawValue [v.toList] = v.toList := by
      rw [rawValue, List.intercalate_singleton, rstrip, rdropWhile_eq_self hv.2]
    rw [List.mem_append, List.mem_singleton, ← h.values, Reading.value?, Reading.value?,
      options_set]
    by_cases hs : s' = s
    · subst hs
      rw [if_pos rfl, Dict.get?_set]
      by_cases hk' : k' = k
      · subst hk'
        have hnone : (st.contents.options s').get? k' = none :=
          Dict.get?_eq_none_iff.mpr hkey
        rw [if_pos rfl, hnone, Option.map_some, hraw]
        simp [eq_comm]
      · rw [if_neg hk']
        simp [hk']
    · rw [if_neg hs]
      simp [hs]
  · obtain rfl : s = s' := Option.some.inj (hcur.symm.trans hs')
    obtain rfl : k = k' := Option.some.inj hk'
    exact ⟨_, List.mem_append_right _ (List.mem_singleton_self _)⟩

/-- An empty line is trimmed off the end of a value. -/
theorem rawValue_concat_nil (pieces : List (List Char)) :
    rawValue (pieces ++ [[]]) = rawValue pieces := by
  cases pieces with
  | nil => rfl
  | cons p pieces =>
    have hjoin : ['\n'].intercalate (p :: pieces ++ [[]]) =
        ['\n'].intercalate (p :: pieces) ++ ['\n'] := by
      induction pieces generalizing p with
      | nil => simp
      | cons q pieces ih => simpa [List.intercalate_cons_cons] using ih q
    have hblank : ∀ x ∈ ['\n'], isSpace x = true := by
      intro x hx
      obtain rfl := List.mem_singleton.mp hx
      decide
    rw [rawValue, hjoin, rstrip, rdropWhile_append_of_forall hblank, rawValue, rstrip]

variable (optionxform) in
/-- A blank line changes nothing. -/
theorem Reads.blank (h : Reads st secs done) :
    ∃ st', st.readLine optionxform [] = some st' ∧ Reads st' secs done := by
  refine ⟨st.append [], rfl, ?_⟩
  unfold Reading.append
  split
  · next s k hs hk =>
    obtain ⟨v, hv⟩ := h.optname s k hs hk
    have hvalue := (h.values s k v).mpr hv
    refine ⟨fun s' => ?_, fun s' k' v' => ?_, h.cursect, h.optname⟩
    · rw [Dict.mem_keys_set, h.sections]
      refine ⟨fun hmem => hmem.elim ?_ id, Or.inr⟩
      rintro rfl
      exact Or.inr (h.cursect _ hs)
    · rw [← h.values, Reading.value?, Reading.value?, options_set]
      by_cases hs' : s' = s
      · subst hs'
        rw [if_pos rfl, Dict.get?_set]
        by_cases hk' : k' = k
        · subst hk'
          obtain ⟨pieces, hpieces, -⟩ := Option.map_eq_some_iff.mp hvalue
          rw [if_pos rfl, hpieces, Option.getD_some, Option.map_some, rawValue_concat_nil,
            Option.map_some]
        · rw [if_neg hk']
      · rw [if_neg hs']
  · exact h

/-! ## The whole file -/

/-- A setting that is read back as it was written. -/
structure PlainSetting (optionxform : String → String) (key : SettingKey) (value : String) :
    Prop where
  section_ne : key.1 ≠ ""
  section_default : key.1 ≠ defaultSection
  section_line : '\n' ∉ key.1.toList ∧ '\r' ∉ key.1.toList
  key_name : IsOptionName key.2
  key_xform : optionxform key.2 = key.2
  key_kept : key.2 ∉ removedKeys
  /-- the setting's line does not look like a header -/
  no_header : key.2.toList.head? = some '[' → ']' ∉ (settingLine key.2 value).drop 2
  value_line : IsLine value.toList
  value_plain : '#' ∉ value.toList ∧ '%' ∉ value.toList

/-- A row as it is read back. -/
def entry (row : SettingRow) : SettingKey × List Char := (row.1, row.2.written.toList)

/-- The settings of a section are read one after the other. -/
theorem Reads.settings {s : String} {own : List SettingRow} (h : Reads st secs done)
    (hcur : st.cursect = some s) (hsection : ∀ row ∈ own, row.1.1 = s)
    (hplain : ∀ row ∈ own, PlainSetting optionxform row.1 row.2.written) (hnodup : (own.map Prod.fst).Nodup)
    (hnew : ∀ row ∈ own, ∀ kv ∈ done, kv.1 ≠ row.1) :
    ∃ st', (own.map fun row => settingLine row.1.2 row.2.written).foldlM
        (Reading.readLine optionxform) st = some st' ∧
      Reads st' secs (done ++ own.map entry) := by
  induction own generalizing st done with
  | nil => exact ⟨st, rfl, by simpa using h⟩
  | cons row own ih =>
    obtain ⟨⟨s', k⟩, setting⟩ := row
    obtain rfl : s' = s := hsection _ List.mem_cons_self
    have hrow := hplain _ List.mem_cons_self
    rw [List.map_cons, List.nodup_cons] at hnodup
    obtain ⟨st', hst', hreads, hcur'⟩ := h.setting hcur hrow.key_name hrow.key_xform
      hrow.value_line.1 hrow.no_header (hnew _ List.mem_cons_self)
    obtain ⟨st'', hst'', hreads'⟩ := ih hreads hcur'
      (fun row hrow => hsection row (List.mem_cons_of_mem _ hrow))
      (fun row hrow => hplain row (List.mem_cons_of_mem _ hrow)) hnodup.2 (by
        intro row hmem kv hkv heq
        rcases List.mem_append.mp hkv with hkv | hkv
        · exact hnew row (List.mem_cons_of_mem _ hmem) kv hkv heq
        · obtain rfl := List.mem_singleton.mp hkv
          exact hnodup.1 (List.mem_map.mpr ⟨row, hmem, heq.symm⟩))
    refine ⟨st'', ?_, ?_⟩
    · rw [List.map_cons, List.foldlM_cons, hst']
      exact hst''
    · rw [List.append_assoc] at hreads'
      exact hreads'

/-- The rows of a section, in the order of the table. -/
def sectionRows (rows : List SettingRow) (s : String) : List SettingRow :=
  rows.filter fun row => row.1.1 = s

theorem mem_sectionRows {rows : List SettingRow} {s : String} {row : SettingRow} :
    row ∈ sectionRows rows s ↔ row ∈ rows ∧ row.1.1 = s := by
  simp [sectionRows]

/-- The lines of a section without the blank line behind it. -/
def sectionBody (rows : List SettingRow) (s : String) : List (List Char) :=
  headerLine s :: (sectionRows rows s).map fun row => settingLine row.1.2 row.2.written

/-- What has been read after a list of sections. -/
def entries (rows : List SettingRow) (secs : List String) : List (SettingKey × List Char) :=
  secs.flatMap fun s => (sectionRows rows s).map entry

theorem mem_entries {rows : List SettingRow} {kv : SettingKey × List Char} :
    kv ∈ entries rows secs ↔ kv.1.1 ∈ secs ∧ ∃ row ∈ rows, entry row = kv := by
  constructor
  · intro h
    obtain ⟨s, hs, hkv⟩ := List.mem_flatMap.mp h
    obtain ⟨row, hrow, rfl⟩ := List.mem_map.mp hkv
    obtain ⟨hmem, rfl⟩ := mem_sectionRows.mp hrow
    exact ⟨hs, row, hmem, rfl⟩
  · rintro ⟨hs, row, hrow, rfl⟩
    exact List.mem_flatMap.mpr ⟨_, hs, List.mem_map.mpr ⟨row, mem_sectionRows.mpr ⟨hrow, rfl⟩, rfl⟩⟩

section File

variable {rows : List SettingRow} (hplain : ∀ row ∈ rows, PlainSetting optionxform row.1 row.2.written)
  (hnodup : (rows.map Prod.fst).Nodup)

include hplain hnodup

/-- A section is read. -/
theorem Reads.body (h : Reads st secs (entries rows secs)) {s : String} (hnew : s ∉ secs)
    (hsome : ∃ row ∈ rows, row.1.1 = s) :
    ∃ st', (sectionBody rows s).foldlM (Reading.readLine optionxform) st = some st' ∧
      Reads st' (secs ++ [s]) (entries rows (secs ++ [s])) := by
  have hother : ∀ kv ∈ entries rows secs, kv.1.1 ≠ s := by
    rintro kv hkv rfl
    exact hnew (mem_entries.mp hkv).1
  obtain ⟨row, hrow, rfl⟩ := hsome
  obtain ⟨st', hst', hreads, hcur⟩ := h.header (hplain row hrow).section_ne
    (hplain row hrow).section_default hnew hother
  obtain ⟨st'', hst'', hreads'⟩ := hreads.settings hcur
    (fun row' (hrow' : row' ∈ sectionRows rows row.1.1) => (mem_sectionRows.mp hrow').2)
    (fun row' hrow' => hplain row' (mem_sectionRows.mp hrow').1)
    (hnodup.sublist (List.filter_sublist.map Prod.fst)) (by
      intro row' hrow' kv hkv heq
      exact hother kv hkv (heq ▸ (mem_sectionRows.mp hrow').2))
  refine ⟨st'', ?_, ?_⟩
  · rw [sectionBody, List.foldlM_cons, hst']
    exact hst''
  · rw [entries, List.flatMap_append]
    simpa [entries] using hreads'

/-- So are all sections, -/
theorem Reads.sectionLines {order : List String} (h : Reads st secs (entries rows secs))
    (horder : (secs ++ order).Nodup) (hsome : ∀ s ∈ order, ∃ row ∈ rows, row.1.1 = s) :
    ∃ st', (order.flatMap (ProtocolGateway.sectionLines rows)).foldlM
        (Reading.readLine optionxform) st = some st' ∧
      Reads st' (secs ++ order) (entries rows (secs ++ order)) := by
  induction order generalizing st secs with
  | nil => exact ⟨st, rfl, by simpa using h⟩
  | cons s order ih =>
    have hnew : s ∉ secs := fun hmem =>
      (List.nodup_append.mp horder).2.2 s hmem s List.mem_cons_self rfl
    obtain ⟨st₁, hst₁, h₁⟩ := h.body hplain hnodup hnew (hsome s List.mem_cons_self)
    obtain ⟨st₂, hst₂, h₂⟩ := h₁.blank optionxform
    rw [List.append_cons] at horder ⊢
    obtain ⟨st₃, hst₃, h₃⟩ := ih h₂ horder fun s' hs' => hsome s' (List.mem_cons_of_mem _ hs')
    refine ⟨st₃, ?_, h₃⟩
    rw [List.flatMap_cons, List.foldlM_append,
      show ProtocolGateway.sectionLines rows s = sectionBody rows s ++ [[]] from rfl,
      List.foldlM_append, hst₁]
    simp [hst₂, hst₃]

/-- and so is the whole file. -/
theorem read_sectionLines {order : List String} (horder : order.Nodup)
    (hsome : ∀ s ∈ order, ∃ row ∈ rows, row.1.1 = s) :
    ∃ st, read optionxform (['\n'].intercalate
        (order.flatMap (ProtocolGateway.sectionLines rows))) = some st.contents ∧
      Reads st order (entries rows order) := by
  have hlines : ∀ s ∈ order, ∀ line ∈ sectionBody rows s, '\n' ∉ line ∧ '\r' ∉ line := by
    intro s hs line hline
    rcases List.mem_cons.mp hline with rfl | hline
    · obtain ⟨row, hrow, rfl⟩ := hsome s hs
      have hline := (hplain row hrow).section_line
      simp [headerLine, hline]
    · obtain ⟨row, hrow, rfl⟩ := List.mem_map.mp hline
      have hrow := hplain row (mem_sectionRows.mp hrow).1
      have hkey := hrow.key_name.line.2
      have hvalue := hrow.value_line.2
      simp [settingLine, hkey, hvalue]
  cases order using List.reverseRecOn with
  | nil => exact ⟨{}, rfl, Reads.init⟩
  | append_singleton order s _ =>
    have hnew : s ∉ order := fun hmem =>
      (List.nodup_append.mp horder).2.2 s hmem s (List.mem_singleton_self s) rfl
    obtain ⟨st, hst, hreads⟩ := Reads.sectionLines hplain hnodup Reads.init
      (List.nodup_append.mp horder).1
      fun s' hs' => hsome s' (List.mem_append_left _ hs')
    rw [List.nil_append] at hreads
    obtain ⟨st', hst', hreads'⟩ := hreads.body hplain hnodup hnew
      (hsome s (List.mem_append_right _ (List.mem_singleton_self s)))
    refine ⟨st', ?_, hreads'⟩
    have hconcat : (order ++ [s]).flatMap (ProtocolGateway.sectionLines rows) =
        (order.flatMap (ProtocolGateway.sectionLines rows) ++ sectionBody rows s) ++ [[]] := by
      rw [List.flatMap_append, List.flatMap_singleton, List.append_assoc]
      rfl
    rw [ConfigParser.read, hconcat, fileLines_intercalate, List.foldlM_append, hst]
    · rw [Option.bind_eq_bind, Option.bind_some, hst']
      rfl
    · intro line hline
      rcases List.mem_append.mp hline with hline | hline
      · obtain ⟨s', hs', hline⟩ := List.mem_flatMap.mp hline
        rcases List.mem_append.mp (show line ∈ sectionBody rows s' ++ [[]] from hline) with hl | hl
        · exact hlines s' (List.mem_append_left _ hs') line hl
        · obtain rfl := List.mem_singleton.mp hl
          exact ⟨List.not_mem_nil, List.not_mem_nil⟩
      · exact hlines s (List.mem_append_right _ (List.mem_singleton_self s)) line hline

end File

/-! ## What is read back -/

/-- A search that finds something for every element. -/
theorem mapM_eq_some_map {α β : Type} {f : α → Option β} {g : α → β} {l : List α}
    (h : ∀ x ∈ l, f x = some (g x)) : l.mapM f = some (l.map g) := by
  induction l with
  | nil => rfl
  | cons x l ih =>
    rw [List.mapM_cons, h x List.mem_cons_self,
      ih fun y hy => h y (List.mem_cons_of_mem _ hy)]
    rfl

/-- A value without `%` is not interpolated. -/
theorem interpolate_of_notMem {values : String → Option (List Char)} {depth : Nat}
    {raw : List Char} (h : '%' ∉ raw) : interpolate optionxform values depth raw = some raw := by
  cases depth with
  | zero => exact if_neg h
  | succ depth => exact if_neg h

/-- A plain value is not cut. -/
theorem cutComment_eq_self {value : List Char} (h : Trimmed isSpace value) (hcomment : '#' ∉ value) :
    cutComment value = value := by
  have hkeep : value.takeWhile (· ≠ '#') = value := by
    refine List.takeWhile_eq_self_iff.mpr fun c hc => ?_
    rw [decide_eq_true_eq]
    rintro rfl
    exact hcomment hc
  rw [cutComment, hkeep, Text.strip_eq_trim, h.trim_eq]

/-- The sections. -/
theorem Reads.mem_sections (h : Reads st secs done) (hsecs : defaultSection ∉ secs) (s : String) :
    s ∈ st.contents.sections ↔ s ∈ secs := by
  rw [Contents.sections, List.mem_filter, decide_eq_true_eq, h.sections]
  constructor
  · rintro ⟨hs, hne⟩
    exact hs.resolve_left hne
  · intro hs
    refine ⟨Or.inr hs, ?_⟩
    rintro rfl
    exact hsecs hs

section Lookups

variable (h : Reads st secs done) (hdone : ∀ kv ∈ done, kv.1.1 ≠ defaultSection)

include h hdone

/-- Nothing is in `DEFAULT`, so a section has the options it was read with. -/
theorem Reads.get?_unify (s k : String) :
    (st.contents.unify s).get? k = (st.contents.options s).get? k := by
  have hnone : (st.contents.options defaultSection).get? k = none := by
    by_contra hne
    obtain ⟨pieces, hpieces⟩ := Option.ne_none_iff_exists'.mp hne
    have hvalue : st.value? defaultSection k = some (rawValue pieces) := by
      rw [Reading.value?, hpieces]
      rfl
    exact hdone _ ((h.values _ k _).mp hvalue) rfl
  rw [Contents.unify, Dict.get?_update (st.contents.options s).nodup, hnone, Option.or_none]
  rfl

/-- The value of a setting before interpolation. -/
theorem Reads.raw? (s k : String) (v : List Char) :
    st.contents.raw? s k = some v ↔ ((s, k), v) ∈ done := by
  rw [Contents.raw?, h.get?_unify hdone]
  exact h.values s k v

/-- The keys of a section. -/
theorem Reads.mem_keys_unify (s k : String) :
    k ∈ (st.contents.unify s).keys ↔ ∃ v, ((s, k), v) ∈ done := by
  rw [Dict.mem_keys]
  constructor
  · rintro ⟨pieces, hpieces⟩
    refine ⟨rawValue pieces, (h.raw? hdone s k _).mp ?_⟩
    rw [Contents.raw?, Dict.get?_eq_some_iff.mpr hpieces]
    rfl
  · rintro ⟨v, hv⟩
    obtain ⟨pieces, hpieces, -⟩ := Option.map_eq_some_iff.mp ((h.raw? hdone s k v).mpr hv)
    exact ⟨pieces, Dict.get?_eq_some_iff.mp hpieces⟩

/-- A setting without `%` has the value it was read with. -/
theorem Reads.value? {s k : String} {v : List Char} (hmem : ((s, k), v) ∈ done) (hv : '%' ∉ v) :
    st.contents.value? optionxform s k = some v := by
  rw [Contents.value?, (h.raw? hdone s k v).mpr hmem, Option.bind_some, interpolate_of_notMem hv]

variable (hplain : ∀ kv ∈ done, Trimmed isSpace kv.2 ∧ '#' ∉ kv.2 ∧ '%' ∉ kv.2)

include hplain

/-- `CustomConfigParser.get` finds a plain setting. -/
theorem Reads.customGet {s k : String} {v : List Char} (hmem : ((s, k), v) ∈ done)
    (hs : s ∈ secs) (hxform : optionxform k = k) :
    customGet optionxform st.contents s k = some (String.ofList v) := by
  obtain ⟨htrimmed, hcomment, hpercent⟩ := hplain _ hmem
  have hget : st.contents.parserGet optionxform s k = some v := by
    rw [Contents.parserGet, if_pos ((h.sections s).mpr (Or.inr hs)), hxform,
      h.value? hdone hmem hpercent]
  rw [ConfigParser.customGet, hget, Option.map_some, Text.strip_eq_trim, htrimmed.trim_eq]
  exact congrArg (some ∘ String.ofList) (if_neg hcomment)

variable (optionxform) in
/-- `parser.items` lists the settings of a section, all of them with a value. -/
theorem Reads.items (s : String) :
    ∃ items, st.contents.items optionxform s = some items ∧ (items.map Prod.fst).Nodup ∧
      ∀ k v, (k, v) ∈ items ↔ ((s, k), v) ∈ done := by
  have hitem : ∀ k ∈ (st.contents.unify s).keys,
      (st.contents.value? optionxform s k).map (fun value => (k, value)) =
        some (k, (st.contents.raw? s k).getD []) := by
    intro k hk
    obtain ⟨v, hv⟩ := (h.mem_keys_unify hdone s k).mp hk
    rw [h.value? hdone hv (hplain _ hv).2.2, (h.raw? hdone s k v).mpr hv]
    rfl
  refine ⟨_, mapM_eq_some_map hitem, ?_, fun k v => ?_⟩
  · rw [List.map_map, show Prod.fst ∘ (fun k => (k, (st.contents.raw? s k).getD [])) = id from rfl,
      List.map_id]
    exact (st.contents.unify s).nodup
  · rw [List.mem_map]
    constructor
    · rintro ⟨k', hk', heq⟩
      obtain ⟨rfl, rfl⟩ := Prod.mk.inj heq
      obtain ⟨v, hv⟩ := (h.mem_keys_unify hdone s k').mp hk'
      rwa [(h.raw? hdone s k' v).mpr hv, Option.getD_some]
    · intro hv
      refine ⟨k, (h.mem_keys_unify hdone s k).mpr ⟨v, hv⟩, ?_⟩
      rw [(h.raw? hdone s k v).mpr hv, Option.getD_some]

/-- `load_config` keeps the settings of a section that are still supported. -/
theorem Reads.loadSection (s : String) (hkept : ∀ kv ∈ done, kv.1.2 ∉ removedKeys) :
    ∃ options, loadSection optionxform st.contents s = some options ∧
      ∀ k v, options.get? k = some v ↔ ((s, k), v.toList) ∈ done := by
  obtain ⟨items, hitems, hnodup, hmem⟩ := h.items optionxform hdone hplain s
  have hkeep : items.filter (fun kv => kv.1 ∉ removedKeys) = items := by
    refine List.filter_eq_self.mpr fun kv hkv => ?_
    rw [decide_eq_true_eq]
    exact hkept _ ((hmem kv.1 kv.2).mp hkv)
  have hcut : items.map (fun kv => (kv.1, String.ofList (cutComment kv.2))) =
      items.map fun kv => (kv.1, String.ofList kv.2) := by
    refine List.map_congr_left fun kv hkv => ?_
    obtain ⟨htrimmed, hcomment, -⟩ := hplain _ ((hmem kv.1 kv.2).mp hkv)
    rw [cutComment_eq_self htrimmed hcomment]
  refine ⟨Dict.empty.update (items.map fun kv => (kv.1, String.ofList kv.2)), ?_, fun k v => ?_⟩
  · rw [ConfigParser.loadSection, hitems, Option.map_some, hkeep, hcut]
  · rw [Dict.get?_update_empty (by rw [List.map_map]; exact hnodup), ← hmem, List.mem_map]
    constructor
    · rintro ⟨kv, hkv, heq⟩
      obtain ⟨rfl, rfl⟩ := Prod.mk.inj heq
      rwa [String.toList_ofList]
    · intro hkv
      exact ⟨_, hkv, by rw [String.ofList_toList]⟩

end Lookups

/-! ## The order of the sections -/

/-- Every section has its place in the file, -/
theorem mem_finalOrder {sections : List String} {s : String} (h : s ∈ sections) :
    s ∈ finalOrder sections := by
  simp only [finalOrder, List.mem_append, List.mem_insertionSort, List.mem_filter,
    decide_eq_true_eq]
  tauto

/-- and no other place. -/
theorem nodup_finalOrder {sections : List String} (h : sections.Nodup) :
    (finalOrder sections).Nodup := by
  have hsort (p : String → Bool) : ((sections.filter p).insertionSort (· ≤ ·)).Nodup :=
    (List.perm_insertionSort _ _).nodup_iff.mpr (h.filter p)
  refine List.nodup_append.mpr ⟨List.nodup_append.mpr ⟨by decide, hsort _, ?_⟩, hsort _, ?_⟩
  · rintro a ha b hb rfl
    have hprefix := (List.mem_filter.mp ((List.mem_insertionSort _).mp hb)).2
    rcases List.mem_cons.mp ha with rfl | ha
    · revert hprefix
      decide
    · obtain rfl := List.mem_singleton.mp ha
      revert hprefix
      decide
  · rintro a ha b hb rfl
    have hother := (List.mem_filter.mp ((List.mem_insertionSort _).mp hb)).2
    rw [decide_eq_true_eq] at hother
    rcases List.mem_append.mp ha with ha | ha
    · exact hother.1 ha
    · exact hother.2 ha

/-! ## The round trip -/

/-- What is read from `config.cfg` after it was written from rows, by the gateway and by the
scanner, are the settings of these rows and nothing else. -/
structure RoundTrips (optionxform : String → String) (rows : SettingTable) : Prop where
  loads : ∃ config, loadConfig optionxform (buildConfigText rows.items) = some config ∧
    (∀ s k v, config.setting? s k = some v ↔ ∃ row, ((s, k), row) ∈ rows.items ∧ row.written = v) ∧
    ∀ s, s ∈ config.keys ↔ ∃ row ∈ rows.items, row.1.1 = s
  parses : ∃ contents, read optionxform (buildConfigText rows.items) = some contents ∧
    (∀ row ∈ rows.items, customGet optionxform contents row.1.1 row.1.2 = some row.2.written) ∧
    (∀ s, s ∈ contents.sections ↔ ∃ row ∈ rows.items, row.1.1 = s) ∧
    ∀ s ∈ contents.sections, ∀ k, k ∈ (contents.unify s).keys ↔ (s, k) ∈ rows.keys

section Plain

variable {optionxform : String → String} {rows : SettingTable}
  (hplain : ∀ row ∈ rows.items, PlainSetting optionxform row.1 row.2.written)

include hplain

/-- The file of plain rows is read, section by section. -/
theorem reads_of_plain (hactive : ∀ row ∈ rows.items, row.2.isActive) :
    ∃ st order, read optionxform (buildConfigText rows.items) = some st.contents ∧
      Reads st order (entries rows.items order) ∧
        ∀ s, s ∈ order ↔ ∃ row ∈ rows.items, row.1.1 = s := by
  have hwritten : writtenRows rows.items = rows.items := by
    refine List.filter_eq_self.mpr fun row hrow => ?_
    rw [decide_eq_true_eq]
    exact ⟨hactive row hrow, (hplain row hrow).key_kept⟩
  let order := (finalOrder (rows.items.map fun row => row.1.1).dedup).filter
    (· ∈ (rows.items.map fun row => row.1.1).dedup)
  have horder : ∀ s, s ∈ order ↔ ∃ row ∈ rows.items, row.1.1 = s := by
    intro s
    rw [List.mem_filter, decide_eq_true_eq, and_iff_right_of_imp mem_finalOrder, List.mem_dedup,
      List.mem_map]
  obtain ⟨st, hread, h⟩ := read_sectionLines hplain rows.nodup
    (show order.Nodup from (nodup_finalOrder (List.nodup_dedup _)).filter _)
    fun s hs => (horder s).mp hs
  have htext : buildConfigText rows.items =
      ['\n'].intercalate (order.flatMap (sectionLines rows.items)) := by
    rw [buildConfigText, hwritten]
  exact ⟨st, order, htext ▸ hread, h, horder⟩

variable {order : List String} (horder : ∀ s, s ∈ order ↔ ∃ row ∈ rows.items, row.1.1 = s)

include horder

theorem default_notMem_order : defaultSection ∉ order := by
  intro hmem
  obtain ⟨row, hrow, heq⟩ := (horder _).mp hmem
  exact (hplain row hrow).section_default heq

theorem section_of_mem_entries {kv : SettingKey × List Char}
    (hkv : kv ∈ entries rows.items order) : kv.1.1 ≠ defaultSection :=
  fun heq => default_notMem_order hplain horder (heq ▸ (mem_entries.mp hkv).1)

omit horder in
theorem value_of_mem_entries {kv : SettingKey × List Char}
    (hkv : kv ∈ entries rows.items order) :
    Trimmed isSpace kv.2 ∧ '#' ∉ kv.2 ∧ '%' ∉ kv.2 := by
  obtain ⟨-, row, hrow, rfl⟩ := mem_entries.mp hkv
  exact ⟨(hplain row hrow).value_line.1, (hplain row hrow).value_plain⟩

omit horder in
theorem key_of_mem_entries {kv : SettingKey × List Char}
    (hkv : kv ∈ entries rows.items order) : kv.1.2 ∉ removedKeys := by
  obtain ⟨-, row, hrow, rfl⟩ := mem_entries.mp hkv
  exact (hplain row hrow).key_kept

omit hplain in
/-- The entries that are read are those of the rows. -/
theorem mem_entries_iff (s k : String) (v : List Char) :
    ((s, k), v) ∈ entries rows.items order ↔
      ∃ row, ((s, k), row) ∈ rows.items ∧ row.written.toList = v := by
  rw [mem_entries]
  constructor
  · rintro ⟨-, ⟨⟨s', k'⟩, row⟩, hrow, heq⟩
    obtain ⟨hkey, rfl⟩ := Prod.mk.inj heq
    obtain ⟨rfl, rfl⟩ := Prod.mk.inj hkey
    exact ⟨row, hrow, rfl⟩
  · rintro ⟨row, hrow, rfl⟩
    exact ⟨(horder s).mpr ⟨_, hrow, rfl⟩, _, hrow, rfl⟩

variable {st : Reading} (h : Reads st order (entries rows.items order))

include h

theorem mem_sections_iff (s : String) :
    s ∈ st.contents.sections ↔ ∃ row ∈ rows.items, row.1.1 = s :=
  (h.mem_sections (default_notMem_order hplain horder) s).trans (horder s)

/-- What the scanner reads of plain rows. -/
theorem loads_of_reads (hread : read optionxform (buildConfigText rows.items) = some st.contents) :
    ∃ config, loadConfig optionxform (buildConfigText rows.items) = some config ∧
      (∀ s k v, config.setting? s k = some v ↔
        ∃ row, ((s, k), row) ∈ rows.items ∧ row.written = v) ∧
      ∀ s, s ∈ config.keys ↔ ∃ row ∈ rows.items, row.1.1 = s := by
  have hload : ∀ s, ∃ options, loadSection optionxform st.contents s = some options ∧
      ∀ k v, options.get? k = some v ↔ ((s, k), v.toList) ∈ entries rows.items order :=
    fun s => h.loadSection (fun _ => section_of_mem_entries hplain horder)
      (fun _ => value_of_mem_entries hplain) s fun _ => key_of_mem_entries hplain
  choose options hoptions hget using hload
  have hconfig : loadConfig optionxform (buildConfigText rows.items) =
      some (Dict.empty.update (st.contents.sections.map fun s => (s, options s))) := by
    rw [loadConfig, hread, Option.bind_some,
      mapM_eq_some_map (g := fun s => (s, options s)) fun s _ => by rw [hoptions s]; rfl,
      Option.map_some]
  have hnodup : ((st.contents.sections.map fun s => (s, options s)).map Prod.fst).Nodup := by
    rw [List.map_map, show Prod.fst ∘ (fun s => (s, options s)) = id from rfl, List.map_id]
    exact st.contents.nodup.filter _
  refine ⟨_, hconfig, fun s k v => ?_, fun s => ?_⟩
  · rw [Config.setting?, Option.bind_eq_some_iff]
    constructor
    · rintro ⟨d, hd, hv⟩
      obtain ⟨s', -, heq⟩ := List.mem_map.mp ((Dict.get?_update_empty hnodup).mp hd)
      obtain ⟨rfl, rfl⟩ := Prod.mk.inj heq
      obtain ⟨row, hrow, heq⟩ := (mem_entries_iff horder s' k _).mp ((hget s' k v).mp hv)
      exact ⟨row, hrow, String.toList_inj.mp heq⟩
    · rintro ⟨row, hrow, rfl⟩
      refine ⟨options s, (Dict.get?_update_empty hnodup).mpr
        (List.mem_map.mpr ⟨s, (mem_sections_iff hplain horder h s).mpr ⟨_, hrow, rfl⟩, rfl⟩), ?_⟩
      exact (hget s k _).mpr ((mem_entries_iff horder s k _).mpr ⟨row, hrow, rfl⟩)
  · rw [Dict.mem_keys_update, List.map_map,
      show Prod.fst ∘ (fun s => (s, options s)) = id from rfl, List.map_id,
      mem_sections_iff hplain horder h]
    simp [Dict.keys]

end Plain

/-- **Plain rows survive.** -/
theorem roundTrips_of_plain {optionxform : String → String} {rows : SettingTable}
    (hactive : ∀ row ∈ rows.items, row.2.isActive)
    (hplain : ∀ row ∈ rows.items, PlainSetting optionxform row.1 row.2.written) :
    RoundTrips optionxform rows := by
  obtain ⟨st, order, hread, h, horder⟩ := reads_of_plain hplain hactive
  have hdone : ∀ kv ∈ entries rows.items order, kv.1.1 ≠ defaultSection :=
    fun _ => section_of_mem_entries hplain horder
  refine ⟨loads_of_reads hplain horder h hread, st.contents, hread, fun row hrow => ?_,
    mem_sections_iff hplain horder h, fun s _ k => ?_⟩
  · rw [h.customGet hdone (fun _ => value_of_mem_entries hplain)
      ((mem_entries_iff horder _ _ _).mpr ⟨row.2, hrow, rfl⟩)
      ((horder _).mpr ⟨row, hrow, rfl⟩) (hplain row hrow).key_xform, String.ofList_toList]
  · rw [h.mem_keys_unify hdone, Dict.mem_keys]
    simp only [mem_entries_iff horder]
    constructor
    · rintro ⟨v, row, hrow, -⟩
      exact ⟨row, hrow⟩
    · rintro ⟨row, hrow⟩
      exact ⟨_, row, hrow, rfl⟩

/-- The setting `log_level` of the section `general`. -/
def logLevelRows (value : String) : SettingTable :=
  ⟨[(("general", "log_level"), { valueStaged := some value })], List.nodup_singleton _⟩

theorem plain_logLevel : PlainSetting lowerText ("general", "log_level") "INFO" where
  section_ne := by decide
  section_default := by decide
  section_line := by decide
  key_name :=
    { line := ⟨Trim.trimmed_iff.mpr (by decide), by decide, by decide⟩
      ne_nil := by decide
      noDelimiter := by decide
      noComment := fun c hc => by obtain rfl := Option.some.inj hc; decide }
  key_xform := by decide
  key_kept := by decide
  no_header := by decide
  value_line := ⟨Trim.trimmed_iff.mpr (by decide), by decide, by decide⟩
  value_plain := by decide

theorem roundTrips_logLevel : RoundTrips lowerText (logLevelRows "INFO") := by
  refine roundTrips_of_plain (fun row hrow => ?_) fun row hrow => ?_
  · obtain rfl := List.mem_singleton.mp hrow
    rfl
  · obtain rfl := List.mem_singleton.mp hrow
    exact plain_logLevel

/-- **What a commit writes is read back**, if it is plain. -/
theorem loadConfig_commitText {optionxform : String → String} {table : SettingTable}
    (hplain : ∀ key v, table.written? key = some v → PlainSetting optionxform key v) :
    ∃ config, loadConfig optionxform (commitText table) = some config ∧
      (∀ s k, config.setting? s k = table.written? (s, k)) ∧
      ∀ s, s ∈ config.keys ↔ ∃ k v, table.written? (s, k) = some v := by
  let rows : SettingTable := table.filter fun row =>
    row.2.isActive ∧ row.2.isOrphan = false ∧ row.1.2 ∉ removedKeys
  have hmem : ∀ key row, (key, row) ∈ rows.items ↔ table.get? key = some row ∧
      row.isActive = true ∧ row.isOrphan = false ∧ key.2 ∉ removedKeys := by
    intro key row
    rw [Dict.get?_eq_some_iff]
    refine List.mem_filter.trans ?_
    rw [decide_eq_true_eq]
  have hrows : writtenRows (table.items.filter fun row => !row.2.isOrphan) =
      writtenRows rows.items := by
    rw [writtenRows, writtenRows, List.filter_filter, show rows.items = table.items.filter
      fun row => row.2.isActive ∧ row.2.isOrphan = false ∧ row.1.2 ∉ removedKeys from rfl,
      List.filter_filter]
    refine List.filter_congr fun row _ => ?_
    rw [Bool.eq_iff_iff, Bool.and_eq_true, Bool.and_eq_true, decide_eq_true_eq, decide_eq_true_eq,
      Bool.not_eq_true']
    tauto
  have htext : commitText table = buildConfigText rows.items := by
    unfold commitText buildConfigText
    rw [hrows]
  have hwritten : ∀ key v, table.written? key = some v ↔
      ∃ row, (key, row) ∈ rows.items ∧ row.written = v := by
    intro key v
    rw [written?_eq_some_iff]
    constructor
    · rintro ⟨row, hrow, hactive, horphan, hkey, hv⟩
      exact ⟨row, (hmem key row).mpr ⟨hrow, hactive, horphan, hkey⟩, hv⟩
    · rintro ⟨row, hrow, hv⟩
      obtain ⟨hrow, hactive, horphan, hkey⟩ := (hmem key row).mp hrow
      exact ⟨row, hrow, hactive, horphan, hkey, hv⟩
  have hplain' : ∀ row ∈ rows.items, PlainSetting optionxform row.1 row.2.written :=
    fun row hrow => hplain _ _ ((hwritten _ _).mpr ⟨row.2, hrow, rfl⟩)
  obtain ⟨st, order, hread, h, horder⟩ := reads_of_plain hplain'
    fun row hrow => ((hmem row.1 row.2).mp hrow).2.1
  obtain ⟨config, hload, hsetting, hkeys⟩ := loads_of_reads hplain' horder h hread
  refine ⟨config, htext ▸ hload, fun s k => Option.ext fun v => ?_, fun s => ?_⟩
  · rw [hsetting, hwritten]
  · rw [hkeys]
    constructor
    · rintro ⟨row, hrow, rfl⟩
      exact ⟨row.1.2, _, (hwritten _ _).mpr ⟨row.2, hrow, rfl⟩⟩
    · rintro ⟨k, v, hv⟩
      obtain ⟨row, hrow, -⟩ := (hwritten _ _).mp hv
      exact ⟨_, hrow, rfl⟩

/-- A `#` cuts a value. -/
theorem not_roundTrips_comment :
    ¬RoundTrips lowerText ⟨[(("general", "log_level"), { valueStaged := some "a#b" })],
      by decide⟩ := by
  intro h
  obtain ⟨contents, hread, hget, -⟩ := h.parses
  have hvalue : (read lowerText (buildConfigText
      [(("general", "log_level"), { valueStaged := some "a#b" })])).bind
        (customGet lowerText · "general" "log_level") = some "a" := by
    decide
  rw [hread, Option.bind_some, hget _ List.mem_cons_self] at hvalue
  exact absurd hvalue (by decide)

end ProtocolGateway
