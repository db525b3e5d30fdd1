import ProtocolGateway.FieldWords
import ProtocolGateway.DecodeAgreement

/-!
# Writing flags

A flags entry is written as a text of zeros and ones, one character for each bit of the entry,
lowest first. `write_variable` first decodes the current flags, looks them up in the code table and
checks them like the value of any other entry, so whether a text is written depends on what the
flags are before. And the bits are written over the low words of the registers that are read back,
while the decoder takes them from the registers of the entry.

`flagsWritten_iff` says when all texts can be written.
-/

namespace ProtocolGateway

open BigEndian BitField Outcomes ProtocolSettings

/-! ## Texts of flags -/

/-- A text of zeros and ones. -/
def Binary (s : List Char) : Prop := ∀ c ∈ s, c = '0' ∨ c = '1'

theorem testBit_flagNumber (s : List Char) (i : Nat) :
    (flagNumber s).testBit i = decide (s[i]? = some '1') := by
  induction s generalizing i with
  | nil => simp [flagNumber]
  | cons c s ih =>
    have hbit : (if c = '1' then 1 else 0) + 2 * flagNumber s =
        Nat.bit (decide (c = '1')) (flagNumber s) := by
      by_cases hc : c = '1' <;> simp [hc, Nat.bit, Nat.add_comm]
    rw [flagNumber, hbit]
    cases i with
    | zero => simp
    | succ i => rw [Nat.testBit_bit_succ, ih, List.getElem?_cons_succ]

theorem Binary.getElem? {s : List Char} (h : Binary s) {i : Nat} (hi : i < s.length) :
    s[i]? = some (if (flagNumber s).testBit i then '1' else '0') := by
  rw [testBit_flagNumber, List.getElem?_eq_getElem hi]
  rcases h _ (List.getElem_mem hi) with hc | hc <;> rw [hc] <;> rfl

/-- The bits of a number make a text exactly if they are its characters. -/
theorem flagBits_eq_iff {s : List Char} (hbinary : Binary s) (x start : Nat) :
    flagBits x start s.length = String.ofList s ↔
      ∀ i < s.length, x.testBit (start + i) = (flagNumber s).testBit i := by
  have hself : flagBits (flagNumber s) 0 s.length = String.ofList s := by
    unfold flagBits
    refine congrArg String.ofList (List.ext_getElem (by simp) fun i hi hi' => ?_)
    rw [List.getElem_map, List.getElem_range']
    have hchar := hbinary.getElem? hi'
    rw [List.getElem?_eq_getElem hi'] at hchar
    rw [Option.some.inj hchar]
    simp
  have hshift : flagBits (x >>> start) 0 s.length = flagBits x start s.length := by
    unfold flagBits
    refine congrArg String.ofList (List.ext_getElem (by simp) fun i hi hi' => ?_)
    rw [List.getElem_map, List.getElem_map, List.getElem_range', List.getElem_range',
      Nat.testBit_shiftRight]
    simp
  rw [← hself, ← hshift, flagBits_inj]
  simp only [Nat.zero_add, Nat.testBit_shiftRight]

/-- Numbers are determined by the text of their bits. -/
theorem eq_of_flagBits_eq {x y size : Nat} (hx : x < 2 ^ size) (hy : y < 2 ^ size)
    (h : flagBits x 0 size = flagBits y 0 size) : x = y := by
  refine Nat.eq_of_testBit_eq fun i => ?_
  by_cases hi : i < size
  · have hbit := flagBits_inj.mp h i hi
    rwa [Nat.zero_add] at hbit
  · have hle : 2 ^ size ≤ 2 ^ i := Nat.pow_le_pow_right (by decide) (Nat.le_of_not_lt hi)
    rw [Nat.testBit_lt_two_pow (Nat.lt_of_lt_of_le hx hle),
      Nat.testBit_lt_two_pow (Nat.lt_of_lt_of_le hy hle)]

/-- Zeros and ones are neither blanks nor capitals. -/
theorem normalized_of_binary {s : List Char} (h : Binary s) :
    normalized (String.ofList s) = String.ofList s := by
  have hspace : ∀ c ∈ s, Text.isSpace c = false := fun c hc => by
    rcases h c hc with rfl | rfl <;> rfl
  have hlower : ∀ c ∈ s, Text.lowerChar c = c := fun c hc => by
    rcases h c hc with rfl | rfl <;> rfl
  have hdrop {s : List Char} (hs : ∀ c ∈ s, Text.isSpace c = false) :
      s.dropWhile Text.isSpace = s := by
    cases s with
    | nil => rfl
    | cons c s => rw [List.dropWhile_cons, if_neg (by simp [hs c List.mem_cons_self])]
  have hstrip : Text.strip s = s := by
    unfold Text.strip
    rw [hdrop hspace, hdrop (fun c hc => hspace c (List.mem_reverse.mp hc)), List.reverse_reverse]
  unfold normalized lowerText
  rw [String.toList_ofList, String.toList_ofList, hstrip]
  exact congrArg String.ofList ((List.map_congr_left hlower).trans (List.map_id' s))

theorem isFlagText_of_binary {s : List Char} (h : Binary s) : isFlagText s.length s = true := by
  have hlast : s.getLast? ≠ some '\n' := fun hlast => by
    rcases h _ (List.mem_of_getLast? hlast) with hc | hc <;> cases hc
  unfold isFlagText
  rw [if_neg hlast]
  refine Bool.and_eq_true_iff.mpr ⟨decide_eq_true rfl, List.all_eq_true.mpr fun c hc => ?_⟩
  rcases h c hc with rfl | rfl <;> rfl

/-! ## The flags of an entry -/

namespace RegistryMapEntry

variable (e : RegistryMapEntry)

/-- The number of flags. -/
def flagCount : Nat := e.dataType.getSize.toNat

/-- The number of words that hold flags. -/
def flagWordCount : Nat := if e.dataType = .bit32Flags then 2 else 1

/-- The registers the flags are decoded from. -/
def flagSources : List Int :=
  if e.dataType = .bit32Flags then
    [e.registerList.getD 0 e.register, e.registerList.getD 1 (e.register + 1)]
  else [e.register]

/-- The flags in the number of their words. -/
def flagsValue (order : WordOrder) (content : Int → Word) : Nat :=
  wordsNumber order (e.flagSources.map content)

/-- The bits of the entry, as text. -/
def entryFlags (order : WordOrder) (content : Int → Word) : String :=
  flagBits (e.flagsValue order content) e.startBit e.flagCount

/-- The field fits the words it is decoded from. -/
def FlagsFit : Prop := e.startBit + e.flagCount ≤ 16 * e.flagWordCount

/-- The joined text of a range if only the entry's own register was decoded, to `text`. -/
def rangeAlone (text : String) : List Int → Option String
  | [] => some ""
  | [a] => if a = e.register then some text else none
  | _ => none

/-- The text that `process_registery` files if an entry is decoded alone. -/
def joinedAlone (text : String) : Option String :=
  if e.concatenate then e.rangeAlone text e.concatenateRegisters else some text

variable {e}

theorem length_flagSources : e.flagSources.length = e.flagWordCount := by
  unfold flagSources flagWordCount
  split <;> rfl

theorem flagCount_cases (h : IsFlags e.dataType) :
    (e.flagCount = 8 ∨ e.flagCount = 16) ∧ e.flagWordCount = 1 ∧ e.dataType ≠ .bit32Flags ∨
      e.flagCount = 32 ∧ e.flagWordCount = 2 ∧ e.dataType = .bit32Flags := by
  unfold flagCount flagWordCount
  rcases h with h | h | h <;> rw [h] <;> simp [DataType.getSize]

end RegistryMapEntry

/-! ## Decoding one entry alone -/

namespace ProtocolSettings

variable {ps : ProtocolSettings} {host : Host} {e : RegistryMapEntry} {value : PyValue}
  {registry : Int → Option Word} {content : Int → Word} {snapshot : Snapshot} {order : WordOrder}

/-- The text of a range that consists of the entry's own register. -/
theorem joinRange_alone {v : PyValue} (regs : List Int) :
    (∃ joined d, regs.all (fun key =>
        (((Dict.empty : Dict Int PyValue).set e.register v).get? key).isSome) = true ∧
      joinRange host regs ((Dict.empty : Dict Int PyValue).set e.register v) =
        .ok (joined, d) ∧ value = .str joined) ↔
      ∃ shown, e.rangeAlone (v.text host) regs = some shown ∧ value = .str shown := by
  have hset (a : Int) : ((Dict.empty : Dict Int PyValue).set e.register v).get? a =
      if a = e.register then some v else none := Dict.get?_set _ _ _ _
  generalize (Dict.empty : Dict Int PyValue).set e.register v = d at hset
  rcases regs with _ | ⟨a, regs⟩
  · constructor
    · rintro ⟨joined, _, _, hjoin, hvalue⟩
      exact ⟨joined, congrArg some (Prod.mk.inj (Except.ok.inj hjoin)).1, hvalue⟩
    · rintro ⟨shown, hshown, hvalue⟩
      exact ⟨"", d, rfl, rfl, hvalue.trans (congrArg PyValue.str (Option.some.inj hshown).symm)⟩
  by_cases ha : a = e.register
  · have hget : d.get? a = some v := by rw [hset, if_pos ha]
    rcases regs with _ | ⟨b, regs⟩
    · have hjoin : joinRange host [a] d =
        .ok (v.text host, d.filter fun kv => kv.1 ≠ a) := by
        rw [joinRange, hget]
        show Except.ok (v.text host ++ "", _) = _
        rw [String.append_empty]
      rw [RegistryMapEntry.rangeAlone, if_pos ha]
      constructor
      · rintro ⟨joined, _, _, hjoined, hvalue⟩
        have hsame := Prod.mk.inj (Except.ok.inj (hjoin.symm.trans hjoined))
        exact ⟨joined, congrArg some hsame.1, hvalue⟩
      · rintro ⟨shown, hshown, hvalue⟩
        exact ⟨v.text host, _, by simp [hget], hjoin,
          hvalue.trans (congrArg PyValue.str (Option.some.inj hshown).symm)⟩
    · refine iff_of_false ?_ (by simp [RegistryMapEntry.rangeAlone])
      rintro ⟨joined, d', hall, hjoin, -⟩
      have hb : (d.get? b).isSome = true :=
        List.all_eq_true.mp hall b (List.mem_cons_of_mem _ List.mem_cons_self)
      -- the second register of the range is the first one again, which has been taken out
      have hsame : b = a := by
        by_contra hne
        rw [hset, if_neg (ha ▸ hne)] at hb
        cases hb
      have hgone : (d.filter fun kv => kv.1 ≠ a).get? b = none := by
        rw [Dict.get?_filter, hsame, hget]
        simp
      rw [joinRange, hget] at hjoin
      dsimp only at hjoin
      rw [joinRange, hgone] at hjoin
      cases hjoin
  · have hget : d.get? a = none := by rw [hset, if_neg ha]
    refine iff_of_false ?_ ?_
    · rintro ⟨joined, d', hall, -⟩
      have hsome : (d.get? a).isSome = true := List.all_eq_true.mp hall a List.mem_cons_self
      rw [hget] at hsome
      cases hsome
    · rintro ⟨shown, hshown, -⟩
      rcases regs with _ | ⟨b, regs⟩
      · rw [RegistryMapEntry.rangeAlone, if_neg ha] at hshown
        cases hshown
      · cases hshown

/-- Filing the text of an entry that is decoded alone. -/
theorem fileValue_alone_iff (htype : e.dataType ≠ .ascii) {text : String} :
    (∃ decoded, fileValue host ⟨Dict.empty, Dict.empty⟩ e (.str text) = .ok decoded ∧
      decoded.info.get? e.variableName = some value) ↔
      ∃ shown, e.joinedAlone text = some shown ∧ value = .str shown := by
  unfold fileValue RegistryMapEntry.joinedAlone
  cases e.concatenate with
  | false =>
    simp only [Bool.false_eq_true, if_false]
    constructor
    · rintro ⟨decoded, hdecoded, hvalue⟩
      rw [← Except.ok.inj hdecoded, Dict.get?_set, if_pos rfl] at hvalue
      exact ⟨text, rfl, (Option.some.inj hvalue).symm⟩
    · rintro ⟨shown, hshown, rfl⟩
      rw [← Option.some.inj hshown]
      exact ⟨_, rfl, by rw [Dict.get?_set, if_pos rfl]⟩
  | true =>
    simp only [if_true]
    refine Iff.trans ?_ (@joinRange_alone host e value (.str text) e.concatenateRegisters)
    constructor
    · rintro ⟨decoded, hdecoded, hvalue⟩
      split at hdecoded
      · next hall =>
        obtain ⟨⟨joined, d⟩, hjoin, hdecoded⟩ := bind_eq_ok_iff.mp hdecoded
        rw [← Except.ok.inj hdecoded, Dict.get?_set, if_pos rfl] at hvalue
        exact ⟨joined, d, hall, hjoin, (Option.some.inj hvalue).symm⟩
      · rw [← Except.ok.inj hdecoded] at hvalue
        cases hvalue
    · rintro ⟨joined, d, hall, hjoin, rfl⟩
      rw [if_pos hall]
      refine ⟨_, bind_eq_ok_iff.mpr ⟨_, hjoin, rfl⟩, ?_⟩
      rw [Dict.get?_set, if_pos rfl]
      dsimp only
      rw [if_neg htype]

/-- A range of several registers is not filed for one of them. -/
theorem length_range_of_alone (hrange : e.concatenate = true) {v : PyValue} {decoded : Decoded}
    (h : fileValue host ⟨Dict.empty, Dict.empty⟩ e v = .ok decoded)
    (hvalue : decoded.info.get? e.variableName = some value) :
    e.concatenateRegisters.length ≤ 1 := by
  unfold fileValue at h
  rw [if_pos hrange] at h
  dsimp only at h
  split at h
  · next hall =>
    obtain ⟨⟨joined, d⟩, hjoin, -⟩ := bind_eq_ok_iff.mp h
    obtain ⟨shown, hshown, -⟩ :=
      (@joinRange_alone host e (.str joined) v e.concatenateRegisters).mp
        ⟨joined, d, hall, hjoin, rfl⟩
    rcases hregs : e.concatenateRegisters with _ | ⟨a, _ | ⟨b, regs⟩⟩
    · exact Nat.zero_le _
    · exact Nat.le_refl _
    · rw [hregs] at hshown
      cases hshown
  · rw [← Except.ok.inj h] at hvalue
    cases hvalue

/-- The context pass leaves texts alone. -/
theorem contextStep_of_text {info : Dict String PyValue}
    (h : ∀ v, info.get? e.variableName = some v → ∃ text, v = .str text) :
    ∃ info', contextStep host info e = .ok info' ∧
      info'.get? e.variableName = info.get? e.variableName := by
  unfold contextStep
  cases hget : info.get? e.variableName with
  | none => exact ⟨info, rfl, hget⟩
  | some v =>
    obtain ⟨text, rfl⟩ := h v hget
    exact ⟨_, rfl, by rw [Dict.get?_set, if_pos rfl]⟩

/-- What `process_registery` shows for an entry that is decoded to a text alone. -/
theorem processRegistery_alone_iff (htype : e.dataType ≠ .ascii)
    (htext : ∀ v, ps.decodeEntry host snapshot e = .ok (some v) → ∃ text, v = .str text) :
    (ps.processRegistery host snapshot [e]).map (fun info => info.get? e.variableName) =
      .ok (some value) ↔
      e.descriptionSource = "" ∧ ∃ text shown,
        ps.decodeEntry host snapshot e = .ok (some (.str text)) ∧
          e.joinedAlone text = some shown ∧ value = .str shown := by
  have hsingle {σ : Type} (f : σ → RegistryMapEntry → Except PyError σ) (s : σ) :
      [e].foldlM f s = f s e := by
    rw [List.foldlM_cons]
    show (f s e >>= Except.ok) = f s e
    cases f s e <;> rfl
  unfold processRegistery
  rw [hsingle]
  simp only [hsingle]
  by_cases hsource : e.descriptionSource = ""
  swap
  · refine iff_of_false (fun h => ?_) fun h => hsource h.1
    rw [decodeStep, if_pos hsource] at h
    obtain ⟨info, hinfo, hvalue⟩ := map_eq_ok_iff.mp h
    obtain rfl := Except.ok.inj hinfo
    cases hvalue
  simp only [GroupRead.describeStep_of_plain hsource]
  rw [decodeStep, if_neg (not_not.mpr hsource)]
  constructor
  · intro h
    refine ⟨hsource, ?_⟩
    obtain ⟨info, hinfo, hvalue⟩ := map_eq_ok_iff.mp h
    obtain ⟨decoded, hdecoded, hinfo⟩ := bind_eq_ok_iff.mp hinfo
    obtain ⟨adjusted, hadjusted, hinfo⟩ := bind_eq_ok_iff.mp hinfo
    obtain rfl := Except.ok.inj hinfo
    obtain ⟨entry, hentry, hdecoded⟩ := bind_eq_ok_iff.mp hdecoded
    cases entry with
    | none =>
      obtain rfl := Except.ok.inj hdecoded
      obtain rfl := Except.ok.inj hadjusted
      cases hvalue
    | some v =>
      obtain ⟨text, rfl⟩ := htext v hentry
      have hfiled : ∀ v, decoded.info.get? e.variableName = some v → ∃ shown,
          e.joinedAlone text = some shown ∧ v = .str shown :=
        fun v hv => (fileValue_alone_iff htype).mp ⟨decoded, hdecoded, hv⟩
      obtain ⟨adjusted', hadjusted', hsame⟩ := contextStep_of_text fun v hv =>
        (hfiled v hv).imp fun shown hshown => hshown.2
      obtain rfl := Except.ok.inj (hadjusted.symm.trans hadjusted')
      obtain ⟨shown, hshown, hvalue⟩ := hfiled value (hsame ▸ hvalue)
      exact ⟨text, shown, hentry, hshown, hvalue⟩
  · rintro ⟨-, text, shown, hdecode, hshown, rfl⟩
    obtain ⟨decoded, hfile, hget⟩ := (fileValue_alone_iff htype).mpr ⟨shown, hshown, rfl⟩
    obtain ⟨adjusted, hadjusted, hsame⟩ := @contextStep_of_text host e decoded.info fun v hv =>
      ⟨shown, (Option.some.inj (hget.symm.trans hv)).symm⟩
    rw [hdecode]
    refine map_eq_ok_iff.mpr ⟨adjusted, ?_, hsame.trans hget⟩
    exact bind_eq_ok_iff.mpr ⟨decoded, hfile, bind_eq_ok_iff.mpr ⟨adjusted, hadjusted, rfl⟩⟩

theorem map_str_eq_ok_iff {x : Except PyError String} :
    x.map (fun text => some (PyValue.str text)) = .ok (some value) ↔
      ∃ text, x = .ok text ∧ value = .str text := by
  rw [map_eq_ok_iff]
  exact exists_congr fun text => and_congr_right fun _ =>
    ⟨fun h => (Option.some.inj h).symm, fun h => congrArg some h.symm⟩

/-- What the decoder makes of flags in one word. -/
theorem decodeUshort_flagWord_iff (h : IsFlags e.dataType) (hone : e.dataType ≠ .bit32Flags)
    (hregistry : ∀ a w, registry a = some w → content a = w) :
    ps.decodeUshort order registry e = .ok (some value) ↔
      (∀ a ∈ e.flagSources, registry a ≠ none) ∧ ∃ text,
        ps.flagsUshort e (e.flagsValue order content) e.flagCount = .ok text ∧
          value = .str text := by
  have hdecode : ps.decodeUshort order registry e = (do
      let flags ← ps.flagsUshort e
        (← (wordAt registry e.register).map (Word.orient order.bytesReversed)).toNat e.flagCount
      return some (.str flags)) := by
    unfold decodeUshort RegistryMapEntry.flagCount
    rcases h with h | h | h
    · rw [h]
    · rw [h]
    · exact absurd h hone
  have hvalue : e.flagsValue order content =
      ((content e.register).orient order.bytesReversed).toNat := by
    unfold RegistryMapEntry.flagsValue RegistryMapEntry.flagSources wordsNumber
    rw [if_neg hone, ← Word.number_toBytes]
    unfold ProtocolGateway.registerWordsToBytes
    simp
  rw [hdecode, hvalue, RegistryMapEntry.flagSources, if_neg hone, wordAt]
  cases hread : registry e.register with
  | none => exact iff_of_false (fun h => by cases h) fun h => h.1 _ List.mem_cons_self hread
  | some w =>
    rw [hregistry _ _ hread]
    have hall : ∀ a ∈ [e.register], registry a ≠ none := fun a ha => by
      rw [List.mem_singleton.mp ha, hread]
      exact Option.some_ne_none w
    exact map_str_eq_ok_iff.trans (and_iff_right hall).symm

/-- What the decoder makes of flags in two words. -/
theorem decodeUshort_bit32Flags_iff (h : e.dataType = .bit32Flags)
    (hregistry : ∀ a w, registry a = some w → content a = w) :
    ps.decodeUshort order registry e = .ok (some value) ↔
      (∀ a ∈ e.flagSources, registry a ≠ none) ∧ ∃ text,
        ps.flagsUshort e (e.flagsValue order content) e.flagCount = .ok text ∧
          value = .str text := by
  have hdecode : ps.decodeUshort order registry e =
      (registerWordsToBytes registry e.register 2 order e.registerList).elim (.ok none)
        fun raw => (ps.flagsUshort e (number raw) 32).map fun flags => some (.str flags) := by
    unfold decodeUshort
    rewrite [h]
    dsimp only
    cases registerWordsToBytes registry e.register 2 order e.registerList <;> rfl
  have hbytes : registerWordsToBytes registry e.register 2 order e.registerList =
      (e.flagSources.mapM registry).map (ProtocolGateway.registerWordsToBytes order) := by
    unfold registerWordsToBytes RegistryMapEntry.flagSources
    rw [if_pos h, show List.range 2 = [0, 1] from rfl, List.mapM_cons, List.mapM_cons]
    simp
  have hcount : e.flagCount = 32 := by
    unfold RegistryMapEntry.flagCount
    rw [h]
    rfl
  rw [hdecode, hbytes, hcount]
  cases hread : e.flagSources.mapM registry with
  | none =>
    refine iff_of_false (fun h => by cases h) fun hall => ?_
    rw [(mapM_registry_eq_some_iff hregistry _).mpr ⟨hall.1, rfl⟩] at hread
    cases hread
  | some words =>
    obtain ⟨hall, rfl⟩ := (mapM_registry_eq_some_iff hregistry _).mp hread
    exact map_str_eq_ok_iff.trans (and_iff_right hall).symm

/-- What the decoder makes of flags. -/
theorem decodeUshort_flags_iff (h : IsFlags e.dataType)
    (hregistry : ∀ a w, registry a = some w → content a = w) :
    ps.decodeUshort order registry e = .ok (some value) ↔
      (∀ a ∈ e.flagSources, registry a ≠ none) ∧ ∃ text,
        ps.flagsUshort e (e.flagsValue order content) e.flagCount = .ok text ∧
          value = .str text := by
  by_cases hwide : e.dataType = .bit32Flags
  · exact decodeUshort_bit32Flags_iff hwide hregistry
  · exact decodeUshort_flagWord_iff h hwide hregistry

/-- What an entry of flags is decoded to. -/
theorem decodeEntry_flags_iff (h : IsFlags e.dataType)
    (hregistry : ∀ a w, registry a = some w → content a = w) :
    ps.decodeEntry host (.words registry) e = .ok (some value) ↔
      registry e.register ≠ none ∧ (∀ a ∈ e.flagSources, registry a ≠ none) ∧ ∃ text,
        ps.flagsUshort e (e.flagsValue (e.getEntryByteorder ps.defaultWordOrder) content)
          e.flagCount = .ok text ∧ value = .str text := by
  rw [← decodeUshort_flags_iff h hregistry]
  unfold decodeEntry
  dsimp only
  cases hread : registry e.register with
  | none => exact iff_of_false (fun h => by cases h) fun h => h.1 rfl
  | some w =>
    rw [if_pos Option.isSome_some, and_iff_right (Option.some_ne_none w)]
    unfold processRegisterUshort
    cases hdecode : ps.decodeUshort (e.getEntryByteorder ps.defaultWordOrder) registry e with
    | error err => exact iff_of_false (fun h => by cases h) fun h => by cases h
    | ok decoded =>
      cases decoded with
      | none => exact iff_of_false (fun h => by cases h) fun h => by cases h
      | some v =>
        obtain ⟨-, text, -, rfl⟩ := (decodeUshort_flags_iff h hregistry).mp hdecode
        exact Iff.rfl

end ProtocolSettings

/-! ## The bits after a write -/

section Bits

variable {e : RegistryMapEntry} {order : WordOrder} {content : Int → Word} {words : List Word}
  {encoded : Nat} {a : Int}

theorem binary_flagBits (x start size : Nat) : Binary (flagBits x start size).toList ∧
    (flagBits x start size).toList.length = size := by
  unfold flagBits Binary
  rw [String.toList_ofList, List.length_map, List.length_range']
  refine ⟨fun c hc => ?_, rfl⟩
  obtain ⟨i, -, rfl⟩ := List.mem_map.mp hc
  split
  · exact .inr rfl
  · exact .inl rfl

namespace RegistryMapEntry

/-- The registers that the flags are written to. -/
def flagTargets (e : RegistryMapEntry) (order : WordOrder) : List Int :=
  lowWords order e.flagWordCount e.writtenRegisters

/-- The flags of a text as they are read back: with the words exchanged, if they are read from the
registers they were written to the other way round. -/
def readFlags (e : RegistryMapEntry) (order : WordOrder) (s : List Char) : List Char :=
  if e.flagSources = e.flagTargets order then s else s.drop 16 ++ s.take 16

/-- Only the targets change. -/
theorem apply_of_not_mem_flagTargets (hfits : e.FlagsFit)
    (h : fieldWords order (e.writtenRegisters.map content) e.startBit e.flagCount encoded =
      .ok words) (ha : a ∉ e.flagTargets order) :
    (WriteRequest.registers e.register words).apply content a = content a := by
  rcases Nat.lt_or_ge e.entryWordCount e.flagWordCount with hshort | hle
  · have hlength : words.length = e.entryWordCount := by
      rw [(fieldWords_eq_ok_iff.mp h).1, List.length_map, e.length_writtenRegisters]
    have hall : e.flagTargets order = e.writtenRegisters := by
      unfold flagTargets lowWords
      split
      · exact List.take_of_length_le (by rw [e.length_writtenRegisters]; omega)
      · rw [e.length_writtenRegisters, Nat.sub_eq_zero_of_le (Nat.le_of_lt hshort)]
        exact List.drop_zero
    exact apply_of_not_mem hlength (hall ▸ ha)
  · exact apply_of_not_mem_lowWords h hfits hle ha

/-- Targets that are as many as the sources are words of the entry. -/
theorem flagWordCount_le (h : (e.flagTargets order).length = e.flagWordCount) :
    e.flagWordCount ≤ e.entryWordCount := by
  unfold flagTargets lowWords at h
  split at h
  · rw [List.length_take, e.length_writtenRegisters] at h
    omega
  · rw [List.length_drop, e.length_writtenRegisters] at h
    omega

end RegistryMapEntry

/-- The flags of an accepted text. -/
theorem binary_of_isFlagText {size : Nat} {s : List Char} (h : isFlagText size s = true) :
    (s.take size).length = size ∧ Binary (s.take size) := by
  have hkept (kept : List Char) (hkept : (kept.length = size && kept.all fun c =>
      c = '0' || c = '1') = true) : kept.length = size ∧ Binary kept := by
    obtain ⟨hlength, hall⟩ := Bool.and_eq_true_iff.mp hkept
    refine ⟨of_decide_eq_true hlength, fun c hc => ?_⟩
    simpa using List.all_eq_true.mp hall c hc
  unfold isFlagText at h
  split at h
  · obtain ⟨hlength, hbinary⟩ := hkept _ h
    have htake : s.take size = s.dropLast := by
      rw [List.dropLast_eq_take, ← hlength, List.length_dropLast]
    rw [htake]
    exact ⟨hlength, hbinary⟩
  · obtain ⟨hlength, hbinary⟩ := hkept _ h
    rw [List.take_of_length_le (Nat.le_of_eq hlength)]
    exact ⟨hlength, hbinary⟩

theorem testBit_flagNumber_take {size i : Nat} (s : List Char) (hi : i < size) :
    (flagNumber (s.take size)).testBit i = (flagNumber s).testBit i := by
  rw [testBit_flagNumber, testBit_flagNumber, List.getElem?_take, if_pos hi]

/-- The written flags in the number of the targets. -/
theorem testBit_flagTargets (hfits : e.FlagsFit) (hcount : e.flagWordCount ≤ e.entryWordCount)
    {s : List Char} (h : fieldWords order (e.writtenRegisters.map content) e.startBit e.flagCount
      (flagNumber s <<< e.startBit) = .ok words) {i : Nat} (hi : i < e.flagCount) :
    (wordsNumber order ((e.flagTargets order).map
        ((WriteRequest.registers e.register words).apply content))).testBit (e.startBit + i) =
      (flagNumber s).testBit i := by
  have hlow : e.startBit + i < 16 * e.flagWordCount :=
    Nat.lt_of_lt_of_le (Nat.add_lt_add_left hi _) hfits
  rw [RegistryMapEntry.flagTargets, wordsNumber_apply_lowWords h hcount, Nat.testBit_mod_two_pow,
    decide_eq_true hlow, Bool.true_and, testBit_update,
    if_pos ⟨Nat.le_add_right .., Nat.add_lt_add_left hi _⟩, Nat.testBit_shiftLeft]
  simp

/-- Two words exchanged. -/
theorem testBit_wordsNumber_pair (x y : Word) {i : Nat} (hi : i < 32) :
    (wordsNumber order [x, y]).testBit i =
      (wordsNumber order [y, x]).testBit (if i < 16 then 16 + i else i - 16) := by
  have hpair (x y : Word) : wordsNumber { order with wordReversed := false } [x, y] =
      2 ^ 16 * (x.orient order.bytesReversed).toNat + (y.orient order.bytesReversed).toNat := by
    show number (x.toBytes order.bytesReversed ++ (y.toBytes order.bytesReversed ++ [])) = _
    rw [List.append_nil, number_append, Word.number_toBytes, Word.number_toBytes,
      Word.length_toBytes, Nat.mul_comm]
  have hreversed : wordsNumber { order with wordReversed := true } [x, y] =
      wordsNumber { order with wordReversed := false } [y, x] := rfl
  have hreversed' : wordsNumber { order with wordReversed := true } [y, x] =
      wordsNumber { order with wordReversed := false } [x, y] := rfl
  have hbits (x y : Word) {i : Nat} (hi : i < 32) :
      (2 ^ 16 * x.toNat + y.toNat).testBit i =
        (2 ^ 16 * y.toNat + x.toNat).testBit (if i < 16 then 16 + i else i - 16) := by
    rw [Nat.testBit_two_pow_mul_add _ y.isLt, Nat.testBit_two_pow_mul_add _ x.isLt]
    by_cases hlow : i < 16
    · rw [if_pos hlow, if_pos hlow, if_neg (by omega), Nat.add_sub_cancel_left]
    · rw [if_neg hlow, if_neg hlow, if_pos (by omega)]
  cases order with
  | mk wordReversed bytesReversed =>
    cases wordReversed with
    | false => rw [hpair, hpair, hbits _ _ hi]
    | true => rw [hreversed, hreversed', hpair, hpair, hbits _ _ hi]

/-- A text of 32 flags with its halves exchanged. -/
theorem exchanged_halves {s : List Char} (hlength : s.length = 32) (hbinary : Binary s) :
    Binary (s.drop 16 ++ s.take 16) ∧ (s.drop 16 ++ s.take 16).length = 32 ∧
      ∀ i < 32, (flagNumber (s.drop 16 ++ s.take 16)).testBit i =
        (flagNumber s).testBit (if i < 16 then 16 + i else i - 16) := by
  have hdrop : (s.drop 16).length = 16 := by rw [List.length_drop, hlength]
  have htake : (s.take 16).length = 16 := by rw [List.length_take, hlength]; rfl
  refine ⟨fun c hc => ?_, by rw [List.length_append, hdrop, htake], fun i hi => ?_⟩
  · rcases List.mem_append.mp hc with hc | hc
    · exact hbinary c (List.mem_of_mem_drop hc)
    · exact hbinary c (List.mem_of_mem_take hc)
  · rw [testBit_flagNumber, testBit_flagNumber, List.getElem?_append, hdrop]
    by_cases hlow : i < 16
    · rw [if_pos hlow, if_pos hlow, List.getElem?_drop]
    · rw [if_neg hlow, if_neg hlow, List.getElem?_take, if_pos (by omega)]

/-- The flags that are decoded from a device are those that were written to it, as they are read
back. -/
theorem entryFlags_apply (htype : IsFlags e.dataType) (hfits : e.FlagsFit)
    (hsources : e.flagSources = e.flagTargets order ∨
      e.flagSources = (e.flagTargets order).reverse) {s : List Char}
    (hs : isFlagText e.flagCount s = true)
    (h : fieldWords order (e.writtenRegisters.map content) e.startBit e.flagCount
      (flagNumber s <<< e.startBit) = .ok words) :
    e.entryFlags order ((WriteRequest.registers e.register words).apply content) =
      String.ofList (e.readFlags order (s.take e.flagCount)) := by
  have hlength : (e.flagTargets order).length = e.flagWordCount := by
    rw [← RegistryMapEntry.length_flagSources]
    rcases hsources with h | h <;> simp [h]
  have hbits := fun i hi => testBit_flagTargets hfits
    (RegistryMapEntry.flagWordCount_le hlength) h (i := i) hi
  obtain ⟨hcount, hbinary⟩ := binary_of_isFlagText hs
  unfold RegistryMapEntry.entryFlags RegistryMapEntry.flagsValue RegistryMapEntry.readFlags
  by_cases hsame : e.flagSources = e.flagTargets order
  · rw [if_pos hsame, hsame]
    have heq := (flagBits_eq_iff hbinary (wordsNumber order ((e.flagTargets order).map
      ((WriteRequest.registers e.register words).apply content))) e.startBit).mpr
    rw [hcount] at heq
    refine heq fun i hi => ?_
    rw [hbits i hi, testBit_flagNumber_take s hi]
  · have hreverse := hsources.resolve_left hsame
    -- a single word is the same the other way round
    have hwide : e.flagCount = 32 ∧ e.flagWordCount = 2 := by
      rcases RegistryMapEntry.flagCount_cases htype with ⟨-, hone, -⟩ | ⟨h32, htwo, -⟩
      · rw [hone] at hlength
        obtain ⟨t, ht⟩ := List.length_eq_one_iff.mp hlength
        rw [ht] at hreverse hsame
        exact absurd hreverse hsame
      · exact ⟨h32, htwo⟩
    rw [hwide.2] at hlength
    obtain ⟨t₀, t₁, ht⟩ := List.length_eq_two.mp hlength
    have hstart : e.startBit = 0 := by
      have := hfits
      unfold RegistryMapEntry.FlagsFit at this
      omega
    rw [if_neg hsame, hreverse]
    rw [ht] at hbits ⊢
    rw [hwide.1] at hbits hcount hbinary ⊢
    simp only [hstart, Nat.zero_add] at hbits ⊢
    obtain ⟨hexchanged, hlength', hplace⟩ := exchanged_halves hcount hbinary
    have heq := (flagBits_eq_iff hexchanged (wordsNumber order (([t₀, t₁].reverse).map
      ((WriteRequest.registers e.register words).apply content))) 0).mpr
    rw [hlength'] at heq
    refine heq fun i hi => ?_
    have hlt : (if i < 16 then 16 + i else i - 16) < 32 := by split <;> omega
    rw [Nat.zero_add, hplace i hi, testBit_flagNumber_take s hlt, ← hbits _ hlt]
    exact testBit_wordsNumber_pair _ _ hi

end Bits

/-! ## Which texts are written -/

namespace ProtocolSettings

section Written

variable (ps : ProtocolSettings) (host : Host) (pack32 pack64 : Float → Except PyError (List Byte))
  (content : Int → Word) (e : RegistryMapEntry)

/-- Every text of as many zeros and ones as the entry has flags is written in the standard mode,
and the bits of the entry are the text afterwards. -/
def FlagsWritten : Prop :=
  ∀ s : List Char, Binary s → s.length = e.flagCount → ∃ request,
    ps.writeDevice (floatArithmetic host ps pack32 pack64) .write content e
        (.str (String.ofList s)) = .ok (some request) ∧
      e.entryFlags (e.getEntryByteorder ps.defaultWordOrder) (request.apply content) =
        String.ofList s

/-- The current flags pass for a value of the entry: they are decoded, complete without the
neighbours of the entry, and after the code table they are valid. -/
def CurrentFlagsPass : Prop :=
  ∃ text shown code valid,
    ps.flagsUshort e (e.flagsValue (e.getEntryByteorder ps.defaultWordOrder) content) e.flagCount =
      .ok text ∧
    e.joinedAlone text = some shown ∧ ps.getCodeByValue e shown = .ok code ∧
    ps.validateRegistryEntry (floatArithmetic host ps pack32 pack64) e (.str code) = .ok valid ∧
    valid ≠ 0

/-- When flags can be written. -/
structure FlagsWritable : Prop where
  /-- the loop of the read-back ends -/
  batch : 0 < ps.readBatchSize
  /-- the entry is no description of another one -/
  plain : e.descriptionSource = ""
  /-- the unit column is empty or one -/
  unscaled : (e.unitMod != 1) = false
  current : ps.CurrentFlagsPass host pack32 pack64 content e
  /-- the flags are read from the words they are written to -/
  registers : e.flagSources = e.flagTargets (e.getEntryByteorder ps.defaultWordOrder) ∨
    e.flagSources = (e.flagTargets (e.getEntryByteorder ps.defaultWordOrder)).reverse
  /-- the code table leaves the texts what they are -/
  texts : ∀ s : List Char, Binary s → s.length = e.flagCount → ∃ code,
    ps.getCodeByValue e (String.ofList s) = .ok code ∧
      isFlagText e.flagCount code.toList = true ∧
      e.readFlags (e.getEntryByteorder ps.defaultWordOrder) (code.toList.take e.flagCount) = s

end Written

variable {ps : ProtocolSettings} {host : Host} {pack32 pack64 : Float → Except PyError (List Byte)}
  {content : Int → Word} {e : RegistryMapEntry}

theorem isFlags_of (h : IsFlags e.dataType) : e.isFlags = true := by
  unfold RegistryMapEntry.isFlags
  rcases h with h | h | h <;> rw [h] <;> rfl

/-- The words for a text of flags. -/
theorem registerValues_flags (h : IsFlags e.dataType) {V : Type} (ops : Arithmetic V)
    (order : WordOrder) (raw : List Word) (value : V) :
    registerValues ops order raw e value =
      if isFlagText e.flagCount (ops.text value).toList then
        (fieldWords order raw e.startBit e.flagCount
          (flagNumber (ops.text value).toList <<< e.startBit)).map some
      else .ok none := by
  unfold registerValues RegistryMapEntry.flagCount
  rcases h with h | h | h <;> rw [h]

/-- The current flags, as the write looks at them. -/
theorem current_flags_iff (h : IsFlags e.dataType) {registry : Int → Option Word}
    (hregistry : ∀ a w, registry a = some w → content a = w) {value : PyValue} :
    (floatArithmetic host ps pack32 pack64).current registry e = .ok (some value) ↔
      e.descriptionSource = "" ∧ registry e.register ≠ none ∧
        (∀ a ∈ e.flagSources, registry a ≠ none) ∧ ∃ text shown,
          ps.flagsUshort e (e.flagsValue (e.getEntryByteorder ps.defaultWordOrder) content)
            e.flagCount = .ok text ∧ e.joinedAlone text = some shown ∧ value = .str shown := by
  have htype : e.dataType ≠ .ascii := by rcases h with h | h | h <;> rw [h] <;> exact nofun
  refine (processRegistery_alone_iff htype fun v hv => ?_).trans (and_congr_right fun _ => ?_)
  · obtain ⟨-, -, text, -, rfl⟩ := (decodeEntry_flags_iff h hregistry).mp hv
    exact ⟨text, rfl⟩
  · constructor
    · rintro ⟨text, shown, hdecode, hshown⟩
      obtain ⟨hread, hall, text', hflags, htext⟩ := (decodeEntry_flags_iff h hregistry).mp hdecode
      obtain rfl := PyValue.str.inj htext
      exact ⟨hread, hall, text, shown, hflags, hshown⟩
    · rintro ⟨hread, hall, text, shown, hflags, hshown⟩
      exact ⟨text, shown, (decodeEntry_flags_iff h hregistry).mpr
        ⟨hread, hall, text, hflags, rfl⟩, hshown⟩

/-- The checks before flags are encoded. -/
theorem accepted_flags_iff (h : IsFlags e.dataType) {ops : Arithmetic PyValue} {value : PyValue}
    {current : String} : ps.accepted ops .write e value current = .ok true ↔
      ∃ valid, ps.validateRegistryEntry ops e (ops.ofText current) = .ok valid ∧ valid ≠ 0 := by
  unfold accepted
  rw [if_neg (by decide)]
  refine bind_eq_ok_iff.trans (exists_congr fun valid => and_congr_right fun _ => ?_)
  rw [isFlags_of h]
  by_cases hvalid : valid = 0
  · rw [if_pos hvalid]
    exact iff_of_false (fun h => by cases h) (not_not.mpr hvalid)
  · rw [if_neg hvalid]
    exact iff_of_true rfl hvalid

/-- The steps of a write of flags. -/
theorem writeDevice_flags_iff (h : IsFlags e.dataType) {s : List Char} (hs : Binary s)
    {request : WriteRequest} :
    ps.writeDevice (floatArithmetic host ps pack32 pack64) .write content e
      (.str (String.ofList s)) = .ok (some request) ↔
      ∃ registry, ps.readBack content e = .ok registry ∧ e.descriptionSource = "" ∧
        (∀ a ∈ e.flagSources, registry a ≠ none) ∧
        ps.CurrentFlagsPass host pack32 pack64 content e ∧ ∃ code scaled words,
          ps.getCodeByValue e (String.ofList s) = .ok code ∧
          applyUnitMod (floatArithmetic host ps pack32 pack64) e (.str code) =
            .ok (some scaled) ∧
          isFlagText e.flagCount (scaled.text host).toList = true ∧
          fieldWords (e.getEntryByteorder ps.defaultWordOrder) (e.writtenRegisters.map content)
            e.startBit e.flagCount (flagNumber (scaled.text host).toList <<< e.startBit) =
              .ok words ∧
          request = .registers e.register words := by
  have hvalue : writtenValue (floatArithmetic host ps pack32 pack64) (.str (String.ofList s)) =
      .str (String.ofList s) := congrArg PyValue.str (normalized_of_binary hs)
  have hlooked {current : String} {looked : PyValue × String} :
      ps.lookUpCodes (floatArithmetic host ps pack32 pack64) e (.str (String.ofList s)) current =
        .ok looked ↔ ∃ code code', ps.getCodeByValue e (String.ofList s) = .ok code ∧
          ps.getCodeByValue e current = .ok code' ∧ looked = (.str code, code') := by
    refine bind_eq_ok_iff.trans (exists_congr fun code => ?_)
    constructor
    · rintro ⟨hcode, hrest⟩
      obtain ⟨code', hcode', hrest⟩ := bind_eq_ok_iff.mp hrest
      exact ⟨code', hcode, hcode', (Except.ok.inj hrest).symm⟩
    · rintro ⟨code', hcode, hcode', rfl⟩
      exact ⟨hcode, bind_eq_ok_iff.mpr ⟨code', hcode', rfl⟩⟩
  rw [writeDevice_eq_some_iff, hvalue]
  refine exists_congr fun registry => ?_
  constructor
  · rintro ⟨current, looked, scaled, words, hread, hcurrent, hlook, haccept, hscaled, hwords, -,
      rfl⟩
    obtain ⟨-, hregistry, -⟩ := readBack_spec hread
    obtain ⟨hplain, -, hall, text, shown, hflags, hshown, rfl⟩ :=
      (current_flags_iff h hregistry).mp hcurrent
    obtain ⟨code, code', hcode, hcode', rfl⟩ := hlooked.mp hlook
    obtain ⟨valid, hvalid, hne⟩ := (accepted_flags_iff h).mp haccept
    refine ⟨hread, hplain, hall, ⟨text, shown, code', valid, hflags, hshown, hcode', hvalid, hne⟩,
      code, scaled, words, hcode, hscaled, ?_⟩
    rw [registerValues_flags h] at hwords
    split at hwords
    · next htext =>
      obtain ⟨words', hfield, hwords⟩ := map_eq_ok_iff.mp hwords
      obtain rfl := Option.some.inj hwords
      exact ⟨htext, hfield, rfl⟩
    · cases hwords
  · rintro ⟨hread, hplain, hall, ⟨text, shown, code', valid, hflags, hshown, hcode', hvalid, hne⟩,
      code, scaled, words, hcode, hscaled, htext, hfield, rfl⟩
    obtain ⟨-, hregistry, hwritten⟩ := readBack_spec hread
    have hfirst : registry e.register ≠ none :=
      hwritten _ (e.mem_writtenRegisters.mpr ⟨le_rfl, by have := e.entryWordCount_pos; omega⟩)
    have hne' : words ≠ [] := by
      have hlength := (fieldWords_eq_ok_iff.mp hfield).1
      rw [List.length_map, e.length_writtenRegisters] at hlength
      have := e.entryWordCount_pos
      exact List.ne_nil_of_length_pos (by omega)
    refine ⟨.str shown, (.str code, code'), scaled, words, hread,
      (current_flags_iff h hregistry).mpr ⟨hplain, hfirst, hall, text, shown, hflags, hshown, rfl⟩,
      hlooked.mpr ⟨code, code', hcode, hcode', rfl⟩, (accepted_flags_iff h).mpr ⟨valid, hvalid, hne⟩,
      hscaled, ?_, hne', rfl⟩
    rw [registerValues_flags h]
    exact (if_pos htext).trans (map_eq_ok_iff.mpr ⟨words, hfield, rfl⟩)

/-- Without a unit column the value is written as it is. -/
theorem applyUnitMod_of_unscaled {V : Type} {ops : Arithmetic V} {value : V}
    (h : ops.scaled e = false) : applyUnitMod ops e value = .ok (some value) := by
  unfold applyUnitMod
  rw [h]
  rfl

/-- The sources are read back if they are the targets, in whatever order. -/
theorem mem_writtenRegisters_of_flagSources {order : WordOrder}
    (hsources : e.flagSources = e.flagTargets order ∨
      e.flagSources = (e.flagTargets order).reverse) {a : Int} (ha : a ∈ e.flagSources) :
    a ∈ e.writtenRegisters := by
  have htarget : a ∈ e.flagTargets order := by
    rcases hsources with h | h
    · rwa [h] at ha
    · rw [h] at ha
      exact List.mem_reverse.mp ha
  unfold RegistryMapEntry.flagTargets lowWords at htarget
  split at htarget
  · exact List.mem_of_mem_take htarget
  · exact List.mem_of_mem_drop htarget

/-- **Flags are written** where the conditions hold. -/
theorem flagsWritten_of_writable (h : IsFlags e.dataType) (hfits : e.FlagsFit)
    (hw : ps.FlagsWritable host pack32 pack64 content e) :
    ps.FlagsWritten host pack32 pack64 content e := by
  intro s hs hlength
  have hreads : ∃ registry, ps.readBack content e = .ok registry := readBack_of_pos hw.batch
  obtain ⟨registry, hread⟩ := hreads
  obtain ⟨-, -, hwritten⟩ := readBack_spec hread
  obtain ⟨code, hcode, htext, hflags⟩ := hw.texts s hs hlength
  have hcount : (e.flagTargets (e.getEntryByteorder ps.defaultWordOrder)).length =
      e.flagWordCount := by
    rw [← RegistryMapEntry.length_flagSources]
    rcases hw.registers with h | h <;> simp [h]
  have hwords := RegistryMapEntry.flagWordCount_le hcount
  have htotal : e.startBit + e.flagCount ≤ 16 * (e.writtenRegisters.map content).length := by
    rw [List.length_map, e.length_writtenRegisters]
    exact hfits.trans (Nat.mul_le_mul_left 16 hwords)
  have hfields : ∃ words, fieldWords (e.getEntryByteorder ps.defaultWordOrder)
      (e.writtenRegisters.map content) e.startBit e.flagCount
      (flagNumber code.toList <<< e.startBit) = .ok words := fieldWords_of_fits htotal
  obtain ⟨words, hfield⟩ := hfields
  refine ⟨.registers e.register words, (writeDevice_flags_iff h hs).mpr ⟨registry, hread, hw.plain,
    fun a ha => hwritten a (mem_writtenRegisters_of_flagSources hw.registers ha), hw.current, code,
    .str code, words, hcode, applyUnitMod_of_unscaled hw.unscaled, htext, hfield, rfl⟩, ?_⟩
  rw [entryFlags_apply h hfits hw.registers htext hfield, hflags]

/-- Decoding sees a text that was written only if it is decoded from words that the write changes. -/
theorem flagSources_of_written (h : IsFlags e.dataType) (hfits : e.FlagsFit)
    (hw : ps.FlagsWritten host pack32 pack64 content e) :
    e.flagSources = e.flagTargets (e.getEntryByteorder ps.defaultWordOrder) ∨
      e.flagSources = (e.flagTargets (e.getEntryByteorder ps.defaultWordOrder)).reverse := by
  generalize horder : e.getEntryByteorder ps.defaultWordOrder = order
  -- the words that are decoded after the text with the bits of `x` was written
  have hsees (x : Nat) : ∃ content' : Int → Word,
      (∀ a, a ∉ e.flagTargets order → content' a = content a) ∧
      flagBits (e.flagsValue order content') e.startBit e.flagCount = flagBits x 0 e.flagCount := by
    obtain ⟨hbinary, hlength⟩ := binary_flagBits x 0 e.flagCount
    obtain ⟨request, hwrite, hbits⟩ := hw _ hbinary hlength
    obtain ⟨-, -, -, -, -, code, scaled, words, -, -, -, hfield, rfl⟩ :=
      (writeDevice_flags_iff h hbinary).mp hwrite
    rw [horder] at hfield hbits
    rw [String.ofList_toList] at hbits
    exact ⟨_, fun a ha => RegistryMapEntry.apply_of_not_mem_flagTargets hfits hfield ha, hbits⟩
  have htargets : (e.flagTargets order).length ≤ e.flagWordCount := by
    unfold RegistryMapEntry.flagTargets lowWords
    split
    · exact List.length_take_le _ _
    · rw [List.length_drop]
      omega
  rcases RegistryMapEntry.flagCount_cases h with ⟨hcount, hone, hnarrow⟩ | ⟨hcount, htwo, hwide⟩
  · have hsource : e.flagSources = [e.register] := if_neg hnarrow
    have hmem : e.register ∈ e.flagTargets order := by
      by_contra hnot
      -- the bits stay what they were, whatever is written
      have hstays (x : Nat) : flagBits (e.flagsValue order content) e.startBit e.flagCount =
          flagBits x 0 e.flagCount := by
        obtain ⟨content', hframe, hbits⟩ := hsees x
        rwa [RegistryMapEntry.flagsValue, hsource, List.map_singleton, hframe _ hnot,
          ← List.map_singleton, ← hsource] at hbits
      have hbit := flagBits_inj.mp ((hstays 0).symm.trans (hstays 1)) 0 (by omega)
      cases hbit
    rw [hone] at htargets
    rw [hsource]
    generalize e.flagTargets order = targets at hmem htargets
    obtain ⟨t, rfl⟩ := List.length_eq_one_iff.mp
      (Nat.le_antisymm htargets (List.length_pos_of_mem hmem))
    exact .inl (by rw [List.mem_singleton.mp hmem])
  · rw [htwo] at htargets
    have hstart : e.startBit = 0 := by
      unfold RegistryMapEntry.FlagsFit at hfits
      omega
    obtain ⟨a₀, a₁, hsource⟩ : ∃ a₀ a₁, e.flagSources = [a₀, a₁] := ⟨_, _, if_pos hwide⟩
    have hpair (x y : Word) : ∃ content' : Int → Word,
        (∀ a, a ∉ e.flagTargets order → content' a = content a) ∧
        content' a₀ = x ∧ content' a₁ = y := by
      obtain ⟨content', hframe, hbits⟩ := hsees (wordsNumber order [x, y])
      have hwords : [content' a₀, content' a₁] = [x, y] := by
        rw [RegistryMapEntry.flagsValue, hsource, hcount, hstart] at hbits
        refine wordsNumber_inj rfl (eq_of_flagBits_eq (wordsNumber_lt order _)
          (wordsNumber_lt order _) hbits)
      obtain ⟨hx, hy⟩ := List.cons.inj hwords
      exact ⟨content', hframe, hx, (List.cons.inj hy).1⟩
    have hmem₀ : a₀ ∈ e.flagTargets order := by
      by_contra hnot
      obtain ⟨content', hframe, hx, -⟩ := hpair 0 0
      obtain ⟨content'', hframe', hx', -⟩ := hpair 1 0
      rw [hframe _ hnot] at hx
      rw [hframe' _ hnot, hx] at hx'
      cases hx'
    have hmem₁ : a₁ ∈ e.flagTargets order := by
      by_contra hnot
      obtain ⟨content', hframe, -, hy⟩ := hpair 0 0
      obtain ⟨content'', hframe', -, hy'⟩ := hpair 0 1
      rw [hframe _ hnot] at hy
      rw [hframe' _ hnot, hy] at hy'
      cases hy'
    have hne : a₀ ≠ a₁ := by
      rintro rfl
      obtain ⟨content', -, hx, hy⟩ := hpair 0 1
      rw [hx] at hy
      cases hy
    rw [hsource]
    generalize e.flagTargets order = targets at hmem₀ hmem₁ htargets
    rcases targets with _ | ⟨t₀, _ | ⟨t₁, _ | ⟨t₂, targets⟩⟩⟩
    · cases hmem₀
    · exact absurd ((List.mem_singleton.mp hmem₀).trans (List.mem_singleton.mp hmem₁).symm) hne
    · simp only [List.mem_cons, List.not_mem_nil, or_false] at hmem₀ hmem₁
      rcases hmem₀ with rfl | rfl <;> rcases hmem₁ with rfl | rfl
      · exact absurd rfl hne
      · exact .inl rfl
      · exact .inr rfl
      · exact absurd rfl hne
    · simp at htargets

/-- No number prints with two zeros in front. -/
theorem take_toString_ne_zeros {n : Nat} (hn : 2 ≤ n) (i : Int) :
    (toString i).toList.take n ≠ List.replicate n '0' := by
  obtain ⟨n, rfl⟩ := Nat.exists_eq_add_of_le' hn
  cases i with
  | ofNat m =>
    have htext : (toString (Int.ofNat m)).toList = Nat.toDigits 10 m := Nat.toList_repr
    rw [htext]
    rcases Nat.eq_zero_or_pos m with rfl | hm
    · rw [Nat.toDigits_zero]
      simp [List.replicate_succ]
    · intro heq
      have hhead := congrArg List.head? heq
      rw [List.head?_take, if_neg (by omega)] at hhead
      exact Text.head?_toDigits_ne_zero m hm hhead
  | negSucc m =>
    have htext : (toString (Int.negSucc m)).toList = '-' :: (Nat.repr (m + 1)).toList := by
      show ("-" ++ Nat.repr (m + 1)).toList = _
      rw [String.toList_append]
      rfl
    rw [htext]
    simp [List.replicate_succ]

/-- Zeros are read back from zeros only. -/
theorem eq_zeros_of_readFlags {order : WordOrder} {s : List Char} {n : Nat} (hlength : s.length = n)
    (h : e.readFlags order s = List.replicate n '0') : s = List.replicate n '0' := by
  unfold RegistryMapEntry.readFlags at h
  split at h
  · exact h
  · refine List.eq_replicate_iff.mpr ⟨hlength, fun c hc => ?_⟩
    have hmem : c ∈ s.drop 16 ++ s.take 16 := by
      rw [← List.take_append_drop 16 s] at hc
      exact List.mem_append.mpr (List.mem_append.mp hc).symm
    rw [h] at hmem
    exact List.eq_of_mem_replicate hmem

/-- **Flags can be written** exactly under the conditions. -/
theorem flagsWritten_iff (h : IsFlags e.dataType) (hfits : e.FlagsFit) :
    ps.FlagsWritten host pack32 pack64 content e ↔
      ps.FlagsWritable host pack32 pack64 content e := by
  refine ⟨fun hw => ?_, flagsWritten_of_writable h hfits⟩
  have hregisters := flagSources_of_written h hfits hw
  have hcount : 2 ≤ e.flagCount := by
    rcases RegistryMapEntry.flagCount_cases h with ⟨hcount, -⟩ | ⟨hcount, -⟩ <;> omega
  have hzeros : Binary (List.replicate e.flagCount '0') :=
    fun c hc => .inl (List.eq_of_mem_replicate hc)
  obtain ⟨request, hwrite, hbits⟩ := hw _ hzeros List.length_replicate
  obtain ⟨registry, hread, hplain, -, hcurrent, code, scaled, words, -, hscaled, htext, hfield,
    rfl⟩ := (writeDevice_flags_iff h hzeros).mp hwrite
  have hunscaled : (e.unitMod != 1) = false := by
    by_contra hmod
    -- the text of zeros would be divided and printed as a number
    unfold applyUnitMod at hscaled
    rw [if_pos (show (floatArithmetic host ps pack32 pack64).scaled e = true from
      Bool.not_eq_false _ ▸ hmod)] at hscaled
    split at hscaled
    · next i _ =>
      obtain rfl := Option.some.inj (Except.ok.inj hscaled)
      rw [entryFlags_apply h hfits hregisters htext hfield] at hbits
      exact take_toString_ne_zeros hcount i
        (eq_zeros_of_readFlags (binary_of_isFlagText htext).1 (String.ofList_inj.mp hbits))
    · cases hscaled
    · cases hscaled
    · cases hscaled
  refine ⟨(readBack_spec hread).1, hplain, hunscaled, hcurrent, hregisters, fun s hs hlength => ?_⟩
  obtain ⟨request, hwrite, hbits⟩ := hw s hs hlength
  obtain ⟨-, -, -, -, -, code, scaled, words, hcode, hscaled, htext, hfield, rfl⟩ :=
    (writeDevice_flags_iff h hs).mp hwrite
  rw [applyUnitMod_of_unscaled hunscaled] at hscaled
  obtain rfl := Option.some.inj (Except.ok.inj hscaled)
  rw [entryFlags_apply h hfits hregisters htext hfield] at hbits
  exact ⟨code, hcode, htext, String.ofList_inj.mp hbits⟩

/-- Eight flags without a code table. -/
def relays : RegistryMapEntry :=
  ({ cell := "40", variableName := "relays", dataType := .bit8Flags, writeMode := .write } :
    Row).entry .holding { register := 40, registerByte := 0 } 0

/-- Sixteen flags with a code table. -/
def operatingMode : RegistryMapEntry :=
  ({ cell := "41", variableName := "mode", dataType := .bit16Flags, writeMode := .write } :
    Row).entry .holding { register := 41, registerByte := 0 } 0

/-- A protocol that says what the flags of the mode mean. -/
def modeProtocol : ProtocolSettings where
  codes := [("mode_codes", .dict [("b0", .str "Charging"), ("b1", .str "Discharging")])]

/-- Whole numbers are read as such. -/
def integerHost : Host :=
  { (default : Host) with floatOfText := fun s => (Text.pyInt s.toList).map Float.ofInt }

theorem truncate_zero : truncate (Float.ofInt 0) = .ok 0 := by
  have hsignificand : significand (Float.ofInt 0) = 0 := by decide
  have hexponent : exponentBits (Float.ofInt 0) = 0 := by decide
  unfold truncate
  rw [hexponent, hsignificand, if_neg (by decide), Nat.zero_mul, Nat.zero_div]
  split <;> rfl

/-- The relays are written while none of them is on. -/
theorem relays_written : ({} : ProtocolSettings).FlagsWritten integerHost (fun _ => .ok [])
    (fun _ => .ok []) (fun _ => 0) relays := by
  have hvalid : ({} : ProtocolSettings).validateRegistryEntry
      (floatArithmetic integerHost {} (fun _ => .ok []) (fun _ => .ok [])) relays
        (.str "00000000") = .ok 1 := by
    have hfloat : PyValue.toFloatInt integerHost (.str "00000000") = .ok 0 := truncate_zero
    have hinteger : (floatArithmetic integerHost {} (fun _ => .ok []) (fun _ => .ok [])).toFloatInt
        (.str "00000000") = .ok 0 := hfloat
    rw [validateRegistryEntry_of_noCodes rfl (by decide), validateNumber, hinteger]
    rfl
  refine (flagsWritten_iff (.inl rfl) (by unfold RegistryMapEntry.FlagsFit; decide)).mpr
    ⟨by decide, rfl, by decide,
      ⟨"00000000", "00000000", "00000000", 1, rfl, rfl, rfl, hvalid, by decide⟩, .inl rfl,
      fun s hs hlength => ⟨String.ofList s, rfl, ?_, ?_⟩⟩
  · rw [String.toList_ofList, ← hlength]
    exact isFlagText_of_binary hs
  · rw [String.toList_ofList, List.take_of_length_le (Nat.le_of_eq hlength)]
    exact if_pos rfl

/-- Without a flag set, the mode reads as an empty text, which is no code. -/
theorem not_written_without_flags : IsFlags operatingMode.dataType ∧ operatingMode.FlagsFit ∧
    ¬modeProtocol.FlagsWritten integerHost (fun _ => .ok []) (fun _ => .ok []) (fun _ => 0)
      operatingMode := by
  have htype : IsFlags operatingMode.dataType := .inr (.inl rfl)
  refine ⟨htype, by unfold RegistryMapEntry.FlagsFit; decide, fun hw => ?_⟩
  have hzeros : Binary (List.replicate operatingMode.flagCount '0') :=
    fun c hc => .inl (List.eq_of_mem_replicate hc)
  obtain ⟨request, hwrite, -⟩ := hw _ hzeros List.length_replicate
  obtain ⟨-, -, -, -, ⟨text, shown, code, valid, htext, hshown, hcode, hvalid, hne⟩, -⟩ :=
    (writeDevice_flags_iff htype hzeros).mp hwrite
  obtain rfl : "" = text := Except.ok.inj htext
  obtain rfl : "" = shown := Option.some.inj hshown
  obtain rfl : "" = code := Except.ok.inj hcode
  exact hne (Except.ok.inj hvalid).symm

end ProtocolSettings

end ProtocolGateway
