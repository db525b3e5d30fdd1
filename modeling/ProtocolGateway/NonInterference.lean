import ProtocolGateway.DecodeFailures
import Mathlib.Algebra.BigOperators.Group.List.Basic
import Mathlib.Data.Finset.Preimage
import Mathlib.Data.Fintype.EquivFin
import Mathlib.Data.List.Find

/-!
# Non-interference of entries

The value `process_registery` decodes for a variable should be a matter of the variable's own
entries and of the registers they decode from. For plain entries it is. The members of all
concatenated ranges of a map share one dictionary, keyed by address, in which the members of a range
that was not read completely stay behind: a range can be completed by what another variable's
entries left there.

`Snapshot.read` and `addressesIn` say what an entry decodes from, `lastRead` which entry of a
variable has the last word. A variable's value is its own exactly if that entry is never a member of
a range (`nonInterfering_iff`).
-/

namespace ProtocolGateway

open Outcomes BitField ProtocolSettings

/-! ## What an entry decodes from -/

/-- What a snapshot holds at an address. -/
def ProtocolSettings.Snapshot.read : Snapshot → Int → Option (Word ⊕ List Byte)
  | .words registry, a => (registry a).map .inl
  | .bytes registry, a => (registry a).map .inr

namespace RegistryMapEntry

variable (e : RegistryMapEntry)

/-- The number of registers `process_register_ushort` joins, for the types that join any. -/
def joinedWords : Nat :=
  match e.dataType with
  | .uint | .acc32 | .int | .float32 | .bit32Flags => 2
  | .uint64 | .int64 | .float64 => 4
  | .ascii => e.asciiWords
  | .string | .string16 | .string32 => e.entryWordCount
  | _ => 0

/-- The addresses `process_register_ushort` looks at. -/
def wordAddresses : List Int :=
  e.register ::
    (List.range e.joinedWords).map fun i : Nat => e.registerList.getD i (e.register + i)

/-- The addresses the decoder of a kind of snapshot looks at. -/
def decoderAddresses : Snapshot → List Int
  | .words _ => e.wordAddresses
  | .bytes _ => [e.register]

/-- The addresses an entry decodes from: those its decoder looks at, and for a member of a range
all addresses of the range. -/
def addressesIn (snapshot : Snapshot) : List Int :=
  e.decoderAddresses snapshot ++ if e.concatenate then e.concatenateRegisters else []

/-- Every address the entry decodes from was read. -/
def readIn (snapshot : Snapshot) : Bool :=
  e.descriptionSource = "" && (e.addressesIn snapshot).all fun a => (snapshot.read a).isSome

end RegistryMapEntry

/-- The entries of a variable. -/
def entriesOf (variableName : String) (registryMap : List RegistryMapEntry) :
    List RegistryMapEntry :=
  registryMap.filter fun e => e.variableName = variableName

/-- The last of a variable's entries that was read. -/
def lastRead (snapshot : Snapshot) (own : List RegistryMapEntry) : Option RegistryMapEntry :=
  own.reverse.find? (·.readIn snapshot)

/-- Two snapshots hold the same where entries decode from. -/
def AgreeOn (own : List RegistryMapEntry) (snapshot snapshot' : Snapshot) : Prop :=
  ∀ e ∈ own, ∀ a ∈ e.addressesIn snapshot, snapshot.read a = snapshot'.read a

/-- The entries of a register map, as far as their addresses go. -/
def WellFormed (registryMap : List RegistryMapEntry) : Prop :=
  ∀ e ∈ registryMap, AddressForm e ∧ RangeForm e

namespace ProtocolSettings

variable (ps : ProtocolSettings) (host : Host)

/-- Whatever other entries a map has and whatever else a snapshot holds, a variable is decoded to
the same value. -/
def NonInterfering (variableName : String) (own : List RegistryMapEntry) : Prop :=
  ∀ registryMap registryMap' snapshot snapshot' info info',
    WellFormed registryMap → WellFormed registryMap' →
    entriesOf variableName registryMap = own → entriesOf variableName registryMap' = own →
    AgreeOn own snapshot snapshot' →
    ps.decodedInfo host snapshot registryMap = .ok info →
    ps.decodedInfo host snapshot' registryMap' = .ok info' →
    info.get? variableName = info'.get? variableName

/-- In every snapshot that the entries decode without an exception, the last of them that was read
is not a member of a range. -/
def LastIsPlain (own : List RegistryMapEntry) : Prop :=
  ∀ snapshot, (∀ e ∈ own, e.descriptionSource = "" → Returns (ps.decodeEntry host snapshot e)) →
    ∀ e, lastRead snapshot own = some e → e.concatenate = false

variable {ps host}

/-! ## One entry -/

theorem mem_wordAddresses {e : RegistryMapEntry} {i : Nat} (h : i < e.joinedWords) :
    e.registerList.getD i (e.register + i) ∈ e.wordAddresses :=
  List.mem_cons_of_mem _ (List.mem_map.mpr ⟨i, List.mem_range.mpr h, rfl⟩)

theorem mapM_option_congr {α β : Type} {f g : α → Option β} {l : List α}
    (h : ∀ a ∈ l, f a = g a) : l.mapM f = l.mapM g := by
  induction l with
  | nil => rfl
  | cons a l ih =>
    rw [List.mapM_cons, List.mapM_cons, h a List.mem_cons_self,
      ih fun b hb => h b (List.mem_cons_of_mem _ hb)]

theorem registerWordsToBytes_congr {registry registry' : Int → Option Word} {e : RegistryMapEntry}
    (h : ∀ a ∈ e.wordAddresses, registry a = registry' a) (order : WordOrder) :
    registerWordsToBytes registry e.register e.joinedWords order e.registerList =
      registerWordsToBytes registry' e.register e.joinedWords order e.registerList := by
  unfold registerWordsToBytes
  congr 1
  refine mapM_option_congr fun i hi => ?_
  exact h _ (mem_wordAddresses (List.mem_range.mp hi))

/-- The joined registers are there if each of them is. -/
theorem registerWordsToBytes_isSome_iff {registry : Int → Option Word} {e : RegistryMapEntry}
    (order : WordOrder) (h : (registry e.register).isSome = true) :
    (registerWordsToBytes registry e.register e.joinedWords order e.registerList).isSome = true ↔
      ∀ a ∈ e.wordAddresses, (registry a).isSome = true := by
  unfold registerWordsToBytes RegistryMapEntry.wordAddresses
  rw [Option.isSome_map, Cell.mapM_isSome_iff, List.forall_mem_cons, List.forall_mem_map]
  exact ⟨fun hall => ⟨h, hall⟩, fun hall => hall.2⟩

/-- `process_register_ushort` only looks at the entry's addresses. -/
theorem decodeUshort_congr {registry registry' : Int → Option Word} {e : RegistryMapEntry}
    (h : ∀ a ∈ e.wordAddresses, registry a = registry' a) (order : WordOrder) :
    ps.decodeUshort order registry e = ps.decodeUshort order registry' e := by
  have hword : wordAt registry e.register = wordAt registry' e.register := by
    rw [wordAt, wordAt, h e.register List.mem_cons_self]
  have hbytes := registerWordsToBytes_congr h order
  unfold decodeUshort
  cases htype : e.dataType <;>
    simp only [RegistryMapEntry.joinedWords, htype] at hbytes ⊢ <;> simp only [hword, hbytes]

/-- `process_register_ushort` gives a value if all of the entry's addresses are there. -/
theorem decodeUshort_isSome_iff {registry : Int → Option Word} {e : RegistryMapEntry}
    {order : WordOrder} {value : Option PyValue} (h : (registry e.register).isSome = true)
    (hvalue : ps.decodeUshort order registry e = .ok value) :
    value.isSome = true ↔ ∀ a ∈ e.wordAddresses, (registry a).isSome = true := by
  rw [← registerWordsToBytes_isSome_iff order h]
  unfold decodeUshort at hvalue
  unfold RegistryMapEntry.joinedWords
  cases htype : e.dataType with
  | uint | acc32 | int | uint64 | int64 =>
    simp only [htype] at hvalue
    rw [← Except.ok.inj hvalue, Option.isSome_map]
  | ascii | string | string16 | string32 =>
    simp only [htype] at hvalue
    rw [← Except.ok.inj hvalue, Option.isSome_map, Option.isSome_map]
  | float32 | float64 | bit32Flags =>
    simp only [htype] at hvalue
    split at hvalue
    · next raw hraw =>
      obtain ⟨f, -, rfl⟩ := map_eq_ok_iff.mp hvalue
      rw [hraw]
      exact iff_of_true rfl rfl
    · next hraw =>
      rw [← Except.ok.inj hvalue, hraw]
      exact Iff.rfl
  | bit8Flags | bit16Flags =>
    simp only [htype] at hvalue
    obtain ⟨w, -, hvalue⟩ := bind_eq_ok_iff.mp hvalue
    obtain ⟨flags, -, hvalue⟩ := bind_eq_ok_iff.mp hvalue
    rw [← Except.ok.inj hvalue]
    exact iff_of_true rfl rfl
  | ushort | short | byte | hex | bit n | sBit n | smBit n =>
    simp only [htype] at hvalue
    obtain ⟨w, -, rfl⟩ := map_eq_ok_iff.mp hvalue
    exact iff_of_true rfl rfl

theorem register_mem_decoderAddresses {e : RegistryMapEntry} {snapshot : Snapshot} :
    e.register ∈ e.decoderAddresses snapshot := by
  cases snapshot with
  | words registry => exact List.mem_cons_self
  | bytes registry => exact List.mem_singleton_self _

theorem read_words {registry : Int → Option Word} {a : Int} :
    (Snapshot.words registry).read a = (registry a).map .inl := rfl

theorem read_bytes {registry : Int → Option (List Byte)} {a : Int} :
    (Snapshot.bytes registry).read a = (registry a).map .inr := rfl

/-- What the decoder of a kind of snapshot makes of an entry. -/
def decoderValue (ps : ProtocolSettings) (host : Host) (e : RegistryMapEntry) :
    Snapshot → Except PyError (Option PyValue)
  | .words registry =>
    if (registry e.register).isSome then ps.processRegisterUshort host registry e else .ok none
  | .bytes registry =>
    if (registry e.register).isSome then (ps.processRegisterBytes host registry e).map some
    else .ok none

/-- The bits of an entry are cut out of its decoded number. -/
def cutBits (e : RegistryMapEntry) : Option PyValue → Except PyError (Option PyValue)
  | none => .ok none
  | some (.str s) => .ok (some (.str s))
  | some number =>
    if 0 ≤ e.registerBit ∧ ¬decodedValueAlreadyHonorsBitOffset e then do
      return some (.int (← extractBits (← number.toInt) e))
    else .ok (some number)

theorem decodeEntry_eq (snapshot : Snapshot) (e : RegistryMapEntry) :
    ps.decodeEntry host snapshot e = decoderValue ps host e snapshot >>= cutBits e := by
  unfold decodeEntry
  cases snapshot with
  | words registry =>
    unfold decoderValue
    dsimp only
    split <;> rfl
  | bytes registry =>
    unfold decoderValue
    dsimp only
    split <;> rfl

/-- Cutting bits keeps a value a value. -/
theorem isSome_of_cutBits {e : RegistryMapEntry} {value cut : Option PyValue}
    (h : cutBits e value = .ok cut) : cut.isSome = value.isSome := by
  unfold cutBits at h
  split at h
  · rw [← Except.ok.inj h]
  · rw [← Except.ok.inj h]
  · split at h
    · obtain ⟨i, -, h⟩ := bind_eq_ok_iff.mp h
      obtain ⟨bits, -, rfl⟩ := map_eq_ok_iff.mp h
      rfl
    · rw [← Except.ok.inj h]

theorem decoderValue_of_absent {e : RegistryMapEntry} {snapshot : Snapshot}
    (h : snapshot.read e.register = none) : decoderValue ps host e snapshot = .ok none := by
  cases snapshot with
  | words registry =>
    have habsent : registry e.register = none := Option.map_eq_none_iff.mp h
    rw [decoderValue, habsent]
    rfl
  | bytes registry =>
    have habsent : registry e.register = none := Option.map_eq_none_iff.mp h
    rw [decoderValue, habsent]
    rfl

/-- An entry without its register has no value. -/
theorem decodeEntry_of_absent {e : RegistryMapEntry} {snapshot : Snapshot}
    (h : snapshot.read e.register = none) : ps.decodeEntry host snapshot e = .ok none := by
  rw [decodeEntry_eq, decoderValue_of_absent h]
  rfl

/-- Two snapshots of different kinds agree on nothing that is there. -/
theorem words_ne_bytes {registry : Int → Option Word} {registry' : Int → Option (List Byte)}
    {a : Int} (h : (Snapshot.words registry).read a = (Snapshot.bytes registry').read a) :
    (Snapshot.words registry).read a = none ∧ (Snapshot.bytes registry').read a = none := by
  rw [read_words, read_bytes] at h ⊢
  cases hw : registry a with
  | none =>
    rw [hw] at h
    exact ⟨rfl, h.symm⟩
  | some w =>
    rw [hw] at h
    cases hb : registry' a with
    | none =>
      rw [hb] at h
      cases h
    | some b =>
      rw [hb] at h
      cases h

/-- What an entry is decoded to depends on the addresses its decoder looks at. -/
theorem decodeEntry_congr {e : RegistryMapEntry} {snapshot snapshot' : Snapshot}
    (h : ∀ a ∈ e.decoderAddresses snapshot, snapshot.read a = snapshot'.read a) :
    ps.decodeEntry host snapshot e = ps.decodeEntry host snapshot' e := by
  have hregister := h e.register register_mem_decoderAddresses
  rcases snapshot with registry | registry <;> rcases snapshot' with registry' | registry'
  · have hsame : ∀ a ∈ e.wordAddresses, registry a = registry' a := fun a ha =>
      Option.map_injective Sum.inl_injective (h a ha)
    rw [decodeEntry_eq, decodeEntry_eq, decoderValue, decoderValue, processRegisterUshort,
      processRegisterUshort, hsame e.register List.mem_cons_self, decodeUshort_congr hsame]
  · rw [decodeEntry_of_absent (words_ne_bytes hregister).1,
      decodeEntry_of_absent (words_ne_bytes hregister).2]
  · rw [decodeEntry_of_absent (words_ne_bytes hregister.symm).1,
      decodeEntry_of_absent (words_ne_bytes hregister.symm).2]
  · have hsame : registry e.register = registry' e.register :=
      Option.map_injective Sum.inr_injective hregister
    rw [decodeEntry_eq, decodeEntry_eq, decoderValue, decoderValue, processRegisterBytes,
      processRegisterBytes, hsame]

/-- A decoder gives a value if every address it looks at is there. -/
theorem decoderValue_isSome_iff {e : RegistryMapEntry} {snapshot : Snapshot}
    {value : Option PyValue} (hvalue : decoderValue ps host e snapshot = .ok value) :
    value.isSome = true ↔
      ∀ a ∈ e.decoderAddresses snapshot, (snapshot.read a).isSome = true := by
  cases hregister : snapshot.read e.register with
  | none =>
    rw [decoderValue_of_absent hregister] at hvalue
    rw [← Except.ok.inj hvalue]
    refine iff_of_false (by simp) fun h => ?_
    have hpresent := h e.register register_mem_decoderAddresses
    rw [hregister] at hpresent
    cases hpresent
  | some content =>
    cases snapshot with
    | words registry =>
      have hpresent : (registry e.register).isSome = true := by
        rw [← Option.isSome_map (f := Sum.inl (β := List Byte)), ← read_words, hregister]
        rfl
      rw [decoderValue, if_pos hpresent, processRegisterUshort] at hvalue
      obtain ⟨decoded, hdecoded, hvalue⟩ := bind_eq_ok_iff.mp hvalue
      have hsame : value.isSome = decoded.isSome := by
        cases decoded with
        | none => rw [← Except.ok.inj hvalue]
        | some decoded =>
          obtain ⟨adjusted, -, hvalue⟩ := bind_eq_ok_iff.mp hvalue
          rw [← Except.ok.inj hvalue]
          rfl
      rw [hsame, decodeUshort_isSome_iff hpresent hdecoded]
      refine forall₂_congr fun a _ => ?_
      rw [read_words, Option.isSome_map]
    | bytes registry =>
      have hpresent : (registry e.register).isSome = true := by
        rw [← Option.isSome_map (f := Sum.inr (α := Word)), ← read_bytes, hregister]
        rfl
      rw [decoderValue, if_pos hpresent] at hvalue
      obtain ⟨decoded, -, rfl⟩ := map_eq_ok_iff.mp hvalue
      refine iff_of_true rfl fun a ha => ?_
      rw [List.mem_singleton.mp ha, hregister]
      rfl

/-- An entry is decoded to a value if every address its decoder looks at is there. -/
theorem decodeEntry_isSome_iff {e : RegistryMapEntry} {snapshot : Snapshot}
    {value : Option PyValue} (hvalue : ps.decodeEntry host snapshot e = .ok value) :
    value.isSome = true ↔
      ∀ a ∈ e.decoderAddresses snapshot, (snapshot.read a).isSome = true := by
  rw [decodeEntry_eq] at hvalue
  obtain ⟨decoded, hdecoded, hcut⟩ := bind_eq_ok_iff.mp hvalue
  rw [isSome_of_cutBits hcut, decoderValue_isSome_iff hdecoded]

theorem readIn_iff {e : RegistryMapEntry} {snapshot : Snapshot} :
    e.readIn snapshot = true ↔ e.descriptionSource = "" ∧
      ∀ a ∈ e.addressesIn snapshot, (snapshot.read a).isSome = true := by
  unfold RegistryMapEntry.readIn
  rw [Bool.and_eq_true, decide_eq_true_iff, List.all_eq_true]

theorem decoderAddresses_subset {e : RegistryMapEntry} {snapshot : Snapshot} :
    e.decoderAddresses snapshot ⊆ e.addressesIn snapshot :=
  fun _ ha => List.mem_append_left _ ha

/-- Snapshots that agree where an entry decodes from read the same of it. -/
theorem readIn_of_agree {e : RegistryMapEntry} {snapshot snapshot' : Snapshot}
    (h : ∀ a ∈ e.addressesIn snapshot, snapshot.read a = snapshot'.read a) :
    e.readIn snapshot = e.readIn snapshot' := by
  have habsent (snapshot : Snapshot) (hnone : snapshot.read e.register = none) :
      e.readIn snapshot = false := by
    refine Bool.eq_false_iff.mpr fun hread => ?_
    have hpresent := (readIn_iff.mp hread).2 e.register
      (decoderAddresses_subset register_mem_decoderAddresses)
    rw [hnone] at hpresent
    cases hpresent
  have hregister := h e.register (decoderAddresses_subset register_mem_decoderAddresses)
  rcases snapshot with registry | registry <;> rcases snapshot' with registry' | registry'
  · refine Bool.eq_iff_iff.mpr ?_
    rw [readIn_iff, readIn_iff]
    refine and_congr_right fun _ => forall₂_congr fun a ha => ?_
    rw [h a ha]
  · rw [habsent _ (words_ne_bytes hregister).1, habsent _ (words_ne_bytes hregister).2]
  · rw [habsent _ (words_ne_bytes hregister.symm).1, habsent _ (words_ne_bytes hregister.symm).2]
  · refine Bool.eq_iff_iff.mpr ?_
    rw [readIn_iff, readIn_iff]
    refine and_congr_right fun _ => forall₂_congr fun a ha => ?_
    rw [h a ha]

theorem lastRead_of_agree {own : List RegistryMapEntry} {snapshot snapshot' : Snapshot}
    (h : AgreeOn own snapshot snapshot') : lastRead snapshot own = lastRead snapshot' own := by
  unfold lastRead
  exact List.find?_congr fun e he => readIn_of_agree (h e (List.mem_reverse.mp he))

/-! ## One step of the loop -/

/-- The text of a complete range under its variable. -/
def rangeText (e : RegistryMapEntry) (text : String) : String :=
  if e.dataType = .ascii then
    String.ofList (Text.strip (text.toList.map fun c => if c = '\x00' then ' ' else c))
  else text

/-- What filing a value can do: a plain value is set, and a member of a range either waits in the
shared dictionary or completes its range. -/
theorem fileValue_cases {decoded decoded' : Decoded} {e : RegistryMapEntry} {value : PyValue}
    (h : fileValue host decoded e value = .ok decoded') :
    (e.concatenate = false ∧
      decoded' = ⟨decoded.concatenated, decoded.info.set e.variableName value⟩) ∨
    (e.concatenate = true ∧
      decoded' = ⟨decoded.concatenated.set e.register value, decoded.info⟩ ∧
      ∃ key ∈ e.concatenateRegisters,
        (decoded.concatenated.set e.register value).get? key = none) ∨
    (e.concatenate = true ∧
      (∀ key ∈ e.concatenateRegisters,
        ((decoded.concatenated.set e.register value).get? key).isSome = true) ∧
      ∃ text rest, joinRange host e.concatenateRegisters
          (decoded.concatenated.set e.register value) = .ok (text, rest) ∧
        decoded' = ⟨rest, decoded.info.set e.variableName (.str (rangeText e text))⟩) := by
  unfold fileValue at h
  split at h
  · next hconcatenate =>
    dsimp only at h
    split at h
    · next hall =>
      obtain ⟨⟨text, rest⟩, hjoin, h⟩ := bind_eq_ok_iff.mp h
      exact Or.inr (Or.inr ⟨hconcatenate, List.all_eq_true.mp hall, text, rest, hjoin,
        (Except.ok.inj h).symm⟩)
    · next hall =>
      refine Or.inr (Or.inl ⟨hconcatenate, (Except.ok.inj h).symm, ?_⟩)
      rw [List.all_eq_true] at hall
      push Not at hall
      obtain ⟨key, hkey, hmissing⟩ := hall
      exact ⟨key, hkey, Option.not_isSome_iff_eq_none.mp hmissing⟩
  · next hconcatenate =>
    exact Or.inl ⟨Bool.eq_false_iff.mpr hconcatenate, (Except.ok.inj h).symm⟩

/-- A step skips an entry or files its value. -/
theorem decodeStep_cases {snapshot : Snapshot} {decoded decoded' : Decoded} {e : RegistryMapEntry}
    (h : ps.decodeStep host snapshot decoded e = .ok decoded') :
    decoded' = decoded ∧
      (e.descriptionSource ≠ "" ∨ ps.decodeEntry host snapshot e = .ok none) ∨
    e.descriptionSource = "" ∧ ∃ value, ps.decodeEntry host snapshot e = .ok (some value) ∧
      fileValue host decoded e value = .ok decoded' := by
  unfold decodeStep at h
  split at h
  · next hsource => exact Or.inl ⟨(Except.ok.inj h).symm, Or.inl hsource⟩
  · next hsource =>
    obtain ⟨value, hvalue, h⟩ := bind_eq_ok_iff.mp h
    cases value with
    | none => exact Or.inl ⟨(Except.ok.inj h).symm, Or.inr hvalue⟩
    | some value => exact Or.inr ⟨not_not.mp hsource, value, hvalue, h⟩

/-- Joining a range only takes values out. -/
theorem get?_of_joinRange {keys : List Int} {concatenated rest : Dict Int PyValue} {text : String}
    (h : joinRange host keys concatenated = .ok (text, rest)) {key : Int} {value : PyValue}
    (hvalue : rest.get? key = some value) : concatenated.get? key = some value := by
  induction keys generalizing concatenated text with
  | nil =>
    obtain ⟨-, rfl⟩ := Prod.mk.inj (Except.ok.inj h)
    exact hvalue
  | cons first keys ih =>
    unfold joinRange at h
    split at h
    · cases h
    · obtain ⟨⟨text', rest'⟩, hjoin, h⟩ := bind_eq_ok_iff.mp h
      obtain ⟨-, rfl⟩ := Prod.mk.inj (Except.ok.inj h)
      have hmem := Dict.get?_eq_some_iff.mp (ih hjoin)
      exact Dict.get?_eq_some_iff.mpr (List.mem_of_mem_filter hmem)

/-- The shared dictionary holds only addresses with a property. -/
def FiledAt (P : Int → Prop) (decoded : Decoded) : Prop :=
  ∀ key value, decoded.concatenated.get? key = some value → P key

/-- Only the register of an entry is filed. -/
theorem filedAt_fileValue {P : Int → Prop} {decoded decoded' : Decoded} {e : RegistryMapEntry}
    {value : PyValue} (hfiled : FiledAt P decoded) (hregister : P e.register)
    (h : fileValue host decoded e value = .ok decoded') : FiledAt P decoded' := by
  have hset : ∀ key value', (decoded.concatenated.set e.register value).get? key = some value' →
      P key := by
    intro key value' hget
    rw [Dict.get?_set] at hget
    split at hget
    · next heq => exact heq ▸ hregister
    · exact hfiled key value' hget
  rcases fileValue_cases h with ⟨-, rfl⟩ | ⟨-, rfl, -⟩ | ⟨-, -, text, rest, hjoin, rfl⟩
  · exact hfiled
  · exact hset
  · exact fun key value' hget => hset key value' (get?_of_joinRange hjoin hget)

theorem filedAt_decodeStep {P : Int → Prop} {snapshot : Snapshot} {decoded decoded' : Decoded}
    {e : RegistryMapEntry} (hfiled : FiledAt P decoded)
    (hregister : (snapshot.read e.register).isSome = true → P e.register)
    (h : ps.decodeStep host snapshot decoded e = .ok decoded') : FiledAt P decoded' := by
  rcases decodeStep_cases h with ⟨rfl, -⟩ | ⟨-, value, hvalue, hfile⟩
  · exact hfiled
  · refine filedAt_fileValue hfiled (hregister ?_) hfile
    exact (decodeEntry_isSome_iff hvalue).mp rfl e.register register_mem_decoderAddresses

/-- A run files only the registers of its entries that are there. -/
theorem filedAt_foldlM {P : Int → Prop} {snapshot : Snapshot} {registryMap : List RegistryMapEntry}
    {decoded decoded' : Decoded} (hfiled : FiledAt P decoded)
    (hregister : ∀ e ∈ registryMap, (snapshot.read e.register).isSome = true → P e.register)
    (h : registryMap.foldlM (ps.decodeStep host snapshot) decoded = .ok decoded') :
    FiledAt P decoded' :=
  foldlM_preserves (FiledAt P)
    (fun e he _ _ hfiled hstep => filedAt_decodeStep hfiled (hregister e he) hstep) hfiled h

/-! ## What a run leaves under a name -/

variable {snapshot : Snapshot} {variableName : String}

/-- The addresses a snapshot has. -/
def Present (snapshot : Snapshot) (a : Int) : Prop := (snapshot.read a).isSome = true

/-- Filing a value only changes the entry's own variable. -/
theorem get?_fileValue_of_other {decoded decoded' : Decoded} {e : RegistryMapEntry}
    {value : PyValue} (hname : e.variableName ≠ variableName)
    (h : fileValue host decoded e value = .ok decoded') :
    decoded'.info.get? variableName = decoded.info.get? variableName := by
  rcases fileValue_cases h with ⟨-, rfl⟩ | ⟨-, rfl, -⟩ | ⟨-, -, text, rest, -, rfl⟩
  · exact (Dict.get?_set _ _ _ _).trans (if_neg (Ne.symm hname))
  · rfl
  · exact (Dict.get?_set _ _ _ _).trans (if_neg (Ne.symm hname))

/-- An entry that was not read completely sets nothing: the missing address of its range was not
filed by any entry. -/
theorem info_of_unread {decoded decoded' : Decoded} {e : RegistryMapEntry}
    (hfiled : FiledAt (Present snapshot) decoded) (hunread : e.readIn snapshot = false)
    (h : ps.decodeStep host snapshot decoded e = .ok decoded') : decoded'.info = decoded.info := by
  rcases decodeStep_cases h with ⟨rfl, -⟩ | ⟨hsource, value, hvalue, hfile⟩
  · rfl
  · have hlooked := (decodeEntry_isSome_iff hvalue).mp rfl
    have hmissing (hrange : ∀ a ∈ if e.concatenate then e.concatenateRegisters else [],
        Present snapshot a) : False := by
      refine Bool.false_ne_true (hunread.symm.trans (readIn_iff.mpr ⟨hsource, fun a ha => ?_⟩))
      exact (List.mem_append.mp ha).elim (hlooked a) (hrange a)
    rcases fileValue_cases hfile with ⟨hplain, -⟩ | ⟨-, rfl, -⟩ | ⟨hrange, hall, text, rest, hjoin, rfl⟩
    · refine (hmissing ?_).elim
      rw [hplain]
      exact fun a ha => absurd ha List.not_mem_nil
    · rfl
    · refine (hmissing ?_).elim
      rw [hrange]
      intro a ha
      obtain ⟨value', hvalue'⟩ := Option.isSome_iff_exists.mp (hall a ha)
      rw [Dict.get?_set] at hvalue'
      split at hvalue'
      · next heq => exact heq ▸ hlooked e.register register_mem_decoderAddresses
      · exact hfiled a value' hvalue'

/-- A run in which no entry of a variable was read leaves the variable as it was. -/
theorem get?_foldlM_of_unread {registryMap : List RegistryMapEntry} {decoded decoded' : Decoded}
    (hfiled : FiledAt (Present snapshot) decoded)
    (hunread : ∀ e ∈ entriesOf variableName registryMap, e.readIn snapshot = false)
    (h : registryMap.foldlM (ps.decodeStep host snapshot) decoded = .ok decoded') :
    decoded'.info.get? variableName = decoded.info.get? variableName := by
  have hstep : ∀ e ∈ registryMap, ∀ between between' : Decoded,
      FiledAt (Present snapshot) between ∧
        between.info.get? variableName = decoded.info.get? variableName →
      ps.decodeStep host snapshot between e = .ok between' →
      FiledAt (Present snapshot) between' ∧
        between'.info.get? variableName = decoded.info.get? variableName := by
    rintro e he between between' ⟨hfiled, hsame⟩ hstep
    refine ⟨filedAt_decodeStep hfiled id hstep, ?_⟩
    rw [← hsame]
    by_cases hname : e.variableName = variableName
    · rw [info_of_unread hfiled (hunread e (List.mem_filter.mpr ⟨he, by simpa using hname⟩)) hstep]
    · rcases decodeStep_cases hstep with ⟨rfl, -⟩ | ⟨-, value, -, hfile⟩
      · rfl
      · exact get?_fileValue_of_other hname hfile
  exact (foldlM_preserves _ hstep ⟨hfiled, rfl⟩ h).2

theorem lastRead_eq_none_iff {own : List RegistryMapEntry} :
    lastRead snapshot own = none ↔ ∀ e ∈ own, e.readIn snapshot = false := by
  unfold lastRead
  rw [List.find?_eq_none]
  simp only [List.mem_reverse, Bool.not_eq_true]

/-- The last entry that was read, with the entries before it and the unread ones after it. -/
theorem split_of_lastRead {own : List RegistryMapEntry} {e : RegistryMapEntry}
    (h : lastRead snapshot own = some e) : e.readIn snapshot = true ∧ ∃ before after,
      own = before ++ e :: after ∧ ∀ e' ∈ after, e'.readIn snapshot = false := by
  obtain ⟨hread, after, before, hsplit, hafter⟩ := List.find?_eq_some_iff_append.mp h
  refine ⟨hread, before.reverse, after.reverse, ?_, fun e' he' => ?_⟩
  · rw [← List.reverse_reverse own, hsplit]
    simp
  · simpa using hafter e' (List.mem_reverse.mp he')

/-- A variable whose last entry that was read is plain has the value of that entry. -/
theorem get?_foldlM_of_lastRead {registryMap : List RegistryMapEntry} {decoded decoded' : Decoded}
    {e : RegistryMapEntry} (hfiled : FiledAt (Present snapshot) decoded)
    (hlast : lastRead snapshot (entriesOf variableName registryMap) = some e)
    (hplain : e.concatenate = false)
    (h : registryMap.foldlM (ps.decodeStep host snapshot) decoded = .ok decoded') :
    ∃ value, ps.decodeEntry host snapshot e = .ok (some value) ∧
      decoded'.info.get? variableName = some value := by
  obtain ⟨hread, before, after, hown, hafter⟩ := split_of_lastRead hlast
  obtain ⟨first, rest, rfl, -, hrest⟩ := List.filter_eq_append_iff.mp hown
  obtain ⟨middle, last, rfl, -, hname, hlast'⟩ := List.filter_eq_cons_iff.mp hrest
  rw [List.foldlM_append] at h
  obtain ⟨decoded₁, h₁, h⟩ := bind_eq_ok_iff.mp h
  rw [List.foldlM_append] at h
  obtain ⟨decoded₂, h₂, h⟩ := bind_eq_ok_iff.mp h
  rw [List.foldlM_cons] at h
  obtain ⟨decoded₃, hstep, h₃⟩ := bind_eq_ok_iff.mp h
  have hfiled₂ : FiledAt (Present snapshot) decoded₂ :=
    filedAt_foldlM (filedAt_foldlM hfiled (fun _ _ hpresent => hpresent) h₁)
      (fun _ _ hpresent => hpresent) h₂
  obtain ⟨hsource, hpresent⟩ := readIn_iff.mp hread
  rcases decodeStep_cases hstep with ⟨-, hskip⟩ | ⟨-, value, hvalue, hfile⟩
  · rcases hskip with hskip | hskip
    · exact absurd hsource hskip
    · have hnone := (decodeEntry_isSome_iff hskip).mpr fun a ha =>
        hpresent a (decoderAddresses_subset ha)
      cases hnone
  · refine ⟨value, hvalue, ?_⟩
    have hunread : ∀ e' ∈ entriesOf variableName last, e'.readIn snapshot = false := by
      rw [entriesOf, hlast']
      exact hafter
    have hname : e.variableName = variableName := by simpa using hname
    rw [get?_foldlM_of_unread (filedAt_decodeStep hfiled₂ id hstep) hunread h₃]
    rcases fileValue_cases hfile with ⟨-, rfl⟩ | ⟨hrange, -⟩ | ⟨hrange, -⟩
    · rw [Dict.get?_set, if_pos hname.symm]
    · rw [hplain] at hrange
      cases hrange
    · rw [hplain] at hrange
      cases hrange

/-- What a map returns for an entry, it returns without an exception. -/
theorem returns_of_decodedInfo {registryMap : List RegistryMapEntry} {info : Dict String PyValue}
    (hform : WellFormed registryMap)
    (hinfo : ps.decodedInfo host snapshot registryMap = .ok info) {e : RegistryMapEntry}
    (he : e ∈ registryMap) (hsource : e.descriptionSource = "") :
    Returns (ps.decodeEntry host snapshot e) :=
  returns_decodeEntry_iff.mpr
    ((returns_decodedInfo_iff fun e he => (hform e he).2).mp ⟨info, hinfo⟩ e he hsource)

theorem filedAt_empty {P : Int → Prop} : FiledAt P ⟨Dict.empty, Dict.empty⟩ :=
  fun _ _ h => (by cases h)

/-- Plain values do not depend on the rest of the map and of the snapshot. -/
theorem nonInterfering_of_lastIsPlain {own : List RegistryMapEntry}
    (h : ps.LastIsPlain host own) : ps.NonInterfering host variableName own := by
  rintro registryMap registryMap' snapshot snapshot' info info' hform hform' hown hown' hagree
    hinfo hinfo'
  have hreturns : ∀ e ∈ own, e.descriptionSource = "" →
      Returns (ps.decodeEntry host snapshot e) := fun e he hsource =>
    returns_of_decodedInfo hform hinfo (List.mem_of_mem_filter (hown ▸ he)) hsource
  have hlast' := lastRead_of_agree hagree
  obtain ⟨decoded, hrun, rfl⟩ := map_eq_ok_iff.mp hinfo
  obtain ⟨decoded', hrun', rfl⟩ := map_eq_ok_iff.mp hinfo'
  cases hlast : lastRead snapshot own with
  | none =>
    rw [hlast] at hlast'
    rw [get?_foldlM_of_unread filedAt_empty (hown ▸ lastRead_eq_none_iff.mp hlast) hrun,
      get?_foldlM_of_unread filedAt_empty (hown' ▸ lastRead_eq_none_iff.mp hlast'.symm) hrun']
  | some e =>
    have hplain := h snapshot hreturns e hlast
    obtain ⟨value, hvalue, hget⟩ :=
      get?_foldlM_of_lastRead filedAt_empty (hown ▸ hlast) hplain hrun
    obtain ⟨value', hvalue', hget'⟩ :=
      get?_foldlM_of_lastRead filedAt_empty (hown' ▸ hlast' ▸ hlast) hplain hrun'
    obtain ⟨-, before, after, hsplit, -⟩ := split_of_lastRead hlast
    have hmem : e ∈ own := by
      rw [hsplit]
      simp
    rw [decodeEntry_congr fun a ha => hagree e hmem a (decoderAddresses_subset ha), hvalue'] at hvalue
    rw [hget, hget', Option.some.inj (Except.ok.inj hvalue)]

/-! ## What another range leaves behind -/

/-- The first entry of a row of flags whose cell is the range `k` to `last`. -/
def leftover (name : String) (wide : Bool) (last k : Int) : RegistryMapEntry :=
  Row.entry
    { cell := "", variableName := name, dataType := if wide then .bit16Flags else .bit8Flags }
    .holding (Cell.rangeFields false k last) 0

/-- The number of binary digits in a text. -/
def binaryDigits (text : String) : Nat := text.toList.countP fun c => c = '0' ∨ c = '1'

theorem binaryDigits_append (s t : String) :
    binaryDigits (s ++ t) = binaryDigits s + binaryDigits t := by
  unfold binaryDigits
  rw [String.toList_append, List.countP_append]

theorem binaryDigits_flagBits (val start size : Nat) :
    binaryDigits (flagBits val start size) = size := by
  unfold binaryDigits flagBits
  rw [String.toList_ofList, List.countP_map, List.countP_eq_length.mpr, List.length_range']
  intro i hi
  dsimp only [Function.comp_apply]
  split <;> rfl

/-- Dropping characters that are not counted. -/
theorem countP_dropWhile {α : Type} {p q : α → Bool} (h : ∀ a, q a = true → p a = false)
    (l : List α) : (l.dropWhile q).countP p = l.countP p := by
  induction l with
  | nil => rfl
  | cons a l ih =>
    rw [List.dropWhile_cons]
    split
    · next hq => rw [ih, List.countP_cons_of_neg (by simp [h a hq])]
    · rfl

/-- Stripping and replacing null characters keeps the binary digits. -/
theorem binaryDigits_rangeText (e : RegistryMapEntry) (text : String) :
    binaryDigits (rangeText e text) = binaryDigits text := by
  have hspace : ∀ c, Text.isSpace c = true → decide (c = '0' ∨ c = '1') = false := by
    intro c hc
    refine decide_eq_false ?_
    rintro (rfl | rfl) <;> revert hc <;> decide
  unfold rangeText
  split
  · unfold binaryDigits Text.strip
    rw [String.toList_ofList, List.countP_reverse, countP_dropWhile hspace, List.countP_reverse,
      countP_dropWhile hspace, List.countP_map]
    refine List.countP_congr fun c _ => ?_
    dsimp only [Function.comp_apply]
    by_cases hnull : c = '\x00'
    · subst hnull
      decide
    · rw [if_neg hnull]
  · rfl

section Leftover

variable {name : String} {wide : Bool} {last k : Int}

theorem leftover_register (h : k < last) : (leftover name wide last k).register = k := by
  rw [leftover, Cell.rangeFields, if_pos h]
  exact Int.add_zero k

theorem leftover_concatenate (h : k < last) :
    (leftover name wide last k).concatenate = true ∧
      (leftover name wide last k).concatenateRegisters =
        Cell.ascending k (last + 1 - k).toNat := by
  rw [leftover, Cell.rangeFields, if_pos h]
  exact ⟨rfl, rfl⟩

theorem last_mem_leftover (h : k < last) :
    last ∈ (leftover name wide last k).concatenateRegisters := by
  rw [(leftover_concatenate h).2]
  exact Cell.mem_ascending.mpr ⟨by omega, by omega⟩

/-- A leftover is an entry the loader makes. -/
theorem wellFormed_leftover (h : k < last) :
    AddressForm (leftover name wide last k) ∧ RangeForm (leftover name wide last k) := by
  have hmem : k ∈ Cell.ascending k (last + 1 - k).toNat :=
    Cell.mem_ascending.mpr ⟨by omega, by omega⟩
  have hkeys : (leftover name wide last k).concatenateRegisters =
      Cell.ascending k (last + 1 - k).toNat := (leftover_concatenate h).2
  refine ⟨.range (leftover_concatenate h).1 ?_ ?_ ?_ ?_, fun _ => ⟨k, _, Or.inl hkeys⟩⟩
  · rw [leftover, Cell.rangeFields, if_pos h]
    rfl
  · rw [leftover_register h, hkeys]
    exact hmem
  · rw [hkeys]
    simp only [Cell.ascending, List.length_map, List.length_range]
    omega
  · rw [leftover, Cell.rangeFields, if_pos h]
    exact ⟨rfl, rfl⟩

/-- Flags without a code table are decoded to one digit for each bit. -/
theorem decodeEntry_flags {e : RegistryMapEntry}
    (htype : e.dataType = .bit8Flags ∨ e.dataType = .bit16Flags)
    (hpresent : Present snapshot e.register) (hcodes : ps.codes.lookup e.codesKey = none) :
    ∃ val, ps.decodeEntry host snapshot e =
      .ok (some (.str (flagBits val e.startBit e.dataType.getSize.toNat))) := by
  have htable : ps.getCodeDict e.codesKey = [] := by
    rw [getCodeDict, hcodes]
  cases snapshot with
  | words registry =>
    rw [Present, read_words, Option.isSome_map] at hpresent
    obtain ⟨w, hw⟩ := Option.isSome_iff_exists.mp hpresent
    refine ⟨(w.orient (e.getEntryByteorder ps.defaultWordOrder).bytesReversed).toNat, ?_⟩
    have hdecoded : ps.decodeUshort (e.getEntryByteorder ps.defaultWordOrder) registry e =
        .ok (some (.str (flagBits
          (w.orient (e.getEntryByteorder ps.defaultWordOrder).bytesReversed).toNat e.startBit
          e.dataType.getSize.toNat))) := by
      unfold decodeUshort flagsUshort
      dsimp only
      rw [htable, wordAt, hw]
      rcases htype with htype | htype
      · rw [htype]
        rfl
      · rw [htype]
        rfl
    rw [decodeEntry_eq, decoderValue, if_pos hpresent, processRegisterUshort, hdecoded]
    rfl
  | bytes registry =>
    rw [Present, read_bytes, Option.isSome_map] at hpresent
    obtain ⟨payload, hpayload⟩ := Option.isSome_iff_exists.mp hpresent
    refine ⟨BigEndian.number (flagBytes (e.getEntryByteorder ps.defaultWordOrder) 1
      (registerSlice e payload)), ?_⟩
    have hdecoded : ps.decodeBytes (e.getEntryByteorder ps.defaultWordOrder)
        (registerSlice e payload) e = .ok (.str (flagBits (BigEndian.number (flagBytes
          (e.getEntryByteorder ps.defaultWordOrder) 1 (registerSlice e payload))) e.startBit
          e.dataType.getSize.toNat)) := by
      unfold decodeBytes flagsBytes
      rw [hcodes]
      rcases htype with htype | htype
      · rw [htype]
        rfl
      · rw [htype]
        rfl
    rw [decodeEntry_eq, decoderValue, if_pos hpresent, processRegisterBytes, hpayload]
    dsimp only
    rw [hdecoded]
    rfl

/-- The flags of a leftover, which no code table names, are one digit for each bit. -/
theorem decodeEntry_leftover (h : k < last) (hpresent : Present snapshot k)
    (hcodes : ps.codes.lookup (name ++ "_codes") = none) :
    ∃ flags, ps.decodeEntry host snapshot (leftover name wide last k) = .ok (some (.str flags)) ∧
      binaryDigits flags = if wide then 16 else 8 := by
  have htype : (leftover name wide last k).dataType = if wide then .bit16Flags else .bit8Flags :=
    rfl
  have hsize : (leftover name wide last k).dataType.getSize.toNat = if wide then 16 else 8 := by
    rw [htype]
    cases wide <;> rfl
  have hflags : (leftover name wide last k).dataType = .bit8Flags ∨
      (leftover name wide last k).dataType = .bit16Flags := by
    rw [htype]
    cases wide
    · exact Or.inl rfl
    · exact Or.inr rfl
  have hregister : (leftover name wide last k).register = k := leftover_register h
  rw [← hregister] at hpresent
  obtain ⟨val, hval⟩ : ∃ val, ps.decodeEntry host snapshot (leftover name wide last k) = _ :=
    decodeEntry_flags hflags hpresent hcodes
  exact ⟨_, hval, by rw [binaryDigits_flagBits, hsize]⟩

/-- Leftovers wait in the shared dictionary for an address that is not read. -/
theorem foldlM_leftovers {ks : List Int} {flags : Int → String} {decoded decoded' : Decoded}
    (hlast : ∀ k ∈ ks, k < last) (hmissing : decoded.concatenated.get? last = none)
    (hflags : ∀ k ∈ ks, ps.decodeEntry host snapshot (leftover name wide last k) =
      .ok (some (.str (flags k))))
    (h : (ks.map (leftover name wide last)).foldlM (ps.decodeStep host snapshot) decoded =
      .ok decoded') :
    decoded'.info = decoded.info ∧ ∀ key, decoded'.concatenated.get? key =
      if key ∈ ks then some (.str (flags key)) else decoded.concatenated.get? key := by
  induction ks generalizing decoded with
  | nil =>
    rw [← Except.ok.inj h]
    exact ⟨rfl, fun key => (if_neg List.not_mem_nil).symm⟩
  | cons k ks ih =>
    rw [List.map_cons, List.foldlM_cons] at h
    obtain ⟨between, hstep, hrest⟩ := bind_eq_ok_iff.mp h
    have hk := hlast k List.mem_cons_self
    have hset : (decoded.concatenated.set (leftover name wide last k).register
        (.str (flags k))).get? last = none := by
      rw [Dict.get?_set, leftover_register hk, if_neg (by omega), hmissing]
    obtain rfl : between = ⟨decoded.concatenated.set k (.str (flags k)), decoded.info⟩ := by
      rcases decodeStep_cases hstep with ⟨-, hskip⟩ | ⟨-, value, hvalue, hfile⟩
      · rw [hflags k List.mem_cons_self] at hskip
        rcases hskip with hskip | hskip
        · exact absurd rfl hskip
        · cases hskip
      · rw [hflags k List.mem_cons_self] at hvalue
        obtain rfl := Option.some.inj (Except.ok.inj hvalue)
        rcases fileValue_cases hfile with ⟨hplain, -⟩ | ⟨-, rfl, -⟩ | ⟨-, hall, -⟩
        · rw [(leftover_concatenate hk).1] at hplain
          cases hplain
        · rw [leftover_register hk]
        · have hpresent := hall last (last_mem_leftover hk)
          rw [hset] at hpresent
          cases hpresent
    rw [leftover_register hk] at hset
    obtain ⟨hinfo, hget⟩ := ih (fun k' hk' => hlast k' (List.mem_cons_of_mem _ hk')) hset
      (fun k' hk' => hflags k' (List.mem_cons_of_mem _ hk')) hrest
    refine ⟨hinfo, fun key => ?_⟩
    rw [hget]
    by_cases hkey : key ∈ ks
    · rw [if_pos hkey, if_pos (List.mem_cons_of_mem _ hkey)]
    · rw [if_neg hkey, Dict.get?_set]
      by_cases heq : key = k
      · rw [if_pos heq, heq, if_pos List.mem_cons_self]
      · rw [if_neg heq, if_neg (List.not_mem_cons_of_ne_of_not_mem heq hkey)]

end Leftover

/-! ## A range that is completed -/

/-- The text of a range is the texts of its members in a row. -/
theorem joinRange_eq (host : Host) {keys : List Int} {concatenated : Dict Int PyValue} {value : Int → PyValue}
    (hnodup : keys.Nodup) (h : ∀ key ∈ keys, concatenated.get? key = some (value key)) :
    ∃ rest, joinRange host keys concatenated =
      .ok (keys.foldr (fun key text => (value key).text host ++ text) "", rest) := by
  induction keys generalizing concatenated with
  | nil => exact ⟨concatenated, rfl⟩
  | cons key keys ih =>
    obtain ⟨hnot, hnodup⟩ := List.nodup_cons.mp hnodup
    have hothers : ∀ key' ∈ keys,
        (concatenated.filter fun kv => kv.1 ≠ key).get? key' = some (value key') := by
      intro key' hkey'
      have hne : key' ≠ key := by
        rintro rfl
        exact hnot hkey'
      rw [Dict.get?_filter_ne _ hne]
      exact h key' (List.mem_cons_of_mem _ hkey')
    obtain ⟨rest, hrest⟩ := ih hnodup hothers
    refine ⟨rest, ?_⟩
    unfold joinRange
    rw [h key List.mem_cons_self]
    dsimp only
    rw [hrest]
    rfl

theorem binaryDigits_foldr (f : Int → String) (keys : List Int) :
    binaryDigits (keys.foldr (fun key text => f key ++ text) "") =
      (keys.map fun key => binaryDigits (f key)).sum := by
  induction keys with
  | nil => rfl
  | cons key keys ih => rw [List.foldr_cons, binaryDigits_append, ih, List.map_cons, List.sum_cons]

/-- All members but one have the same number of digits. -/
theorem sum_map_of_eq {keys : List Int} {f : Int → Nat} {r : Int} {size : Nat}
    (hnodup : keys.Nodup) (hr : r ∈ keys) (h : ∀ key ∈ keys, key ≠ r → f key = size) :
    (keys.map f).sum = f r + size * (keys.length - 1) := by
  have hrest : (keys.erase r).map f = (keys.erase r).map fun _ => size :=
    List.map_congr_left fun key hkey =>
      h key (List.mem_of_mem_erase hkey) ((hnodup.mem_erase_iff.mp hkey).1)
  rw [← List.sum_map_erase f hr, hrest, List.map_const', List.sum_replicate_nat,
    List.length_erase_of_mem hr, Nat.mul_comm]

/-- After leftovers for the other members of its range, a member completes it, and the leftovers'
digits are in the text. -/
theorem completed_by_leftovers {own before after : List RegistryMapEntry} {e : RegistryMapEntry}
    {x : PyValue} {flags : Int → String} {info : Dict String PyValue} {size : Nat}
    (hown : ∀ e ∈ own, e.variableName = variableName) (hsplit : own = before ++ e :: after)
    (hafter : ∀ e' ∈ after, e'.readIn snapshot = false) (hread : e.readIn snapshot = true)
    (hrange : e.concatenate = true) (hform : WellFormed own)
    (hlast : ∀ e' ∈ own, e'.register < last ∧ ∀ key ∈ e'.concatenateRegisters, key < last)
    (hx : ps.decodeEntry host snapshot e = .ok (some x))
    (hflags : ∀ k ∈ e.concatenateRegisters,
      ps.decodeEntry host snapshot (leftover name wide last k) = .ok (some (.str (flags k))) ∧
        binaryDigits (flags k) = size)
    (hinfo : ps.decodedInfo host snapshot (before ++
      ((e.concatenateRegisters.filter (· ≠ e.register)).map (leftover name wide last) ++
        e :: after)) = .ok info) :
    ∃ text, info.get? variableName = some (.str text) ∧
      binaryDigits text = binaryDigits (x.text host) + size * (e.concatenateRegisters.length - 1) := by
  have hmem : e ∈ own := by
    rw [hsplit]
    simp
  obtain ⟨hsource, hpresent⟩ := readIn_iff.mp hread
  have hregister : Present snapshot e.register :=
    hpresent _ (decoderAddresses_subset register_mem_decoderAddresses)
  obtain ⟨decoded, hrun, rfl⟩ := map_eq_ok_iff.mp hinfo
  rw [List.foldlM_append] at hrun
  obtain ⟨decoded₁, h₁, hrun⟩ := bind_eq_ok_iff.mp hrun
  rw [List.foldlM_append] at hrun
  obtain ⟨decoded₂, h₂, hrun⟩ := bind_eq_ok_iff.mp hrun
  rw [List.foldlM_cons] at hrun
  obtain ⟨decoded₃, hstep, h₃⟩ := bind_eq_ok_iff.mp hrun
  -- nothing before the leftovers files their last address
  have hmissing : decoded₁.concatenated.get? last = none := by
    have hbelow : FiledAt (· < last) decoded₁ := filedAt_foldlM filedAt_empty
      (fun e' he' _ => (hlast e' (hsplit ▸ List.mem_append_left _ he')).1) h₁
    cases hget : decoded₁.concatenated.get? last with
    | none => rfl
    | some value => exact absurd (hbelow last value hget) (lt_irrefl last)
  obtain ⟨-, hget₂⟩ := foldlM_leftovers
    (fun k hk => (hlast e hmem).2 k (List.mem_of_mem_filter hk)) hmissing
    (fun k hk => (hflags k (List.mem_of_mem_filter hk)).1) h₂
  have hfiled₂ : FiledAt (Present snapshot) decoded₂ :=
    filedAt_foldlM (filedAt_foldlM filedAt_empty (fun _ _ h => h) h₁) (fun _ _ h => h) h₂
  -- the member finds the rest of its range
  have hvalues : ∀ key ∈ e.concatenateRegisters,
      (decoded₂.concatenated.set e.register x).get? key =
        some (if key = e.register then x else .str (flags key)) := by
    intro key hkey
    rw [Dict.get?_set]
    by_cases heq : key = e.register
    · rw [if_pos heq, if_pos heq]
    · rw [if_neg heq, if_neg heq, hget₂, if_pos (List.mem_filter.mpr ⟨hkey, by simpa using heq⟩)]
  have hnodup := nodup_of_rangeForm (hform e hmem).2 hrange
  obtain ⟨rest, hjoin⟩ := joinRange_eq host hnodup hvalues
  have hinfo₃ : decoded₃.info.get? variableName = some (.str (rangeText e
      (e.concatenateRegisters.foldr (fun key text =>
        (if key = e.register then x else .str (flags key)).text host ++ text) ""))) := by
    rcases decodeStep_cases hstep with ⟨-, hskip⟩ | ⟨-, value, hvalue, hfile⟩
    · rw [hx] at hskip
      rcases hskip with hskip | hskip
      · exact absurd hsource hskip
      · cases hskip
    · rw [hx] at hvalue
      obtain rfl := Option.some.inj (Except.ok.inj hvalue)
      rcases fileValue_cases hfile with ⟨hplain, -⟩ | ⟨-, -, key, hkey, hnone⟩ |
        ⟨-, -, text, rest', hjoin', rfl⟩
      · rw [hrange] at hplain
        cases hplain
      · rw [hvalues key hkey] at hnone
        cases hnone
      · rw [hjoin] at hjoin'
        obtain ⟨rfl, -⟩ := Prod.mk.inj (Except.ok.inj hjoin')
        rw [Dict.get?_set, if_pos (hown e hmem).symm]
  have hunread : ∀ e' ∈ entriesOf variableName after, e'.readIn snapshot = false :=
    fun e' he' => hafter e' (List.mem_of_mem_filter he')
  refine ⟨_, (get?_foldlM_of_unread (filedAt_decodeStep hfiled₂ id hstep) hunread h₃).trans
    hinfo₃, ?_⟩
  rw [binaryDigits_rangeText, binaryDigits_foldr fun key =>
    (if key = e.register then x else .str (flags key)).text host]
  have hself : e.register ∈ e.concatenateRegisters := by
    cases (hform e hmem).1 with
    | single hplain _ _ =>
      rw [hplain] at hrange
      cases hrange
    | list hplain _ _ _ =>
      rw [hplain] at hrange
      cases hrange
    | range _ _ hself _ _ => exact hself
  rw [sum_map_of_eq hnodup hself fun key hkey hne => ?_, if_pos rfl]
  rw [if_neg hne]
  exact (hflags key hkey).2

/-- There is a name that no code table goes by. -/
theorem exists_name (ps : ProtocolSettings) (variableName : String) :
    ∃ name, name ≠ variableName ∧ ps.codes.lookup (name ++ "_codes") = none := by
  have hinjective : Function.Injective fun name : String => name ++ "_codes" := fun name name' h => by
    rw [← String.toList_inj] at h ⊢
    rw [String.toList_append, String.toList_append] at h
    exact List.append_cancel_right h
  obtain ⟨name, hname⟩ := Infinite.exists_notMem_finset (insert variableName
    ((ps.codes.map Prod.fst).toFinset.preimage _ hinjective.injOn))
  rw [Finset.mem_insert, not_or, Finset.mem_preimage, List.mem_toFinset] at hname
  refine ⟨name, hname.1, List.lookup_eq_none_iff.mpr fun table htable => ?_⟩
  refine bne_iff_ne.mpr fun heq => hname.2 ?_
  rw [heq]
  exact List.mem_map_of_mem htable

/-- An address above all addresses of some entries. -/
theorem exists_last (own : List RegistryMapEntry) :
    ∃ last, ∀ e ∈ own, e.register < last ∧ ∀ key ∈ e.concatenateRegisters, key < last := by
  have hbound := (RegistryMapEntry.le_foldl_max
    (own.flatMap fun e => e.register :: e.concatenateRegisters) 0).2
  refine ⟨_, fun e he => ⟨Int.lt_add_one_of_le (hbound e.register ?_), fun key hkey =>
    Int.lt_add_one_of_le (hbound key ?_)⟩⟩
  · exact List.mem_flatMap.mpr ⟨e, he, List.mem_cons_self⟩
  · exact List.mem_flatMap.mpr ⟨e, he, List.mem_cons_of_mem _ hkey⟩

/-- Leftovers before a member of a range give its variable another value. -/
theorem lastIsPlain_of_nonInterfering {own : List RegistryMapEntry}
    (hown : ∀ e ∈ own, e.variableName = variableName) (hform : WellFormed own)
    (h : ps.NonInterfering host variableName own) : ps.LastIsPlain host own := by
  intro snapshot hreturns e hlastRead
  obtain ⟨hread, before, after, hsplit, hafter⟩ := split_of_lastRead hlastRead
  have hmem : e ∈ own := by
    rw [hsplit]
    simp
  obtain ⟨hsource, hpresent⟩ := readIn_iff.mp hread
  by_contra hnot
  have hrange : e.concatenate = true := by simpa using hnot
  obtain ⟨name, hname, hcodes⟩ := exists_name ps variableName
  obtain ⟨last, hlast⟩ := exists_last own
  obtain ⟨x, hx⟩ : ∃ x, ps.decodeEntry host snapshot e = .ok (some x) := by
    obtain ⟨value, hvalue⟩ := hreturns e hmem hsource
    obtain ⟨x, rfl⟩ := Option.isSome_iff_exists.mp ((decodeEntry_isSome_iff hvalue).mpr
      fun a ha => hpresent a (decoderAddresses_subset ha))
    exact ⟨x, hvalue⟩
  have hkeys : ∀ k ∈ e.concatenateRegisters, Present snapshot k ∧ k < last := fun k hk =>
    ⟨hpresent k (List.mem_append_right _ (by rw [if_pos hrange]; exact hk)), (hlast e hmem).2 k hk⟩
  -- the digits that leftovers of one width put into the variable's text
  have hdigits (wide : Bool) : ∃ registryMap info text, WellFormed registryMap ∧
      entriesOf variableName registryMap = own ∧
      ps.decodedInfo host snapshot registryMap = .ok info ∧
      info.get? variableName = some (.str text) ∧
      binaryDigits text = binaryDigits (x.text host) +
        (if wide then 16 else 8) * (e.concatenateRegisters.length - 1) := by
    have hflags : ∀ k, ∃ flags, k ∈ e.concatenateRegisters →
        ps.decodeEntry host snapshot (leftover name wide last k) = .ok (some (.str flags)) ∧
          binaryDigits flags = if wide then 16 else 8 := by
      intro k
      by_cases hk : k ∈ e.concatenateRegisters
      · obtain ⟨flags, hflags⟩ := decodeEntry_leftover (hkeys k hk).2 (hkeys k hk).1 hcodes
        exact ⟨flags, fun _ => hflags⟩
      · exact ⟨"", fun hk' => absurd hk' hk⟩
    choose flags hflags using hflags
    let others := (e.concatenateRegisters.filter (· ≠ e.register)).map (leftover name wide last)
    have hothers : ∀ e' ∈ others, ∃ k ∈ e.concatenateRegisters, leftover name wide last k = e' := by
      intro e' he'
      obtain ⟨k, hk, rfl⟩ := List.mem_map.mp he'
      exact ⟨k, List.mem_of_mem_filter hk, rfl⟩
    have hmembers : ∀ e' ∈ before ++ (others ++ e :: after), e' ∈ own ∨ e' ∈ others := by
      intro e' he'
      rw [List.mem_append, List.mem_append] at he'
      rw [hsplit, List.mem_append]
      tauto
    have hformed : WellFormed (before ++ (others ++ e :: after)) := by
      intro e' he'
      rcases hmembers e' he' with he' | he'
      · exact hform e' he'
      · obtain ⟨k, hk, rfl⟩ := hothers e' he'
        exact wellFormed_leftover (hkeys k hk).2
    have hentries : entriesOf variableName (before ++ (others ++ e :: after)) = own := by
      have hnone : others.filter (fun e' => e'.variableName = variableName) = [] := by
        refine List.filter_eq_nil_iff.mpr fun e' he' => ?_
        obtain ⟨k, -, rfl⟩ := hothers e' he'
        exact fun heq => hname (of_decide_eq_true heq)
      have hall : own.filter (fun e' => e'.variableName = variableName) = own :=
        List.filter_eq_self.mpr fun e' he' => by simpa using hown e' he'
      rw [hsplit, List.filter_append] at hall
      rw [entriesOf, List.filter_append, List.filter_append, hnone, List.nil_append, hall, hsplit]
    obtain ⟨info, hinfo⟩ : Returns (ps.decodedInfo host snapshot
        (before ++ (others ++ e :: after))) := by
      refine (returns_decodedInfo_iff fun e' he' => (hformed e' he').2).mpr fun e' he' hsource' =>
        returns_decodeEntry_iff.mp ?_
      rcases hmembers e' he' with he' | he'
      · exact hreturns e' he' hsource'
      · obtain ⟨k, hk, rfl⟩ := hothers e' he'
        exact ⟨_, (hflags k hk).1⟩
    obtain ⟨text, htext, hcount⟩ := completed_by_leftovers hown hsplit hafter hread hrange hform
      hlast hx hflags hinfo
    exact ⟨_, info, text, hformed, hentries, hinfo, htext, hcount⟩
  obtain ⟨narrow, info, text, hform₁, hown₁, hinfo₁, htext, hcount⟩ := hdigits false
  obtain ⟨broad, info', text', hform₂, hown₂, hinfo₂, htext', hcount'⟩ := hdigits true
  have hsame := h narrow broad snapshot snapshot info info' hform₁ hform₂ hown₁ hown₂
    (fun _ _ _ _ => rfl) hinfo₁ hinfo₂
  rw [htext, htext'] at hsame
  obtain rfl := PyValue.str.inj (Option.some.inj hsame)
  have htwo : 2 ≤ e.concatenateRegisters.length := by
    cases (hform e hmem).1 with
    | single hplain _ _ => exact absurd hplain hnot
    | list hplain _ _ _ => exact absurd hplain hnot
    | range _ _ _ htwo _ => exact htwo
  rw [hcount] at hcount'
  simp only [Bool.false_eq_true, if_false, if_true] at hcount'
  omega

/-- **Non-interference.** A variable of a loaded map is decoded to the same value whatever other
entries the map has and whatever else a snapshot holds exactly if the last of its entries that was
read is never a member of a range. -/
theorem nonInterfering_iff {registryType : RegistryType} {rows : List Row}
    {registryMap : List RegistryMapEntry} (variableName : String)
    (h : ps.loadRegistry registryType rows = some registryMap) :
    ps.NonInterfering host variableName (entriesOf variableName registryMap) ↔
      ps.LastIsPlain host (entriesOf variableName registryMap) := by
  have hform : WellFormed (entriesOf variableName registryMap) := fun e he =>
    ⟨ps.loadRegistry_addressForm h e (List.mem_of_mem_filter he),
      ps.loadRegistry_rangeForm h e (List.mem_of_mem_filter he)⟩
  have hown : ∀ e ∈ entriesOf variableName registryMap, e.variableName = variableName :=
    fun e he => of_decide_eq_true (List.mem_filter.mp he).2
  exact ⟨lastIsPlain_of_nonInterfering hown hform, nonInterfering_of_lastIsPlain⟩

/-- A variable without ranges. -/
theorem lastIsPlain_of_plain {own : List RegistryMapEntry}
    (h : ∀ e ∈ own, e.concatenate = false) : ps.LastIsPlain host own := by
  intro snapshot _ e hlast
  obtain ⟨-, before, after, hsplit, -⟩ := split_of_lastRead hlast
  exact h e (by rw [hsplit]; simp)

/-- A serial number over three registers. -/
def serialRows : List Row := [{ cell := "41-43", variableName := "serial", dataType := .ascii }]

/-- A range that shares two registers with the serial number. -/
def overlappingRows : List Row :=
  { cell := "42-44", variableName := "raw", dataType := .hex } :: serialRows

/-- The registers of the serial number. -/
def serialSnapshot : Snapshot := .words fun a =>
  if a = 41 then some 0x4142 else if a = 42 then some 0x4344
  else if a = 43 then some 0x4546 else none

/-- A plain register next to the range does not interfere. -/
theorem nonInterfering_plain : ∃ registryMap,
    ({} : ProtocolSettings).loadRegistry .holding
      ({ cell := "43", variableName := "vbat" } :: serialRows) = some registryMap ∧
      ({} : ProtocolSettings).NonInterfering default "vbat" (entriesOf "vbat" registryMap) := by
  have hload : ({} : ProtocolSettings).loadRegistry .holding
      ({ cell := "43", variableName := "vbat" } :: serialRows) = some _ := rfl
  refine ⟨_, hload, (nonInterfering_iff "vbat" hload).mpr (lastIsPlain_of_plain ?_)⟩
  decide

/-- Two characters of the serial number come from the other range. -/
theorem serial_interferes : ¬ ∀ (ps : ProtocolSettings) (host : Host) (registryType : RegistryType)
    (rows rows' : List Row) (registryMap registryMap' : List RegistryMapEntry)
    (variableName : String) (snapshot snapshot' : Snapshot) (info info' : Dict String PyValue),
    ps.loadRegistry registryType rows = some registryMap →
    ps.loadRegistry registryType rows' = some registryMap' →
    entriesOf variableName registryMap = entriesOf variableName registryMap' →
    AgreeOn (entriesOf variableName registryMap) snapshot snapshot' →
    ps.decodedInfo host snapshot registryMap = .ok info →
    ps.decodedInfo host snapshot' registryMap' = .ok info' →
    info.get? variableName = info'.get? variableName := by
  intro hall
  have hload : ({} : ProtocolSettings).loadRegistry .holding overlappingRows = some _ := rfl
  have hload' : ({} : ProtocolSettings).loadRegistry .holding serialRows = some _ := rfl
  have hsame := hall {} default .holding overlappingRows serialRows _ _ "serial" serialSnapshot
    serialSnapshot _ _ hload hload' rfl (fun _ _ _ _ => rfl) rfl rfl
  revert hsame
  decide

end ProtocolSettings

end ProtocolGateway
