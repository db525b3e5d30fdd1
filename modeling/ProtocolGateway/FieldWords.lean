import ProtocolGateway.WriteVariable

/-!
# The words of a write

What `write_variable` does to the registers of an entry. The words an entry occupies form one
number, and the low words of that number (`lowWords`) are the last ones, or the first ones where
the word order is reversed. A field within them is written over exactly them
(`fieldWords_eq_ok_iff`, `apply_of_not_mem_lowWords`).
-/

namespace ProtocolGateway

open BigEndian BitField Outcomes

variable {α β : Type} {order : WordOrder} {k start n encoded : Nat} {raw words words' : List Word}

/-! ## Low and high words -/

/-- The `k` words of least significance. -/
def lowWords (order : WordOrder) (k : Nat) (words : List α) : List α :=
  if order.wordReversed then words.take k else words.drop (words.length - k)

/-- The other words. -/
def highWords (order : WordOrder) (k : Nat) (words : List α) : List α :=
  if order.wordReversed then words.drop k else words.take (words.length - k)

theorem lowWords_map (f : α → β) (xs : List α) :
    lowWords order k (xs.map f) = (lowWords order k xs).map f := by
  unfold lowWords
  split
  · exact List.map_take.symm
  · rw [List.length_map]
    exact List.map_drop.symm

theorem highWords_map (f : α → β) (xs : List α) :
    highWords order k (xs.map f) = (highWords order k xs).map f := by
  unfold highWords
  split
  · exact List.map_drop.symm
  · rw [List.length_map]
    exact List.map_take.symm

theorem length_lowWords {xs : List α} (h : k ≤ xs.length) : (lowWords order k xs).length = k := by
  unfold lowWords
  split
  · rw [List.length_take]
    omega
  · rw [List.length_drop]
    omega

theorem length_highWords {xs : List α} (h : k ≤ xs.length) :
    (highWords order k xs).length = xs.length - k := by
  unfold highWords
  split
  · exact List.length_drop
  · rw [List.length_take]
    omega

/-- Every word is a low or a high one. -/
theorem mem_highWords_or {xs : List α} {a : α} (h : a ∈ xs) :
    a ∈ highWords order k xs ∨ a ∈ lowWords order k xs := by
  unfold highWords lowWords
  split
  · rw [← List.take_append_drop k xs] at h
    exact (List.mem_append.mp h).symm
  · rw [← List.take_append_drop (xs.length - k) xs] at h
    exact List.mem_append.mp h

/-- The bytes of the high words stand before those of the low ones. -/
theorem registerWordsToBytes_split (k : Nat) : registerWordsToBytes order words =
    registerWordsToBytes order (highWords order k words) ++
      registerWordsToBytes order (lowWords order k words) := by
  unfold registerWordsToBytes highWords lowWords
  cases order.wordReversed with
  | true =>
    rw [if_pos rfl, if_pos rfl, if_pos rfl, if_pos rfl, if_pos rfl, ← List.flatMap_append,
      ← List.reverse_append, List.take_append_drop]
  | false =>
    simp only [Bool.false_eq_true, if_false]
    rw [← List.flatMap_append, List.take_append_drop]

/-- The number that the words form. -/
def wordsNumber (order : WordOrder) (words : List Word) : Nat :=
  number (registerWordsToBytes order words)

theorem wordsNumber_lt (order : WordOrder) (words : List Word) :
    wordsNumber order words < 2 ^ (16 * words.length) := by
  have hlt := number_lt (registerWordsToBytes order words)
  rw [length_registerWordsToBytes, ← Nat.mul_assoc] at hlt
  exact hlt

/-- Words are determined by their number. -/
theorem wordsNumber_inj (hlength : words.length = words'.length)
    (h : wordsNumber order words = wordsNumber order words') : words = words' := by
  have hbytes : registerWordsToBytes order words = registerWordsToBytes order words' :=
    number_inj (by rw [length_registerWordsToBytes, length_registerWordsToBytes, hlength]) h
  have hwords := bytesToRegisterWords_registerWordsToBytes order words
  rw [hbytes, bytesToRegisterWords_registerWordsToBytes] at hwords
  exact (Except.ok.inj hwords).symm

theorem wordsNumber_split (h : k ≤ words.length) : wordsNumber order words =
    wordsNumber order (highWords order k words) * 2 ^ (16 * k) +
      wordsNumber order (lowWords order k words) := by
  unfold wordsNumber
  rw [registerWordsToBytes_split k, number_append, length_registerWordsToBytes, length_lowWords h,
    ← Nat.mul_assoc]

theorem wordsNumber_lowWords (h : k ≤ words.length) :
    wordsNumber order (lowWords order k words) = wordsNumber order words % 2 ^ (16 * k) := by
  have hlt := wordsNumber_lt order (lowWords order k words)
  rw [length_lowWords h] at hlt
  rw [wordsNumber_split h, Nat.mul_comm, Nat.mul_add_mod, Nat.mod_eq_of_lt hlt]

theorem wordsNumber_highWords (h : k ≤ words.length) :
    wordsNumber order (highWords order k words) = wordsNumber order words / 2 ^ (16 * k) := by
  have hlt := wordsNumber_lt order (lowWords order k words)
  rw [length_lowWords h] at hlt
  rw [wordsNumber_split h, Nat.mul_comm, Nat.mul_add_div (Nat.two_pow_pos _),
    Nat.div_eq_of_lt hlt, Nat.add_zero]

/-! ## Writing a field -/

/-- A number that fits has words. -/
theorem bytesToRegisterWords_of_wordsNumber {v : Nat} (hlength : words.length = n)
    (h : wordsNumber order words = v) :
    bytesToRegisterWords order (digits 8 (2 * n) v) = .ok words := by
  obtain ⟨words', hlength', hok⟩ := bytesToRegisterWords_digits order n v
  have hv : v < 2 ^ (16 * n) := by
    rw [← h, ← hlength]
    exact wordsNumber_lt order words
  have hnumber : wordsNumber order words' = v := by
    rw [wordsNumber, registerWordsToBytes_of_bytesToRegisterWords hok, number_digits,
      ← Nat.mul_assoc]
    exact Nat.mod_eq_of_lt hv
  rw [hok, wordsNumber_inj (hlength'.trans hlength.symm) (hnumber.trans h.symm)]

/-- The words of a number. -/
theorem wordsNumber_of_bytesToRegisterWords {v : Nat}
    (h : bytesToRegisterWords order (digits 8 (2 * n) v) = .ok words) :
    words.length = n ∧ wordsNumber order words = v % 2 ^ (16 * n) := by
  have hbytes := registerWordsToBytes_of_bytesToRegisterWords h
  refine ⟨?_, ?_⟩
  · have hlength := congrArg List.length hbytes
    rw [length_registerWordsToBytes, length_digits] at hlength
    omega
  · rw [wordsNumber, hbytes, number_digits, ← Nat.mul_assoc]

/-- **A field write** gives the words of the number with the field replaced. -/
theorem fieldWords_eq_ok_iff : fieldWords order raw start n encoded = .ok words ↔
    words.length = raw.length ∧ wordsNumber order words =
      update (16 * raw.length) start n (wordsNumber order raw) encoded := by
  have hbits : 8 * (registerWordsToBytes order raw).length = 16 * raw.length := by
    rw [length_registerWordsToBytes, ← Nat.mul_assoc]
  unfold fieldWords
  dsimp only
  rw [hbits, length_registerWordsToBytes]
  change (if 2 ^ (16 * raw.length) ≤
    update (16 * raw.length) start n (wordsNumber order raw) encoded then _ else _) = _ ↔ _
  constructor
  · intro h
    split at h
    · cases h
    · next hfits =>
      obtain ⟨hlength, hnumber⟩ := wordsNumber_of_bytesToRegisterWords h
      exact ⟨hlength, hnumber.trans (Nat.mod_eq_of_lt (Nat.lt_of_not_le hfits))⟩
  · rintro ⟨hlength, hnumber⟩
    have hlt := wordsNumber_lt order words
    rw [hlength, hnumber] at hlt
    rw [if_neg (Nat.not_le_of_lt hlt)]
    exact bytesToRegisterWords_of_wordsNumber hlength hnumber

theorem update_lt {total raw : Nat} (h : start + n ≤ total) :
    update total start n raw encoded < 2 ^ total := by
  refine Nat.lt_pow_two_of_testBit _ fun i hi => ?_
  rw [testBit_update, if_neg (by omega), decide_eq_false (by omega), Bool.false_and]

/-- A field within the words is written. -/
theorem fieldWords_of_fits (h : start + n ≤ 16 * raw.length) :
    ∃ words, fieldWords order raw start n encoded = .ok words := by
  have hlt : update (16 * raw.length) start n (wordsNumber order raw) encoded <
      2 ^ (16 * raw.length) := update_lt h
  obtain ⟨words, hlength, hok⟩ := bytesToRegisterWords_digits order raw.length
    (update (16 * raw.length) start n (wordsNumber order raw) encoded)
  refine ⟨words, fieldWords_eq_ok_iff.mpr ⟨hlength, ?_⟩⟩
  rw [(wordsNumber_of_bytesToRegisterWords hok).2, Nat.mod_eq_of_lt hlt]

/-- A field within the low words leaves the high ones alone. -/
theorem highWords_of_fieldWords (h : fieldWords order raw start n encoded = .ok words)
    (hfits : start + n ≤ 16 * k) (hk : k ≤ raw.length) :
    highWords order k words = highWords order k raw := by
  obtain ⟨hlength, hnumber⟩ := fieldWords_eq_ok_iff.mp h
  have hk' : k ≤ words.length := hlength ▸ hk
  have hhigh : (highWords order k words).length = (highWords order k raw).length := by
    rw [length_highWords hk', length_highWords hk, hlength]
  suffices h : wordsNumber order (highWords order k words) =
      wordsNumber order (highWords order k raw) from wordsNumber_inj hhigh h
  rw [wordsNumber_highWords hk', wordsNumber_highWords hk, hnumber]
  refine Nat.eq_of_testBit_eq fun i => ?_
  rw [Nat.testBit_div_two_pow, Nat.testBit_div_two_pow]
  exact testBit_update_of_outside (by omega) (wordsNumber_lt order raw)

/-! ## The registers after a write -/

namespace RegistryMapEntry

variable (e : RegistryMapEntry)

/-- The registers that are read back and written. -/
def writtenRegisters : List Int := (List.range e.entryWordCount).map fun i : Nat => e.register + i

@[simp] theorem length_writtenRegisters : e.writtenRegisters.length = e.entryWordCount := by
  rw [writtenRegisters, List.length_map, List.length_range]

theorem mem_writtenRegisters {a : Int} :
    a ∈ e.writtenRegisters ↔ e.register ≤ a ∧ a < e.register + e.entryWordCount := by
  rw [writtenRegisters, List.mem_map]
  constructor
  · rintro ⟨i, hi, rfl⟩
    have := List.mem_range.mp hi
    omega
  · rintro ⟨hlo, hhi⟩
    exact ⟨(a - e.register).toNat, List.mem_range.mpr (by omega), by omega⟩

end RegistryMapEntry

section Registry

variable {registry : Int → Option Word} {content : Int → Word}
  (hregistry : ∀ a w, registry a = some w → content a = w)

include hregistry

/-- Words that are all read are those of the device. -/
theorem mapM_registry_eq_some_iff (addresses : List Int) :
    addresses.mapM registry = some raw ↔
      (∀ a ∈ addresses, registry a ≠ none) ∧ raw = addresses.map content := by
  induction addresses generalizing raw with
  | nil => exact ⟨fun h => ⟨fun a ha => (by cases ha), (Option.some.inj h).symm⟩,
      fun h => by rw [h.2]; rfl⟩
  | cons a addresses ih =>
    rw [List.mapM_cons]
    cases hword : registry a with
    | none => exact iff_of_false (fun h => by cases h) fun h => h.1 a List.mem_cons_self hword
    | some w =>
      have hhead : registry a ≠ none := by
        rw [hword]
        exact Option.some_ne_none w
      rw [List.map_cons, hregistry a w hword, List.forall_mem_cons, and_iff_right hhead]
      show (addresses.mapM registry >>= fun ws => some (w :: ws)) = some raw ↔ _
      constructor
      · intro h
        obtain ⟨ws, hws, h⟩ := Option.bind_eq_some_iff.mp h
        obtain ⟨hall, rfl⟩ := ih.mp hws
        exact ⟨hall, (Option.some.inj h).symm⟩
      · rintro ⟨hall, rfl⟩
        exact Option.bind_eq_some_iff.mpr ⟨_, ih.mpr ⟨hall, rfl⟩, rfl⟩

/-- The words that are read back are those of the device. -/
theorem rawRegisters_eq_some_iff {e : RegistryMapEntry} : e.rawRegisters registry = some raw ↔
    (∀ a ∈ e.writtenRegisters, registry a ≠ none) ∧ raw = e.writtenRegisters.map content := by
  rw [← mapM_registry_eq_some_iff hregistry, RegistryMapEntry.writtenRegisters, List.mapM_map]
  rfl

end Registry

variable {e : RegistryMapEntry} {content : Int → Word} {a : Int}

/-- Registers outside the request keep their words. -/
theorem apply_of_not_mem (hlength : words.length = e.entryWordCount)
    (ha : a ∉ e.writtenRegisters) :
    (WriteRequest.registers e.register words).apply content a = content a := by
  rw [RegistryMapEntry.mem_writtenRegisters] at ha
  show (if e.register ≤ a then words.getD (a - e.register).toNat (content a) else content a) = _
  split
  · exact List.getD_eq_default _ _ (by omega)
  · rfl

/-- The request puts its words into the registers. -/
theorem map_apply_writtenRegisters (hlength : words.length = e.entryWordCount) :
    e.writtenRegisters.map ((WriteRequest.registers e.register words).apply content) = words := by
  refine List.ext_getElem (by simp [hlength]) fun i hi hi' => ?_
  rw [List.getElem_map]
  unfold RegistryMapEntry.writtenRegisters
  rw [List.getElem_map, List.getElem_range]
  show (if e.register ≤ e.register + (i : Int) then
    words.getD (e.register + (i : Int) - e.register).toNat _ else _) = _
  rw [if_pos (by omega), show (e.register + (i : Int) - e.register).toNat = i by omega,
    List.getD_eq_getElem _ _ hi']

/-- **The frame of a field write**: only the low words change. -/
theorem apply_of_not_mem_lowWords
    (h : fieldWords order (e.writtenRegisters.map content) start n encoded = .ok words)
    (hfits : start + n ≤ 16 * k) (hk : k ≤ e.entryWordCount)
    (ha : a ∉ lowWords order k e.writtenRegisters) :
    (WriteRequest.registers e.register words).apply content a = content a := by
  have hlength : words.length = e.entryWordCount := by
    rw [(fieldWords_eq_ok_iff.mp h).1, List.length_map, e.length_writtenRegisters]
  by_cases hmem : a ∈ e.writtenRegisters
  · have hhigh := highWords_of_fieldWords h hfits (by simpa using hk)
    rw [← @map_apply_writtenRegisters words e content hlength, highWords_map,
      highWords_map] at hhigh
    exact List.map_inj_left.mp hhigh a ((mem_highWords_or hmem).resolve_right ha)
  · exact apply_of_not_mem hlength hmem

/-- The low words after a field write hold the low bits of the new number. -/
theorem wordsNumber_apply_lowWords
    (h : fieldWords order (e.writtenRegisters.map content) start n encoded = .ok words)
    (hk : k ≤ e.entryWordCount) :
    wordsNumber order ((lowWords order k e.writtenRegisters).map
        ((WriteRequest.registers e.register words).apply content)) =
      update (16 * e.entryWordCount) start n (wordsNumber order (e.writtenRegisters.map content))
        encoded % 2 ^ (16 * k) := by
  obtain ⟨hlength, hnumber⟩ := fieldWords_eq_ok_iff.mp h
  rw [List.length_map, e.length_writtenRegisters] at hlength hnumber
  rw [← lowWords_map, map_apply_writtenRegisters hlength, wordsNumber_lowWords (hlength ▸ hk),
    hnumber]

/-! ## The steps of a write -/

namespace ProtocolSettings

variable {ps : ProtocolSettings} {V : Type} {ops : Arithmetic V} {mode : TransportWriteMode}
  {registry : Int → Option Word} {value : V} {request : WriteRequest}

/-- The value as `write_variable` goes on with it. -/
def writtenValue (ops : Arithmetic V) (value : V) : V :=
  ((ops.str? value).map fun s => ops.ofText (normalized s)).getD value

/-- **A write happens** exactly if every step of it succeeds. -/
theorem writeVariable_eq_some_iff :
    ps.writeVariable ops mode .holding registry e value = .ok (some request) ↔
      ∃ raw current looked scaled words,
        ops.current registry e = .ok (some current) ∧ e.rawRegisters registry = some raw ∧
        ps.lookUpCodes ops e (writtenValue ops value) (ops.text current) = .ok looked ∧
        ps.accepted ops mode e looked.1 looked.2 = .ok true ∧
        applyUnitMod ops e looked.1 = .ok (some scaled) ∧
        registerValues ops (e.getEntryByteorder ps.defaultWordOrder) raw e scaled =
          .ok (some words) ∧ words ≠ [] ∧ request = .registers e.register words := by
  unfold writeVariable
  dsimp only
  rw [if_neg (by decide)]
  constructor
  · intro h
    obtain ⟨info, hcurrent, h⟩ := bind_eq_ok_iff.mp h
    cases hraw : e.rawRegisters registry with
    | none =>
      rw [hraw] at h
      cases h
    | some raw =>
      rw [hraw] at h
      cases info with
      | none => cases h
      | some current =>
        obtain ⟨looked, hlooked, h⟩ := bind_eq_ok_iff.mp h
        obtain ⟨accept, haccept, h⟩ := bind_eq_ok_iff.mp h
        cases accept with
        | false => cases h
        | true =>
          obtain ⟨scaled, hscaled, h⟩ := bind_eq_ok_iff.mp h
          cases scaled with
          | none => cases h
          | some scaled =>
            obtain ⟨words, hwords, h⟩ := bind_eq_ok_iff.mp h
            rcases words with _ | _ | ⟨w, words⟩
            · cases h
            · cases h
            · exact ⟨raw, current, looked, scaled, w :: words, hcurrent, rfl, hlooked, haccept,
                hscaled, hwords, List.cons_ne_nil _ _, (Option.some.inj (Except.ok.inj h)).symm⟩
  · rintro ⟨raw, current, looked, scaled, words, hcurrent, hraw, hlooked, haccept, hscaled, hwords,
      hne, rfl⟩
    refine bind_eq_ok_iff.mpr ⟨_, hcurrent, ?_⟩
    rw [hraw]
    refine bind_eq_ok_iff.mpr ⟨_, hlooked, bind_eq_ok_iff.mpr ⟨_, haccept, ?_⟩⟩
    refine bind_eq_ok_iff.mpr ⟨_, hscaled, bind_eq_ok_iff.mpr ⟨_, hwords, ?_⟩⟩
    obtain ⟨w, words, rfl⟩ := List.exists_cons_of_ne_nil hne
    rfl

/-- A number without a code table is checked against its range. -/
theorem validateRegistryEntry_of_noCodes (hcodes : ps.getEntryCodeDict e = [])
    (htype : e.dataType ∉ [DataType.ascii, .string, .string16, .string32]) (val : V) :
    ps.validateRegistryEntry ops e val = validateNumber ops e val := by
  unfold validateRegistryEntry
  rw [hcodes]
  dsimp only
  rw [if_neg (not_not.mpr rfl), if_neg htype]

/-! ## The read-back -/

/-- The ranges of the read-back reach the registers that are written. -/
theorem covered_of_readBackRanges {start last : Int} {ranges : List (Int × Int)}
    (hle : start ≤ last) (h : ps.readBackRanges start last = .ok ranges) :
    0 < ps.readBatchSize ∧ ∀ a, start ≤ a → a ≤ last → Covered ranges a := by
  unfold readBackRanges at h
  dsimp only at h
  split at h
  · cases h
  · next hbatch =>
    have hpos : 0 < ps.readBatchSize := by
      by_contra hneg
      exact hbatch ⟨by omega, hle⟩
    obtain rfl := Except.ok.inj h
    refine ⟨hpos, fun a hlo hhi => ?_⟩
    -- the register lies in the batch numbered by the quotient
    generalize ps.readBatchSize = size at hpos
    have hmod := Int.emod_nonneg (a - start) (by omega : size ≠ 0)
    have hlt := Int.emod_lt_of_pos (a - start) hpos
    have hdiv := Int.mul_ediv_add_emod (a - start) size
    have hquotient : 0 ≤ (a - start) / size := Int.ediv_nonneg (by omega) (by omega)
    obtain ⟨k, hk⟩ := Int.eq_ofNat_of_zero_le hquotient
    rw [hk] at hdiv
    have hmem : start + size * k ∈ pyRange start (last + 1) size := by
      refine List.mem_map.mpr ⟨k, List.mem_range.mpr ?_, rfl⟩
      have hcount : (k : Int) + 1 ≤ (last + 1 - start + size - 1) / size := by
        rw [Int.le_ediv_iff_mul_le hpos, Int.add_mul, Int.mul_comm]
        omega
      omega
    refine ⟨_, List.mem_map.mpr ⟨_, hmem, rfl⟩, ?_⟩
    dsimp only
    split <;> omega

variable {content : Int → Word}

/-- **The read-back** returns for a positive batch, with the words of the device, those that are
written among them. -/
theorem readBack_spec (h : ps.readBack content e = .ok registry) :
    0 < ps.readBatchSize ∧ (∀ a w, registry a = some w → content a = w) ∧
      ∀ a ∈ e.writtenRegisters, registry a ≠ none := by
  obtain ⟨ranges, hranges, h⟩ := bind_eq_ok_iff.mp h
  obtain rfl := Except.ok.inj h
  have hpos := e.entryWordCount_pos
  obtain ⟨hbatch, hcovered⟩ := covered_of_readBackRanges (by omega) hranges
  refine ⟨hbatch, fun a w hread => ?_, fun a ha hread => ?_⟩
  · unfold GroupRead.readWords at hread
    split at hread
    · exact Option.some.inj hread
    · cases hread
  · have hmem := e.mem_writtenRegisters.mp ha
    unfold GroupRead.readWords at hread
    rw [if_pos (hcovered a hmem.1 (by omega))] at hread
    cases hread

theorem readBack_of_pos (h : 0 < ps.readBatchSize) : ∃ registry, ps.readBack content e = .ok registry := by
  have hranges : ∃ ranges,
      ps.readBackRanges e.register (e.register + e.entryWordCount - 1) = .ok ranges := by
    unfold readBackRanges
    dsimp only
    rw [if_neg fun hle => by omega]
    exact ⟨_, rfl⟩
  obtain ⟨ranges, hranges⟩ := hranges
  exact ⟨_, bind_eq_ok_iff.mpr ⟨ranges, hranges, rfl⟩⟩

/-- **A write to a device happens** exactly if the read-back ends and every step succeeds. -/
theorem writeDevice_eq_some_iff :
    ps.writeDevice ops mode content e value = .ok (some request) ↔
      ∃ registry current looked scaled words, ps.readBack content e = .ok registry ∧
        ops.current registry e = .ok (some current) ∧
        ps.lookUpCodes ops e (writtenValue ops value) (ops.text current) = .ok looked ∧
        ps.accepted ops mode e looked.1 looked.2 = .ok true ∧
        applyUnitMod ops e looked.1 = .ok (some scaled) ∧
        registerValues ops (e.getEntryByteorder ps.defaultWordOrder)
          (e.writtenRegisters.map content) e scaled = .ok (some words) ∧ words ≠ [] ∧
        request = .registers e.register words := by
  unfold writeDevice
  rw [bind_eq_ok_iff]
  refine exists_congr fun registry => ?_
  constructor
  · rintro ⟨hread, h⟩
    obtain ⟨-, hregistry, hall⟩ := readBack_spec hread
    obtain ⟨raw, current, looked, scaled, words, hcurrent, hraw, h⟩ :=
      writeVariable_eq_some_iff.mp h
    obtain ⟨-, rfl⟩ := (rawRegisters_eq_some_iff hregistry).mp hraw
    exact ⟨current, looked, scaled, words, hread, hcurrent, h⟩
  · rintro ⟨current, looked, scaled, words, hread, hcurrent, h⟩
    obtain ⟨-, hregistry, hall⟩ := readBack_spec hread
    exact ⟨hread, writeVariable_eq_some_iff.mpr ⟨_, current, looked, scaled, words, hcurrent,
      (rawRegisters_eq_some_iff hregistry).mpr ⟨hall, rfl⟩, h⟩⟩

end ProtocolSettings

end ProtocolGateway
