import ProtocolGateway.Decode

/-!
# Assembling words, twice

The transport lays register values out as bytes when it writes, and takes bytes apart into register
values; the protocol lays out the registers of an entry when it decodes. The protocol has its own
copy of the assembly, which walks over a registry that may lack one of the registers.

* `wordsToBytes`, `bytesToWords` — the two conversions of the transport, on Python's integers.
* `assembleWords` — the protocol's copy.
* `wordCodec` — the conversions are inverse to each other, and the copies agree.
-/

namespace ProtocolGateway

namespace WordCodec

/-- `value & 0xFFFF`. -/
def masked (value : Int) : Word := BitVec.ofInt 16 value

/-- `_register_words_to_bytes` of the transport. -/
def wordsToBytes (registerValues : List Int) (order : WordOrder) : List Byte :=
  registerWordsToBytes order (registerValues.map masked)

/-- `_bytes_to_register_words`. -/
def bytesToWords (data : List Byte) (order : WordOrder) : Except PyError (List Int) :=
  (bytesToRegisterWords order data).map fun words => words.map fun w => (w.toNat : Int)

/-- The register of an offset: from the address list as far as it goes, else the next one. -/
def registerNum (startRegister : Int) (registerAddresses : List Int) (offset : Nat) : Int :=
  if h : offset < registerAddresses.length then registerAddresses[offset] else startRegister + offset

/-- The loop of the protocol's copy, which ends at the first register that is absent. -/
def collectWords (registry : Int → Option Int) (startRegister : Int) (registerAddresses : List Int) :
    Nat → Nat → List Word → Option (List Word)
  | 0, _, words => some words
  | count + 1, offset, words =>
    match registry (registerNum startRegister registerAddresses offset) with
    | none => none
    | some value =>
      collectWords registry startRegister registerAddresses count (offset + 1) (words ++ [masked value])

/-- `_register_words_to_bytes` of the protocol. -/
def assembleWords (registry : Int → Option Int) (startRegister : Int) (wordCount : Nat)
    (order : WordOrder) (registerAddresses : List Int) : Option (List Byte) :=
  match collectWords registry startRegister registerAddresses wordCount 0 [] with
  | none => none
  | some words =>
    let words := if order.wordReversed then words.reverse else words
    some (words.map fun w => w.toBytes order.bytesReversed).flatten

/-! ## The transport -/

theorem masked_toNat (w : Word) : masked w.toNat = w := by
  rw [masked, BitVec.ofInt_natCast, BitVec.ofNat_toNat, BitVec.setWidth_eq]

theorem map_masked (words : List Word) : (words.map fun w => (w.toNat : Int)).map masked = words := by
  rw [List.map_map]
  exact (List.map_congr_left fun w _ => masked_toNat w).trans (List.map_id words)

/-- **From words to bytes and back.** -/
theorem bytesToWords_wordsToBytes (words : List Word) (order : WordOrder) :
    bytesToWords (wordsToBytes (words.map fun w => (w.toNat : Int)) order) order =
      .ok (words.map fun w => (w.toNat : Int)) := by
  rw [bytesToWords, wordsToBytes, map_masked, bytesToRegisterWords_registerWordsToBytes]
  rfl

/-- **From bytes to words and back.** -/
theorem wordsToBytes_bytesToWords {data : List Byte} (heven : data.length % 2 = 0)
    (order : WordOrder) :
    ∃ values, bytesToWords data order = .ok values ∧ wordsToBytes values order = data := by
  obtain ⟨words, hwords⟩ : ∃ words, bytesToRegisterWords order data = .ok words :=
    ⟨_, if_neg (not_not.mpr heven)⟩
  refine ⟨words.map fun w => (w.toNat : Int), ?_, ?_⟩
  · rw [bytesToWords, hwords]
    rfl
  · rw [wordsToBytes, map_masked]
    exact registerWordsToBytes_of_bytesToRegisterWords hwords

/-! ## The protocol's copy -/

/-- The values of the registers from an offset on, if none is absent. -/
def values (registry : Int → Option Int) (startRegister : Int) (registerAddresses : List Int)
    (offset count : Nat) : Option (List Int) :=
  (List.range' offset count).mapM fun offset =>
    registry (registerNum startRegister registerAddresses offset)

/-- What the loop adds to the words it has. -/
theorem collectWords_eq (registry : Int → Option Int) (startRegister : Int)
    (registerAddresses : List Int) (count offset : Nat) (words : List Word) :
    collectWords registry startRegister registerAddresses count offset words =
      (values registry startRegister registerAddresses offset count).map fun vs =>
        words ++ vs.map masked := by
  induction count generalizing offset words with
  | zero => exact (congrArg some (List.append_nil words)).symm
  | succ count ih =>
    rw [collectWords, values, List.range'_succ, List.mapM_cons]
    cases registry (registerNum startRegister registerAddresses offset) with
    | none => rfl
    | some value =>
      dsimp only
      rw [ih]
      unfold values
      cases (List.range' (offset + 1) count).mapM fun offset =>
          registry (registerNum startRegister registerAddresses offset) with
      | none => rfl
      | some vs => simp

/-- **The two copies agree**: the protocol lays out the values of its registers as the transport
does. -/
theorem assembleWords_eq (registry : Int → Option Int) (startRegister : Int) (wordCount : Nat)
    (order : WordOrder) (registerAddresses : List Int) :
    assembleWords registry startRegister wordCount order registerAddresses =
      (values registry startRegister registerAddresses 0 wordCount).map (wordsToBytes · order) := by
  rw [assembleWords, collectWords_eq]
  cases values registry startRegister registerAddresses 0 wordCount with
  | none => rfl
  | some vs =>
    simp only [Option.map_some, List.nil_append]
    rw [wordsToBytes, registerWordsToBytes, List.flatMap_def]

theorem mapM_map {α β γ : Type} (f : α → Option β) (g : β → γ) (l : List α) :
    (l.mapM fun a => (f a).map g) = (l.mapM f).map (List.map g) := by
  induction l with
  | nil => rfl
  | cons a l ih =>
    rw [List.mapM_cons, List.mapM_cons, ih]
    cases f a with
    | none => rfl
    | some b =>
      cases l.mapM f with
      | none => rfl
      | some bs => rfl

theorem registerNum_eq (startRegister : Int) (registerAddresses : List Int) (offset : Nat) :
    registerNum startRegister registerAddresses offset =
      registerAddresses.getD offset (startRegister + offset) := by
  rw [registerNum, List.getD_eq_getElem?_getD]
  split
  · next h => rw [List.getElem?_eq_getElem h, Option.getD_some]
  · next h => rw [List.getElem?_eq_none (not_lt.mp h), Option.getD_none]

/-- On a registry of words the copy is the assembly that the decoders use. -/
theorem assembleWords_ofWords (registry : Int → Option Word) (startRegister : Int) (wordCount : Nat)
    (order : WordOrder) (registerAddresses : List Int) :
    assembleWords (fun a => (registry a).map fun w => (w.toNat : Int)) startRegister wordCount order
        registerAddresses =
      ProtocolSettings.registerWordsToBytes registry startRegister wordCount order registerAddresses := by
  rw [assembleWords_eq, values, mapM_map, Option.map_map, ProtocolSettings.registerWordsToBytes,
    List.range_eq_range']
  simp only [registerNum_eq]
  refine congrArg (Option.map · _) (funext fun words => ?_)
  rw [Function.comp_apply, wordsToBytes, map_masked]

/-- **The word codec.** For each word order: taking the bytes of words apart gives the words, laying
out the words of an even number of bytes gives the bytes, and where no register is absent the
protocol assembles the bytes that the transport assembles from the same values; else it assembles
none. -/
theorem wordCodec (order : WordOrder) :
    (∀ words : List Word,
      bytesToWords (wordsToBytes (words.map fun w => (w.toNat : Int)) order) order =
        .ok (words.map fun w => (w.toNat : Int))) ∧
    (∀ data : List Byte, data.length % 2 = 0 →
      ∃ values, bytesToWords data order = .ok values ∧ wordsToBytes values order = data) ∧
    ∀ (registry : Int → Option Int) (startRegister : Int) (wordCount : Nat)
      (registerAddresses : List Int),
      assembleWords registry startRegister wordCount order registerAddresses =
        (values registry startRegister registerAddresses 0 wordCount).map (wordsToBytes · order) :=
  ⟨fun words => bytesToWords_wordsToBytes words order,
    fun _ heven => wordsToBytes_bytesToWords heven order,
    fun registry startRegister wordCount registerAddresses =>
      assembleWords_eq registry startRegister wordCount order registerAddresses⟩

end WordCodec

end ProtocolGateway
