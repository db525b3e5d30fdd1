import ProtocolGateway.Text
import ProtocolGateway.DataType

/-!
# Register-map entries

`registry_map_entry`, the row of a register map after loading, together with what is read off an
entry without looking at any register: its word order (`get_entry_byteorder`), its word count
(`entry_word_count`) and the register addresses it decodes from.

Addresses are integers, not naturals: the loader falls back to `strtoint`, which accepts a sign.
-/

namespace ProtocolGateway

/-- `WriteMode`. -/
inductive WriteMode
  /-- read only -/
  | read
  /-- do not read or write -/
  | readDisabled
  /-- read and write -/
  | write
  /-- write only -/
  | writeOnly
  deriving DecidableEq, Repr

/-- `Registry_Type`. -/
inductive RegistryType
  | customBus
  | coil
  | discrete
  | holding
  | input
  deriving DecidableEq, Repr

/-- `WordOrder`: the two independent axes of a multi-register encoding. -/
structure WordOrder where
  /-- the low-significance word is stored at the lower register address -/
  wordReversed : Bool
  /-- the two bytes within each register are stored in little-endian order -/
  bytesReversed : Bool
  deriving DecidableEq, Repr

namespace WordOrder

/-- `WORD_ORDER_ABCD`: standard Modbus. -/
def abcd : WordOrder := ⟨false, false⟩

/-- `WORD_ORDER_BADC`: high word first, bytes within each word reversed. -/
def badc : WordOrder := ⟨false, true⟩

/-- `WORD_ORDER_CDAB`: low word at the lower address. -/
def cdab : WordOrder := ⟨true, false⟩

/-- `WORD_ORDER_DCBA`: fully reversed. -/
def dcba : WordOrder := ⟨true, true⟩

/-- `_WORD_ORDER_ALIASES`: every accepted text, lowered and stripped. -/
def aliases : List (String × WordOrder) :=
  [("big_endian-abcd", abcd), ("big_endian_byte_swap-badc", badc), ("little_endian-cdab", cdab),
    ("little_endian_byte_swap-dcba", dcba), ("big_endian", abcd), ("big_endian_byte_swap", badc),
    ("little_endian", cdab), ("little_endian_byte_swap", dcba), ("abcd", abcd), ("badc", badc),
    ("cdab", cdab), ("dcba", dcba), ("big", abcd), ("be", abcd), ("little", cdab), ("le", cdab)]

end WordOrder

/-- A JSON value, as the `adjustments` column and the code tables hold them. -/
inductive Json
  | null
  | bool (b : Bool)
  | int (i : Int)
  | float (f : Float)
  | str (s : String)
  | list (items : List Json)
  | dict (items : List (String × Json))

/-- `registry_map_entry`, with the fields the decode, write and read-plan code reads. -/
structure RegistryMapEntry where
  registryType : RegistryType
  register : Int
  registerBit : Int
  registerBitEnd : Int
  /-- byte offset for canbus etc... -/
  registerByte : Int
  variableName : String
  documentedName : String
  unit : String
  unitMod : Float
  adjustments : List (String × Json)
  concatenate : Bool
  concatenateRegisters : List Int
  values : List String
  /-- the addresses of a `low_high[_mid_msb]` cell in their own order, empty for other cells -/
  registerList : List Int
  /-- literal address text for text-keyed protocols -/
  registerKey : String
  valueRegex : String
  valueMin : Int
  valueMax : Int
  dataType : DataType
  /-- for non-fixed size types like ASCII -/
  dataTypeSize : Int
  /-- how often to read the register in ms -/
  readInterval : Float
  /-- unix timestamp in ms -/
  nextReadTimestamp : Float
  writeMode : WriteMode
  /-- `variable_name` of the source metric when this is a synthetic `_desc` entry -/
  descriptionSource : String

namespace RegistryMapEntry

variable (e : RegistryMapEntry)

/-! ## Word order -/

/-- `get_adjustment`: the first adjustment whose name matches, ignoring case. -/
def getAdjustment (name : String) : Option Json :=
  (e.adjustments.find? fun kv => Text.lower kv.1.toList = Text.lower name.toList).map Prod.snd

/-- `get_entry_byteorder`: a known `Register_Endian` text wins over the protocol's default. No
JSON value other than a text prints as a name of the alias table. -/
def getEntryByteorder (defaultWordOrder : WordOrder) : WordOrder :=
  match e.getAdjustment "Register_Endian" with
  | some (.str endian) =>
    let endianStr := String.ofList (Text.lower (Text.strip endian.toList))
    (WordOrder.aliases.lookup endianStr).getD defaultWordOrder
  | _ => defaultWordOrder

/-! ## Addresses -/

/-- The word counts of the legacy consecutive-address path of `entry_word_count`. -/
def wordCounts : DataType → Nat
  | .uint | .int | .float32 | .acc32 | .bit32Flags => 2
  | .uint64 | .int64 | .float64 => 4
  | .string16 => 8
  | .string32 => 16
  | _ => 1

/-- `entry_word_count`: the number of 16-bit registers the entry occupies. The address list comes
first, then the concatenated range, then the size of a fixed-length string, then the type. -/
def entryWordCount : Nat :=
  if e.registerList ≠ [] then e.registerList.length
  else if e.concatenate ∧ e.concatenateRegisters ≠ [] then e.concatenateRegisters.length
  else if (e.dataType = .string ∨ e.dataType = .ascii) ∧ 0 < e.dataTypeSize then
    max 1 ((e.dataTypeSize.toNat + 1) / 2)
  else wordCounts e.dataType

/-- The register addresses the entry decodes from: its address list if it has one, otherwise
`entry_word_count` consecutive registers. -/
def addresses : List Int :=
  if e.registerList ≠ [] then e.registerList
  else (List.range e.entryWordCount).map fun i : Nat => e.register + i

/-- The last address a read has to reach for the entry, as `calculate_registry_ranges` and
`load_registry_map` compute it. -/
def registerEnd : Int :=
  match e.registerList with
  | [] => e.register + e.entryWordCount - 1
  | a :: as => as.foldl max a

theorem wordCounts_pos (t : DataType) : 0 < wordCounts t := by
  cases t <;> simp [wordCounts]

/-- Every entry occupies at least one register. -/
theorem entryWordCount_pos : 0 < e.entryWordCount := by
  unfold entryWordCount
  split
  · next h => exact List.length_pos_iff.mpr h
  · split
    · next h => exact List.length_pos_iff.mpr h.2
    · split
      · omega
      · exact wordCounts_pos e.dataType

theorem mem_addresses_of_nil {a : Int} (hl : e.registerList = []) :
    a ∈ e.addresses ↔ e.register ≤ a ∧ a < e.register + e.entryWordCount := by
  rw [addresses, if_neg (by simpa using hl)]
  simp only [List.mem_map, List.mem_range]
  constructor
  · rintro ⟨i, hi, rfl⟩
    omega
  · rintro ⟨h1, h2⟩
    exact ⟨(a - e.register).toNat, by omega, by omega⟩

theorem mem_addresses_of_ne_nil {a : Int} (hl : e.registerList ≠ []) :
    a ∈ e.addresses ↔ a ∈ e.registerList := by
  rw [addresses, if_pos hl]

/-- Folding `max` dominates its start and every element. -/
theorem le_foldl_max (as : List Int) (m : Int) :
    m ≤ as.foldl max m ∧ ∀ x ∈ as, x ≤ as.foldl max m := by
  induction as generalizing m with
  | nil => simp
  | cons b bs ih =>
    obtain ⟨h1, h2⟩ := ih (max m b)
    refine ⟨by rw [List.foldl_cons]; omega, ?_⟩
    intro x hx
    rcases List.mem_cons.mp hx with rfl | hx
    · rw [List.foldl_cons]
      omega
    · exact h2 x hx

/-- The read end covers every address of the entry. -/
theorem le_registerEnd {a : Int} (ha : a ∈ e.addresses) : a ≤ e.registerEnd := by
  unfold registerEnd
  split
  · next hl =>
    have := (e.mem_addresses_of_nil hl).mp ha
    omega
  · next b bs hl =>
    have hmem := (e.mem_addresses_of_ne_nil (by simp [hl])).mp ha
    rw [hl] at hmem
    rcases List.mem_cons.mp hmem with rfl | hx
    · exact (le_foldl_max bs a).1
    · exact (le_foldl_max bs b).2 a hx

end RegistryMapEntry

end ProtocolGateway
