import ProtocolGateway.Staging.Settings
import ProtocolGateway.Entry
import Mathlib.Data.List.Infix

/-!
# The registers and selections of the staging database

The scanner keeps a row for every register of every protocol (`ProtocolRegister`), and for every
device a row for each register of its protocol (`DeviceProtocolSelection`) with the three choices
the user can make: write, mask and screen. A selection has the choices that are staged and those the files had at
the last scan.

A device's registers are found by the *start* of their protocol's name: the name of a register map
is the protocol's name followed by its registry type. `deviceRegisters` is that join.
-/

namespace ProtocolGateway

/-! ## Rows -/

/-- What no two rows of `protocol_registers` share. The protocol's name is the name of the register
map without its extension. -/
structure RegisterKey where
  protocolName : String
  registryType : String
  registerAddress : String
deriving DecidableEq, Repr

/-- A row of `protocol_registers`. -/
structure ProtocolRegister where
  variableName : String
  documentedName : String
  unit : Option String := none
  dataType : Option String := none
  valuesRange : Option String := none
  adjustments : Option String := none
  note : Option String := none
  readInterval : Option String := none
  haDeviceClass : Option String := some ""
  haStateClass : Option String := some ""
  haEntityCategory : Option String := some ""
  writeModeProtocol : String := "R"
  pairedHighAddress : Option String := none
  /-- a field was edited -/
  isDirty : Bool := false
  /-- the row stands for a field the gateway computes -/
  isSynthetic : Bool := false
  /-- the row stands for the description of a code register -/
  isJsonDesc : Bool := false
  pendingDelete : Bool := false
  /-- the code register a description describes -/
  sourceVariableName : Option String := none
deriving DecidableEq, Repr

/-- `is_writable_by_protocol`. -/
def ProtocolRegister.isWritableByProtocol (row : ProtocolRegister) : Bool :=
  row.writeModeProtocol ∈ ["RW", "W", "WO", "WRITE", "R/W"]

/-- The `protocol_registers` table, in the order of its ids. -/
abbrev RegisterTable := Dict RegisterKey ProtocolRegister

/-- What no two rows of `device_protocol_selections` share. -/
structure SelectionKey where
  deviceName : String
  register : RegisterKey
deriving DecidableEq, Repr

/-- The choices of a user about a register. -/
structure Choices where
  userWriteEnabled : Bool := false
  maskEnabled : Bool := false
  screenEnabled : Bool := false
deriving DecidableEq, Repr

/-- A row of `device_protocol_selections`. -/
structure DeviceProtocolSelection where
  staged : Choices := {}
  /-- what the files say -/
  disk : Choices := {}
  isDirty : Bool := false
deriving DecidableEq, Repr

/-- `mark_dirty`. -/
def DeviceProtocolSelection.markDirty (s : DeviceProtocolSelection) : DeviceProtocolSelection :=
  { s with isDirty := s.staged ≠ s.disk }

/-- The `device_protocol_selections` table, in the order of its ids. -/
abbrev SelectionTable := Dict SelectionKey DeviceProtocolSelection

/-- The tables of the staging database. -/
structure StagingDb where
  settings : SettingTable := Dict.empty
  registers : RegisterTable := Dict.empty
  selections : SelectionTable := Dict.empty

/-! ## The registers of a device -/

/-- A lowered ASCII character. -/
def asciiLower (c : Char) : Char :=
  if 'A' ≤ c ∧ c ≤ 'Z' then Char.ofNat (c.toNat + 32) else c

/-- SQLite's `LIKE`: `%` stands for any text and `_` for any character, and ASCII letters match in
either case. -/
def like : List Char → List Char → Bool
  | [], s => s.isEmpty
  | c :: pattern, s =>
    if c = '%' then s.tails.any (like pattern)
    else
      match s with
      | [] => false
      | d :: s => (c = '_' || asciiLower c == asciiLower d) && like pattern s

/-- `%` matches any text that ends in what the rest of the pattern matches. -/
theorem like_percent {pattern s rest : List Char} (hrest : rest <:+ s)
    (h : like pattern rest = true) : like ('%' :: pattern) s = true := by
  unfold like
  rw [if_pos rfl, List.any_eq_true]
  exact ⟨rest, (List.mem_tails _ _).mpr hrest, h⟩

/-- A pattern matches the text it is, with anything behind it. -/
theorem like_append_percent (s rest : List Char) : like (s ++ ['%']) (s ++ rest) = true := by
  induction s with
  | nil => exact like_percent (List.nil_suffix) rfl
  | cons c s ih =>
    by_cases hc : c = '%'
    · subst hc
      exact like_percent (List.suffix_cons _ _) ih
    · rw [List.cons_append, List.cons_append]
      unfold like
      rw [if_neg hc]
      show ((decide (c = '_') || asciiLower c == asciiLower c) && like (s ++ ['%']) (s ++ rest)) =
        true
      rw [ih, beq_self_eq_true, Bool.or_true, Bool.and_true]

/-- `protocol_name.like(f"{protocol_version}%")`. -/
def ofProtocol (protocolVersion : String) (protocolName : String) : Bool :=
  like (protocolVersion.toList ++ ['%']) protocolName.toList

/-- The name of the register map of a protocol's registry type, without its extension. -/
def registryMapStem (protocolVersion : String) : RegistryType → String
  | .customBus => protocolVersion ++ ".registry_map"
  | .coil => protocolVersion ++ ".coil_registry_map"
  | .discrete => protocolVersion ++ ".discrete_registry_map"
  | .holding => protocolVersion ++ ".holding_registry_map"
  | .input => protocolVersion ++ ".input_registry_map"

/-- A device's protocol has its own register maps. -/
theorem ofProtocol_registryMapStem (protocolVersion : String) (registryType : RegistryType) :
    ofProtocol protocolVersion (registryMapStem protocolVersion registryType) = true := by
  unfold ofProtocol
  cases registryType <;> exact String.toList_append ▸ like_append_percent _ _

/-- A register with a selection for some device. -/
structure DeviceRegister where
  key : RegisterKey
  selection : DeviceProtocolSelection
  register : ProtocolRegister
deriving DecidableEq, Repr

namespace StagingDb

variable (db : StagingDb) (deviceName : String)

/-- The selections of a device for registers that pass a test, joined with the registers. Rows for
code descriptions are left out. -/
def joined (test : RegisterKey → Bool) : List DeviceRegister :=
  db.selections.items.filterMap fun item =>
    if item.1.deviceName = deviceName ∧ test item.1.register then
      (db.registers.get? item.1.register).bind fun register =>
        if register.isJsonDesc then none
        else some ⟨item.1.register, item.2, register⟩
    else none

/-- The registers of a device, as the mask and screen files are written from them. -/
def deviceRegisters (protocolVersion : String) : List DeviceRegister :=
  db.joined deviceName fun key => ofProtocol protocolVersion key.protocolName

variable {db deviceName}

theorem mem_joined {test : RegisterKey → Bool} {x : DeviceRegister} :
    x ∈ db.joined deviceName test ↔ db.selections.get? ⟨deviceName, x.key⟩ = some x.selection ∧
      db.registers.get? x.key = some x.register ∧ x.register.isJsonDesc = false ∧
        test x.key = true := by
  rw [joined, List.mem_filterMap]
  constructor
  · rintro ⟨item, hitem, hx⟩
    split at hx
    · next htest =>
      obtain ⟨register, hregister, hx⟩ := Option.bind_eq_some_iff.mp hx
      split at hx
      · cases hx
      · next hdesc =>
        obtain rfl := Option.some.inj hx
        refine ⟨?_, hregister, Bool.eq_false_iff.mpr hdesc, htest.2⟩
        rw [Dict.get?_eq_some_iff, ← htest.1]
        exact hitem
    · cases hx
  · rintro ⟨hselection, hregister, hdesc, htest⟩
    refine ⟨(⟨deviceName, x.key⟩, x.selection), Dict.get?_eq_some_iff.mp hselection, ?_⟩
    rw [if_pos ⟨rfl, htest⟩, hregister, Option.bind_some, hdesc, if_neg (by decide)]

end StagingDb

end ProtocolGateway
