import ProtocolGateway.Lib.Hex
import ProtocolGateway.Words

/-!
# Pylon frames

A Pylon frame is a text of hexadecimal digits: version, address, command, the length of the
information, the information and a checksum. `buildFrame` makes a request and `decodeFrame` takes a
response apart; the markers around both belong to the frame client.

The length is a number of 12 bits under four bits that make the sum of its digits a multiple
of 16. These are the complement of that sum, and the complement of zero does not fit: the length
then has a fifth digit, which pushes all that follows out of its place (`roundTrips_iff`).
-/

namespace ProtocolGateway

namespace SerialPylon

open Hex

/-- What a transport has negotiated and was configured with. -/
structure Transport where
  /-- zero until the battery has told its version -/
  ver : Byte
  adr : Byte
  ignoreChecksumErrors : Bool := false

/-- `DEFAULT_VER`. -/
def defaultVer : Byte := 0x20

/-- The version of a request. -/
def Transport.requestVer (t : Transport) : Byte := if t.ver ≠ 0 then t.ver else defaultVer

/-- `struct.pack(">H", value)`. -/
def packWord (value : Int) : Option (List Byte) :=
  if 0 ≤ value ∧ value < 65536 then some (Word.toBytes false (BitVec.ofInt 16 value)) else none

/-- `calculate_checksum`. -/
def calculateChecksum (data : List Byte) : Word :=
  ~~~BitVec.ofNat 16 (data.map BitVec.toNat).sum + 1

/-- The digits of a checksum. -/
def checksumText (data : List Byte) : List Byte := hexBytes ((calculateChecksum data).toBytes false)

/-- The sum of the three digits of a length. -/
def lenidSum (lenid : Nat) : Nat := (lenid &&& 0xF) + (lenid >>> 4 &&& 0xF) + (lenid >>> 8 &&& 0xF)

/-- The LENGTH of an information of `lenid` bytes. -/
def infoLength (lenid : Nat) : Nat :=
  if lenid ≠ 0 then (0b1111 - lenidSum lenid % 16 + 1) <<< 12 + lenid else 0

/-- A frame without its checksum. -/
def frameText (ver adr : Byte) (command info : List Byte) : List Byte :=
  hexBytes [ver] ++ hexBytes [adr] ++ hexBytes command ++ hexPadded 4 (infoLength info.length) ++
    hexBytes info

/-- `build_frame`. A command that is no 16-bit number is an error. -/
def buildFrame (t : Transport) (command : Int) (info : List Byte) : Option (List Byte) :=
  (packWord command).map fun command =>
    let text := frameText t.requestVer t.adr command info
    text ++ checksumText text

/-- The fields of a response. -/
structure Decoded where
  ver : List Byte
  adr : List Byte
  cid1 : List Byte
  cid2 : List Byte
  infolength : List Byte
  info : List Byte
deriving DecidableEq, Repr

/-- `MIN_FRAME_LENGTH`. -/
def minFrameLength : Nat := 16

/-- `decode_frame`. -/
def decodeFrame (t : Transport) (raw : List Byte) : Option Decoded :=
  if raw.length < minFrameLength then none
  else
    let data := raw.take (raw.length - 4)
    let checksum := (raw.drop (raw.length - 4)).map upper
    if checksumText data ≠ checksum ∧ !t.ignoreChecksumErrors then none
    else some {
      ver := data.take 2
      adr := (data.drop 2).take 2
      cid1 := (data.drop 4).take 2
      cid2 := (data.drop 6).take 2
      infolength := (data.drop 8).take 4
      info := data.drop 12 }

/-! ## The round trip -/

/-- A LENGTH for `lenid` bytes: four digits, the last three of which are `lenid`, whose sum is a
multiple of 16. -/
structure ValidLength (field : List Byte) (lenid : Nat) : Prop where
  digits : field.length = 4
  value : ∃ n, hexNumber field = some n ∧ n % 4096 = lenid ∧ (n / 4096 + lenidSum lenid) % 16 = 0

/-- A request that a decoder takes apart into what it was built from. The decoder insists on the
checksum. -/
def RoundTrips (t : Transport) (command : Int) (info : List Byte) : Prop :=
  ∃ frame decoded bytes, buildFrame t command info = some frame ∧
    decodeFrame { t with ignoreChecksumErrors := false } frame = some decoded ∧
      packWord command = some bytes ∧ ValidLength decoded.infolength info.length ∧
        fromHex decoded.ver = some [t.requestVer] ∧ fromHex decoded.adr = some [t.adr] ∧
          fromHex (decoded.cid1 ++ decoded.cid2) = some bytes ∧ fromHex decoded.info = some info

@[simp] theorem length_checksumText (data : List Byte) : (checksumText data).length = 4 := by
  rw [checksumText, length_hexBytes]
  rfl

/-- A request is taken apart at fixed places. -/
theorem decodeFrame_frameText (t : Transport) (ver adr c d : Byte) (info : List Byte) :
    decodeFrame t (frameText ver adr [c, d] info ++ checksumText (frameText ver adr [c, d] info)) =
      some {
        ver := hexBytes [ver]
        adr := hexBytes [adr]
        cid1 := hexBytes [c]
        cid2 := hexBytes [d]
        infolength := (hexPadded 4 (infoLength info.length) ++ hexBytes info).take 4
        info := (hexPadded 4 (infoLength info.length) ++ hexBytes info).drop 4 } := by
  have hlength : minFrameLength ≤ (frameText ver adr [c, d] info ++
      checksumText (frameText ver adr [c, d] info)).length := by
    have hpadded := le_length_hexPadded 4 (infoLength info.length)
    simp only [frameText, List.length_append, length_hexBytes, length_checksumText,
      List.length_cons, List.length_nil, minFrameLength]
    omega
  have hcut (text : List Byte) : (text ++ checksumText text).length - 4 = text.length := by
    rw [List.length_append, length_checksumText, Nat.add_sub_cancel]
  have hupper (data : List Byte) : (checksumText data).map upper = checksumText data :=
    map_upper_hexBytes _
  rw [decodeFrame, if_neg (Nat.not_lt.mpr hlength)]
  dsimp only
  rw [hcut, List.take_left, List.drop_left, hupper, if_neg fun h => h.1 rfl]
  simp [frameText]

/-- **A request is read back** if its length has four digits. -/
theorem roundTrips_of_length {t : Transport} {command : Int} {info bytes : List Byte}
    (hcommand : packWord command = some bytes)
    (hlength : ValidLength (hexPadded 4 (infoLength info.length)) info.length) :
    RoundTrips t command info := by
  obtain ⟨c, d, rfl⟩ : ∃ c d, bytes = [c, d] := by
    unfold packWord at hcommand
    split at hcommand
    · exact ⟨_, _, (Option.some.inj hcommand).symm⟩
    · cases hcommand
  refine ⟨_, _, [c, d], by rw [buildFrame, hcommand, Option.map_some],
    decodeFrame_frameText _ _ _ _ _ _, hcommand, ?_, fromHex_hexBytes _, fromHex_hexBytes _,
    fromHex_hexBytes [c, d], ?_⟩
  · show ValidLength (List.take 4 _) _
    rw [List.take_left' hlength.digits]
    exact hlength
  · show fromHex (List.drop 4 _) = _
    rw [List.drop_left' hlength.digits]
    exact fromHex_hexBytes info

/-- A request that is read back has a length of four digits: what follows is as long as it was. -/
theorem length_of_roundTrips {t : Transport} {command : Int} {info : List Byte}
    (h : RoundTrips t command info) : ∃ bytes, packWord command = some bytes ∧
      (hexPadded 4 (infoLength info.length)).length = 4 := by
  obtain ⟨frame, decoded, bytes, hframe, hdecoded, hcommand, -, -, -, -, hinfo⟩ := h
  obtain ⟨c, d, rfl⟩ : ∃ c d, bytes = [c, d] := by
    unfold packWord at hcommand
    split at hcommand
    · exact ⟨_, _, (Option.some.inj hcommand).symm⟩
    · cases hcommand
  rw [buildFrame, hcommand, Option.map_some] at hframe
  obtain rfl := Option.some.inj hframe
  rw [decodeFrame_frameText] at hdecoded
  obtain rfl := Option.some.inj hdecoded
  refine ⟨_, hcommand, ?_⟩
  have hblank : ∀ e ∈ (hexPadded 4 (infoLength info.length) ++ hexBytes info).drop 4,
      isBlank e = false := by
    intro e he
    rcases List.mem_append.mp (List.mem_of_mem_drop he) with he | he
    · exact isBlank_of_mem_hexPadded he
    · exact isBlank_of_mem_hexBytes he
  have hsame := length_of_fromHex hblank hinfo
  have hpadded := le_length_hexPadded 4 (infoLength info.length)
  rw [List.length_drop, List.length_append, length_hexBytes] at hsame
  omega

/-! ## Lengths -/

theorem lenidSum_eq (lenid : Nat) :
    lenidSum lenid = lenid % 16 + lenid / 16 % 16 + lenid / 256 % 16 := by
  have hmask (n : Nat) : n &&& 0xF = n % 16 := Nat.and_two_pow_sub_one_eq_mod n 4
  rw [lenidSum, hmask, hmask, hmask, Nat.shiftRight_eq_div_pow, Nat.shiftRight_eq_div_pow]

/-- A LENGTH that fits: the complement of the digits' sum is not 16. -/
theorem infoLength_lt_iff {lenid : Nat} (h : lenid < 4096) :
    infoLength lenid < 16 ^ 4 ↔ lenid = 0 ∨ lenidSum lenid % 16 ≠ 0 := by
  unfold infoLength
  rw [Nat.shiftLeft_eq]
  split
  · next hne => omega
  · next hzero => omega

theorem validLength_of_lt {lenid : Nat} (h : lenid < 4096) (hfits : infoLength lenid < 16 ^ 4) :
    ValidLength (hexPadded 4 (infoLength lenid)) lenid := by
  refine ⟨length_hexPadded hfits, infoLength lenid, hexNumber_hexPadded hfits, ?_⟩
  clear hfits
  unfold infoLength
  rw [Nat.shiftLeft_eq]
  split
  · have hsum : (0b1111 - lenidSum lenid % 16 + 1 + lenidSum lenid) % 16 = 0 := by omega
    generalize 0b1111 - lenidSum lenid % 16 + 1 = complement at hsum ⊢
    have hdiv : (complement * 2 ^ 12 + lenid) / 4096 = complement := by omega
    exact ⟨by omega, by rwa [hdiv]⟩
  · next hzero =>
    obtain rfl : lenid = 0 := by omega
    decide

/-- A command is a word. -/
theorem packWord_isSome_iff {command : Int} :
    (∃ bytes, packWord command = some bytes) ↔ 0 ≤ command ∧ command < 65536 := by
  unfold packWord
  split
  · next h => exact ⟨fun _ => h, fun _ => ⟨_, rfl⟩⟩
  · next h =>
    refine ⟨?_, fun hrange => absurd hrange h⟩
    rintro ⟨bytes, hbytes⟩
    cases hbytes

theorem infoLength_lt_of_roundTrips {t : Transport} {command : Int} {info : List Byte}
    (h : RoundTrips t command info) : infoLength info.length < 16 ^ 4 := by
  obtain ⟨-, -, hlength⟩ := length_of_roundTrips h
  by_contra hlong
  have hdigits := lt_length_hexPadded (Nat.le_of_not_lt hlong)
  omega

/-- **Which requests are read back**: those with a command of 16 bits, whose information is empty or
has a length with a sum of digits that is no multiple of 16. -/
theorem roundTrips_iff (t : Transport) (command : Int) (info : List Byte)
    (hinfo : info.length < 4096) :
    RoundTrips t command info ↔
      (0 ≤ command ∧ command < 65536) ∧ (info = [] ∨ lenidSum info.length % 16 ≠ 0) := by
  rw [← packWord_isSome_iff, ← List.length_eq_zero_iff, ← infoLength_lt_iff hinfo]
  constructor
  · intro h
    obtain ⟨bytes, hcommand, -⟩ := length_of_roundTrips h
    exact ⟨⟨bytes, hcommand⟩, infoLength_lt_of_roundTrips h⟩
  · rintro ⟨⟨bytes, hcommand⟩, hfits⟩
    exact roundTrips_of_length hcommand (validLength_of_lt hinfo hfits)

/-- A battery at address 2 that has not told its version. -/
def battery : Transport where
  ver := 0
  adr := 2

/-- A request with one byte of information is read back. -/
theorem roundTrips_battery : RoundTrips battery 0x4642 [2] :=
  (roundTrips_iff battery 0x4642 [2] (by decide)).mpr ⟨by decide, Or.inr (by decide)⟩

/-- An information of 31 bytes has a LENGTH of five digits, `1001F`. -/
theorem not_roundTrips_carry : ¬ ∀ (t : Transport) (command : Int) (info : List Byte),
    0 ≤ command ∧ command < 65536 → info.length < 4096 → RoundTrips t command info := by
  intro hall
  have hfits := infoLength_lt_of_roundTrips
    (hall battery 0x4642 (List.replicate 31 0) (by decide) (by decide))
  rw [List.length_replicate] at hfits
  exact absurd hfits (by decide)

end SerialPylon

end ProtocolGateway
