import ProtocolGateway.Lib.Crc
import ProtocolGateway.Words

/-!
# The CRC of PACE frames

`_compute_crc16` of `modbus_pace` keeps the remainder in two bytes and reads both from a table.
The tables hold the eight shifts of every byte, low bytes in `_CRC_HI` and high bytes in `_CRC_LO`
(`tables_spec`), so the pair is the remainder of the bit-by-bit CRC-16 (`computeCrc16_eq`).

A frame ends in its remainder, high byte first, and is verified by computing it again. The
polynomial has its highest bit set, so a frame with one bit flipped is never verified.
-/

namespace ProtocolGateway

namespace Pace

open BigEndian

/-! ## Tables -/

/-- `_CRC_HI`. -/
def crcHi : List Byte := [
  0x00, 0xC1, 0x81, 0x40, 0x01, 0xC0, 0x80, 0x41, 0x01, 0xC0, 0x80, 0x41, 0x00, 0xC1, 0x81, 0x40,
  0x01, 0xC0, 0x80, 0x41, 0x00, 0xC1, 0x81, 0x40, 0x00, 0xC1, 0x81, 0x40, 0x01, 0xC0, 0x80, 0x41,
  0x01, 0xC0, 0x80, 0x41, 0x00, 0xC1, 0x81, 0x40, 0x00, 0xC1, 0x81, 0x40, 0x01, 0xC0, 0x80, 0x41,
  0x00, 0xC1, 0x81, 0x40, 0x01, 0xC0, 0x80, 0x41, 0x01, 0xC0, 0x80, 0x41, 0x00, 0xC1, 0x81, 0x40,
  0x01, 0xC0, 0x80, 0x41, 0x00, 0xC1, 0x81, 0x40, 0x00, 0xC1, 0x81, 0x40, 0x01, 0xC0, 0x80, 0x41,
  0x00, 0xC1, 0x81, 0x40, 0x01, 0xC0, 0x80, 0x41, 0x01, 0xC0, 0x80, 0x41, 0x00, 0xC1, 0x81, 0x40,
  0x00, 0xC1, 0x81, 0x40, 0x01, 0xC0, 0x80, 0x41, 0x01, 0xC0, 0x80, 0x41, 0x00, 0xC1, 0x81, 0x40,
  0x01, 0xC0, 0x80, 0x41, 0x00, 0xC1, 0x81, 0x40, 0x00, 0xC1, 0x81, 0x40, 0x01, 0xC0, 0x80, 0x41,
  0x01, 0xC0, 0x80, 0x41, 0x00, 0xC1, 0x81, 0x40, 0x00, 0xC1, 0x81, 0x40, 0x01, 0xC0, 0x80, 0x41,
  0x00, 0xC1, 0x81, 0x40, 0x01, 0xC0, 0x80, 0x41, 0x01, 0xC0, 0x80, 0x41, 0x00, 0xC1, 0x81, 0x40,
  0x00, 0xC1, 0x81, 0x40, 0x01, 0xC0, 0x80, 0x41, 0x01, 0xC0, 0x80, 0x41, 0x00, 0xC1, 0x81, 0x40,
  0x01, 0xC0, 0x80, 0x41, 0x00, 0xC1, 0x81, 0x40, 0x00, 0xC1, 0x81, 0x40, 0x01, 0xC0, 0x80, 0x41,
  0x00, 0xC1, 0x81, 0x40, 0x01, 0xC0, 0x80, 0x41, 0x01, 0xC0, 0x80, 0x41, 0x00, 0xC1, 0x81, 0x40,
  0x01, 0xC0, 0x80, 0x41, 0x00, 0xC1, 0x81, 0x40, 0x00, 0xC1, 0x81, 0x40, 0x01, 0xC0, 0x80, 0x41,
  0x01, 0xC0, 0x80, 0x41, 0x00, 0xC1, 0x81, 0x40, 0x00, 0xC1, 0x81, 0x40, 0x01, 0xC0, 0x80, 0x41,
  0x00, 0xC1, 0x81, 0x40, 0x01, 0xC0, 0x80, 0x41, 0x01, 0xC0, 0x80, 0x41, 0x00, 0xC1, 0x81, 0x40]

/-- `_CRC_LO`. -/
def crcLo : List Byte := [
  0x00, 0xC0, 0xC1, 0x01, 0xC3, 0x03, 0x02, 0xC2, 0xC6, 0x06, 0x07, 0xC7, 0x05, 0xC5, 0xC4, 0x04,
  0xCC, 0x0C, 0x0D, 0xCD, 0x0F, 0xCF, 0xCE, 0x0E, 0x0A, 0xCA, 0xCB, 0x0B, 0xC9, 0x09, 0x08, 0xC8,
  0xD8, 0x18, 0x19, 0xD9, 0x1B, 0xDB, 0xDA, 0x1A, 0x1E, 0xDE, 0xDF, 0x1F, 0xDD, 0x1D, 0x1C, 0xDC,
  0x14, 0xD4, 0xD5, 0x15, 0xD7, 0x17, 0x16, 0xD6, 0xD2, 0x12, 0x13, 0xD3, 0x11, 0xD1, 0xD0, 0x10,
  0xF0, 0x30, 0x31, 0xF1, 0x33, 0xF3, 0xF2, 0x32, 0x36, 0xF6, 0xF7, 0x37, 0xF5, 0x35, 0x34, 0xF4,
  0x3C, 0xFC, 0xFD, 0x3D, 0xFF, 0x3F, 0x3E, 0xFE, 0xFA, 0x3A, 0x3B, 0xFB, 0x39, 0xF9, 0xF8, 0x38,
  0x28, 0xE8, 0xE9, 0x29, 0xEB, 0x2B, 0x2A, 0xEA, 0xEE, 0x2E, 0x2F, 0xEF, 0x2D, 0xED, 0xEC, 0x2C,
  0xE4, 0x24, 0x25, 0xE5, 0x27, 0xE7, 0xE6, 0x26, 0x22, 0xE2, 0xE3, 0x23, 0xE1, 0x21, 0x20, 0xE0,
  0xA0, 0x60, 0x61, 0xA1, 0x63, 0xA3, 0xA2, 0x62, 0x66, 0xA6, 0xA7, 0x67, 0xA5, 0x65, 0x64, 0xA4,
  0x6C, 0xAC, 0xAD, 0x6D, 0xAF, 0x6F, 0x6E, 0xAE, 0xAA, 0x6A, 0x6B, 0xAB, 0x69, 0xA9, 0xA8, 0x68,
  0x78, 0xB8, 0xB9, 0x79, 0xBB, 0x7B, 0x7A, 0xBA, 0xBE, 0x7E, 0x7F, 0xBF, 0x7D, 0xBD, 0xBC, 0x7C,
  0xB4, 0x74, 0x75, 0xB5, 0x77, 0xB7, 0xB6, 0x76, 0x72, 0xB2, 0xB3, 0x73, 0xB1, 0x71, 0x70, 0xB0,
  0x50, 0x90, 0x91, 0x51, 0x93, 0x53, 0x52, 0x92, 0x96, 0x56, 0x57, 0x97, 0x55, 0x95, 0x94, 0x54,
  0x9C, 0x5C, 0x5D, 0x9D, 0x5F, 0x9F, 0x9E, 0x5E, 0x5A, 0x9A, 0x9B, 0x5B, 0x99, 0x59, 0x58, 0x98,
  0x88, 0x48, 0x49, 0x89, 0x4B, 0x8B, 0x8A, 0x4A, 0x4E, 0x8E, 0x8F, 0x4F, 0x8D, 0x4D, 0x4C, 0x8C,
  0x44, 0x84, 0x85, 0x45, 0x87, 0x47, 0x46, 0x86, 0x82, 0x42, 0x43, 0x83, 0x41, 0x81, 0x80, 0x40]

/-- The loop of `_compute_crc16` over `(crc_hi, crc_lo)`. An index is a byte, so it is in both
tables. -/
def crcLoop (crc : Byte × Byte) (byte : Byte) : Byte × Byte :=
  let index := (crc.2 ^^^ byte).toNat
  (crcLo.getD index 0, crc.1 ^^^ crcHi.getD index 0)

/-- `_compute_crc16`. -/
def computeCrc16 (data : List Byte) : Word :=
  let crc := data.foldl crcLoop (0xFF, 0xFF)
  Word.ofBytes crc.1 crc.2

/-- The reflected polynomial. -/
def polynomial : Word := 0xA001

/-- The entries of a byte, `_CRC_LO` over `_CRC_HI`. -/
def tableWord (i : Byte) : Word := Word.ofBytes (crcLo.getD i.toNat 0) (crcHi.getD i.toNat 0)

/-- The tables, one below the other, hold the eight shifts of the bytes in their order. -/
theorem zipWith_tables : List.zipWith Word.ofBytes crcLo crcHi =
    (List.range 256).map fun k => Crc.shifts polynomial 8 (BitVec.ofNat 16 k) := by
  decide +kernel

/-- The tables hold the eight shifts of every byte. -/
theorem tables_spec (i : Byte) : tableWord i = Crc.shifts polynomial 8 (i.setWidth 16) := by
  have hi : i.toNat < 256 := i.isLt
  have hentry := congrArg (fun words => words[i.toNat]?) zipWith_tables
  simp only [List.getElem?_zipWith, List.getElem?_map, List.getElem?_range hi,
    Option.map_some] at hentry
  rw [tableWord, List.getD_eq_getElem?_getD, List.getD_eq_getElem?_getD]
  cases hlo : crcLo[i.toNat]? with
  | none => simp [hlo] at hentry
  | some lo =>
    cases hhi : crcHi[i.toNat]? with
    | none => simp [hlo, hhi] at hentry
    | some hi =>
      rw [hlo, hhi] at hentry
      exact (Option.some.inj hentry).trans (by rw [BitVec.ofNat_toNat])

/-- One byte of the loop. -/
theorem crcLoop_eq (crc : Byte × Byte) (byte : Byte) :
    Word.ofBytes (crcLoop crc byte).1 (crcLoop crc byte).2 =
      Crc.feed polynomial (Word.ofBytes crc.1 crc.2) byte := by
  have hlow : (Word.ofBytes crc.1 crc.2).setWidth 8 = crc.2 := by
    apply BitVec.eq_of_getLsbD_eq
    intro i hi
    simp [Word.getLsbD_ofBytes, hi]
  rw [Crc.feed_eq_table polynomial (by decide) tables_spec, hlow]
  apply BitVec.eq_of_getLsbD_eq
  intro i hi
  simp only [crcLoop, tableWord, BitVec.getLsbD_xor, BitVec.getLsbD_ushiftRight,
    Word.getLsbD_ofBytes]
  by_cases h : i < 8
  · rw [if_pos h, if_pos h, if_neg (by omega), Nat.add_sub_cancel_left, Bool.xor_comm]
  · have hout : crc.1.getLsbD i = false := BitVec.getLsbD_of_ge _ _ (by omega)
    rw [if_neg h, if_neg h, if_neg (by omega), Nat.add_sub_cancel_left, hout, Bool.xor_false]

/-- The pair of bytes is the remainder of the bit-by-bit CRC. -/
theorem computeCrc16_eq (data : List Byte) :
    computeCrc16 data = Crc.remainder polynomial 0xFFFF data := by
  have hfold : ∀ (data : List Byte) (crc : Byte × Byte),
      Word.ofBytes (data.foldl crcLoop crc).1 (data.foldl crcLoop crc).2 =
        Crc.remainder polynomial (Word.ofBytes crc.1 crc.2) data := by
    intro data
    induction data with
    | nil => intro crc; rfl
    | cons byte data ih =>
      intro crc
      rw [List.foldl_cons, ih, crcLoop_eq]
      rfl
  exact hfold data (0xFF, 0xFF)

/-! ## Frames -/

/-- `payload + struct.pack(">H", _compute_crc16(payload))`. -/
def withCrc (payload : List Byte) : List Byte :=
  payload ++ (computeCrc16 payload).toBytes false

/-- `struct.pack(">BBHH", ...)`. -/
def packFields (slaveId functionCode first second : Int) : Except PyError (List Byte) :=
  if (0 ≤ slaveId ∧ slaveId < 256) ∧ (0 ≤ functionCode ∧ functionCode < 256) ∧
      (0 ≤ first ∧ first < 65536) ∧ (0 ≤ second ∧ second < 65536) then
    .ok ([BitVec.ofInt 8 slaveId, BitVec.ofInt 8 functionCode] ++
      Word.toBytes false (BitVec.ofInt 16 first) ++ Word.toBytes false (BitVec.ofInt 16 second))
  else .error .structError

/-- `_build_request`. -/
def buildRequest (slaveId functionCode startRegister count : Int) : Except PyError (List Byte) :=
  (packFields slaveId functionCode startRegister count).map withCrc

/-- `_verify_response_crc`. -/
def verifyResponseCrc (data : List Byte) : Bool :=
  if data.length < 3 then false
  else
    let payload := data.take (data.length - 2)
    let receivedCrc := number (data.drop (data.length - 2))
    receivedCrc = (computeCrc16 payload).toNat

/-- A frame is verified by its last two bytes. -/
theorem verifyResponseCrc_append (payload : List Byte) (a b : Byte) :
    verifyResponseCrc (payload ++ [a, b]) = true ↔
      payload ≠ [] ∧ Word.ofBytes a b = computeCrc16 payload := by
  have hnumber : number [a, b] = (Word.ofBytes a b).toNat := by
    rw [Word.toNat_ofBytes]
    simp [number]
  have hlen : (payload ++ [a, b]).length - 2 = payload.length := by simp
  unfold verifyResponseCrc
  rw [hlen, List.take_left, List.drop_left, hnumber]
  by_cases h : payload = []
  · simp [h]
  · have hpos := List.length_pos_iff.mpr h
    rw [if_neg (by simp; omega), decide_eq_true_iff, BitVec.toNat_inj]
    simp [h]

/-- The bytes of a frame that the CRC is over. -/
theorem withCrc_eq (payload : List Byte) :
    withCrc payload = payload ++ [(computeCrc16 payload).hi, (computeCrc16 payload).lo] := rfl

/-- A frame that was built is verified. -/
theorem verifyResponseCrc_withCrc {payload : List Byte} (h : payload ≠ []) :
    verifyResponseCrc (withCrc payload) = true := by
  rw [withCrc_eq, verifyResponseCrc_append]
  exact ⟨h, Word.ofBytes_hi_lo _⟩

/-- A verified frame is one that was built. -/
theorem eq_withCrc_of_verify {data : List Byte} (h : verifyResponseCrc data = true) :
    ∃ payload, payload ≠ [] ∧ data = withCrc payload := by
  have hlen : 3 ≤ data.length := by
    by_contra hlt
    rw [verifyResponseCrc, if_pos (by omega)] at h
    cases h
  obtain ⟨a, b, hab⟩ : ∃ a b, data.drop (data.length - 2) = [a, b] :=
    List.length_eq_two.mp (by rw [List.length_drop]; omega)
  have hsplit : data = data.take (data.length - 2) ++ [a, b] := by
    rw [← hab, List.take_append_drop]
  rw [hsplit, verifyResponseCrc_append] at h
  refine ⟨_, h.1, ?_⟩
  rw [withCrc_eq, ← h.2, Word.hi_ofBytes, Word.lo_ofBytes]
  exact hsplit

/-! ## Errors on the wire -/

/-- One bit of one byte is flipped. -/
def DifferInOneBit (frame frame' : List Byte) : Prop :=
  ∃ before byte after i, i < 8 ∧ frame = before ++ byte :: after ∧
    frame' = before ++ (byte ^^^ (1#8 <<< i)) :: after

theorem flip_ne (byte : Byte) {i : Nat} (hi : i < 8) : byte ≠ byte ^^^ (1#8 <<< i) := by
  intro h
  have hbit := congrArg (fun x : Byte => x.getLsbD i) h
  simp [hi] at hbit

/-- A frame with one byte changed is not verified. -/
theorem not_verify_of_changed {payload before after : List Byte} {byte byte' : Byte}
    (hframe : withCrc payload = before ++ byte :: after) (hne : byte ≠ byte') :
    verifyResponseCrc (before ++ byte' :: after) = false := by
  rw [Bool.eq_false_iff]
  intro hverify
  obtain ⟨payload', -, hframe'⟩ := eq_withCrc_of_verify hverify
  rw [withCrc_eq] at hframe hframe'
  have hlen : payload'.length = payload.length := by
    have h1 := congrArg List.length hframe
    have h2 := congrArg List.length hframe'
    simp at h1 h2
    omega
  -- a changed byte of the checksum leaves the payload, and with it the checksum, as it was
  have houtside : ∀ rest, before = payload ++ rest → False := by
    rintro rest rfl
    rw [List.append_assoc] at hframe'
    have hpayload := (List.append_inj hframe' hlen.symm).1
    rw [← hpayload, ← List.append_assoc, hframe] at hframe'
    exact hne (List.cons.inj (List.append_cancel_left hframe')).1.symm
  rcases List.append_eq_append_iff.mp hframe with ⟨rest, hbefore, -⟩ | ⟨rest, hpayload, hrest⟩
  · exact houtside rest hbefore
  · rcases rest with _ | ⟨x, rest⟩
    · exact houtside [] (by rw [hpayload, List.append_nil, List.append_nil])
    · -- the payloads differ in the byte and the checksums agree
      rw [List.cons_append] at hrest
      obtain ⟨rfl, hafter⟩ := List.cons.inj hrest
      rw [hafter, ← List.cons_append, ← List.append_assoc] at hframe'
      have hinj := List.append_inj hframe' (by rw [hlen, hpayload]; simp)
      have hwords : computeCrc16 payload = computeCrc16 payload' := by
        obtain ⟨h1, h2⟩ := List.cons.inj hinj.2
        rw [← Word.ofBytes_hi_lo (computeCrc16 payload), h1, (List.cons.inj h2).1,
          Word.ofBytes_hi_lo]
      rw [hpayload, ← hinj.1, computeCrc16_eq, computeCrc16_eq] at hwords
      exact Crc.remainder_ne (by decide) (by decide) _ _ _ hne hwords

/-- **The CRC.** The table-driven remainder is the one of the bit-by-bit CRC-16 over the reflected
polynomial `0xA001` from `0xFFFF`. Every frame that is built with it is verified, and no frame that
differs from it in exactly one bit is. -/
theorem crc16_correct :
    (∀ data, computeCrc16 data = Crc.remainder (0xA001 : Word) 0xFFFF data) ∧
      (∀ slaveId functionCode startRegister count frame,
        buildRequest slaveId functionCode startRegister count = .ok frame →
          verifyResponseCrc frame = true) ∧
      (∀ payload, payload ≠ [] → verifyResponseCrc (withCrc payload) = true) ∧
      ∀ payload frame, DifferInOneBit (withCrc payload) frame →
        verifyResponseCrc frame = false := by
  refine ⟨computeCrc16_eq, ?_, fun payload h => verifyResponseCrc_withCrc h, ?_⟩
  · intro slaveId functionCode startRegister count frame h
    rw [buildRequest, packFields] at h
    split at h
    · cases h
      exact verifyResponseCrc_withCrc (by simp)
    · cases h
  · rintro payload frame ⟨before, byte, after, i, hi, hframe, rfl⟩
    exact not_verify_of_changed hframe (flip_ne byte hi)

end Pace

end ProtocolGateway
