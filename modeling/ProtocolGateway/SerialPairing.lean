import ProtocolGateway.SerialFrame
import ProtocolGateway.SerialPylon

/-!
# Requests and responses on a shared serial port

Several Pylon batteries hang on one serial port. An exchange writes a request, resets the input
buffer and takes the first frame that comes in before the timeout; the port lock makes exchanges
follow one another. The frame is taken apart by `decode_frame`, which looks at its checksum only,
and `_read_command` returns its INFO.

So the address, the command, the return code and the length of a frame are never compared with the
request, and a frame that is late, or an error, is taken for the answer
(`not_paired_late`). `readCommand_paired` is the condition under which payloads are those of
answers.
-/

namespace ProtocolGateway

namespace SerialPylon

open Hex

/-! ## The transport -/

/-- `SOI` and `EOI`. -/
def markers : SerialFrame.Markers where
  soi := [0x7E]
  eoi := [0x0D]
  soi_ne := List.cons_ne_nil _ _
  eoi_ne := List.cons_ne_nil _ _

/-- `_exchange`: what `read` returns for the reads before the timeout. A command that is no 16-bit
number is an error, and nothing is sent. -/
def exchange (t : Transport) (command : Int) (reads : List (List Byte)) : Option (List Byte) :=
  (buildFrame t command []).bind fun _ =>
    (SerialFrame.read markers SerialFrame.defaultMaxFrameSize 1 [] [] reads).head?.filter (· ≠ [])

/-- `_info_bytes` of a frame. -/
def infoBytes (decoded : Decoded) : Option (List Byte) :=
  if decoded.info = [] then none else fromHex decoded.info

/-- `_read_command`. -/
def readCommand (t : Transport) (command : Int) (reads : List (List Byte)) : Option (List Byte) :=
  ((exchange t command reads).bind (decodeFrame t)).bind infoBytes

/-! ## What batteries send -/

/-- A response, and the request it answers. The checksum is right, and INFO is a text of digits. -/
structure Answer where
  device : Byte
  command : Int
  ver : Byte
  cid1 : Byte
  returnCode : Byte
  length : Word
  info : List Byte
  digits : ∀ c ∈ info, value? c ≠ none

namespace Answer

variable (x : Answer)

/-- The fields in front of INFO. -/
def head : List Byte :=
  hexBytes ([x.ver, x.device, x.cid1, x.returnCode] ++ x.length.toBytes false)

/-- The frame without its checksum. -/
def text : List Byte := x.head ++ x.info

/-- The frame. -/
def frame : List Byte := x.text ++ checksumText x.text

/-- The frame on the wire. -/
def wire : List Byte := 0x7E :: (x.frame ++ [0x0D])

/-- LENGTH counts INFO, in digits or in the bytes they stand for as `build_frame` does. -/
def Counted : Prop :=
  ∃ n, ValidLength (hexBytes (x.length.toBytes false)) n ∧
    (n = x.info.length ∨ 2 * n = x.info.length)

theorem length_head : x.head.length = 12 := by
  rw [head, length_hexBytes]
  rfl

theorem decodeFrame_frame (t : Transport) : decodeFrame t x.frame = some {
    ver := hexBytes [x.ver]
    adr := hexBytes [x.device]
    cid1 := hexBytes [x.cid1]
    cid2 := hexBytes [x.returnCode]
    infolength := hexBytes (x.length.toBytes false)
    info := x.info } := by
  have hlength : x.frame.length = x.text.length + 4 := by
    rw [frame, List.length_append, length_checksumText]
  have hcut : x.frame.length - 4 = x.text.length := by omega
  have hlong : ¬x.frame.length < minFrameLength := by
    rw [hlength, text, List.length_append, length_head, minFrameLength]
    omega
  have hupper : (checksumText x.text).map upper = checksumText x.text := map_upper_hexBytes _
  rw [decodeFrame, if_neg hlong]
  dsimp only
  rw [hcut, frame, List.take_left, List.drop_left, hupper, if_neg fun h => h.1 rfl]
  have hword (w : Word) : ∃ a b, w.toBytes false = [a, b] := ⟨_, _, rfl⟩
  obtain ⟨a, b, hab⟩ := hword x.length
  simp [text, head, hab]

end Answer

/-! ## The reader, a byte at a time -/

/-- What `read` returns for bytes that come in one by one. -/
def readBytes (buffer bytes : List Byte) : List (List Byte) :=
  SerialFrame.read markers SerialFrame.defaultMaxFrameSize 1 [] buffer (bytes.map fun b => [b])

/-- Reads that time out change nothing. -/
theorem read_eq_readBytes {buffer : List Byte} {reads : List (List Byte)}
    (h : ∀ data ∈ reads, data.length ≤ 1) :
    SerialFrame.read markers SerialFrame.defaultMaxFrameSize 1 [] buffer reads =
      readBytes buffer reads.flatten := by
  rw [readBytes, SerialFrame.read_eq_take _ _ _ _ Nat.one_pos,
    SerialFrame.read_eq_take _ _ _ _ Nat.one_pos]
  suffices hthread : SerialFrame.readThread markers SerialFrame.defaultMaxFrameSize buffer reads =
      SerialFrame.readThread markers SerialFrame.defaultMaxFrameSize buffer
        (reads.flatten.map fun b => [b]) by rw [hthread]
  induction reads generalizing buffer with
  | nil => rfl
  | cons data reads ih =>
    obtain ⟨hdata, hreads⟩ := List.forall_mem_cons.mp h
    cases data with
    | nil =>
      rw [SerialFrame.readThread, SerialFrame.receive, if_pos rfl, List.flatten_cons,
        List.nil_append]
      exact ih hreads
    | cons b bs =>
      obtain rfl := List.length_eq_zero_iff.mp (Nat.le_zero.mp (Nat.le_of_succ_le_succ hdata))
      rw [List.flatten_cons, List.singleton_append, List.map_cons, SerialFrame.readThread,
        SerialFrame.readThread, ih hreads]

section Step

variable {buffer kept payload rest : List Byte} {b : Byte}

/-- A byte that completes no frame. -/
theorem readBytes_cons_of_kept (h : SerialFrame.drain markers SerialFrame.defaultMaxFrameSize
    (buffer ++ [b]) = ([], kept)) : readBytes buffer (b :: rest) = readBytes kept rest := by
  rw [readBytes, readBytes, SerialFrame.read_eq_take _ _ _ _ Nat.one_pos,
    SerialFrame.read_eq_take _ _ _ _ Nat.one_pos, List.map_cons, SerialFrame.readThread,
    SerialFrame.receive, if_neg (List.cons_ne_nil _ _), h]
  rfl

/-- A byte that completes a frame. -/
theorem readBytes_cons_of_frame (h : SerialFrame.drain markers SerialFrame.defaultMaxFrameSize
    (buffer ++ [b]) = ([payload], kept)) : readBytes buffer (b :: rest) = [payload] := by
  rw [readBytes, SerialFrame.read_eq_take _ _ _ _ Nat.one_pos, List.map_cons,
    SerialFrame.readThread, SerialFrame.receive, if_neg (List.cons_ne_nil _ _), h]
  rfl

@[simp] theorem readBytes_nil : readBytes buffer [] = [] := rfl

/-- Before a frame. -/
theorem readBytes_gap {gap : List Byte} (hbuffer : 0x7E ∉ buffer) (hgap : 0x7E ∉ gap) :
    readBytes buffer (gap ++ rest) = readBytes (buffer ++ gap) rest := by
  induction gap generalizing buffer with
  | nil => rw [List.nil_append, List.append_nil]
  | cons b gap ih =>
    rw [List.mem_cons, not_or] at hgap
    have hnone : (0x7E : Byte) ∉ buffer ++ [b] := by
      rw [List.mem_append, List.mem_singleton, not_or]
      exact ⟨hbuffer, hgap.1⟩
    have hdrain : SerialFrame.drain markers SerialFrame.defaultMaxFrameSize (buffer ++ [b]) =
        ([], buffer ++ [b]) := by
      refine SerialFrame.drain_of_none (Search.find_eq_none_iff.mpr ?_)
      rwa [markers, List.singleton_infix_iff]
    rw [List.cons_append, readBytes_cons_of_kept hdrain, ih hnone hgap.2, List.append_assoc,
      List.singleton_append]

/-- The start of a frame, which drops what came before. -/
theorem readBytes_start (hbuffer : 0x7E ∉ buffer) :
    readBytes buffer (0x7E :: rest) = readBytes [0x7E] rest := by
  refine readBytes_cons_of_kept ?_
  have hfirst : Search.FirstAt markers.soi buffer := by
    rw [Search.FirstAt, markers, List.dropLast_singleton, List.append_nil,
      List.singleton_infix_iff]
    exact hbuffer
  have hopen : ¬markers.eoi <:+: markers.soi ++ [] := by decide
  exact SerialFrame.drain_of_open hfirst hopen

/-- The buffer that a frame has begun in. -/
theorem drain_open (payload : List Byte) (hend : 0x0D ∉ payload) :
    SerialFrame.drain markers SerialFrame.defaultMaxFrameSize (0x7E :: payload) =
      ([], if 256 ≤ payload.length then [] else 0x7E :: payload) := by
  have hopen : ¬markers.eoi <:+: markers.soi ++ payload := by
    simp only [markers, List.singleton_append, List.singleton_infix_iff, List.mem_cons, not_or]
    exact ⟨by decide, hend⟩
  have hdrain : SerialFrame.drain markers SerialFrame.defaultMaxFrameSize
      ([] ++ (markers.soi ++ payload)) = _ :=
    SerialFrame.drain_of_open (Search.firstAt_nil markers.soi_ne) hopen
  rw [List.nil_append] at hdrain
  refine hdrain.trans (congrArg _ ?_)
  simp only [markers, List.singleton_append, List.length_cons, SerialFrame.defaultMaxFrameSize,
    Nat.lt_add_one_iff]

/-- A byte of a frame, which makes the buffer too long or not. -/
theorem readBytes_body (hend : 0x0D ∉ payload) (hb : b ≠ 0x0D) :
    readBytes (0x7E :: payload) (b :: rest) =
      readBytes (if 256 ≤ payload.length + 1 then [] else 0x7E :: (payload ++ [b])) rest := by
  refine readBytes_cons_of_kept ?_
  have hmem : 0x0D ∉ payload ++ [b] := by
    rw [List.mem_append, List.mem_singleton, not_or]
    exact ⟨hend, hb.symm⟩
  have hdrain := drain_open (payload ++ [b]) hmem
  rwa [List.length_append, List.length_singleton] at hdrain

/-- The end of a frame. -/
theorem readBytes_end (hend : 0x0D ∉ payload) :
    readBytes (0x7E :: payload) (0x0D :: rest) = [payload] := by
  have hfirst : Search.FirstAt markers.eoi (0x7E :: payload) := by
    rw [Search.FirstAt, markers, List.dropLast_singleton, List.append_nil,
      List.singleton_infix_iff, List.mem_cons, not_or]
    exact ⟨by decide, hend⟩
  have hdrain : SerialFrame.drain markers SerialFrame.defaultMaxFrameSize
      ([] ++ (markers.soi ++ (payload ++ [0x0D]))) = _ :=
    SerialFrame.drain_of_end (Search.firstAt_nil markers.soi_ne) hfirst
      (show _ = (0x7E :: payload) ++ (markers.eoi ++ []) from rfl)
  rw [SerialFrame.drain_nil] at hdrain
  exact readBytes_cons_of_frame hdrain

/-- The bytes of a frame that is not too long. -/
theorem readBytes_open {more : List Byte} (hend : 0x0D ∉ payload) (hmore : 0x0D ∉ more)
    (hsize : payload.length + more.length < 256) :
    readBytes (0x7E :: payload) (more ++ rest) = readBytes (0x7E :: (payload ++ more)) rest := by
  induction more generalizing payload with
  | nil => rw [List.nil_append, List.append_nil]
  | cons b more ih =>
    rw [List.mem_cons, not_or] at hmore
    rw [List.length_cons] at hsize
    have hmem : 0x0D ∉ payload ++ [b] := by
      rw [List.mem_append, List.mem_singleton, not_or]
      exact ⟨hend, hmore.1⟩
    rw [List.cons_append, readBytes_body hend (Ne.symm hmore.1), if_neg (by omega),
      ih hmem hmore.2 (by rw [List.length_append, List.length_singleton]; omega),
      List.append_assoc, List.singleton_append]

/-- The bytes of a frame that is too long: the reader forgets it, and is before a frame again. -/
theorem readBytes_oversize {more : List Byte} (hend : 0x0D ∉ payload) (hmore : 0x0D ∉ more)
    (hstart : 0x7E ∉ more) (hsmall : payload.length < 256)
    (hsize : 256 ≤ payload.length + more.length) :
    ∃ buffer, 0x7E ∉ buffer ∧
      readBytes (0x7E :: payload) (more ++ rest) = readBytes buffer rest := by
  induction more generalizing payload with
  | nil => exact absurd hsize (by simpa using hsmall)
  | cons b more ih =>
    rw [List.mem_cons, not_or] at hmore hstart
    rw [List.length_cons] at hsize
    have hmem : 0x0D ∉ payload ++ [b] := by
      rw [List.mem_append, List.mem_singleton, not_or]
      exact ⟨hend, hmore.1⟩
    rw [List.cons_append, readBytes_body hend (Ne.symm hmore.1)]
    split
    · refine ⟨more, hstart.2, ?_⟩
      rw [readBytes_gap List.not_mem_nil hstart.2, List.nil_append]
    · refine ih hmem hmore.2 hstart.2 ?_ ?_ <;>
        rw [List.length_append, List.length_singleton] <;> omega

/-- The beginning of a frame completes none. -/
theorem readBytes_partial {more : List Byte} (hend : 0x0D ∉ payload) (hmore : 0x0D ∉ more)
    (hstart : 0x7E ∉ more) (hsmall : payload.length < 256) :
    readBytes (0x7E :: payload) more = [] := by
  rw [← List.append_nil more]
  by_cases hsize : payload.length + more.length < 256
  · rw [readBytes_open hend hmore hsize, readBytes_nil]
  · obtain ⟨buffer, -, hread⟩ := readBytes_oversize hend hmore hstart hsmall
      (Nat.le_of_not_lt hsize)
    rw [hread, readBytes_nil]

end Step

/-! ## Which response is taken -/

theorem value?_of_mem_hexBytes {bytes : List Byte} {c : Byte} (h : c ∈ hexBytes bytes) :
    value? c ≠ none := by
  obtain ⟨b, -, hc⟩ := List.mem_flatMap.mp h
  have hbyte := b.isLt
  rcases List.mem_cons.mp hc with rfl | hc
  · rw [(digit_spec (show b.toNat / 16 < 16 by omega)).1]
    exact Option.some_ne_none _
  · obtain rfl := List.mem_singleton.mp hc
    rw [(digit_spec (show b.toNat % 16 < 16 by omega)).1]
    exact Option.some_ne_none _

namespace Answer

variable {x : Answer} {buffer rest : List Byte}

/-- A frame is a text of digits. -/
theorem notMem_frame {b : Byte} (hb : value? b = none) : b ∉ x.frame := by
  intro hmem
  rcases List.mem_append.mp hmem with htext | hsum
  · rcases List.mem_append.mp htext with hhead | hinfo
    · exact value?_of_mem_hexBytes hhead hb
    · exact x.digits b hinfo hb
  · exact value?_of_mem_hexBytes hsum hb

theorem soi_notMem_frame : 0x7E ∉ x.frame := notMem_frame (by decide)

theorem eoi_notMem_frame : 0x0D ∉ x.frame := notMem_frame (by decide)

/-- The frame and its start marker fill `max_frame_size` at most. -/
def Fits (x : Answer) : Prop := x.frame.length < SerialFrame.defaultMaxFrameSize

instance (x : Answer) : Decidable x.Fits := inferInstanceAs (Decidable (_ < _))

theorem length_wire : x.wire.length = x.frame.length + 2 := by
  rw [wire, List.length_cons, List.length_append]
  rfl

theorem readBytes_wire (hbuffer : 0x7E ∉ buffer) (hfits : x.Fits) :
    readBytes buffer (x.wire ++ rest) = [x.frame] := by
  have hsize : ([] : List Byte).length + x.frame.length < 256 := by
    rw [List.length_nil, Nat.zero_add]
    exact hfits
  rw [wire, List.cons_append, readBytes_start hbuffer, List.append_assoc,
    readBytes_open List.not_mem_nil eoi_notMem_frame hsize, List.nil_append,
    List.singleton_append, readBytes_end eoi_notMem_frame]

/-- A frame that is too long is passed over. -/
theorem readBytes_wire_oversize (hbuffer : 0x7E ∉ buffer) (hfits : ¬x.Fits) :
    ∃ buffer', 0x7E ∉ buffer' ∧ readBytes buffer (x.wire ++ rest) = readBytes buffer' rest := by
  rw [wire, List.cons_append, readBytes_start hbuffer, List.append_assoc]
  have hsize : 256 ≤ ([] : List Byte).length + x.frame.length := by
    rw [List.length_nil, Nat.zero_add]
    exact Nat.le_of_not_lt hfits
  obtain ⟨kept, hkept, hread⟩ : ∃ kept, 0x7E ∉ kept ∧
      readBytes [0x7E] (x.frame ++ ([0x0D] ++ rest)) = readBytes kept ([0x0D] ++ rest) :=
    readBytes_oversize List.not_mem_nil eoi_notMem_frame soi_notMem_frame (by decide) hsize
  refine ⟨kept ++ [0x0D], ?_, hread.trans (readBytes_gap hkept (by decide))⟩
  rw [List.mem_append, not_or]
  exact ⟨hkept, by decide⟩

/-- A frame that is cut off by the timeout completes nothing. -/
theorem readBytes_wire_cut {bytes : List Byte} (hbuffer : 0x7E ∉ buffer) (hcut : bytes <+: x.wire)
    (hshort : bytes.length < x.wire.length) : readBytes buffer bytes = [] := by
  cases bytes with
  | nil => rfl
  | cons b bytes =>
    rw [wire, List.cons_prefix_cons] at hcut
    obtain ⟨rfl, hcut⟩ := hcut
    rw [length_wire, List.length_cons] at hshort
    have hframe : bytes <+: x.frame :=
      List.prefix_of_prefix_length_le hcut (List.prefix_append _ _) (by omega)
    rw [readBytes_start hbuffer]
    exact readBytes_partial List.not_mem_nil (fun h => eoi_notMem_frame (hframe.subset h))
      (fun h => soi_notMem_frame (hframe.subset h)) (by decide)

end Answer

/-- The first response of which all of the first `n` bytes came in, of those that are not too
long. -/
def arrived : List Answer → Nat → Option Answer
  | [], _ => none
  | x :: answers, n =>
    if n < x.wire.length then none
    else if x.Fits then some x
    else arrived answers (n - x.wire.length)

/-- **What is read** out of a row of responses, of which the timeout cuts off some part. -/
theorem readBytes_answers {answers : List Answer} {buffer bytes : List Byte}
    (hbuffer : 0x7E ∉ buffer) (hbytes : bytes <+: answers.flatMap Answer.wire) :
    readBytes buffer bytes = ((arrived answers bytes.length).map Answer.frame).toList := by
  induction answers generalizing buffer bytes with
  | nil =>
    obtain rfl := List.prefix_nil.mp hbytes
    rfl
  | cons x answers ih =>
    rw [List.flatMap_cons] at hbytes
    rw [arrived]
    split
    · next hshort =>
      exact Answer.readBytes_wire_cut hbuffer
        (List.prefix_of_prefix_length_le hbytes (List.prefix_append _ _) (Nat.le_of_lt hshort))
        hshort
    · next hlong =>
      obtain ⟨rest, rfl⟩ : x.wire <+: bytes :=
        List.prefix_of_prefix_length_le (List.prefix_append _ _) hbytes (Nat.le_of_not_lt hlong)
      split
      · next hfits => exact Answer.readBytes_wire hbuffer hfits
      · next hfits =>
        obtain ⟨kept, hkept, hread⟩ : ∃ kept, 0x7E ∉ kept ∧
            readBytes buffer (x.wire ++ rest) = readBytes kept rest :=
          Answer.readBytes_wire_oversize hbuffer hfits
        rw [hread, ih hkept ((List.prefix_append_right_inj _).mp hbytes), List.length_append,
          Nat.add_sub_cancel_left]

/-! ## Exchanges -/

/-- An exchange, and what comes in during it and since the one before. -/
structure Exchange where
  transport : Transport
  command : Int
  /-- the responses that began before the input buffer was reset -/
  missed : List Answer
  /-- the rest of a frame that the reset cut off -/
  gap : List Byte
  /-- the responses that begin after the reset -/
  answers : List Answer
  /-- what the client reads before its timeout -/
  reads : List (List Byte)

namespace Exchange

variable (e : Exchange)

/-- What is asked, and of whom. -/
def request : Byte × Int := (e.transport.adr, e.command)

/-- What `_read_command` returns. -/
def result : Option (List Byte) := readCommand e.transport e.command e.reads

/-- The client reads the wire a byte at a time, up to some place. -/
structure OnWire : Prop where
  single : ∀ data ∈ e.reads, data.length ≤ 1
  gap_free : 0x7E ∉ e.gap
  cut : e.reads.flatten <+: e.gap ++ e.answers.flatMap Answer.wire

/-- The response whose frame is taken. -/
def received : Option Answer :=
  (packWord e.command).bind fun _ => arrived e.answers (e.reads.flatten.length - e.gap.length)

/-- A response is what the exchange asked for: from the device, to the command, with the normal
return code and a LENGTH that counts its INFO. -/
structure AnsweredBy (x : Answer) : Prop where
  device : x.device = e.transport.adr
  command : x.command = e.command
  normal : x.returnCode = 0
  counted : x.Counted

/-- The response whose frame is taken, if its INFO can be read at all, is what was asked for. -/
def InTurn : Prop :=
  ∀ x, e.received = some x → x.info ≠ [] → fromHex x.info ≠ none → e.AnsweredBy x

end Exchange

/-- **What is returned** is the INFO of the response whose frame is taken. -/
theorem result_eq_some_iff {e : Exchange} (h : e.OnWire) {payload : List Byte} :
    e.result = some payload ↔
      ∃ x, e.received = some x ∧ x.info ≠ [] ∧ fromHex x.info = some payload := by
  have hread : SerialFrame.read markers SerialFrame.defaultMaxFrameSize 1 [] [] e.reads =
      ((arrived e.answers (e.reads.flatten.length - e.gap.length)).map Answer.frame).toList := by
    rw [read_eq_readBytes h.single]
    rcases le_total e.reads.flatten.length e.gap.length with hle | hle
    · -- the timeout comes before the first response
      have hgap : e.reads.flatten <+: e.gap :=
        List.prefix_of_prefix_length_le h.cut (List.prefix_append _ _) hle
      have hfree : 0x7E ∉ e.reads.flatten := fun hmem => h.gap_free (hgap.subset hmem)
      have hnone : arrived e.answers 0 = none := by
        cases e.answers with
        | nil => rfl
        | cons x answers => rw [arrived, if_pos (by rw [Answer.length_wire]; omega)]
      rw [← List.append_nil e.reads.flatten, readBytes_gap List.not_mem_nil hfree,
        List.append_nil, Nat.sub_eq_zero_of_le hle, hnone]
      rfl
    · obtain ⟨bytes, hbytes⟩ : e.gap <+: e.reads.flatten :=
        List.prefix_of_prefix_length_le (List.prefix_append _ _) h.cut hle
      have hcut := h.cut
      rw [← hbytes] at hcut ⊢
      rw [readBytes_gap List.not_mem_nil h.gap_free, List.nil_append,
        readBytes_answers h.gap_free ((List.prefix_append_right_inj _).mp hcut),
        List.length_append, Nat.add_sub_cancel_left]
  unfold Exchange.result readCommand exchange Exchange.received buildFrame
  rw [hread]
  cases packWord e.command with
  | none => simp
  | some command =>
    cases arrived e.answers (e.reads.flatten.length - e.gap.length) with
    | none => simp
    | some x =>
      have hne : x.frame ≠ [] := by
        intro hnil
        have hlength := congrArg List.length hnil
        rw [Answer.frame, List.length_append, length_checksumText] at hlength
        cases hlength
      have hkept : (some x.frame).filter (· ≠ []) = some x.frame :=
        Option.filter_eq_some_iff.mpr ⟨rfl, decide_eq_true hne⟩
      simp only [Option.map_some, Option.bind_some, Option.toList_some, List.head?_cons, hkept,
        Answer.decodeFrame_frame, infoBytes]
      simp

/-- The payload is the INFO of a response that the exchange asked for. -/
def Exchange.Paired (e : Exchange) (sent : List Answer) : Prop :=
  ∀ payload, e.result = some payload →
    ∃ x ∈ sent, e.AnsweredBy x ∧ fromHex x.info = some payload

/-- **One exchange.** In turn, it is paired with a response that came in; and if it is not in turn,
the payload it returns is that of a response it did not ask for. -/
theorem inTurn_iff {e : Exchange} (h : e.OnWire) :
    e.InTurn ↔ ∀ payload, e.result = some payload →
      ∃ x, e.received = some x ∧ e.AnsweredBy x ∧ fromHex x.info = some payload := by
  constructor
  · intro hturn payload hresult
    obtain ⟨x, hx, hinfo, hpayload⟩ := (result_eq_some_iff h).mp hresult
    refine ⟨x, hx, hturn x hx hinfo ?_, hpayload⟩
    rw [hpayload]
    exact Option.some_ne_none _
  · intro hall x hx hinfo hread
    obtain ⟨payload, hpayload⟩ := Option.ne_none_iff_exists'.mp hread
    obtain ⟨y, hy, hanswered, -⟩ :=
      hall payload ((result_eq_some_iff h).mpr ⟨x, hx, hinfo, hpayload⟩)
    obtain rfl := Option.some.inj (hx.symm.trans hy)
    exact hanswered

/-- A response that arrived is one of those on the wire. -/
theorem mem_of_arrived {answers : List Answer} {n : Nat} {x : Answer}
    (h : arrived answers n = some x) : x ∈ answers := by
  induction answers generalizing n with
  | nil => cases h
  | cons y answers ih =>
    rw [arrived] at h
    split at h
    · cases h
    · split at h
      · obtain rfl := Option.some.inj h
        exact .head _
      · exact .tail _ (ih h)

/-! ## Runs -/

/-- What has been asked on the bus so far, and what the devices have sent. -/
structure Bus where
  asked : List (Byte × Int)
  sent : List Answer

/-- After an exchange. -/
def Bus.after (bus : Bus) (e : Exchange) : Bus where
  asked := e.request :: bus.asked
  sent := bus.sent ++ e.missed ++ e.answers

/-- A run of exchanges from a bus. A device sends nothing but responses to what it was asked, in
this exchange or in an earlier one. -/
inductive Run : Bus → List Exchange → Prop
  | nil {bus : Bus} : Run bus []
  | cons {bus : Bus} {e : Exchange} {run : List Exchange} : e.OnWire →
    (∀ x ∈ e.missed ++ e.answers, (x.device, x.command) ∈ (bus.after e).asked) →
      Run (bus.after e) run → Run bus (e :: run)

/-- All exchanges of a run are paired with responses sent so far. -/
def AllPaired : Bus → List Exchange → Prop
  | _, [] => True
  | bus, e :: run => e.Paired (bus.after e).sent ∧ AllPaired (bus.after e) run

/-- **Pairing.** In a run in which the first whole frame after each reset, if its INFO can be read,
is what was asked for, every payload is the INFO of a response to its request. And a run that is
not like that returns a payload of a response that was not asked for. -/
theorem readCommand_paired {bus : Bus} {run : List Exchange} (h : Run bus run) :
    ((∀ e ∈ run, e.InTurn) → AllPaired bus run) ∧
      ((∃ e ∈ run, ¬e.InTurn) → ∃ e ∈ run, ∃ x payload, e.received = some x ∧
        fromHex x.info = some payload ∧ e.result = some payload ∧ ¬e.AnsweredBy x) := by
  constructor
  · intro hturn
    induction h with
    | nil => trivial
    | @cons bus e run hwire _ _ ih =>
      obtain ⟨he, hrun⟩ := List.forall_mem_cons.mp hturn
      refine ⟨fun payload hresult => ?_, ih hrun⟩
      obtain ⟨x, hx, hanswered, hpayload⟩ := (inTurn_iff hwire).mp he payload hresult
      obtain ⟨_, -, harrived⟩ := Option.bind_eq_some_iff.mp hx
      exact ⟨x, List.mem_append_right _ (mem_of_arrived harrived), hanswered, hpayload⟩
  · rintro ⟨e, he, hturn⟩
    have hwire : e.OnWire := by
      clear hturn
      induction h with
      | nil => cases he
      | cons hwire _ _ ih =>
        rcases List.mem_cons.mp he with rfl | he
        · exact hwire
        · exact ih he
    simp only [Exchange.InTurn, not_forall] at hturn
    obtain ⟨x, hx, hinfo, hread, hnot⟩ := hturn
    obtain ⟨payload, hpayload⟩ := Option.ne_none_iff_exists'.mp hread
    exact ⟨e, he, x, payload, hx, hpayload,
      (result_eq_some_iff hwire).mpr ⟨x, hx, hinfo, hpayload⟩, hnot⟩

/-! ### A late response -/

/-- A battery at an address. -/
def batteryAt (adr : Byte) : Transport where
  ver := 0
  adr

/-- The response of a battery to the command for its values, with one byte of INFO. -/
def valueAnswer (device value : Byte) : Answer where
  device
  command := 0x4642
  ver := 0x20
  cid1 := 0x46
  returnCode := 0
  length := 0xE002
  info := hexBytes [value]
  digits := fun _ => value?_of_mem_hexBytes

/-- The battery at address 2 is asked and answers at once. -/
def punctual : Exchange where
  transport := batteryAt 2
  command := 0x4642
  missed := []
  gap := []
  answers := [valueAnswer 2 7]
  reads := (valueAnswer 2 7).wire.map fun b => [b]

/-- The battery at address 2 is asked, and the timeout passes. -/
def silent : Exchange where
  transport := batteryAt 2
  command := 0x4642
  missed := []
  gap := []
  answers := []
  reads := []

/-- The battery at address 3 is asked, and the response of the other one comes in. -/
def late : Exchange where
  transport := batteryAt 3
  command := 0x4642
  missed := []
  gap := []
  answers := [valueAnswer 2 7]
  reads := (valueAnswer 2 7).wire.map fun b => [b]

theorem onWire_wire {e : Exchange} {x : Answer} (hgap : e.gap = []) (hanswers : e.answers = [x])
    (hreads : e.reads = x.wire.map fun b => [b]) : e.OnWire where
  single := by
    rw [hreads]
    intro data hdata
    obtain ⟨b, -, rfl⟩ := List.mem_map.mp hdata
    exact Nat.le_refl 1
  gap_free := by rw [hgap]; exact List.not_mem_nil
  cut := by
    have hflat : (x.wire.map fun b => [b]).flatten = x.wire := by
      rw [← List.flatMap_def, List.flatMap_singleton']
    rw [hgap, hanswers, hreads, hflat]
    simp

/-- The whole response is taken. -/
theorem received_wire {e : Exchange} {x : Answer} (hgap : e.gap = []) (hanswers : e.answers = [x])
    (hreads : e.reads = x.wire.map fun b => [b]) (hcommand : packWord e.command ≠ none)
    (hfits : x.Fits) : e.received = some x := by
  obtain ⟨command, hcommand⟩ := Option.ne_none_iff_exists'.mp hcommand
  have hflat : (x.wire.map fun b => [b]).flatten = x.wire := by
    rw [← List.flatMap_def, List.flatMap_singleton']
  rw [Exchange.received, hcommand, Option.bind_some, hgap, hanswers, hreads, hflat, arrived,
    if_neg (by simp), if_pos hfits]

theorem fits_valueAnswer : (valueAnswer 2 7).Fits := by decide

theorem allPaired_punctual : AllPaired ⟨[], []⟩ [punctual] ∧ punctual.result = some [7] := by
  have hreceived : punctual.received = some (valueAnswer 2 7) :=
    received_wire rfl rfl rfl (by decide) fits_valueAnswer
  have hrun : Run ⟨[], []⟩ [punctual] := by
    refine .cons (onWire_wire rfl rfl rfl) ?_ .nil
    intro x hx
    obtain rfl := List.mem_singleton.mp hx
    exact .head _
  refine ⟨(readCommand_paired hrun).1 ?_, ?_⟩
  · intro e he x hx _ _
    obtain rfl := List.mem_singleton.mp he
    obtain rfl := Option.some.inj (hreceived.symm.trans hx)
    exact ⟨rfl, rfl, rfl, 2, ⟨rfl, 0xE002, by decide, by decide, by decide⟩, .inl rfl⟩
  · exact (result_eq_some_iff (onWire_wire rfl rfl rfl)).mpr
      ⟨_, hreceived, by decide, fromHex_hexBytes _⟩

/-- A response that comes in after the timeout is taken for that of the neighbour. -/
theorem not_paired_late : ¬ ∀ run : List Exchange, Run ⟨[], []⟩ run → AllPaired ⟨[], []⟩ run := by
  intro hall
  have hwire : late.OnWire := onWire_wire rfl rfl rfl
  have hrun : Run ⟨[], []⟩ [silent, late] := by
    refine .cons ⟨?_, ?_, ?_⟩ ?_ (.cons hwire ?_ .nil)
    · intro data hdata
      cases hdata
    · exact List.not_mem_nil
    · exact List.nil_prefix
    · intro x hx
      cases hx
    · intro x hx
      obtain rfl := List.mem_singleton.mp hx
      exact .tail _ (.head _)
  have hresult : late.result = some [7] := (result_eq_some_iff hwire).mpr
    ⟨_, received_wire rfl rfl rfl (by decide) fits_valueAnswer, by decide, fromHex_hexBytes _⟩
  obtain ⟨-, hpaired, -⟩ := hall _ hrun
  obtain ⟨x, hx, hanswered, -⟩ := hpaired _ hresult
  obtain rfl := List.mem_singleton.mp hx
  exact absurd hanswered.device (by decide)

end SerialPylon

end ProtocolGateway
