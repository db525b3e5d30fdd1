import ProtocolGateway.Decode
import ProtocolGateway.Lib.Selection
import Mathlib.Data.List.TakeWhile

/-!
# The two decoders side by side

`process_register_ushort` gets an entry's registers as integers, `process_register_bytes` gets the
wire bytes of the same registers under the entry's first address. Both pick some bytes and make a
value of them. Which bytes they pick is a matter of places only (`ushortPlaces`, `bytesPlaces`): the
operations that pick them never look at a byte, so they commute with filling in the contents.

From there on the comparison is one of place lists. A type read from whole bytes is decoded alike
exactly if both decoders pick the same bytes in the same order (`rawAgree_wholeBytes`). A bit type
is decoded alike if the bits of its field come from the same places and the wire decoder has a bit
offset; its handling of the sign agrees with the other decoder only where the sign bit is never set
(`rawAgree_bit`, `rawAgree_sBit`, `rawAgree_smBit`). For flags the code tables matter as well
(`rawAgree_flags`). The `post_decode` adjustments do the same to both (`decodersAgree_iff_raw`), so
that the condition `DecodedAlike` settles the question: **`decodersAgree_iff`**.
-/

namespace ProtocolGateway

open BigEndian BitField Selection

/-! ## Places -/

/-- One byte of the register file: a register address and whether it is the high byte. -/
abbrev BytePlace := Int × Bool

/-- The byte a register file holds at a place. -/
def byteAt (content : Int → Word) (p : BytePlace) : Byte :=
  if p.2 then (content p.1).hi else (content p.1).lo

/-- The register file with the given bytes. -/
def contentOf (f : BytePlace → Byte) (a : Int) : Word := Word.ofBytes (f (a, true)) (f (a, false))

/-- The bytes of a register, in the order `int.to_bytes` puts them. -/
def wordPlaces (bytesReversed : Bool) (a : Int) : List BytePlace :=
  if bytesReversed then [(a, false), (a, true)] else [(a, true), (a, false)]

@[simp] theorem byteAt_contentOf (f : BytePlace → Byte) : byteAt (contentOf f) = f := by
  funext ⟨a, high⟩
  cases high <;> simp [byteAt, contentOf]

theorem map_wordPlaces (content : Int → Word) (bytesReversed : Bool) (a : Int) :
    (wordPlaces bytesReversed a).map (byteAt content) = (content a).toBytes bytesReversed := by
  cases bytesReversed <;> rfl

theorem map_flatMap_wordPlaces (content : Int → Word) (bytesReversed : Bool) (as : List Int) :
    (as.flatMap (wordPlaces bytesReversed)).map (byteAt content)
      = (as.map content).flatMap (Word.toBytes bytesReversed) := by
  rw [List.map_flatMap, List.flatMap_map]
  simp only [map_wordPlaces]

namespace RegistryMapEntry

variable (e : RegistryMapEntry)

/-- The registers of an entry: its address list, or consecutive ones. A member of a range has the
registers its own type takes. -/
def wireAddresses : List Int :=
  if e.registerList ≠ [] then e.registerList
  else (List.range (if e.concatenate then wordCounts e.dataType else e.entryWordCount)).map
    fun i : Nat => e.register + i

/-- The places of the wire bytes of an entry. -/
def wirePlaces : List BytePlace := e.wireAddresses.flatMap (wordPlaces false)

/-- The wire bytes of an entry, high byte of every register first. -/
def wireBytes (content : Int → Word) : List Byte :=
  e.wireAddresses.flatMap fun a => (content a).toBytes false

/-- The registers of an entry as one integer each. -/
def wordRegistry (content : Int → Word) (a : Int) : Option Word :=
  if a ∈ e.wireAddresses then some (content a) else none

/-- The registers of an entry as wire bytes under its first address. -/
def byteRegistry (content : Int → Word) (a : Int) : Option (List Byte) :=
  if a = e.register then some (e.wireBytes content) else none

theorem wireBytes_eq (content : Int → Word) :
    e.wireBytes content = e.wirePlaces.map (byteAt content) := by
  rw [wirePlaces, map_flatMap_wordPlaces, List.flatMap_map, wireBytes]

/-! ## The bytes the decoders pick -/

/-- The places of `count` words from the entry's addresses in significance order, if they are all
registers of the entry. -/
def widePlaces (order : WordOrder) (count : Nat) : Option (List BytePlace) :=
  let addresses := (List.range count).map fun i : Nat => e.registerList.getD i (e.register + i)
  if ∀ a ∈ addresses, a ∈ e.wireAddresses then
    some ((if order.wordReversed then addresses.reverse else addresses).flatMap
      (wordPlaces order.bytesReversed))
  else none

/-- The bytes `process_register_ushort` reads, most significant first. -/
def ushortPlaces (order : WordOrder) : Option (List BytePlace) :=
  match e.dataType with
  | .uint | .int | .acc32 | .float32 | .bit32Flags => e.widePlaces order 2
  | .uint64 | .int64 | .float64 => e.widePlaces order 4
  | .ascii => (e.widePlaces order e.asciiWords).map fun places =>
    if 0 < e.dataTypeSize ∧ ¬e.concatenate then places.take e.dataTypeSize.toNat else places
  | .string | .string16 | .string32 => (e.widePlaces order e.entryWordCount).map fun places =>
    if 0 < e.dataTypeSize then places.take e.dataTypeSize.toNat else places
  | .byte => some [(e.register, order.bytesReversed)]
  | _ => some (wordPlaces order.bytesReversed e.register)

/-- The bytes `process_register_bytes` reads, most significant first. -/
def bytesPlaces (order : WordOrder) : Except PyError (List BytePlace) :=
  let register := ProtocolSettings.registerSlice e e.wirePlaces
  match e.dataType with
  | .uint | .int | .acc32 | .float32 => .ok (ProtocolSettings.wideBytes order 2 register)
  | .uint64 | .int64 | .float64 => .ok (ProtocolSettings.wideBytes order 4 register)
  | .bit8Flags | .bit16Flags => .ok (ProtocolSettings.flagBytes order 1 register)
  | .bit32Flags => .ok (ProtocolSettings.flagBytes order 2 register)
  | .byte =>
    match ProtocolSettings.pairBytes order register with
    | .ok (p :: _) => .ok [p]
    | .ok [] => .error .indexError
    | .error err => .error err
  | .hex | .ascii | .string | .string16 | .string32 => .ok register
  | _ => ProtocolSettings.pairBytes order register

/-- What the decoders make of the bytes they picked. For the bit types this is the number the bits
are taken from. -/
def reader (bytes : List Byte) : PyValue :=
  match e.dataType with
  | .int | .int64 | .short => .int (signedNumber bytes)
  | .hex => .str (hexText bytes)
  | .ascii => .str (decodeTextBytes (asciiFragment bytes e))
  | .string | .string16 | .string32 => .str (decodeTextBytes bytes)
  | _ => .int (number bytes)

end RegistryMapEntry

namespace ProtocolSettings

/-! ## Picking bytes is natural in the bytes -/

variable {α β : Type} (f : α → β)

theorem map_registerSlice (e : RegistryMapEntry) (register : List α) :
    (registerSlice e register).map f = registerSlice e (register.map f) := by
  unfold registerSlice
  dsimp only
  split <;> split <;> simp only [List.map_take, List.map_drop]

theorem map_wideBytes (order : WordOrder) (n : Nat) (register : List α) :
    (wideBytes order n register).map f = wideBytes order n (register.map f) := by
  unfold wideBytes
  dsimp only
  split <;> split <;> simp only [map_swapPairs, map_reversePairs, List.map_take]

theorem map_flagBytes (order : WordOrder) (n : Nat) (register : List α) :
    (flagBytes order n register).map f = flagBytes order n (register.map f) :=
  map_wideBytes f _ n register

theorem map_pairBytes (order : WordOrder) (register : List α) :
    (pairBytes order register).map (List.map f) = pairBytes order (register.map f) := by
  unfold pairBytes
  split
  · rcases register with _ | ⟨a, _ | ⟨b, rest⟩⟩ <;> rfl
  · rw [← List.map_take]
    rfl

/-! ## Decoding as reading places -/

variable (ps : ProtocolSettings) {e : RegistryMapEntry} {order : WordOrder}

theorem wordAt_wordRegistry (hr : e.register ∈ e.wireAddresses) (content : Int → Word) :
    wordAt (e.wordRegistry content) e.register = .ok (content e.register) := by
  rw [wordAt, RegistryMapEntry.wordRegistry, if_pos hr]

/-- Reading a list of addresses that may not all be there. -/
theorem mapM_ite {p : Int → Prop} [DecidablePred p] (content : Int → Word) (as : List Int) :
    (as.mapM fun a => if p a then some (content a) else none)
      = if ∀ a ∈ as, p a then some (as.map content) else none := by
  induction as with
  | nil => rfl
  | cons a as ih =>
    rw [List.mapM_cons, ih]
    by_cases ha : p a
    · by_cases has : ∀ b ∈ as, p b
      · have hall : ∀ b ∈ a :: as, p b := List.forall_mem_cons.mpr ⟨ha, has⟩
        rw [if_pos ha, if_pos has, if_pos hall]
        rfl
      · have hall : ¬∀ b ∈ a :: as, p b := fun h => has (List.forall_mem_cons.mp h).2
        rw [if_pos ha, if_neg has, if_neg hall]
        rfl
    · have hall : ¬∀ b ∈ a :: as, p b := fun h => ha (List.forall_mem_cons.mp h).1
      rw [if_neg ha, if_neg hall]
      rfl

theorem registerWordsToBytes_wordRegistry (content : Int → Word) (count : Nat) :
    registerWordsToBytes (e.wordRegistry content) e.register count order e.registerList
      = (e.widePlaces order count).map (List.map (byteAt content)) := by
  have hread : ((List.range count).mapM fun offset : Nat =>
      e.wordRegistry content (e.registerList.getD offset (e.register + offset)))
      = (((List.range count).map fun i : Nat => e.registerList.getD i (e.register + i)).mapM
          fun a => if a ∈ e.wireAddresses then some (content a) else none) := by
    rw [List.mapM_map]
    rfl
  rw [registerWordsToBytes, hread, mapM_ite, RegistryMapEntry.widePlaces]
  split
  · rw [Option.map_some, Option.map_some, map_flatMap_wordPlaces]
    unfold ProtocolGateway.registerWordsToBytes
    cases order.wordReversed
    · rfl
    · rw [if_pos rfl, if_pos rfl, List.map_reverse]
  · rfl

/-- The types that are read from whole bytes. -/
def WholeBytes (t : DataType) : Prop :=
  match t with
  | .float32 | .float64 | .bit8Flags | .bit16Flags | .bit32Flags | .bit _ | .sBit _ | .smBit _ =>
    False
  | _ => True

/-- For a type of whole bytes `process_register_ushort` reads the bytes it picks. -/
theorem decodeUshort_wordRegistry (hr : e.register ∈ e.wireAddresses) (ht : WholeBytes e.dataType)
    (content : Int → Word) :
    ps.decodeUshort order (e.wordRegistry content) e
      = .ok ((e.ushortPlaces order).map fun places => e.reader (places.map (byteAt content))) := by
  unfold decodeUshort RegistryMapEntry.ushortPlaces RegistryMapEntry.reader
  simp only [registerWordsToBytes_wordRegistry, wordAt_wordRegistry hr]
  cases htype : e.dataType with
  | uint | acc32 | uint64 | int | int64 => simp only [Option.map_map, Function.comp_def]
  | ushort | short | hex =>
    simp [Except.map, map_wordPlaces, Word.number_toBytes, Word.signedNumber_toBytes,
      Word.toBytes_orient]
  | byte =>
    cases order.bytesReversed
    · simp [Except.map, byteAt, Word.orient]
    · simp [Except.map, byteAt, Word.orient, Word.swapBytes16_eq]
  | ascii =>
    simp only [Option.map_map, Function.comp_def]
    split <;> simp [List.map_take]
  | string | string16 | string32 =>
    simp only [Option.map_map, Function.comp_def]
    split <;> simp [List.map_take]
  | _ => rw [htype] at ht; exact ht.elim

/-- For a type of whole bytes `process_register_bytes` reads the bytes it picks. -/
theorem decodeBytes_map (ht : WholeBytes e.dataType) (f : BytePlace → Byte) :
    ps.decodeBytes order (registerSlice e (e.wirePlaces.map f)) e
      = (e.bytesPlaces order).map fun places => e.reader (places.map f) := by
  rw [← map_registerSlice]
  unfold decodeBytes RegistryMapEntry.bytesPlaces RegistryMapEntry.reader
  simp only [← map_wideBytes, ← map_pairBytes]
  cases htype : e.dataType with
  | uint | acc32 | uint64 | int | int64 | hex | ascii | string | string16 | string32 => rfl
  | ushort | short =>
    cases pairBytes order (registerSlice e e.wirePlaces) <;> rfl
  | byte =>
    rcases pairBytes order (registerSlice e e.wirePlaces) with _ | _ | ⟨p, places⟩
    · rfl
    · rfl
    · simp [Except.map, bind, Except.bind, pure, Except.pure]
  | _ => rw [htype] at ht; exact ht.elim

end ProtocolSettings

/-! ## What the readers tell apart -/

/-- A text of the letters `A` and `B` is decoded letter by letter. -/
theorem decodeTextBytes_letters {bs : List Byte} (h : ∀ b ∈ bs, b = 0x41 ∨ b = 0x42) :
    decodeTextBytes bs = String.ofList (bs.map fun b => Char.ofNat b.toNat) := by
  have htake : bs.takeWhile (· ≠ 0) = bs := by
    rw [List.takeWhile_eq_self_iff]
    intro b hb
    rcases h b hb with rfl | rfl <;> rfl
  have hfilter : (bs.filter fun b => 0x20 ≤ b.toNat && b.toNat ≤ 0x7E) = bs := by
    rw [List.filter_eq_self]
    intro b hb
    rcases h b hb with rfl | rfl <;> rfl
  have hstrip : rstrip (bs.map fun b => Char.ofNat b.toNat)
      = bs.map fun b => Char.ofNat b.toNat := by
    rw [rstrip, ← List.map_reverse]
    cases hrev : bs.reverse with
    | nil => rw [List.reverse_eq_nil_iff.mp hrev]; rfl
    | cons b rest =>
      have hb : b ∈ bs := List.mem_reverse.mp (hrev ▸ List.mem_cons_self)
      have hspace : Text.isSpace (Char.ofNat b.toNat) = false := by
        rcases h b hb with rfl | rfl <;> rfl
      rw [List.map_cons, List.dropWhile_cons_of_neg (by simp [hspace])]
      show ((b :: rest).map fun b => Char.ofNat b.toNat).reverse = _
      rw [← hrev, List.map_reverse, List.reverse_reverse]
  rw [decodeTextBytes, htake, hfilter, hstrip]

theorem letters_inj {as bs : List Byte} (ha : ∀ b ∈ as, b = 0x41 ∨ b = 0x42)
    (hb : ∀ b ∈ bs, b = 0x41 ∨ b = 0x42) (h : decodeTextBytes as = decodeTextBytes bs) :
    as = bs := by
  have hback {cs : List Byte} (hc : ∀ b ∈ cs, b = 0x41 ∨ b = 0x42) :
      (decodeTextBytes cs).toList.map (fun c => BitVec.ofNat 8 c.toNat) = cs := by
    rw [decodeTextBytes_letters hc, String.toList_ofList, List.map_map]
    refine (List.map_congr_left ?_).trans (List.map_id cs)
    intro b hb
    rcases hc b hb with rfl | rfl <;> rfl
  rw [← hback ha, ← hback hb, h]

theorem separates_text : Separates decodeTextBytes 0x41 0x42 :=
  .of_injective (by decide) fun _ _ ha hb h => letters_inj ha hb h

theorem separates_ascii (e : RegistryMapEntry) :
    Separates (fun bs => decodeTextBytes (asciiFragment bs e)) 0x41 0x42 := by
  have hfrag {bs : List Byte} (h : ∀ b ∈ bs, b = 0x41 ∨ b = 0x42) : asciiFragment bs e = bs := by
    unfold asciiFragment
    split
    · rw [List.filter_eq_self]
      intro b hb
      rcases h b hb with rfl | rfl <;> rfl
    · rfl
  refine .of_injective (by decide) fun as bs ha hb h => ?_
  rw [hfrag ha, hfrag hb] at h
  exact letters_inj ha hb h

theorem separates_hex : Separates hexText 1 0 := by
  refine .of_injective (by decide) fun as bs ha hb h => ?_
  have hback {cs : List Byte} (hc : ∀ b ∈ cs, b = 1 ∨ b = 0) :
      (hexText cs).toList = cs.flatMap fun b => ['0', if b = 1 then '1' else '0'] := by
    rw [hexText, String.toList_ofList]
    refine List.flatMap_congr fun b hb => ?_
    rcases hc b hb with rfl | rfl <;> rfl
  have hlist := congrArg String.toList h
  rw [hback ha, hback hb] at hlist
  clear h hback
  induction as generalizing bs with
  | nil =>
    cases bs with
    | nil => rfl
    | cons b bs => simp at hlist
  | cons a as ih =>
    cases bs with
    | nil => simp at hlist
    | cons b bs =>
      simp only [List.flatMap_cons, List.cons_append, List.nil_append, List.cons.injEq, true_and]
        at hlist
      obtain ⟨hhead, htail⟩ := hlist
      rw [ih bs (fun c hc => ha c (List.mem_cons_of_mem _ hc))
        (fun c hc => hb c (List.mem_cons_of_mem _ hc)) htail]
      rcases ha a List.mem_cons_self with rfl | rfl <;>
        rcases hb b List.mem_cons_self with rfl | rfl <;> simp_all

theorem separates_int : Separates (fun bs : List Byte => PyValue.int (number bs)) 1 0 :=
  (separates_number (by decide)).comp (h := fun n : Nat => PyValue.int n)
    fun m n h => by injection h with h; exact_mod_cast h

theorem separates_signed : Separates (fun bs : List Byte => PyValue.int (signedNumber bs)) 1 0 :=
  (separates_signedNumber (by decide)).comp (h := fun n : Int => PyValue.int n)
    fun m n h => by injection h

/-- Every reader of whole bytes tells enough bytes apart. -/
theorem RegistryMapEntry.reader_separates (e : RegistryMapEntry) :
    ∃ x y, Separates e.reader x y := by
  have hstr : Function.Injective PyValue.str := fun a b h => by injection h
  unfold RegistryMapEntry.reader
  split
  · exact ⟨1, 0, separates_signed⟩
  · exact ⟨1, 0, separates_signed⟩
  · exact ⟨1, 0, separates_signed⟩
  · exact ⟨1, 0, separates_hex.comp hstr⟩
  · exact ⟨0x41, 0x42, (separates_ascii e).comp hstr⟩
  · exact ⟨0x41, 0x42, separates_text.comp hstr⟩
  · exact ⟨0x41, 0x42, separates_text.comp hstr⟩
  · exact ⟨0x41, 0x42, separates_text.comp hstr⟩
  · exact ⟨1, 0, separates_int⟩

/-! ## Bits -/

/-- Two selections take the bits `start` to `start + size - 1` of a number from the same places. -/
def SameBits (ps qs : List BytePlace) (start size : Nat) : Prop :=
  ∀ i < size, ps.reverse[(start + i) / 8]? = qs.reverse[(start + i) / 8]?

theorem sameBits_iff {ps qs : List BytePlace} {start size : Nat} :
    SameBits ps qs start size ↔ ∀ (f : BytePlace → Byte) (i : Nat), i < size →
      (number (ps.map f)).testBit (start + i) = (number (qs.map f)).testBit (start + i) := by
  constructor
  · intro h f i hi
    exact (testBit_reading_iff (by decide)).mpr (h i hi) f
  · intro h i hi
    exact (testBit_reading_iff (by decide)).mp fun f => h f i hi

/-- A field read from two selections is always the same exactly if its bits are. -/
theorem sameBits_iff_field {ps qs : List BytePlace} {start size : Nat} :
    SameBits ps qs start size ↔ ∀ f : BytePlace → Byte,
      field start size (number (ps.map f)) = field start size (number (qs.map f)) := by
  rw [sameBits_iff]
  constructor
  · intro h f
    exact field_congr (h f)
  · intro h f i hi
    have hbit := congrArg (Nat.testBit · i) (h f)
    simpa [hi] using hbit

/-- All ones, read anywhere. -/
theorem number_map_ones (places : List BytePlace) :
    number (places.map fun _ => BitVec.allOnes 8) = ones (8 * places.length) := by
  apply Nat.eq_of_testBit_eq
  intro j
  have hmod : j % 8 < 8 := Nat.mod_lt _ (by decide)
  rw [testBit_number (by decide), testBit_ones, List.map_const', List.reverse_replicate,
    List.getElem?_replicate]
  by_cases h : j < 8 * places.length
  · have hdiv : j / 8 < places.length := by omega
    rw [if_pos hdiv, Option.any_some, BitVec.getLsbD_allOnes, decide_eq_true hmod,
      decide_eq_true h]
  · have hdiv : ¬j / 8 < places.length := by omega
    simp [h, hdiv]

namespace ProtocolSettings

variable (ps : ProtocolSettings) (host : Host) {e : RegistryMapEntry} {order : WordOrder}

theorem pairBytes_length {α : Type} {register l : List α} (h : pairBytes order register = .ok l) :
    l.length ≤ 2 := by
  unfold pairBytes at h
  split at h
  · split at h
    · injection h with h
      rw [← h]
      simp
    · cases h
  · injection h with h
    rw [← h, List.length_take]
    omega

theorem wordPlaces_length (bytesReversed : Bool) (a : Int) :
    (wordPlaces bytesReversed a).length = 2 := by
  cases bytesReversed <;> rfl

/-- A number has no bits beyond those of its bytes. -/
theorem testBit_short {l : List BytePlace} (f : BytePlace → Byte) {j : Nat}
    (hj : 8 * l.length ≤ j) : (number (l.map f)).testBit j = false := by
  have hlt := number_lt (l.map f)
  rw [List.length_map] at hlt
  exact Nat.testBit_lt_two_pow (Nat.lt_of_lt_of_le hlt (Nat.pow_le_pow_right (by decide) hj))

/-! ## Agreement before the adjustments -/

/-- The two decoders make the same of every content of the entry's registers, before the
adjustments. -/
def RawAgree (order : WordOrder) (e : RegistryMapEntry) : Prop :=
  ∀ content, ps.decodeUshort order (e.wordRegistry content) e
    = (ps.decodeBytes order (registerSlice e (e.wireBytes content)) e).map some

/-- Contents of registers are contents of bytes. -/
theorem rawAgree_iff : ps.RawAgree order e ↔ ∀ f : BytePlace → Byte,
    ps.decodeUshort order (e.wordRegistry (contentOf f)) e
      = (ps.decodeBytes order (registerSlice e (e.wirePlaces.map f)) e).map some := by
  constructor
  · intro h f
    have := h (contentOf f)
    rwa [e.wireBytes_eq, byteAt_contentOf] at this
  · intro h content
    have hcontent : contentOf (byteAt content) = content := by
      funext a
      exact Word.ofBytes_hi_lo (content a)
    have := h (byteAt content)
    rwa [hcontent, ← e.wireBytes_eq] at this

/-- Types of whole bytes: the same bytes in the same order. -/
theorem rawAgree_wholeBytes (hr : e.register ∈ e.wireAddresses) (ht : WholeBytes e.dataType) :
    ps.RawAgree order e ↔ ∃ l, e.ushortPlaces order = some l ∧ e.bytesPlaces order = .ok l := by
  rw [rawAgree_iff]
  simp only [decodeUshort_wordRegistry ps hr ht, decodeBytes_map ps ht, byteAt_contentOf]
  constructor
  · intro h
    cases hu : e.ushortPlaces order with
    | none =>
      cases hb : e.bytesPlaces order with
      | error err => simp [hu, hb, Except.map] at h
      | ok l => simp [hu, hb, Except.map] at h
    | some l =>
      cases hb : e.bytesPlaces order with
      | error err => simp [hu, hb, Except.map] at h
      | ok l' =>
        obtain ⟨x, y, hsep⟩ := e.reader_separates
        have hreads : ∀ f : BytePlace → Byte, e.reader (l.map f) = e.reader (l'.map f) := by
          intro f
          have := h f
          simpa [hu, hb, Except.map] using this
        exact ⟨l, rfl, by rw [eq_of_reads hsep hreads]⟩
  · rintro ⟨l, hu, hb⟩ f
    rw [hu, hb]
    rfl

/-- The oriented register as a reading of its two bytes. -/
theorem orient_eq_number (f : BytePlace → Byte) (bytesReversed : Bool) (a : Int) :
    ((contentOf f a).orient bytesReversed).toNat
      = number ((wordPlaces bytesReversed a).map f) := by
  rw [← Word.number_toBytes, ← map_wordPlaces, byteAt_contentOf]

/-- Unsigned bit fields: a bit offset, and the bits of the field from the same places. -/
theorem rawAgree_bit (hr : e.register ∈ e.wireAddresses) {n : BitWidth 1}
    (ht : e.dataType = .bit n) :
    ps.RawAgree order e ↔ 0 ≤ e.registerBit ∧
      ∃ l, pairBytes order (registerSlice e e.wirePlaces) = .ok l ∧
        SameBits l (wordPlaces order.bytesReversed e.register) e.startBit n.val := by
  rw [rawAgree_iff]
  simp only [decodeUshort, decodeBytes, ht, wordAt_wordRegistry hr, ← map_registerSlice,
    ← map_pairBytes, Except.map, orient_eq_number]
  cases hl : pairBytes order (registerSlice e e.wirePlaces) with
  | error err => simp [bind, Except.bind]
  | ok l =>
    by_cases hb : e.registerBit < 0
    · simp [bind, Except.bind, shiftCount, hb, not_le.mpr hb]
    · simp only [bind, Except.bind, shiftCount, hb, if_false, pure, Except.pure,
        Except.ok.injEq, Option.some.injEq, PyValue.int.injEq, Nat.cast_inj, exists_eq_left']
      rw [sameBits_iff_field]
      constructor
      · intro h
        exact ⟨by omega, fun f => (h f).symm⟩
      · rintro ⟨-, h⟩ f
        exact (h f).symm

/-- A field above the bytes of a number is empty. -/
theorem field_short {l : List BytePlace} (f : BytePlace → Byte) {start : Nat} (size : Nat)
    (h : 8 * l.length ≤ start) : field start size (number (l.map f)) = 0 := by
  apply field_eq_zero
  have hlt := number_lt (l.map f)
  rw [List.length_map] at hlt
  exact Nat.lt_of_lt_of_le hlt (Nat.pow_le_pow_right (by decide) h)

/-- What the wire decoder makes of a signed bit field with a bit offset. -/
theorem decodeBytes_sBit {n : BitWidth 2} (ht : e.dataType = .sBit n) (hb : 0 ≤ e.registerBit)
    {l : List BytePlace} (hl : pairBytes order (registerSlice e e.wirePlaces) = .ok l)
    (f : BytePlace → Byte) :
    ps.decodeBytes order (registerSlice e (e.wirePlaces.map f)) e = .ok (.int
      (if (number (l.map f)).testBit (e.startBit + n.val - 1) then
        (number (l.map f) >>> e.startBit) ||| (0xFFFFFFFFFFFFFFFF <<< n.val)
      else field e.startBit n.val (number (l.map f)) : Nat)) := by
  simp only [decodeBytes, ht, ← map_registerSlice, ← map_pairBytes, hl, Except.map, bind,
    Except.bind, shiftCount, not_lt.mpr hb, if_false, pure, Except.pure]
  rw [show e.startBit = e.registerBit.toNat from rfl]
  split <;> rfl

/-- What the wire decoder makes of a signed-magnitude bit field with a bit offset. -/
theorem decodeBytes_smBit {n : BitWidth 2} (ht : e.dataType = .smBit n) (hb : 0 ≤ e.registerBit)
    {l : List BytePlace} (hl : pairBytes order (registerSlice e e.wirePlaces) = .ok l)
    (f : BytePlace → Byte) :
    ps.decodeBytes order (registerSlice e (e.wirePlaces.map f)) e = .ok (.int
      (if (number (l.map f)).testBit e.startBit then
        (number (l.map f) >>> (e.startBit + 1)) ||| (0xFFFFFFFFFFFFFFFF <<< n.val)
      else field (e.startBit + 1) n.val (number (l.map f)) : Nat)) := by
  simp only [decodeBytes, ht, ← map_registerSlice, ← map_pairBytes, hl, Except.map, bind,
    Except.bind, shiftCount, not_lt.mpr hb, if_false, pure, Except.pure]
  rw [show e.startBit = e.registerBit.toNat from rfl]
  split <;> rfl

/-- Without a bit offset the wire decoder of a bit type raises. -/
theorem decodeBytes_negative (order : WordOrder) (hb : e.registerBit < 0)
    (ht : (∃ n, e.dataType = .sBit n) ∨ ∃ n, e.dataType = .smBit n) (register : List Byte) :
    ∃ err, ps.decodeBytes order register e = .error err := by
  rcases ht with ⟨n, ht⟩ | ⟨n, ht⟩
  all_goals
    simp only [decodeBytes, ht, shiftCount, hb, if_true]
    cases pairBytes order register with
    | error err => exact ⟨err, rfl⟩
    | ok l => exact ⟨_, rfl⟩

/-- Agreement needs the wire decoder to return. -/
theorem pairBytes_of_rawAgree (hr : e.register ∈ e.wireAddresses)
    (ht : (∃ n, e.dataType = .sBit n) ∨ ∃ n, e.dataType = .smBit n) (h : ps.RawAgree order e) :
    0 ≤ e.registerBit ∧ ∃ l, pairBytes order (registerSlice e e.wirePlaces) = .ok l := by
  have hzero := (rawAgree_iff ps).mp h fun _ => 0
  have hok : ∃ v, ps.decodeUshort order (e.wordRegistry (contentOf fun _ => 0)) e = .ok v := by
    rcases ht with ⟨n, ht⟩ | ⟨n, ht⟩
    all_goals
      simp only [decodeUshort, ht, wordAt_wordRegistry hr, Except.map]
      exact ⟨_, rfl⟩
  obtain ⟨v, hv⟩ := hok
  rw [hv] at hzero
  constructor
  · by_contra hb
    obtain ⟨err, herr⟩ := decodeBytes_negative ps order (not_le.mp hb) ht
      (registerSlice e (e.wirePlaces.map fun _ => 0))
    rw [herr] at hzero
    cases hzero
  · cases hl : pairBytes order (registerSlice e e.wirePlaces) with
    | ok l => exact ⟨l, rfl⟩
    | error err =>
      exfalso
      rcases ht with ⟨n, ht⟩ | ⟨n, ht⟩
      all_goals
        simp only [decodeBytes, ht, ← map_registerSlice, ← map_pairBytes, hl, Except.map, bind,
          Except.bind] at hzero
        cases hzero

/-- Signed bit fields: as the unsigned ones, and only where the sign bit lies beyond the register,
since the wire decoder extends the sign to a large positive number. -/
theorem rawAgree_sBit (hr : e.register ∈ e.wireAddresses) {n : BitWidth 2}
    (ht : e.dataType = .sBit n) :
    ps.RawAgree order e ↔ 0 ≤ e.registerBit ∧ 16 < e.registerBit + n.val ∧
      ∃ l, pairBytes order (registerSlice e e.wirePlaces) = .ok l ∧
        SameBits l (wordPlaces order.bytesReversed e.register) e.startBit n.val := by
  have hn := n.2
  have hwidth := wordPlaces_length order.bytesReversed e.register
  have hushort (f : BytePlace → Byte) : ps.decodeUshort order (e.wordRegistry (contentOf f)) e
      = .ok (some (.int
        (if (field e.startBit n.val (number ((wordPlaces order.bytesReversed e.register).map
            f))).testBit (n.val - 1) then
          (field e.startBit n.val (number ((wordPlaces order.bytesReversed e.register).map f)) : Int)
            - 2 ^ n.val
        else field e.startBit n.val (number ((wordPlaces order.bytesReversed e.register).map f)))))
      := by
    simp only [decodeUshort, ht, wordAt_wordRegistry hr, Except.map, orient_eq_number]
  -- a sign bit beyond the register is never set
  have hnone (hsign : 16 < e.registerBit + n.val) (hb : 0 ≤ e.registerBit) (q : List BytePlace)
      (hq : q.length ≤ 2) (f : BytePlace → Byte) :
      (number (q.map f)).testBit (e.startBit + n.val - 1) = false :=
    testBit_short f (by rw [RegistryMapEntry.startBit]; omega)
  have hfields (hsign : 16 < e.registerBit + n.val) (hb : 0 ≤ e.registerBit) {l : List BytePlace}
      (hl : pairBytes order (registerSlice e e.wirePlaces) = .ok l) (f : BytePlace → Byte) :
      (ps.decodeUshort order (e.wordRegistry (contentOf f)) e
        = (ps.decodeBytes order (registerSlice e (e.wirePlaces.map f)) e).map some) ↔
      field e.startBit n.val (number ((wordPlaces order.bytesReversed e.register).map f))
        = field e.startBit n.val (number (l.map f)) := by
    have hright : (field e.startBit n.val (number
        ((wordPlaces order.bytesReversed e.register).map f))).testBit (n.val - 1) = false := by
      rw [testBit_field, ← Nat.add_sub_assoc (by omega), hnone hsign hb _ hwidth.le f,
        Bool.and_false]
    rw [hushort, decodeBytes_sBit ps ht hb hl, hright, hnone hsign hb l (pairBytes_length hl) f]
    simp [Except.map]
  constructor
  · intro h
    obtain ⟨hb, l, hl⟩ := pairBytes_of_rawAgree ps hr (Or.inl ⟨n, ht⟩) h
    have hstart : (e.startBit : Int) = e.registerBit := Int.toNat_of_nonneg hb
    have hsign : 16 < e.registerBit + n.val := by
      by_contra hsign
      -- all ones: one decoder returns a negative number, the other one does not
      have hones := (rawAgree_iff ps).mp h fun _ => BitVec.allOnes 8
      have hset : (field e.startBit n.val (number ((wordPlaces order.bytesReversed
          e.register).map fun _ => BitVec.allOnes 8))).testBit (n.val - 1) = true := by
        rw [testBit_field, number_map_ones, testBit_ones, hwidth]
        simp only [Bool.and_eq_true, decide_eq_true_eq]
        omega
      have hlt := field_lt e.startBit n.val (number ((wordPlaces order.bytesReversed
          e.register).map fun _ => BitVec.allOnes 8))
      rw [hushort, decodeBytes_sBit ps ht hb hl, if_pos hset] at hones
      simp only [Except.map, Except.ok.injEq, Option.some.injEq, PyValue.int.injEq] at hones
      have hpow : ((2 : Int) ^ n.val) = ((2 ^ n.val : Nat) : Int) := by norm_cast
      omega
    refine ⟨hb, hsign, l, hl, sameBits_iff_field.mpr fun f => ?_⟩
    exact ((hfields hsign hb hl f).mp ((rawAgree_iff ps).mp h f)).symm
  · rintro ⟨hb, hsign, l, hl, hsame⟩
    rw [rawAgree_iff]
    intro f
    exact (hfields hsign hb hl f).mpr (sameBits_iff_field.mp hsame f).symm

/-- Signed-magnitude bit fields: only where both decoders always return zero. -/
theorem rawAgree_smBit (hr : e.register ∈ e.wireAddresses) {n : BitWidth 2}
    (ht : e.dataType = .smBit n) :
    ps.RawAgree order e ↔ ∃ l, pairBytes order (registerSlice e e.wirePlaces) = .ok l ∧
      (16 ≤ e.registerBit ∨ e.registerBit = 15 ∧ l.length ≤ 1) := by
  have hn := n.2
  have hwidth := wordPlaces_length order.bytesReversed e.register
  have hushort (f : BytePlace → Byte) : ps.decodeUshort order (e.wordRegistry (contentOf f)) e
      = .ok (some (.int
        (if (number ((wordPlaces order.bytesReversed e.register).map f)).testBit e.startBit then
          -(field (e.startBit + 1) (n.val - 1)
            (number ((wordPlaces order.bytesReversed e.register).map f)) : Int)
        else field (e.startBit + 1) (n.val - 1)
          (number ((wordPlaces order.bytesReversed e.register).map f))))) := by
    simp only [decodeUshort, ht, wordAt_wordRegistry hr, Except.map, orient_eq_number]
  constructor
  · intro h
    obtain ⟨hb, l, hl⟩ := pairBytes_of_rawAgree ps hr (Or.inr ⟨n, ht⟩) h
    have hstart : (e.startBit : Int) = e.registerBit := Int.toNat_of_nonneg hb
    have hlen := pairBytes_length hl
    refine ⟨l, hl, ?_⟩
    by_contra hcond
    have hones := (rawAgree_iff ps).mp h fun _ => BitVec.allOnes 8
    have hset : (ones (8 * 2)).testBit e.startBit = true := by
      rw [testBit_ones, decide_eq_true_eq]
      omega
    rw [hushort, decodeBytes_smBit ps ht hb hl, number_map_ones, number_map_ones, hwidth,
      if_pos hset] at hones
    simp only [Except.map, Except.ok.injEq, Option.some.injEq, PyValue.int.injEq] at hones
    by_cases hfull : e.registerBit = 15
    · -- the magnitude is empty, the sign bit is not
      have hset' : (ones (8 * l.length)).testBit e.startBit = true := by
        rw [testBit_ones, decide_eq_true_eq]
        omega
      have hzero : field (e.startBit + 1) (n.val - 1) (ones (8 * 2)) = 0 := by
        have hs : e.startBit + 1 = 8 * 2 := by omega
        rw [hs]
        exact field_eq_zero (ones_lt _)
      have hlarge : 0xFFFFFFFFFFFFFFFF <<< n.val
          ≤ (ones (8 * l.length) >>> (e.startBit + 1)) ||| (0xFFFFFFFFFFFFFFFF <<< n.val) :=
        Nat.right_le_or
      have hshift : 0 < 0xFFFFFFFFFFFFFFFF <<< n.val := by
        rw [Nat.shiftLeft_eq]
        exact Nat.mul_pos (by decide) (Nat.two_pow_pos _)
      rw [hzero, if_pos hset'] at hones
      omega
    · -- a negative magnitude
      have hne : field (e.startBit + 1) (n.val - 1) (ones (8 * 2)) ≠ 0 := by
        intro h0
        have hbit : (field (e.startBit + 1) (n.val - 1) (ones (8 * 2))).testBit 0 = true := by
          rw [testBit_field, testBit_ones]
          simp only [Bool.and_eq_true, decide_eq_true_eq]
          omega
        rw [h0] at hbit
        simp at hbit
      omega
  · rintro ⟨l, hl, hcond⟩
    have hb : 0 ≤ e.registerBit := by omega
    have hstart : (e.startBit : Int) = e.registerBit := Int.toNat_of_nonneg hb
    have hlen := pairBytes_length hl
    rw [rawAgree_iff]
    intro f
    have hleft : (number (l.map f)).testBit e.startBit = false := testBit_short f (by omega)
    have hright : field (e.startBit + 1) (n.val - 1)
        (number ((wordPlaces order.bytesReversed e.register).map f)) = 0 :=
      field_short f _ (by omega)
    rw [hushort, decodeBytes_smBit ps ht hb hl, hleft, hright, field_short f _ (by omega)]
    simp [Except.map]

/-! ## Flags -/

/-- The three flags types. -/
def IsFlags (t : DataType) : Prop := t = .bit8Flags ∨ t = .bit16Flags ∨ t = .bit32Flags

/-- Flags: the same texts from what the two decoders pick. -/
theorem rawAgree_flags (hr : e.register ∈ e.wireAddresses) (ht : IsFlags e.dataType) :
    ps.RawAgree order e ↔ ∃ l₁ l₂, e.bytesPlaces order = .ok l₁ ∧ e.ushortPlaces order = some l₂ ∧
      ∀ f : BytePlace → Byte,
        ps.flagsUshort e (number (l₂.map f)) e.dataType.getSize.toNat
          = ps.flagsBytes e (number (l₁.map f)) e.dataType.getSize.toNat := by
  have hmap {x y : Except PyError String} :
      x.map (fun s => some (PyValue.str s)) = (y.map PyValue.str).map some ↔ x = y := by
    cases x <;> cases y <;> simp [Except.map]
  have hbytes (f : BytePlace → Byte) : ∃ l₁, e.bytesPlaces order = .ok l₁ ∧
      ps.decodeBytes order (registerSlice e (e.wirePlaces.map f)) e
        = (ps.flagsBytes e (number (l₁.map f)) e.dataType.getSize.toNat).map .str := by
    rcases ht with ht | ht | ht
    all_goals
      simp only [RegistryMapEntry.bytesPlaces, decodeBytes, ht, ← map_registerSlice,
        ← map_flagBytes]
      exact ⟨_, rfl, rfl⟩
  have hushort (f : BytePlace → Byte) : ps.decodeUshort order (e.wordRegistry (contentOf f)) e
      = match e.ushortPlaces order with
        | some l => (ps.flagsUshort e (number (l.map f)) e.dataType.getSize.toNat).map
            fun flags => some (.str flags)
        | none => .ok none := by
    rcases ht with ht | ht | ht
    · simp only [decodeUshort, ht, wordAt_wordRegistry hr, RegistryMapEntry.ushortPlaces,
        orient_eq_number, Except.map, bind, Except.bind]
      rfl
    · simp only [decodeUshort, ht, wordAt_wordRegistry hr, RegistryMapEntry.ushortPlaces,
        orient_eq_number, Except.map, bind, Except.bind]
      rfl
    · simp only [decodeUshort, ht, registerWordsToBytes_wordRegistry,
        RegistryMapEntry.ushortPlaces, byteAt_contentOf]
      cases e.widePlaces order 2 <;> rfl
  rw [rawAgree_iff]
  obtain ⟨l₁, hl₁, -⟩ := hbytes fun _ => 0
  have hbytes' (f : BytePlace → Byte) :
      ps.decodeBytes order (registerSlice e (e.wirePlaces.map f)) e
        = (ps.flagsBytes e (number (l₁.map f)) e.dataType.getSize.toNat).map .str := by
    obtain ⟨l, hl, h⟩ := hbytes f
    rw [hl₁] at hl
    injection hl with hl
    rw [h, hl]
  cases hl₂ : e.ushortPlaces order with
  | none =>
    constructor
    · intro h
      have hzero := h fun _ => 0
      rw [hushort, hl₂, hbytes'] at hzero
      generalize ps.flagsBytes e _ _ = x at hzero
      cases x <;> simp [Except.map] at hzero
    · rintro ⟨_, _, _, h, _⟩
      cases h
  | some l₂ =>
    constructor
    · intro h
      refine ⟨l₁, l₂, hl₁, rfl, fun f => hmap.mp ?_⟩
      have := h f
      rwa [hushort, hl₂, hbytes'] at this
    · rintro ⟨l, l', hl, hl', h⟩ f
      rw [hl₁] at hl
      injection hl with hl
      injection hl' with hl'
      rw [hushort, hl₂, hbytes', hl, hl']
      exact hmap.mpr (h f)

/-- Two numbers give the same bit text exactly if their bits agree. -/
theorem flagBits_inj {x y start size : Nat} : flagBits x start size = flagBits y start size ↔
    ∀ i < size, x.testBit (start + i) = y.testBit (start + i) := by
  have hbit {b c : Bool} : (if b then '1' else '0') = (if c then '1' else '0') ↔ b = c := by
    cases b <;> cases c <;> simp
  unfold flagBits
  rw [String.ofList_inj, List.map_inj_left]
  simp only [List.mem_range'_1, hbit]
  constructor
  · intro h i hi
    exact h (start + i) ⟨by omega, by omega⟩
  · rintro h j ⟨hj, hj'⟩
    obtain ⟨i, rfl⟩ := Nat.exists_eq_add_of_le hj
    exact h i (by omega)

/-- The set bits of two numbers have the same codes if their bits agree. -/
theorem flagIndexes_congr {x y start size : Nat}
    (h : ∀ i < size, x.testBit (start + i) = y.testBit (start + i)) :
    flagIndexes x start size = flagIndexes y start size := by
  unfold flagIndexes
  congr 1
  apply List.filter_congr
  intro j hj
  obtain ⟨hj, hj'⟩ := List.mem_range'_1.mp hj
  obtain ⟨i, rfl⟩ := Nat.exists_eq_add_of_le hj
  exact h i (by omega)

/-- The codes of set bits are among the codes of all bits of the word. -/
theorem flagIndexes_subset {x width start size : Nat} (hx : x < 2 ^ width) {index : String}
    (h : index ∈ flagIndexes x start size) : index ∈ flagIndexes (ones width) start size := by
  obtain ⟨j, hj, rfl⟩ := List.mem_map.mp h
  obtain ⟨hrange, hbit⟩ := List.mem_filter.mp hj
  refine List.mem_map.mpr ⟨j, List.mem_filter.mpr ⟨hrange, ?_⟩, rfl⟩
  rw [testBit_ones, decide_eq_true_eq]
  by_contra hge
  rw [Nat.testBit_lt_two_pow (Nat.lt_of_lt_of_le hx
    (Nat.pow_le_pow_right (by decide) (Nat.le_of_not_lt hge)))] at hbit
  cases hbit

theorem allBits_mono {indexes indexes' : List String} (h : ∀ i ∈ indexes, i ∈ indexes')
    {key : String} (hk : allBits indexes key) : allBits indexes' key := by
  unfold allBits at *
  rw [List.all_eq_true] at *
  intro bit hbit
  have := hk bit hbit
  rw [decide_eq_true_eq] at *
  exact h _ this

/-- The descriptions the entry's table holds for some codes. -/
def describe (e : RegistryMapEntry) (indexes : List String) : List Json :=
  indexes.filterMap fun index => (ps.getCodeDict e.codesKey).lookup index

/-- What the entry's table says about the single bits of a word of `width` bits. -/
def bitTexts (e : RegistryMapEntry) (width : Nat) : List Json :=
  ps.describe e (flagIndexes (ones width) e.startBit e.dataType.getSize.toNat)

/-- What the entry's table says about the multi-bit keys a word of `width` bits can set. -/
def multibitTexts (e : RegistryMapEntry) (width : Nat) : List Json :=
  ps.describe e ((multibitFlags ps.codes).filter
    (allBits (flagIndexes (ones width) e.startBit e.dataType.getSize.toNat)))

/-- The multi-bit keys a value sets say part of what all of them say. -/
theorem multibit_sublist {x width : Nat} (hx : x < 2 ^ width) :
    (ps.describe e ((multibitFlags ps.codes).filter
      (allBits (flagIndexes x e.startBit e.dataType.getSize.toNat)))).Sublist
        (ps.multibitTexts e width) := by
  apply List.Sublist.filterMap
  rw [show (multibitFlags ps.codes).filter
      (allBits (flagIndexes x e.startBit e.dataType.getSize.toNat))
    = ((multibitFlags ps.codes).filter
        (allBits (flagIndexes (ones width) e.startBit e.dataType.getSize.toNat))).filter
        (allBits (flagIndexes x e.startBit e.dataType.getSize.toNat)) from ?_]
  · exact List.filter_sublist
  · rw [List.filter_filter]
    apply List.filter_congr
    intro key _
    cases hk : allBits (flagIndexes x e.startBit e.dataType.getSize.toNat) key with
    | false => rfl
    | true => exact (allBits_mono (fun i hi => flagIndexes_subset hx hi) hk).symm

theorem joinTexts_str (ss : List String) :
    joinTexts (ss.map Json.str) = .ok (String.intercalate "," ss) := by
  have hmap : (ss.map Json.str).mapM Json.text? = some ss := by
    induction ss with
    | nil => rfl
    | cons s ss ih =>
      rw [List.map_cons, List.mapM_cons, ih]
      rfl
  rw [joinTexts, hmap]

/-- Joining more texts only gives the same if nothing or a single empty text is added. -/
theorem intercalate_append_eq {ss tt : List String}
    (h : String.intercalate "," (ss ++ tt) = String.intercalate "," ss) :
    tt = [] ∨ ss = [] ∧ tt = [""] := by
  by_cases ht : tt = []
  · exact Or.inl ht
  · refine Or.inr ?_
    by_cases hs : ss = []
    · refine ⟨hs, ?_⟩
      rw [hs, List.nil_append, String.intercalate_nil] at h
      rcases tt with _ | ⟨t, _ | ⟨t', tt⟩⟩
      · exact absurd rfl ht
      · rw [String.intercalate_singleton] at h
        rw [h]
      · rw [String.intercalate_cons_cons] at h
        have := congrArg String.length h
        simp at this
    · rw [String.intercalate_append_of_ne_nil hs ht] at h
      have hlength := congrArg String.length h
      have hcomma : ",".length = 1 := rfl
      rw [String.length_append, String.length_append] at hlength
      omega

/-- The code table of a flags entry in the wire decoder: the entry has none, or a filled one whose
multi-bit keys add nothing. -/
def TablesAlike (e : RegistryMapEntry) (width : Nat) : Prop :=
  ps.codes.lookup e.codesKey = none ∨
    ps.getCodeDict e.codesKey ≠ [] ∧
      (ps.multibitTexts e width = [] ∨
        ps.bitTexts e width = [] ∧ ps.multibitTexts e width = [.str ""])

/-- A filled table of texts, and bits both decoders take from the same places. -/
def PlainTable (order : WordOrder) (e : RegistryMapEntry) : Prop :=
  ps.getCodeDict e.codesKey ≠ [] →
    (∀ kv ∈ ps.getCodeDict e.codesKey, ∃ s, kv.2 = Json.str s) ∧
      ∀ l₁ l₂, e.bytesPlaces order = .ok l₁ → e.ushortPlaces order = some l₂ →
        SameBits l₁ l₂ e.startBit e.dataType.getSize.toNat

theorem getCodeDict_of_lookup_none {key : String} (h : ps.codes.lookup key = none) :
    ps.getCodeDict key = [] := by
  rw [getCodeDict, h]

/-- A flags type has bits. -/
theorem flags_size_pos {t : DataType} (ht : IsFlags t) : 0 < t.getSize.toNat := by
  rcases ht with rfl | rfl | rfl <;> decide

variable {ps} in
/-- Bits from the same places and tables alike make the texts the same. -/
theorem flags_eq {l₁ l₂ : List BytePlace}
    (hsame : SameBits l₁ l₂ e.startBit e.dataType.getSize.toNat)
    (htables : ps.TablesAlike e (8 * l₁.length)) (f : BytePlace → Byte) :
    ps.flagsUshort e (number (l₂.map f)) e.dataType.getSize.toNat
      = ps.flagsBytes e (number (l₁.map f)) e.dataType.getSize.toNat := by
  have hbits := sameBits_iff.mp hsame f
  have hlt : number (l₁.map f) < 2 ^ (8 * l₁.length) := by
    simpa using number_lt (l₁.map f)
  rcases htables with hnone | ⟨hne, hmulti⟩
  · rw [flagsUshort, flagsBytes, getCodeDict_of_lookup_none ps hnone, hnone]
    exact congrArg Except.ok (flagBits_inj.mpr fun i hi => (hbits i hi).symm)
  · have hempty : (ps.getCodeDict e.codesKey).isEmpty = false := by simpa using hne
    have hsome : (ps.codes.lookup e.codesKey).isSome = true :=
      Option.isSome_iff_ne_none.mpr fun h => hne (getCodeDict_of_lookup_none ps h)
    unfold flagsUshort flagsBytes
    simp only [hempty, hsome, if_true, Bool.false_eq_true, if_false, List.filterMap_append]
    rw [← flagIndexes_congr hbits]
    -- what the multi-bit keys add to the texts of the bits
    have hadd := multibit_sublist ps (e := e) hlt
    unfold describe at hadd
    rcases hmulti with hmulti | ⟨hbit, hmulti⟩
    · rw [hmulti] at hadd
      rw [List.sublist_nil.mp hadd, List.append_nil]
    · have hnil : (flagIndexes (number (l₁.map f)) e.startBit e.dataType.getSize.toNat).filterMap
          (fun index => (ps.getCodeDict e.codesKey).lookup index) = [] := by
        rw [List.filterMap_eq_nil_iff]
        intro index hindex
        unfold bitTexts describe at hbit
        exact (List.filterMap_eq_nil_iff.mp hbit) index (flagIndexes_subset hlt hindex)
      rw [hnil, List.nil_append]
      rw [hmulti] at hadd
      rcases List.sublist_singleton.mp hadd with h | h
      · rw [h]
      · rw [h]
        rfl

variable {ps} in
/-- The texts being the same for every content makes the tables alike. -/
theorem tablesAlike_of_flags_eq {l₁ l₂ : List BytePlace} (ht : IsFlags e.dataType)
    (htexts : ∀ kv ∈ ps.getCodeDict e.codesKey, ∃ s, kv.2 = Json.str s)
    (hsame : ps.getCodeDict e.codesKey ≠ [] → SameBits l₁ l₂ e.startBit e.dataType.getSize.toNat)
    (h : ∀ f : BytePlace → Byte, ps.flagsUshort e (number (l₂.map f)) e.dataType.getSize.toNat
      = ps.flagsBytes e (number (l₁.map f)) e.dataType.getSize.toNat) :
    ps.TablesAlike e (8 * l₁.length) := by
  by_cases hnone : ps.codes.lookup e.codesKey = none
  · exact Or.inl hnone
  have hsome : (ps.codes.lookup e.codesKey).isSome = true := Option.isSome_iff_ne_none.mpr hnone
  have hones := h fun _ => BitVec.allOnes 8
  unfold flagsUshort flagsBytes at hones
  simp only [hsome, if_true, List.filterMap_append] at hones
  by_cases hdict : ps.getCodeDict e.codesKey = []
  · -- an empty table: no text against a text of bits
    exfalso
    have hsize := flags_size_pos ht
    rw [hdict] at hones
    have hright (keys : List String) : (keys.filterMap fun index =>
        List.lookup index ([] : List (String × Json))) = [] := by
      simp
    simp only [hright, List.isEmpty_nil, if_true, List.append_nil] at hones
    have := congrArg (Except.map String.length) hones
    simp [flagBits, joinTexts, Except.map] at this
    omega
  · have hempty : (ps.getCodeDict e.codesKey).isEmpty = false := by simpa using hdict
    refine Or.inr ⟨hdict, ?_⟩
    simp only [hempty, Bool.false_eq_true, if_false] at hones
    rw [← flagIndexes_congr (sameBits_iff.mp (hsame hdict) fun _ => BitVec.allOnes 8),
      number_map_ones] at hones
    -- every description is a text
    have hstr (indexes : List String) : ∃ ss : List String,
        ps.describe e indexes = ss.map Json.str := by
      induction indexes with
      | nil => exact ⟨[], rfl⟩
      | cons index indexes ih =>
        obtain ⟨ss, hss⟩ := ih
        rw [describe] at hss ⊢
        rw [List.filterMap_cons]
        cases hl : (ps.getCodeDict e.codesKey).lookup index with
        | none => exact ⟨ss, hss⟩
        | some json =>
          obtain ⟨before, after, heq, -⟩ := List.lookup_eq_some_iff.mp hl
          obtain ⟨s, rfl⟩ := htexts (index, json) (by rw [heq]; simp)
          exact ⟨s :: ss, congrArg (Json.str s :: ·) hss⟩
    obtain ⟨ss, hss⟩ := hstr (flagIndexes (ones (8 * l₁.length)) e.startBit
      e.dataType.getSize.toNat)
    obtain ⟨tt, htt⟩ := hstr ((multibitFlags ps.codes).filter
      (allBits (flagIndexes (ones (8 * l₁.length)) e.startBit e.dataType.getSize.toNat)))
    have hjoin : joinTexts (ss.map Json.str) = joinTexts (ss.map Json.str ++ tt.map Json.str) := by
      rw [← hss, ← htt]
      exact hones
    rw [← List.map_append, joinTexts_str, joinTexts_str] at hjoin
    injection hjoin with hjoin
    rcases intercalate_append_eq hjoin.symm with htt' | ⟨hss', htt'⟩
    · exact Or.inl (by rw [multibitTexts, htt, htt']; rfl)
    · exact Or.inr ⟨by rw [bitTexts, hss, hss']; rfl, by rw [multibitTexts, htt, htt']; rfl⟩

/-! ## The two decoders -/

/-- The condition under which the two decoders agree. `l₁` and `l₂` are the bytes the wire decoder
and the integer decoder pick; the wire decoder must find enough of them. -/
def DecodedAlike (order : WordOrder) (e : RegistryMapEntry) : Prop :=
  ∃ l₁ l₂, e.bytesPlaces order = .ok l₁ ∧ e.ushortPlaces order = some l₂ ∧
    match e.dataType with
    | .bit n => 0 ≤ e.registerBit ∧ SameBits l₁ l₂ e.startBit n.val
    | .sBit n => 0 ≤ e.registerBit ∧ 16 < e.registerBit + n.val ∧ SameBits l₁ l₂ e.startBit n.val
    | .smBit _ => 16 ≤ e.registerBit ∨ e.registerBit = 15 ∧ l₁.length ≤ 1
    | .bit8Flags | .bit16Flags | .bit32Flags =>
      SameBits l₁ l₂ e.startBit e.dataType.getSize.toNat ∧ ps.TablesAlike e (8 * l₁.length)
    | _ => l₁ = l₂

/-- An entry with other unit and adjustments columns. -/
def rescale (e : RegistryMapEntry) (unitMod : Float) (adjustments : List (String × Json)) :
    RegistryMapEntry :=
  { e with unitMod, adjustments }

/-- The two decoders return the same value for every content of the registers of an entry,
whatever its unit and adjustments columns say about scaling. -/
def DecodersAgree (order : WordOrder) (e : RegistryMapEntry) : Prop :=
  ∀ (unitMod : Float) (adjustments : List (String × Json)),
    (rescale e unitMod adjustments).getEntryByteorder ps.defaultWordOrder = order → ∀ content,
      ps.processRegisterUshort host (e.wordRegistry content) (rescale e unitMod adjustments)
        = (ps.processRegisterBytes host (e.byteRegistry content)
            (rescale e unitMod adjustments)).map some

/-- The name of a word order in the `Register_Endian` adjustment. -/
def orderName (order : WordOrder) : String :=
  match order with
  | ⟨false, false⟩ => "abcd"
  | ⟨false, true⟩ => "badc"
  | ⟨true, false⟩ => "cdab"
  | ⟨true, true⟩ => "dcba"

theorem getEntryByteorder_orderName (unitMod : Float) (defaultWordOrder : WordOrder) :
    (rescale e unitMod [("Register_Endian", .str (orderName order))]).getEntryByteorder
      defaultWordOrder = order := by
  rcases order with ⟨_ | _, _ | _⟩ <;> rfl

/-- No type but the two float types is decoded to a float. -/
theorem decodeUshort_ne_float (hfloat : e.dataType ≠ .float32 ∧ e.dataType ≠ .float64)
    {registry : Int → Option Word} {v : PyValue}
    (h : ps.decodeUshort order registry e = .ok (some v)) (f : Float) : v ≠ .float f := by
  cases htype : e.dataType with
  | uint | acc32 | uint64 | int | int64 =>
    simp only [decodeUshort, htype, Except.ok.injEq, Option.map_eq_some_iff] at h
    obtain ⟨raw, -, rfl⟩ := h
    simp
  | ascii | string | string16 | string32 =>
    simp only [decodeUshort, htype, Except.ok.injEq, Option.map_eq_some_iff] at h
    obtain ⟨raw, -, rfl⟩ := h
    simp
  | ushort | short | byte | hex | bit | sBit | smBit =>
    simp only [decodeUshort, htype] at h
    cases hw : wordAt registry e.register with
    | error err =>
      rw [hw] at h
      cases h
    | ok w =>
      rw [hw] at h
      injection h with h
      injection h with h
      rw [← h]
      simp
  | bit8Flags | bit16Flags =>
    simp only [decodeUshort, htype] at h
    cases hw : wordAt registry e.register with
    | error err =>
      rw [hw] at h
      cases h
    | ok w =>
      rw [hw] at h
      simp only [Except.map, bind, Except.bind] at h
      split at h
      · cases h
      · injection h with h
        injection h with h
        rw [← h]
        simp
  | bit32Flags =>
    simp only [decodeUshort, htype] at h
    split at h
    · next raw _ =>
      cases hx : ps.flagsUshort e (number raw) 32 with
      | error err =>
        rw [hx] at h
        cases h
      | ok flags =>
        rw [hx] at h
        injection h with h
        injection h with h
        rw [← h]
        simp
    · cases h
  | float32 => exact absurd htype hfloat.1
  | float64 => exact absurd htype hfloat.2

theorem decodeBytes_ne_float (hfloat : e.dataType ≠ .float32 ∧ e.dataType ≠ .float64)
    {register : List Byte} {v : PyValue} (h : ps.decodeBytes order register e = .ok v) (f : Float) :
    v ≠ .float f := by
  cases htype : e.dataType with
  | uint | acc32 | uint64 | int | int64 | hex | ascii | string | string16 | string32 =>
    simp only [decodeBytes, htype, Except.ok.injEq] at h
    rw [← h]
    simp
  | ushort | short =>
    simp only [decodeBytes, htype] at h
    cases hp : pairBytes order register with
    | error err =>
      rw [hp] at h
      cases h
    | ok l =>
      rw [hp] at h
      injection h with h
      rw [← h]
      simp
  | bit8Flags | bit16Flags | bit32Flags =>
    simp only [decodeBytes, htype] at h
    generalize ps.flagsBytes e _ _ = x at h
    cases x with
    | error err => cases h
    | ok flags =>
      injection h with h
      rw [← h]
      simp
  | byte =>
    simp only [decodeBytes, htype] at h
    rcases hp : pairBytes order register with _ | _ | ⟨b, l⟩ <;> rw [hp] at h
    · cases h
    · cases h
    · injection h with h
      rw [← h]
      simp
  | bit | sBit | smBit =>
    simp only [decodeBytes, htype] at h
    cases hp : pairBytes order register with
    | error err =>
      rw [hp] at h
      cases h
    | ok l =>
      rw [hp] at h
      cases hc : shiftCount e.registerBit with
      | error err =>
        rw [hc] at h
        cases h
      | ok bitIndex =>
        simp only [hc, bind, Except.bind, pure, Except.pure] at h
        first
        | injection h with h
          rw [← h]
          simp
        | split at h
          all_goals
            injection h with h
            rw [← h]
            simp
  | float32 => exact absurd htype hfloat.1
  | float64 => exact absurd htype hfloat.2

/-- An unscaled value is handed on as it is. -/
theorem applyPostDecode_of_ne_float {e' : RegistryMapEntry} (hu : e'.Unscaled) {v : PyValue}
    (hv : ∀ f, v ≠ .float f) : e'.applyPostDecode host v = .ok v := by
  cases v with
  | int i => exact RegistryMapEntry.applyPostDecode_int hu i
  | str s => rfl
  | float f => exact absurd rfl (hv f)

/-- `process_register_ushort` on a rescaled entry, from the raw value of the entry itself. -/
theorem processRegisterUshort_rescale {unitMod : Float} {adjustments : List (String × Json)}
    (ho : (rescale e unitMod adjustments).getEntryByteorder ps.defaultWordOrder = order)
    (registry : Int → Option Word) :
    ps.processRegisterUshort host registry (rescale e unitMod adjustments)
      = match ps.decodeUshort order registry e with
        | .error err => .error err
        | .ok none => .ok none
        | .ok (some v) => ((rescale e unitMod adjustments).applyPostDecode host v).map some := by
  rw [processRegisterUshort, ho,
    show ps.decodeUshort order registry (rescale e unitMod adjustments)
      = ps.decodeUshort order registry e from rfl]
  rcases ps.decodeUshort order registry e with err | _ | v
  · rfl
  · rfl
  · have hcollapse : ((rescale e unitMod adjustments).applyPostDecode host v).map collapse
        = (rescale e unitMod adjustments).applyPostDecode host v :=
      RegistryMapEntry.applyPostDecode_collapse v
    cases hw : (rescale e unitMod adjustments).applyPostDecode host v with
    | error err => simp only [bind, Except.bind, hw, Except.map]
    | ok w =>
      rw [hw] at hcollapse
      injection hcollapse with hcollapse
      simp only [bind, Except.bind, hw, Except.map, pure, Except.pure, hcollapse]

/-- `process_register_bytes` on a rescaled entry, from the raw value of the entry itself. -/
theorem processRegisterBytes_rescale {unitMod : Float} {adjustments : List (String × Json)}
    (ho : (rescale e unitMod adjustments).getEntryByteorder ps.defaultWordOrder = order)
    (content : Int → Word) :
    ps.processRegisterBytes host (e.byteRegistry content) (rescale e unitMod adjustments)
      = match ps.decodeBytes order (registerSlice e (e.wireBytes content)) e with
        | .error err => .error err
        | .ok v => (rescale e unitMod adjustments).applyPostDecode host v := by
  have hreg : e.byteRegistry content (rescale e unitMod adjustments).register
      = some (e.wireBytes content) := if_pos rfl
  rw [processRegisterBytes, hreg]
  dsimp only
  rw [ho, show ps.decodeBytes order (registerSlice (rescale e unitMod adjustments)
      (e.wireBytes content)) (rescale e unitMod adjustments)
    = ps.decodeBytes order (registerSlice e (e.wireBytes content)) e from rfl]
  cases ps.decodeBytes order (registerSlice e (e.wireBytes content)) e <;> rfl

/-- The adjustments do the same to the same raw value, and nothing to an unscaled one. -/
theorem decodersAgree_iff_raw (hfloat : e.dataType ≠ .float32 ∧ e.dataType ≠ .float64) :
    ps.DecodersAgree host order e ↔ ps.RawAgree order e := by
  constructor
  · intro h content
    have ho : (rescale e 1 [("Register_Endian", .str (orderName order))]).getEntryByteorder
        ps.defaultWordOrder = order := getEntryByteorder_orderName _ _
    have hone : ((1 : Float) != 1) = false := by decide
    have habsent {name : String}
        (hname : Text.lower "Register_Endian".toList ≠ Text.lower name.toList) :
        (rescale e 1 [("Register_Endian", .str (orderName order))]).getAdjustment name = none := by
      refine congrArg (Option.map Prod.snd) (List.find?_eq_none.mpr fun kv hkv => ?_)
      rw [List.mem_singleton.mp hkv, decide_eq_true_eq]
      exact hname
    have hu : (rescale e 1 [("Register_Endian", .str (orderName order))]).Unscaled :=
      ⟨hone, by rw [RegistryMapEntry.adjustment, habsent (by decide)],
        by rw [RegistryMapEntry.adjustment, habsent (by decide)],
        habsent (by decide)⟩
    have hboth := h _ _ ho content
    rw [processRegisterUshort_rescale ps host ho, processRegisterBytes_rescale ps host ho] at hboth
    rcases hd : ps.decodeUshort order (e.wordRegistry content) e with err | _ | v <;>
      rcases hd' : ps.decodeBytes order (registerSlice e (e.wireBytes content)) e with err' | v' <;>
      simp only [hd, hd'] at hboth
    · exact hboth
    · rw [applyPostDecode_of_ne_float host hu (decodeBytes_ne_float ps hfloat hd')] at hboth
      exact hboth
    · exact hboth
    · rw [applyPostDecode_of_ne_float host hu (decodeBytes_ne_float ps hfloat hd')] at hboth
      exact hboth
    · rw [applyPostDecode_of_ne_float host hu (decodeUshort_ne_float ps hfloat hd)] at hboth
      exact hboth
    · rw [applyPostDecode_of_ne_float host hu (decodeBytes_ne_float ps hfloat hd'),
        applyPostDecode_of_ne_float host hu (decodeUshort_ne_float ps hfloat hd)] at hboth
      exact hboth
  · intro h unitMod adjustments ho content
    rw [processRegisterUshort_rescale ps host ho, processRegisterBytes_rescale ps host ho,
      h content]
    cases ps.decodeBytes order (registerSlice e (e.wireBytes content)) e <;> rfl

/-- The first address of a loaded entry is a register of it. -/
theorem register_mem_wireAddresses (h : AddressForm e) : e.register ∈ e.wireAddresses := by
  unfold RegistryMapEntry.wireAddresses
  by_cases hlist : e.registerList = []
  · rw [if_neg (by simpa using hlist), List.mem_map]
    refine ⟨0, List.mem_range.mpr ?_, by simp⟩
    split
    · exact RegistryMapEntry.wordCounts_pos _
    · exact e.entryWordCount_pos
  · rw [if_pos hlist]
    cases h with
    | single _ list _ => exact absurd list hlist
    | range _ list _ _ _ => exact absurd list hlist
    | list _ first _ _ => exact List.mem_of_mem_head? first

/-- **The decode paths.** For every entry of a loaded register map with an integer, bit, flags or
text type and every word order, the two decoders agree on every content and every scaling if the
condition `DecodedAlike` holds, and only then; for a flags entry with a filled code table the
converse is about tables of texts and bits taken from the same places. -/
theorem decodersAgree_iff {registryType : RegistryType} {rows : List Row}
    {items : List RegistryMapEntry} (hload : ps.loadRegistry registryType rows = some items)
    (he : e ∈ items) (hfloat : e.dataType ≠ .float32 ∧ e.dataType ≠ .float64) :
    (ps.DecodedAlike order e → ps.DecodersAgree host order e) ∧
      ((IsFlags e.dataType → ps.PlainTable order e) →
        ps.DecodersAgree host order e → ps.DecodedAlike order e) := by
  have hr := register_mem_wireAddresses (ps.loadRegistry_addressForm hload e he)
  rw [decodersAgree_iff_raw ps host hfloat]
  unfold DecodedAlike
  have hwhole (ht : WholeBytes e.dataType) : ps.RawAgree order e ↔
      ∃ l₁ l₂, e.bytesPlaces order = .ok l₁ ∧ e.ushortPlaces order = some l₂ ∧ l₁ = l₂ := by
    rw [rawAgree_wholeBytes ps hr ht]
    constructor
    · rintro ⟨l, hu, hb⟩
      exact ⟨l, l, hb, hu, rfl⟩
    · rintro ⟨l₁, l₂, hb, hu, rfl⟩
      exact ⟨l₁, hu, hb⟩
  have hflags (ht : IsFlags e.dataType) :
      ((∃ l₁ l₂, e.bytesPlaces order = .ok l₁ ∧ e.ushortPlaces order = some l₂ ∧
        SameBits l₁ l₂ e.startBit e.dataType.getSize.toNat ∧
          ps.TablesAlike e (8 * l₁.length)) → ps.RawAgree order e) ∧
      ((IsFlags e.dataType → ps.PlainTable order e) → ps.RawAgree order e →
        ∃ l₁ l₂, e.bytesPlaces order = .ok l₁ ∧ e.ushortPlaces order = some l₂ ∧
          SameBits l₁ l₂ e.startBit e.dataType.getSize.toNat ∧
            ps.TablesAlike e (8 * l₁.length)) := by
    rw [rawAgree_flags ps hr ht]
    constructor
    · rintro ⟨l₁, l₂, hb, hu, hsame, htables⟩
      exact ⟨l₁, l₂, hb, hu, flags_eq hsame htables⟩
    · rintro hplain ⟨l₁, l₂, hb, hu, h⟩
      have hplain := hplain ht
      have htexts : ∀ kv ∈ ps.getCodeDict e.codesKey, ∃ s, kv.2 = Json.str s := by
        by_cases hdict : ps.getCodeDict e.codesKey = []
        · rw [hdict]
          simp
        · exact (hplain hdict).1
      have htables := tablesAlike_of_flags_eq ht htexts
        (fun hdict => (hplain hdict).2 l₁ l₂ hb hu) h
      refine ⟨l₁, l₂, hb, hu, ?_, htables⟩
      rcases htables with hnone | ⟨hdict, -⟩
      · -- without a table both decoders spell the bits out
        rw [sameBits_iff]
        intro f
        have hf := h f
        rw [flagsUshort, flagsBytes, getCodeDict_of_lookup_none ps hnone, hnone] at hf
        injection hf with hf
        exact fun i hi => (flagBits_inj.mp hf i hi).symm
      · exact (hplain hdict).2 l₁ l₂ hb hu
  cases htype : e.dataType with
  | uint | acc32 | uint64 | int | int64 | ushort | short | byte | hex | ascii | string | string16 |
      string32 =>
    rw [hwhole (by rw [htype]; trivial)]
    exact ⟨id, fun _ => id⟩
  | bit8Flags | bit16Flags | bit32Flags =>
    simpa only [htype] using hflags (by simp [IsFlags, htype])
  | bit n =>
    rw [rawAgree_bit ps hr htype]
    simp only [RegistryMapEntry.bytesPlaces, RegistryMapEntry.ushortPlaces, htype]
    constructor
    · rintro ⟨l₁, l₂, hl, hl₂, hb, hsame⟩
      injection hl₂ with hl₂
      exact ⟨hb, l₁, hl, hl₂ ▸ hsame⟩
    · rintro - ⟨hb, l, hl, hsame⟩
      exact ⟨l, _, hl, rfl, hb, hsame⟩
  | sBit n =>
    rw [rawAgree_sBit ps hr htype]
    simp only [RegistryMapEntry.bytesPlaces, RegistryMapEntry.ushortPlaces, htype]
    constructor
    · rintro ⟨l₁, l₂, hl, hl₂, hb, hsign, hsame⟩
      injection hl₂ with hl₂
      exact ⟨hb, hsign, l₁, hl, hl₂ ▸ hsame⟩
    · rintro - ⟨hb, hsign, l, hl, hsame⟩
      exact ⟨l, _, hl, rfl, hb, hsign, hsame⟩
  | smBit n =>
    rw [rawAgree_smBit ps hr htype]
    simp only [RegistryMapEntry.bytesPlaces, RegistryMapEntry.ushortPlaces, htype]
    constructor
    · rintro ⟨l₁, l₂, hl, hl₂, hcond⟩
      exact ⟨l₁, hl, hcond⟩
    · rintro - ⟨l, hl, hcond⟩
      exact ⟨l, _, hl, rfl, hcond⟩
  | float32 => exact absurd htype hfloat.1
  | float64 => exact absurd htype hfloat.2

/-- A plain 32-bit value is decoded alike. -/
theorem uint_decoders_agree : ∃ items, ({} : ProtocolSettings).loadRegistry .holding
      [{ cell := "40", variableName := "energy", dataType := .uint }] = some items ∧
    ∀ e ∈ items, ({} : ProtocolSettings).DecodersAgree default .cdab e := by
  refine ⟨_, rfl, fun e he => ?_⟩
  have heq := List.mem_singleton.mp he
  have hload : ({} : ProtocolSettings).loadRegistry .holding
      [{ cell := "40", variableName := "energy", dataType := .uint }] = some _ := rfl
  refine (decodersAgree_iff {} default hload he ?_).1 ?_
  · rw [heq]
    decide
  · rw [heq]
    exact ⟨_, _, rfl, rfl, rfl⟩

/-- A signed field of four bits that holds minus eight is not: the wire decoder returns a number
beyond any register. -/
theorem sBit_decoders_differ :
    ¬ ∀ (ps : ProtocolSettings) (host : Host) (rows : List Row) (items : List RegistryMapEntry),
      ps.loadRegistry .holding rows = some items → ∀ e ∈ items,
      e.dataType ≠ .float32 ∧ e.dataType ≠ .float64 → ∀ content,
        ps.processRegisterUshort host (e.wordRegistry content) e
          = (ps.processRegisterBytes host (e.byteRegistry content) e).map some := by
  intro h
  have heq := h {} default
    [{ cell := "40.b0-3", variableName := "offset", dataType := .sBit ⟨4, by decide⟩ }] _ rfl _
    List.mem_cons_self (by decide) fun _ => 8
  exact absurd heq (by decide)

end ProtocolSettings

end ProtocolGateway
