import ProtocolGateway.Decode
import ProtocolGateway.Lib.Outcomes

/-!
# Merged halves

`load__registry` turns a row `<name>_l` and the row `<name>_h` that follows it into one 32-bit
entry. What the merge is for is said here by `Merged`: every such pair with plain addresses
becomes one entry that decodes to the word of the `_h` row times 65536 plus the word of the `_l`
row, and every other row is kept.

The merged entry keeps the address of the `_l` row only, takes its word order from whatever
adjustments the two rows have, and its type from the first of them that is not `USHORT`. The loop
goes from the end of the map to its start, so that a pair it has merged can be half of another
pair. `merged_iff` says for which maps all of this comes out right.
-/

namespace ProtocolGateway

open BigEndian Outcomes

namespace RegistryMapEntry

/-- A plain integer address: no list, no range, no bits and no byte offset. -/
structure PlainAddress (e : RegistryMapEntry) : Prop where
  list : e.registerList = []
  concatenate : e.concatenate = false
  bits : e.registerBit = -1 ∧ e.registerBitEnd = -1
  byte : e.registerByte ≤ 0

end RegistryMapEntry

namespace ProtocolSettings

variable (ps : ProtocolSettings)

/-! ## What the merge is for -/

/-- The entry decodes to the high word times 65536 plus the low word, whatever the registers
hold. -/
def DecodesHalves (low high merged : RegistryMapEntry) : Prop :=
  ∀ (registry : Int → Option Word) (l h : Word),
    registry low.register = some l → registry high.register = some h →
      ps.decodeUshort (merged.getEntryByteorder ps.defaultWordOrder) registry merged =
        .ok (some (.int (h.toNat * 65536 + l.toNat : Nat)))

/-- The two rows are the halves of one value. -/
structure Halves (low high : RegistryMapEntry) : Prop where
  pair : isPair low high = true
  low : low.PlainAddress
  high : high.PlainAddress

/-- **The promise of the merge**: from the rows of a map to its entries, adjacent halves become one
entry and every other row is kept. -/
inductive Merged : List RegistryMapEntry → List RegistryMapEntry → Prop
  | nil : Merged [] []
  | halves {low high merged rows result} (halves : Halves low high)
      (decodes : ps.DecodesHalves low high merged) (rest : Merged rows result) :
      Merged (low :: high :: rows) (merged :: result)
  | keep {row rows result} (other : ∀ next, rows.head? = some next → ¬Halves row next)
      (rest : Merged rows result) : Merged (row :: rows) (row :: result)

/-! ## When it is kept -/

/-- The types that a 32-bit unsigned value has. -/
def IsUnsigned32 (t : DataType) : Prop := t = .uint ∨ t = .acc32

/-- The two rows lie and are declared as the merge expects: the `_h` row at the next address, a
low-word-first order from the adjustments that survive, and an unsigned 32-bit type from the type
that survives. -/
structure LowFirst (low high : RegistryMapEntry) : Prop where
  next : high.register = low.register + 1
  order : (if low.adjustments.isEmpty then high else low).getEntryByteorder
    ps.defaultWordOrder = .cdab
  type : low.dataType = .ushort ∧ (high.dataType = .ushort ∨ IsUnsigned32 high.dataType) ∨
    IsUnsigned32 low.dataType

/-- No row before a pair is a half of what the pair becomes. -/
def Unchained (rows : List RegistryMapEntry) : Prop :=
  ∀ row low high, [row, low, high] <:+: rows → isPair low high = true →
    isPair row (mergePair low high) = false

/-- The maps that are merged as promised. -/
structure Mergeable (rows : List RegistryMapEntry) : Prop where
  /-- every `_l`/`_h` pair has plain addresses and lies as the merge expects -/
  pairs : ∀ low high, [low, high] <:+: rows → isPair low high = true →
    low.PlainAddress ∧ high.PlainAddress ∧ ps.LowFirst low high
  /-- and the pairs are not chained -/
  chains : Unchained rows

/-! ## Decoding a pair of words -/

variable {ps}

/-- The number that two words form. -/
theorem number_pair (order : WordOrder) (l h : Word) :
    number (ProtocolGateway.registerWordsToBytes order [l, h]) =
      if order.wordReversed then
        (h.orient order.bytesReversed).toNat * 65536 + (l.orient order.bytesReversed).toNat
      else (l.orient order.bytesReversed).toNat * 65536 + (h.orient order.bytesReversed).toNat := by
  have hnumber (a b : Word) : number ([a, b].flatMap (Word.toBytes order.bytesReversed)) =
      (a.orient order.bytesReversed).toNat * 65536 + (b.orient order.bytesReversed).toNat := by
    rw [List.flatMap_cons, List.flatMap_singleton, number_append, Word.number_toBytes,
      Word.number_toBytes, Word.length_toBytes]
    rfl
  rw [ProtocolGateway.registerWordsToBytes]
  cases order.wordReversed
  · exact hnumber l h
  · exact hnumber h l

/-- Low word first is the only order that puts the high word of every pair in front. -/
theorem number_pair_iff (order : WordOrder) :
    (∀ l h : Word, number (ProtocolGateway.registerWordsToBytes order [l, h]) =
      h.toNat * 65536 + l.toNat) ↔ order = .cdab := by
  constructor
  · intro hall
    have hone := hall 0 1
    rw [number_pair] at hone
    rcases order with ⟨_ | _, _ | _⟩
    · exact absurd hone (by decide)
    · exact absurd hone (by decide)
    · rfl
    · exact absurd hone (by decide)
  · rintro rfl l h
    rw [number_pair]
    rfl

/-- Two registers that are there. -/
theorem registerWordsToBytes_two {registry : Int → Option Word} {a : Int} {l h : Word}
    (order : WordOrder) (hl : registry a = some l) (hh : registry (a + 1) = some h) :
    registerWordsToBytes registry a 2 order [] =
      some (ProtocolGateway.registerWordsToBytes order [l, h]) := by
  simp [registerWordsToBytes, List.range_succ, hl, hh]

/-- A register that is absent. -/
theorem registerWordsToBytes_none {registry : Int → Option Word} {a : Int} {k count : Nat}
    (order : WordOrder) (hk : k < count) (h : registry (a + k) = none) :
    registerWordsToBytes registry a count order [] = none := by
  rw [registerWordsToBytes, Option.map_eq_none_iff, ← Option.not_isSome_iff_eq_none]
  intro hsome
  have := Cell.mapM_isSome_iff.mp hsome k (List.mem_range.mpr hk)
  rw [List.getD_nil, h] at this
  cases this

/-! ## Which types decode to the halves -/

/-- The types whose values are numbers of one register. -/
def IsOneWord : DataType → Prop
  | .ushort | .short | .byte | .bit _ | .sBit _ | .smBit _ => True
  | _ => False

/-- They stay below the worth of the high word. -/
theorem decodeUshort_lt {order : WordOrder} {registry : Int → Option Word} {e : RegistryMapEntry}
    (htype : IsOneWord e.dataType) {i : Int}
    (h : ps.decodeUshort order registry e = .ok (some (.int i))) : i < 65537 := by
  cases hword : wordAt registry e.register with
  | error err =>
    cases hdata : e.dataType with
    | ushort | short | byte | bit | sBit | smBit =>
      simp only [decodeUshort, hdata, hword] at h
      cases h
    | _ =>
      rw [hdata] at htype
      exact htype.elim
  | ok w =>
    have hw := w.isLt
    have horient := (w.orient order.bytesReversed).isLt
    have hpow {n : Nat} (hn : n ≤ 16) : 2 ^ n ≤ 65536 := Nat.pow_le_pow_right (by decide) hn
    cases hdata : e.dataType with
    | ushort =>
      simp only [decodeUshort, hdata, hword] at h
      obtain rfl : ((w.orient order.bytesReversed).toNat : Int) = i := by simpa [Except.map] using h
      omega
    | short =>
      simp only [decodeUshort, hdata, hword] at h
      have hi : (if (w.orient order.bytesReversed).toNat.testBit 15 then
          ((w.orient order.bytesReversed).toNat : Int) - 2 ^ 16
        else ((w.orient order.bytesReversed).toNat : Int)) = i := by simpa [Except.map] using h
      split at hi <;> omega
    | byte =>
      simp only [decodeUshort, hdata, hword] at h
      obtain rfl : ((w.orient order.bytesReversed).lo.toNat : Int) = i := by
        simpa [Except.map] using h
      have := (w.orient order.bytesReversed).lo.isLt
      omega
    | bit n =>
      simp only [decodeUshort, hdata, hword] at h
      obtain rfl : (BitField.field e.startBit n.val (w.orient order.bytesReversed).toNat : Int) = i
        := by simpa [Except.map] using h
      have := BitField.field_lt e.startBit n.val (w.orient order.bytesReversed).toNat
      have := hpow n.2.2
      omega
    | sBit n =>
      simp only [decodeUshort, hdata, hword] at h
      have hlt := BitField.field_lt e.startBit n.val (w.orient order.bytesReversed).toNat
      have hn := hpow n.2.2
      have hi : (if (BitField.field e.startBit n.val (w.orient order.bytesReversed).toNat).testBit
          (n.val - 1) then
          (BitField.field e.startBit n.val (w.orient order.bytesReversed).toNat : Int) - 2 ^ n.val
        else BitField.field e.startBit n.val (w.orient order.bytesReversed).toNat) = i := by
        simpa [Except.map] using h
      have hnonneg : (0 : Int) ≤ 2 ^ n.val := by exact_mod_cast Nat.zero_le _
      split at hi <;> omega
    | smBit n =>
      simp only [decodeUshort, hdata, hword] at h
      have hlt := BitField.field_lt (e.startBit + 1) (n.val - 1)
        (w.orient order.bytesReversed).toNat
      have hn := hpow (Nat.le_trans (Nat.sub_le n.val 1) n.2.2)
      have hi : (if (w.orient order.bytesReversed).toNat.testBit e.startBit then
          -(BitField.field (e.startBit + 1) (n.val - 1)
            (w.orient order.bytesReversed).toNat : Int)
        else BitField.field (e.startBit + 1) (n.val - 1)
            (w.orient order.bytesReversed).toNat) = i := by
        simpa [Except.map] using h
      split at hi <;> omega
    | _ =>
      rw [hdata] at htype
      exact htype.elim

/-- The types whose values are no integers. -/
def IsNoInteger : DataType → Prop
  | .float32 | .float64 | .bit8Flags | .bit16Flags | .bit32Flags | .hex | .ascii | .string
  | .string16 | .string32 => True
  | _ => False

theorem decodeUshort_ne_int {order : WordOrder} {registry : Int → Option Word}
    {e : RegistryMapEntry} (htype : IsNoInteger e.dataType) (i : Int) :
    ps.decodeUshort order registry e ≠ .ok (some (.int i)) := by
  intro h
  cases hdata : e.dataType with
  | float32 | float64 | bit32Flags =>
    simp only [decodeUshort, hdata] at h
    split at h
    · obtain ⟨_, -, hvalue⟩ := map_eq_ok_iff.mp h
      cases hvalue
    · cases h
  | bit8Flags | bit16Flags =>
    simp only [decodeUshort, hdata] at h
    obtain ⟨w, -, hw⟩ := bind_eq_ok_iff.mp h
    obtain ⟨flags, -, hvalue⟩ := bind_eq_ok_iff.mp hw
    cases hvalue
  | hex =>
    simp only [decodeUshort, hdata] at h
    obtain ⟨w, -, hvalue⟩ := map_eq_ok_iff.mp h
    cases hvalue
  | ascii | string | string16 | string32 =>
    simp only [decodeUshort, hdata, Except.ok.injEq, Option.map_eq_some_iff] at h
    obtain ⟨raw, -, hraw⟩ := h
    cases hraw
  | _ =>
    rw [hdata] at htype
    exact htype.elim

/-! ## Which pairs decode to their halves -/

section Pair

variable {low high : RegistryMapEntry}

/-- The registers of the two rows, with a word of ones in each, and no others. -/
def halvesOnly (low high : RegistryMapEntry) (w : Word) : Int → Option Word := fun a =>
  if a = low.register ∨ a = high.register then some w else none

theorem halvesOnly_none {a : Int} {w : Word} (hlow : a ≠ low.register)
    (hhigh : a ≠ high.register) : halvesOnly low high w a = none :=
  if_neg (not_or.mpr ⟨hlow, hhigh⟩)

theorem halvesOnly_low (w : Word) : halvesOnly low high w low.register = some w :=
  if_pos (Or.inl rfl)

theorem halvesOnly_high (w : Word) : halvesOnly low high w high.register = some w :=
  if_pos (Or.inr rfl)

/-- What an entry has to decode to when both halves hold the same word. -/
theorem DecodesHalves.halvesOnly {merged : RegistryMapEntry}
    (h : ps.DecodesHalves low high merged) (w : Word) :
    ps.decodeUshort (merged.getEntryByteorder ps.defaultWordOrder)
      (halvesOnly low high w) merged = .ok (some (.int (w.toNat * 65536 + w.toNat : Nat))) :=
  h _ w w (halvesOnly_low w) (halvesOnly_high w)

/-- **A merged entry decodes to its halves** if the word order is low word first, the `_h` row
follows the `_l` row and the type is an unsigned 32-bit one, and in no other case. -/
theorem decodesHalves_iff {merged : RegistryMapEntry} (hregister : merged.register = low.register)
    (hlist : merged.registerList = []) :
    ps.DecodesHalves low high merged ↔ high.register = low.register + 1 ∧
      merged.getEntryByteorder ps.defaultWordOrder = .cdab ∧ IsUnsigned32 merged.dataType := by
  generalize horder : merged.getEntryByteorder ps.defaultWordOrder = order
  constructor
  · intro h
    -- the address: with no other registers there is nothing to join
    have hbytes (w : Word) (count : Nat) (hcount : 2 ≤ count)
        (hnext : high.register ≠ low.register + 1 ∨ 2 < count) :
        registerWordsToBytes (halvesOnly low high w) merged.register count order
          merged.registerList = none := by
      rw [hlist, hregister]
      by_cases hfollows : high.register = low.register + 1
      · refine registerWordsToBytes_none (k := 2) order ?_ (halvesOnly_none ?_ ?_) <;> omega
      · refine registerWordsToBytes_none (k := 1) order hcount (halvesOnly_none ?_ ?_) <;> omega
    have htype : merged.dataType = .int ∨ IsUnsigned32 merged.dataType := by
      have hone := h.halvesOnly 1
      rw [horder] at hone
      cases hdata : merged.dataType with
      | uint | acc32 => simp [IsUnsigned32]
      | int => exact Or.inl rfl
      | ushort | short | byte | bit | sBit | smBit =>
        have hlt := decodeUshort_lt (by rw [hdata]; trivial) hone
        exact absurd hlt (by decide)
      | uint64 | int64 =>
        simp only [decodeUshort, hdata, hbytes 1 4 (by omega) (Or.inr (by omega))] at hone
        cases hone
      | _ => exact absurd hone (decodeUshort_ne_int (by rw [hdata]; trivial) _)
    have hnext : high.register = low.register + 1 := by
      by_contra hnext
      have hone := h.halvesOnly 1
      rw [horder] at hone
      have hnone := hbytes 1 2 (Nat.le_refl 2) (Or.inl hnext)
      rcases htype with hdata | hdata | hdata
      · simp only [decodeUshort, hdata, hnone] at hone
        cases hone
      · simp only [decodeUshort, hdata, hnone] at hone
        cases hone
      · simp only [decodeUshort, hdata, hnone] at hone
        cases hone
    have hdecodes (l h' : Word) : ps.decodeUshort order
        (fun a => if a = low.register then some l else some h') merged =
          .ok (some (.int (h'.toNat * 65536 + l.toNat : Nat))) := by
      rw [← horder]
      refine h _ l h' (if_pos rfl) (if_neg ?_)
      omega
    have hwords (l h' : Word) : registerWordsToBytes
        (fun a => if a = low.register then some l else some h') merged.register 2 order
          merged.registerList = some (ProtocolGateway.registerWordsToBytes order [l, h']) := by
      rw [hlist, hregister]
      refine registerWordsToBytes_two order (if_pos rfl) (if_neg ?_)
      omega
    have hunsigned : IsUnsigned32 merged.dataType := by
      refine htype.resolve_left fun hdata => ?_
      -- two words of ones are minus one, whatever the order is
      have hones := hdecodes (BitVec.allOnes 16) (BitVec.allOnes 16)
      simp only [decodeUshort, hdata, hwords, Option.map_some, Except.ok.injEq,
        Option.some.injEq, PyValue.int.injEq] at hones
      rcases order with ⟨_ | _, _ | _⟩ <;> exact absurd hones (by decide)
    refine ⟨hnext, (number_pair_iff order).mp fun l h' => ?_, hunsigned⟩
    have hvalue := hdecodes l h'
    rcases hunsigned with hdata | hdata
    · simpa only [decodeUshort, hdata, hwords, Option.map_some, Except.ok.injEq,
        Option.some.injEq, PyValue.int.injEq, Int.natCast_inj] using hvalue
    · simpa only [decodeUshort, hdata, hwords, Option.map_some, Except.ok.injEq,
        Option.some.injEq, PyValue.int.injEq, Int.natCast_inj] using hvalue
  · rintro ⟨hnext, rfl, hdata⟩ registry l h' hl hh
    have hbytes : registerWordsToBytes registry merged.register 2 .cdab merged.registerList =
        some (ProtocolGateway.registerWordsToBytes .cdab [l, h']) := by
      rw [hlist, hregister]
      exact registerWordsToBytes_two .cdab hl (hnext ▸ hh)
    have hnumber := (number_pair_iff .cdab).mpr rfl l h'
    rw [horder]
    rcases hdata with hdata | hdata
    · simp only [decodeUshort, hdata, hbytes, Option.map_some, hnumber]
    · simp only [decodeUshort, hdata, hbytes, Option.map_some, hnumber]

/-- The type of a merged entry. -/
theorem isUnsigned32_mergePair : IsUnsigned32 (mergePair low high).dataType ↔
    low.dataType = .ushort ∧ (high.dataType = .ushort ∨ IsUnsigned32 high.dataType) ∨
      IsUnsigned32 low.dataType := by
  have htype : (mergePair low high).dataType = if low.dataType = .ushort then
      if high.dataType ≠ .ushort then high.dataType else .uint else low.dataType := rfl
  rw [htype]
  by_cases hlow : low.dataType = .ushort
  · rw [if_pos hlow]
    have hnot : ¬IsUnsigned32 low.dataType := by simp [IsUnsigned32, hlow]
    by_cases hhigh : high.dataType = .ushort
    · simp [hlow, hhigh, IsUnsigned32]
    · rw [if_pos hhigh]
      simp [hlow, hhigh, IsUnsigned32]
  · rw [if_neg hlow]
    simp [hlow]

/-- The word order of a merged entry is that of the row whose adjustments it keeps. -/
theorem getEntryByteorder_mergePair (defaultWordOrder : WordOrder) :
    (mergePair low high).getEntryByteorder defaultWordOrder =
      (if low.adjustments.isEmpty then high else low).getEntryByteorder defaultWordOrder := by
  have hadjustments : (mergePair low high).adjustments =
      (if low.adjustments.isEmpty then high else low).adjustments :=
    (apply_ite RegistryMapEntry.adjustments _ _ _).symm
  rw [RegistryMapEntry.getEntryByteorder, RegistryMapEntry.getEntryByteorder,
    RegistryMapEntry.getAdjustment, RegistryMapEntry.getAdjustment, hadjustments]

theorem decodesHalves_mergePair_iff (hlow : low.PlainAddress) :
    ps.DecodesHalves low high (mergePair low high) ↔ ps.LowFirst low high := by
  have hregister : (mergePair low high).register = low.register := rfl
  rw [decodesHalves_iff hregister hlow.list, isUnsigned32_mergePair, getEntryByteorder_mergePair]
  exact ⟨fun ⟨hnext, horder, htype⟩ => ⟨hnext, horder, htype⟩,
    fun ⟨hnext, horder, htype⟩ => ⟨hnext, horder, htype⟩⟩

end Pair

/-! ## The merge loop -/

/-- An `_h` row is no `_l` row. -/
theorem isPair_high {low high : RegistryMapEntry} (h : isPair low high = true)
    (next : RegistryMapEntry) : isPair high next = false := by
  rw [isPair, Bool.and_eq_true, beq_iff_eq] at h
  rw [isPair, Bool.and_eq_false_iff]
  refine Or.inl (Bool.eq_false_iff.mpr fun hsuffix => ?_)
  rw [List.isSuffixOf_iff_suffix, h.2, String.toList_append] at hsuffix
  obtain ⟨s, hs⟩ := hsuffix
  have hlast := congrArg List.getLast? hs
  simp at hlast

/-- The pairs of a map become one entry each, in one pass from the start. -/
def replacePairs : List RegistryMapEntry → List RegistryMapEntry
  | low :: high :: rows =>
    if isPair low high then mergePair low high :: replacePairs rows
    else low :: replacePairs (high :: rows)
  | rows => rows

theorem replacePairs_pair {low high : RegistryMapEntry} (h : isPair low high = true)
    (rows : List RegistryMapEntry) :
    replacePairs (low :: high :: rows) = mergePair low high :: replacePairs rows := by
  rw [replacePairs, if_pos h]

theorem replacePairs_keep {row : RegistryMapEntry} {rows : List RegistryMapEntry}
    (h : ∀ next, rows.head? = some next → isPair row next = false) :
    replacePairs (row :: rows) = row :: replacePairs rows := by
  cases rows with
  | nil => rfl
  | cons next rows =>
    rw [replacePairs, if_neg]
    rw [h next rfl]
    exact Bool.false_ne_true

theorem mergePairs_keep {row : RegistryMapEntry} {rows : List RegistryMapEntry}
    (h : ∀ next, (mergePairs rows).head? = some next → isPair row next = false) :
    mergePairs (row :: rows) = row :: mergePairs rows := by
  rw [mergePairs]
  split
  · next hnil => rw [hnil]
  · next next rest hrows =>
    have hnext : isPair row next = false := h next (by rw [hrows]; rfl)
    rw [hnext, hrows]
    rfl

theorem mergePairs_pair {low high : RegistryMapEntry} (h : isPair low high = true)
    (rows : List RegistryMapEntry) :
    mergePairs (low :: high :: rows) = mergePair low high :: mergePairs rows := by
  have hhigh : mergePairs (high :: rows) = high :: mergePairs rows :=
    mergePairs_keep fun next _ => isPair_high h next
  rw [mergePairs, hhigh]
  exact if_pos h

theorem Unchained.tail {row : RegistryMapEntry} {rows : List RegistryMapEntry}
    (h : Unchained (row :: rows)) : Unchained rows :=
  fun a low high hpart => h a low high (hpart.trans (List.suffix_cons row rows).isInfix)

/-- **The loop** replaces the pairs of the map if they are not chained, and makes fewer entries if
they are. -/
theorem mergePairs_cases (rows : List RegistryMapEntry) :
    (Unchained rows ∧ mergePairs rows = replacePairs rows) ∨
      (¬Unchained rows ∧ (mergePairs rows).length < (replacePairs rows).length) := by
  induction rows using replacePairs.induct with
  | case1 low high rows hpair ih =>
    rw [mergePairs_pair hpair, replacePairs_pair hpair]
    rcases ih with ⟨hunchained, heq⟩ | ⟨hchained, hlt⟩
    · refine Or.inl ⟨fun row l h hpart hlh => ?_, congrArg _ heq⟩
      rcases List.infix_cons_iff.mp hpart with hstart | hpart
      · -- the first row of a chain would be the `_l` row, the second one the `_h` row
        obtain ⟨rest, hrest⟩ := hstart
        obtain ⟨rfl, -⟩ := List.cons.inj (List.cons.inj hrest).2
        rw [isPair_high hpair] at hlh
        cases hlh
      · rcases List.infix_cons_iff.mp hpart with hstart | hpart
        · obtain ⟨rest, hrest⟩ := hstart
          obtain ⟨rfl, -⟩ := List.cons.inj hrest
          exact isPair_high hpair _
        · exact hunchained row l h hpart hlh
    · exact Or.inr ⟨fun hunchained => hchained hunchained.tail.tail, Nat.succ_lt_succ hlt⟩
  | case2 low high rows hpair ih =>
    have hkeep : replacePairs (low :: high :: rows) = low :: replacePairs (high :: rows) := by
      rw [replacePairs, if_neg hpair]
    rw [hkeep]
    rcases ih with ⟨hunchained, heq⟩ | ⟨hchained, hlt⟩
    · by_cases hhead : ∃ next, (mergePairs (high :: rows)).head? = some next ∧
          isPair low next = true
      · obtain ⟨next, hnext, hmerged⟩ := hhead
        obtain ⟨rest, hrest⟩ := List.head?_eq_some_iff.mp hnext
        have hshort : mergePairs (low :: high :: rows) = mergePair low next :: rest := by
          rw [mergePairs, hrest]
          exact if_pos hmerged
        refine Or.inr ⟨fun hall => ?_, ?_⟩
        · -- what the row merges with is a pair, as it is no half of the row that follows it
          have hsecond : ∀ after, rows.head? = some after → isPair high after = false := by
            intro after hafter
            refine Bool.eq_false_iff.mpr fun hlh => ?_
            obtain ⟨tail, rfl⟩ := List.head?_eq_some_iff.mp hafter
            rw [mergePairs_pair hlh] at hnext
            obtain rfl := Option.some.inj hnext
            rw [hall low high after ⟨[], tail, rfl⟩ hlh] at hmerged
            cases hmerged
          rw [heq, replacePairs_keep hsecond] at hnext
          obtain rfl := Option.some.inj hnext
          exact hpair hmerged
        · rw [hshort, ← heq, hrest]
          simp
      · have hnone : ∀ next, (mergePairs (high :: rows)).head? = some next →
            isPair low next = false := fun next hnext =>
          Bool.eq_false_iff.mpr fun htrue => hhead ⟨next, hnext, htrue⟩
        refine Or.inl ⟨fun row l h hpart hlh => ?_, ?_⟩
        · rcases List.infix_cons_iff.mp hpart with hstart | hpart
          · obtain ⟨rest, hrest⟩ := hstart
            obtain ⟨rfl, htail⟩ := List.cons.inj hrest
            obtain ⟨rfl, hrows⟩ := List.cons.inj htail
            obtain rfl : h :: rest = rows := hrows
            refine hnone _ ?_
            rw [mergePairs_pair hlh]
            rfl
          · exact hunchained row l h hpart hlh
        · rw [mergePairs_keep hnone, heq]
    · refine Or.inr ⟨fun hunchained => hchained hunchained.tail, ?_⟩
      have hle : (mergePairs (low :: high :: rows)).length ≤
          (mergePairs (high :: rows)).length + 1 := by
        rw [mergePairs]
        split
        · simp
        · next next rest hrest =>
          rw [hrest]
          split <;> simp
      rw [List.length_cons]
      omega
  | case3 rows hshort =>
    have hlength : rows.length ≤ 1 := by
      rcases rows with _ | ⟨low, _ | ⟨high, rows⟩⟩
      · simp
      · simp
      · exact (hshort low high rows rfl).elim
    refine Or.inl ⟨fun row low high hpart => ?_, ?_⟩
    · have := hpart.length_le
      simp only [List.length_cons, List.length_nil] at this
      omega
    · rcases rows with _ | ⟨row, _ | ⟨next, rows⟩⟩
      · rfl
      · rfl
      · exact (hshort row next rows rfl).elim

/-! ## From the promise to the condition -/

/-- A row more makes an entry more at most. -/
theorem length_replacePairs_cons (row : RegistryMapEntry) (rows : List RegistryMapEntry) :
    (replacePairs (row :: rows)).length ≤ (replacePairs rows).length + 1 := by
  cases rows with
  | nil => simp [replacePairs]
  | cons next rows =>
    by_cases hpair : isPair row next = true
    · rw [replacePairs_pair hpair, replacePairs_keep fun after _ => isPair_high hpair after]
      simp
    · rw [replacePairs, if_neg hpair]
      simp

/-- What is merged as promised is no shorter than the pairs of the map ask for. -/
theorem Merged.length_le {rows result : List RegistryMapEntry} (h : ps.Merged rows result) :
    (replacePairs rows).length ≤ result.length := by
  induction h with
  | nil => exact Nat.le_refl _
  | halves halves _ _ ih =>
    rw [replacePairs_pair halves.pair]
    exact Nat.succ_le_succ ih
  | keep other _ ih => exact Nat.le_trans (length_replacePairs_cons _ _) (Nat.succ_le_succ ih)

/-- A result that replaces the pairs of the map as promised has plain pairs that decode to their
halves. -/
theorem Merged.pairs {rows result : List RegistryMapEntry} (h : ps.Merged rows result)
    (hresult : result = replacePairs rows) :
    ∀ low high, [low, high] <:+: rows → isPair low high = true →
      low.PlainAddress ∧ high.PlainAddress ∧ ps.DecodesHalves low high (mergePair low high) := by
  induction h with
  | nil =>
    intro low high hpart
    cases List.eq_nil_of_infix_nil hpart
  | @halves low high merged rows result halves decodes _ ih =>
    rw [replacePairs_pair halves.pair] at hresult
    obtain ⟨rfl, hrest⟩ := List.cons.inj hresult
    intro l h hpart hpair
    rcases List.infix_cons_iff.mp hpart with ⟨rest, hstart⟩ | hpart
    · obtain ⟨rfl, htail⟩ := List.cons.inj hstart
      obtain ⟨rfl, -⟩ := List.cons.inj htail
      exact ⟨halves.low, halves.high, decodes⟩
    · rcases List.infix_cons_iff.mp hpart with ⟨rest, hstart⟩ | hpart
      · obtain ⟨rfl, -⟩ := List.cons.inj hstart
        rw [isPair_high halves.pair] at hpair
        cases hpair
      · exact ih hrest l h hpart hpair
  | @keep row rows result other hmerged ih =>
    -- a pair at the head would have become one entry, and left too few
    have hhead : ∀ next, rows.head? = some next → isPair row next = false := by
      intro next hnext
      refine Bool.eq_false_iff.mpr fun hpair => ?_
      obtain ⟨rest, rfl⟩ := List.head?_eq_some_iff.mp hnext
      rw [replacePairs_pair hpair] at hresult
      have hle := hmerged.length_le
      rw [replacePairs_keep fun after _ => isPair_high hpair after,
        (List.cons.inj hresult).2] at hle
      simp at hle
    rw [replacePairs_keep hhead] at hresult
    intro low high hpart hpair
    rcases List.infix_cons_iff.mp hpart with ⟨rest, hstart⟩ | hpart
    · obtain ⟨rfl, htail⟩ := List.cons.inj hstart
      have hnone := hhead high (by rw [← htail]; rfl)
      rw [hpair] at hnone
      cases hnone
    · exact ih (List.cons.inj hresult).2 low high hpart hpair

/-- Replacing plain pairs that decode to their halves is what is promised. -/
theorem merged_replacePairs {rows : List RegistryMapEntry}
    (h : ∀ low high, [low, high] <:+: rows → isPair low high = true →
      low.PlainAddress ∧ high.PlainAddress ∧ ps.DecodesHalves low high (mergePair low high)) :
    ps.Merged rows (replacePairs rows) := by
  induction rows using replacePairs.induct with
  | case1 low high rows hpair ih =>
    rw [replacePairs_pair hpair]
    obtain ⟨hlow, hhigh, hdecodes⟩ := h low high ⟨[], rows, rfl⟩ hpair
    exact .halves ⟨hpair, hlow, hhigh⟩ hdecodes
      (ih fun l h' hpart => h l h' (hpart.trans ⟨[low, high], [], by simp⟩))
  | case2 low high rows hpair ih =>
    have hhead : ∀ next, (high :: rows).head? = some next → isPair low next = false := by
      intro next hnext
      obtain rfl : high = next := Option.some.inj hnext
      simpa using hpair
    rw [replacePairs_keep hhead]
    refine .keep (fun next hnext halves => ?_)
      (ih fun l h' hpart => h l h' (hpart.trans (List.suffix_cons _ _).isInfix))
    have hnone := hhead next hnext
    rw [halves.pair] at hnone
    cases hnone
  | case3 rows hshort =>
    rcases rows with _ | ⟨row, _ | ⟨next, rows⟩⟩
    · exact .nil
    · exact .keep (fun next hnext => by cases hnext) .nil
    · exact (hshort row next rows rfl).elim

variable (ps)

/-- **Merged halves.** In a map all `_l`/`_h` pairs become entries that decode to their halves, and
everything else is kept, if and only if the pairs are mergeable. -/
theorem merged_iff (rows : List RegistryMapEntry) :
    ps.Merged rows (mergePairs rows) ↔ ps.Mergeable rows := by
  constructor
  · intro h
    rcases mergePairs_cases rows with ⟨hunchained, heq⟩ | ⟨-, hlt⟩
    · refine ⟨fun low high hpart hpair => ?_, hunchained⟩
      obtain ⟨hlow, hhigh, hdecodes⟩ := h.pairs heq low high hpart hpair
      exact ⟨hlow, hhigh, (decodesHalves_mergePair_iff hlow).mp hdecodes⟩
    · exact absurd h.length_le (Nat.not_le_of_lt hlt)
  · rintro ⟨hpairs, hunchained⟩
    have heq : mergePairs rows = replacePairs rows := by
      rcases mergePairs_cases rows with ⟨-, heq⟩ | ⟨hchained, -⟩
      · exact heq
      · exact absurd hunchained hchained
    rw [heq]
    refine merged_replacePairs fun low high hpart hpair => ?_
    obtain ⟨hlow, hhigh, hfirst⟩ := hpairs low high hpart hpair
    exact ⟨hlow, hhigh, (decodesHalves_mergePair_iff hlow).mpr hfirst⟩

end ProtocolSettings

/-! ### A pair without an order -/

/-- Two rows with consecutive addresses and no adjustments. -/
def energyRows : List Row :=
  [{ cell := "0", variableName := "energy_l" }, { cell := "1", variableName := "energy_h" }]

/-- Under the default word order, high word first, their halves are swapped. -/
theorem not_merged_default : ∃ rows, processRows .holding false [] energyRows = some rows ∧
    ¬({} : ProtocolSettings).Merged rows (ProtocolSettings.mergePairs rows) := by
  refine ⟨_, rfl, fun h => ?_⟩
  obtain ⟨hlow, -, hdecodes⟩ := h.pairs rfl _ _ List.infix_rfl (by decide)
  have horder := ((ProtocolSettings.decodesHalves_mergePair_iff hlow).mp hdecodes).order
  exact absurd horder (by decide)

end ProtocolGateway
