import Mathlib.Data.List.Forall2
import Mathlib.Data.List.TakeDrop
import ProtocolGateway.Loader

/-!
# The grammar of the register cell

What a cell of the `register` column means, apart from how the loader reads it. A cell spells one
of three forms, once it is lowered and stripped:

* a single address, decimal or hexadecimal, with an optional bit range or byte offset;
* an underscore list of addresses, from the low to the high significance;
* a range of addresses, ascending or `r`-reversed.

The documentation asks that a cell which spells none of them is skipped, never partly parsed. The
loader tries its recognisers one after the other, and what the regular expressions reject may
still be a number for `strtoint`: a blank cell is register 0 and `-5` is register -5. Here is
which cells are read as they are meant (`readsAsSpelled_iff`).
-/

namespace ProtocolGateway

open Text

namespace Cell

/-! ## The documented forms -/

/-- The text of an address: a decimal number, or a hexadecimal one after `0x` or `x`. -/
inductive AddressText : List Char → Nat → Prop
  | decimal {ds n} (digits : ds ≠ []) (value : readDigits decDigit? 10 0 ds = some n) :
      AddressText ds n
  | hex {ds n} (digits : ds ≠ []) (value : readDigits hexDigit? 16 0 ds = some n) :
      AddressText ('x' :: ds) n
  | zeroHex {ds n} (digits : ds ≠ []) (value : readDigits hexDigit? 16 0 ds = some n) :
      AddressText ('0' :: 'x' :: ds) n

/-- The text of a bit number or a byte offset: one or two digits. -/
structure ShortNumber (ds : List Char) (n : Nat) : Prop where
  digits : ds ≠ []
  short : ds.length ≤ 2
  value : readDigits decDigit? 10 0 ds = some n

/-- The part of a register an entry takes. -/
inductive Offset
  | whole
  | bits (first last : Nat)
  | byte (n : Nat)

/-- The text of an offset. -/
inductive OffsetText : List Char → Offset → Prop
  | whole : OffsetText [] .whole
  | bit {ds n} (number : ShortNumber ds n) : OffsetText ('.' :: 'b' :: ds) (.bits n n)
  | bits {ds es n m} (first : ShortNumber ds n) (last : ShortNumber es m) :
      OffsetText ('.' :: 'b' :: (ds ++ '-' :: es)) (.bits n m)
  | bitsB {ds es n m} (first : ShortNumber ds n) (last : ShortNumber es m) :
      OffsetText ('.' :: 'b' :: (ds ++ '-' :: 'b' :: es)) (.bits n m)
  | byte {ds n} (number : ShortNumber ds n) : OffsetText ('.' :: ds) (.byte n)

/-- What a cell can mean. -/
inductive Form
  | single (address : Nat) (offset : Offset)
  /-- the addresses from the low to the high significance -/
  | list (addresses : List Nat)
  /-- from the smaller address to the larger one, read downwards if `reversed` -/
  | range (reversed : Bool) (first last : Nat)

/-- The two separators of a range. -/
def isRangeSep (c : Char) : Bool := c = '-' || c = '~'

/-- **The documented grammar**, on a lowered and stripped cell. -/
inductive Spells : List Char → Form → Prop
  | single {s t a o} (address : AddressText s a) (offset : OffsetText t o) :
      Spells (s ++ t) (.single a o)
  | list {s as} (separator : '_' ∈ s)
      (tokens : List.Forall₂ (fun tok a => AddressText (strip tok) a) (split '_' s) as) :
      Spells s (.list as)
  | ascending {s t a b sep} (first : AddressText s a) (last : AddressText t b)
      (separator : isRangeSep sep) (order : a ≤ b) : Spells (s ++ sep :: t) (.range false a b)
  | reversed {s t a b sep} (first : AddressText s a) (last : AddressText t b)
      (separator : isRangeSep sep) (order : a ≤ b) : Spells ('r' :: (s ++ sep :: t)) (.range true a b)

/-- The addresses a form denotes, in the order in which they are read. -/
def Form.addresses : Form → List Int
  | .single a _ => [(a : Int)]
  | .list as => as.map fun a : Nat => (a : Int)
  | .range reversed a b =>
    let up := Cell.ascending a (b + 1 - a)
    if reversed then up.reverse else up

/-- The offset a form denotes. -/
def Form.offset : Form → Offset
  | .single _ o => o
  | _ => .whole

end Cell

open Cell

/-! ## What the entries of a row say -/

/-- The addresses an entry has of its own. -/
def RegistryMapEntry.ownAddresses (e : RegistryMapEntry) : List Int :=
  if e.registerList = [] then [e.register] else e.registerList

/-- The entry takes the part of its register that the offset names. -/
def Cell.Offset.Taken (e : RegistryMapEntry) : Offset → Prop
  | .whole => e.registerBit = -1 ∧ e.registerBitEnd = -1 ∧ e.registerByte ≤ 0
  | .bits n m => e.registerBit = n ∧ e.registerBitEnd = m ∧ e.registerByte = 0
  | .byte n => e.registerBit = -1 ∧ e.registerBitEnd = -1 ∧ e.registerByte = n

/-- The entries of a row are those of the form: their own addresses are the addresses of the form,
each once, a range is read in the order of the form, and every entry takes the form's offset. -/
structure Cell.Form.EntriesOf (form : Form) (items : List RegistryMapEntry) : Prop where
  addresses : (items.flatMap RegistryMapEntry.ownAddresses).Perm form.addresses
  order : ∀ e ∈ items, e.concatenate = true → e.concatenateRegisters = form.addresses
  offset : ∀ e ∈ items, form.offset.Taken e

/-- **The promise**: the row is read to its end, and it makes either no entry at all or exactly the
entries of a form that its cell spells. -/
def ReadsAsSpelled (cell : List Char) (result : Option (List RegistryMapEntry × List String)) :
    Prop :=
  ∃ items ids, result = some (items, ids) ∧
    (items = [] ∨ ∃ form, Spells (strip (lower cell)) form ∧ form.EntriesOf items)

/-- No sign in front. -/
def Unsigned (s : List Char) : Prop := s.head? ≠ some '+' ∧ s.head? ≠ some '-'

/-- The condition, recogniser by recogniser. A list must not have a signed token, a single register
not both a bit and a byte offset, and a range must have two numbers for its ends, the second one
not below the first. What is left to `strtoint` must be no number for it, or not be blank, signed
or a hexadecimal number with underscores in it. -/
def Cell.Regular (cell : List Char) : Prop :=
  match lowHigh? (lower cell) with
  | some _ => ∀ tok ∈ split '_' (strip (lower cell)), Unsigned (strip tok)
  | none =>
    match register? (lower cell) with
    | some (some _) => (strip (lower cell)).count '.' ≤ 1
    | some none => True
    | none =>
      match range? (lower cell) with
      | some (_, start, last) => ∃ a ∈ strtoint start, ∃ b ∈ strtoint last, a ≤ b
      | none =>
        '[' ∈ lower cell ∨ strtoint (lower cell) = none ∨
          strip (lower cell) ≠ [] ∧ Unsigned (strip (lower cell)) ∧ '_' ∉ strip (lower cell)

namespace Cell

/-! ## The addresses of a form -/

/-- Every address of a form is a natural number, -/
theorem Form.nonneg (form : Form) : ∀ a ∈ form.addresses, 0 ≤ a := by
  cases form with
  | single => simp [Form.addresses]
  | list => simp [Form.addresses]
  | range reversed a b =>
    have hup : ∀ x ∈ Cell.ascending (a : Int) (b + 1 - a), 0 ≤ x := by
      intro x hx
      have := (mem_ascending.mp hx).1
      omega
    cases reversed with
    | false => exact hup
    | true => exact fun x hx => hup x (List.mem_reverse.mp hx)

/-- and so are those of its entries. -/
theorem Form.EntriesOf.nonneg {form : Form} {items : List RegistryMapEntry}
    (h : form.EntriesOf items) : ∀ e ∈ items, ∀ a ∈ e.ownAddresses, 0 ≤ a :=
  fun e he a ha => form.nonneg a (h.addresses.subset (List.mem_flatMap.mpr ⟨e, he, ha⟩))

/-! ## The characters of a form -/

/-- A number consists of digits. -/
theorem digits_of_readDigits {digit? : Char → Option Nat} {base acc n : Nat} {ds : List Char}
    (h : readDigits digit? base acc ds = some n) : ∀ c ∈ ds, (digit? c).isSome := by
  induction ds generalizing acc with
  | nil => simp
  | cons d ds ih =>
    rw [readDigits] at h
    split at h
    · next v hv =>
      intro c hc
      rcases List.mem_cons.mp hc with rfl | hc
      · rw [hv]
        rfl
      · exact ih h c hc
    · cases h

/-- The characters an address consists of. -/
def isAddressChar (c : Char) : Bool := (hexDigit? c).isSome || c = 'x'

theorem isAddressChar_of_decDigit {c : Char} (h : (decDigit? c).isSome) : isAddressChar c := by
  rw [decDigit?] at h
  split at h
  · next hc => simp [isAddressChar, hexDigit?, hc]
  · cases h

theorem isAddressChar_of_hexDigit {c : Char} (h : (hexDigit? c).isSome) : isAddressChar c := by
  simp [isAddressChar, h]

theorem AddressText.ne_nil {s : List Char} {a : Nat} (h : AddressText s a) : s ≠ [] := by
  cases h with
  | decimal digits => exact digits
  | hex => exact List.cons_ne_nil _ _
  | zeroHex => exact List.cons_ne_nil _ _

theorem AddressText.chars {s : List Char} {a : Nat} (h : AddressText s a) :
    ∀ c ∈ s, isAddressChar c := by
  intro c hc
  cases h with
  | decimal _ value => exact isAddressChar_of_decDigit (digits_of_readDigits value c hc)
  | hex _ value =>
    rcases List.mem_cons.mp hc with rfl | hc
    · rfl
    · exact isAddressChar_of_hexDigit (digits_of_readDigits value c hc)
  | zeroHex _ value =>
    rcases List.mem_cons.mp hc with rfl | hc
    · rfl
    · rcases List.mem_cons.mp hc with rfl | hc
      · rfl
      · exact isAddressChar_of_hexDigit (digits_of_readDigits value c hc)

/-- No other character is in an address. -/
theorem AddressText.notMem {s : List Char} {a : Nat} (h : AddressText s a) {c : Char}
    (hc : isAddressChar c = false) : c ∉ s := by
  intro hmem
  rw [h.chars c hmem] at hc
  cases hc

theorem ShortNumber.notMem {ds : List Char} {n : Nat} (h : ShortNumber ds n) {c : Char}
    (hc : isAddressChar c = false) : c ∉ ds := by
  intro hmem
  rw [isAddressChar_of_decDigit (digits_of_readDigits h.value c hmem)] at hc
  cases hc

/-- An offset is a dot, if anything, and no other dot. -/
theorem OffsetText.count_dot {t : List Char} {o : Offset} (h : OffsetText t o) :
    t.count '.' ≤ 1 := by
  have hshort {ds : List Char} {n : Nat} (hn : ShortNumber ds n) : ds.count '.' = 0 :=
    List.count_eq_zero.mpr (hn.notMem (by decide))
  cases h with
  | whole => simp
  | bit number => simp [hshort number]
  | bits first last => simp [List.count_append, hshort first, hshort last]
  | bitsB first last => simp [List.count_append, hshort first, hshort last]
  | byte number => simp [hshort number]

/-- An offset without a dot is none. -/
theorem OffsetText.eq_nil {t : List Char} {o : Offset} (h : OffsetText t o) (hdot : '.' ∉ t) :
    t = [] := by
  cases h with
  | whole => rfl
  | bit => simp at hdot
  | bits => simp at hdot
  | bitsB => simp at hdot
  | byte => simp at hdot

/-- An offset that is one has a dot. -/
theorem OffsetText.one_le_count_dot {t : List Char} {o : Offset} (h : OffsetText t o)
    (ho : o ≠ .whole) : 1 ≤ t.count '.' := by
  cases h with
  | whole => exact absurd rfl ho
  | bit => simp
  | bits => simp
  | bitsB => simp
  | byte => simp

theorem OffsetText.notMem {t : List Char} {o : Offset} (h : OffsetText t o) {c : Char}
    (hc : isAddressChar c = false) (hdot : c ≠ '.') (hminus : c ≠ '-') : c ∉ t := by
  have hb : c ≠ 'b' := by
    rintro rfl
    exact absurd hc (by decide)
  cases h with
  | whole => simp
  | bit number => simp [hdot, hb, number.notMem hc]
  | bits first last => simp [hdot, hb, hminus, first.notMem hc, last.notMem hc]
  | bitsB first last => simp [hdot, hb, hminus, first.notMem hc, last.notMem hc]
  | byte number => simp [hdot, number.notMem hc]

/-- No sign stands in front of an address. -/
theorem AddressText.unsigned {s : List Char} {a : Nat} (h : AddressText s a) (t : List Char) :
    Unsigned (s ++ t) := by
  obtain ⟨c, s, rfl⟩ := List.exists_cons_of_ne_nil h.ne_nil
  have hne {sign : Char} (hsign : isAddressChar sign = false) :
      (c :: s ++ t).head? ≠ some sign := by
    intro heq
    rw [List.cons_append, List.head?_cons, Option.some.injEq] at heq
    exact h.notMem hsign (heq ▸ List.mem_cons_self)
  exact ⟨hne (by decide), hne (by decide)⟩

/-- The tokens of a list, put together again. -/
theorem mem_split {sep c : Char} {s : List Char} (hc : c ∈ s) (hne : c ≠ sep) :
    ∃ tok ∈ split sep s, c ∈ tok := by
  induction s with
  | nil => cases hc
  | cons d s ih =>
    rw [split]
    split
    · next hd =>
      rcases List.mem_cons.mp hc with rfl | hc
      · exact absurd hd hne
      · obtain ⟨tok, htok, hmem⟩ := ih hc
        exact ⟨tok, List.mem_cons_of_mem _ htok, hmem⟩
    · split
      · next hnil => exact absurd hnil (split_ne_nil sep s)
      · next w ws hsplit =>
        rw [hsplit] at ih
        rcases List.mem_cons.mp hc with rfl | hc
        · exact ⟨c :: w, List.mem_cons_self, List.mem_cons_self⟩
        · obtain ⟨tok, htok, hmem⟩ := ih hc
          rcases List.mem_cons.mp htok with rfl | htok
          · exact ⟨d :: tok, List.mem_cons_self, List.mem_cons_of_mem _ hmem⟩
          · exact ⟨tok, List.mem_cons_of_mem _ htok, hmem⟩

/-- A character of a text that is no blank is left when the text is stripped. -/
theorem mem_strip {c : Char} {s : List Char} (hc : c ∈ s) (hspace : isSpace c = false) :
    c ∈ strip s := by
  have hdrop {l : List Char} (hl : c ∈ l) : c ∈ l.dropWhile isSpace := by
    have := List.takeWhile_append_dropWhile (p := isSpace) (l := l)
    rw [← this] at hl
    rcases List.mem_append.mp hl with hl | hl
    · rw [List.mem_takeWhile_imp hl] at hspace
      cases hspace
    · exact hl
  rw [strip, List.mem_reverse]
  exact hdrop (List.mem_reverse.mpr (hdrop hc))

/-- Every token of a list is an address. -/
theorem exists_addressText {tokens : List (List Char)} {as : List Nat}
    (h : List.Forall₂ (fun tok a => AddressText (strip tok) a) tokens as) :
    ∀ tok ∈ tokens, ∃ a, AddressText (strip tok) a := by
  induction h with
  | nil => simp
  | cons hab _ ih => exact List.forall_mem_cons.mpr ⟨⟨_, hab⟩, ih⟩

/-- A form has one dot at most: -/
theorem Spells.count_dot {t : List Char} {form : Form} (h : Spells t form) : t.count '.' ≤ 1 := by
  have haddress {s : List Char} {a : Nat} (hs : AddressText s a) : s.count '.' = 0 :=
    List.count_eq_zero.mpr (hs.notMem (by decide))
  have hsep {sep : Char} (hs : isRangeSep sep) : sep ≠ '.' := by
    rintro rfl
    exact absurd hs (by decide)
  cases h with
  | single address offset =>
    rw [List.count_append, haddress address, Nat.zero_add]
    exact offset.count_dot
  | list _ tokens =>
    -- no token has a dot, so the whole list has none
    suffices hdot : '.' ∉ t by simp [List.count_eq_zero.mpr hdot]
    intro hdot
    obtain ⟨tok, htok, hmem⟩ := mem_split hdot (show '.' ≠ '_' by decide)
    obtain ⟨a, ha⟩ := exists_addressText tokens tok htok
    exact ha.notMem (by decide) (mem_strip hmem (by decide))
  | ascending first last separator =>
    simp [List.count_append, haddress first, haddress last, hsep separator]
  | reversed first last separator =>
    simp [List.count_append, haddress first, haddress last, hsep separator]

/-- unless it is a list, it begins without a sign and has no underscore; -/
theorem Spells.plain {t : List Char} {form : Form} (h : Spells t form)
    (hlist : ∀ as, form ≠ .list as) : t ≠ [] ∧ Unsigned t ∧ '_' ∉ t := by
  have hsep {sep : Char} (hs : isRangeSep sep) : sep ≠ '_' := by
    rintro rfl
    exact absurd hs (by decide)
  cases h with
  | single address offset =>
    refine ⟨by simp [address.ne_nil], address.unsigned _, ?_⟩
    simp [address.notMem (show isAddressChar '_' = false by decide),
      offset.notMem (show isAddressChar '_' = false by decide)]
  | list => exact absurd rfl (hlist _)
  | ascending first last separator =>
    refine ⟨by simp, first.unsigned _, ?_⟩
    simp [first.notMem (show isAddressChar '_' = false by decide),
      last.notMem (show isAddressChar '_' = false by decide), (hsep separator).symm]
  | reversed first last separator =>
    refine ⟨by simp, by simp [Unsigned], ?_⟩
    simp [first.notMem (show isAddressChar '_' = false by decide),
      last.notMem (show isAddressChar '_' = false by decide), (hsep separator).symm]

/-- and with an underscore it is a list, of tokens without signs. -/
theorem Spells.unsigned_tokens {t : List Char} {form : Form} (h : Spells t form)
    (hunderscore : '_' ∈ t) : ∀ tok ∈ split '_' t, Unsigned (strip tok) := by
  cases h with
  | list _ tokens =>
    intro tok htok
    obtain ⟨a, ha⟩ := exists_addressText tokens tok htok
    have := ha.unsigned []
    rwa [List.append_nil] at this
  | single address offset =>
    exact absurd hunderscore ((Spells.single address offset).plain (by simp)).2.2
  | ascending first last separator order =>
    exact absurd hunderscore ((Spells.ascending first last separator order).plain (by simp)).2.2
  | reversed first last separator order =>
    exact absurd hunderscore ((Spells.reversed first last separator order).plain (by simp)).2.2

/-- A list has two addresses or more. -/
theorem Spells.two_le_length {t : List Char} {as : List Nat} (h : Spells t (.list as)) :
    2 ≤ as.length := by
  cases h with
  | list separator tokens =>
    rw [← tokens.length_eq]
    exact two_le_length_split separator

/-! ## What `strtoint` accepts -/

theorem dropUnderscores_of_notMem {may : Bool} {s : List Char} (h : '_' ∉ s) (hne : s ≠ []) :
    dropUnderscores may s = some s := by
  induction s generalizing may with
  | nil => exact absurd rfl hne
  | cons c s ih =>
    rw [List.mem_cons, not_or] at h
    have hrest : dropUnderscores true s = some s := by
      by_cases hs : s = []
      · rw [hs]
        rfl
      · exact ih h.2 hs
    rw [dropUnderscores, if_neg (Ne.symm h.1), hrest]
    rfl

/-- **A number for `strtoint`** that is neither blank nor signed and has no underscores is an
address. -/
theorem addressText_of_strtoint {s : List Char} {a : Int} (h : strtoint s = some a)
    (hne : strip (lower s) ≠ []) (hsign : Unsigned (strip (lower s)))
    (hunderscore : '_' ∉ strip (lower s)) : ∃ n : Nat, AddressText (strip (lower s)) n ∧ a = n := by
  have hhex {cs : List Char} {n : Nat} (hcs : '_' ∉ cs) (hn : hexLiteral? cs = some n) :
      cs ≠ [] ∧ readDigits hexDigit? 16 0 cs = some n := by
    rw [hexLiteral?] at hn
    by_cases hnil : cs = []
    · rw [hnil] at hn
      cases hn
    · rw [dropUnderscores_of_notMem hcs hnil] at hn
      refine ⟨hnil, ?_⟩
      split at hn
      · next heq => cases heq
      · next heq => exact absurd (Option.some.inj heq) hnil
      · next heq =>
        rw [← Option.some.inj heq] at hn
        exact hn
  rw [strtoint] at h
  generalize strip (lower s) = t at h hne hsign hunderscore
  split at h
  · exact absurd rfl hne
  · next cs =>
    obtain ⟨n, hn, rfl⟩ := Option.map_eq_some_iff.mp h
    obtain ⟨hdigits, hvalue⟩ := hhex (by simpa using hunderscore) hn
    exact ⟨n, .hex hdigits hvalue, rfl⟩
  · next cs =>
    obtain ⟨n, hn, rfl⟩ := Option.map_eq_some_iff.mp h
    obtain ⟨hdigits, hvalue⟩ := hhex (by simpa using hunderscore) hn
    exact ⟨n, .zeroHex hdigits hvalue, rfl⟩
  · have hsigned : takeSign t = (1, t) := by
      rw [takeSign]
      · rintro cs rfl
        exact hsign.1 rfl
      · rintro cs rfl
        exact hsign.2 rfl
    rw [hsigned] at h
    obtain ⟨i, hi, rfl⟩ := Option.map_eq_some_iff.mp h
    obtain ⟨n, hn, hin⟩ := Option.bind_eq_some_iff.mp hi
    obtain rfl : (n : Int) = i := Option.some.inj hin
    rw [decimal?] at hn
    split at hn
    · cases hn
    · exact ⟨n, .decimal hne hn, Int.one_mul _⟩

/-! ## What the recognisers accept -/

theorem strip_eq_self {s : List Char} (h : ∀ c ∈ s, isSpace c = false) : strip s = s := by
  rw [strip_eq_trim]
  refine Trim.Trimmed.trim_eq ⟨fun c hc => ?_, fun c hc => ?_⟩
  · simp [h c (List.mem_of_mem_head? hc)]
  · simp [h c (List.mem_of_getLast? hc)]

/-- A part of a lowered text is lowered. -/
theorem lower_eq_self_of_append {s t : List Char} (h : lower (s ++ t) = s ++ t) :
    lower s = s ∧ lower t = t := by
  rw [lower, List.map_append] at h
  exact List.append_inj h (List.length_map _)

/-- A character that a recogniser takes for a part of a number. -/
def isWordChar (c : Char) : Prop :=
  '0' ≤ c ∧ c ≤ '9' ∨ 'a' ≤ c ∧ c ≤ 'z' ∨ 'A' ≤ c ∧ c ≤ 'F'

/-- It is no blank, sign, underscore or separator. -/
theorem isWordChar.clean {c : Char} (h : isWordChar c) :
    isSpace c = false ∧ c ≠ '+' ∧ c ≠ '_' ∧ c ≠ '.' ∧ isRangeSep c = false := by
  have hbounds : 48 ≤ c.toNat ∧ c.toNat ≤ 57 ∨ 97 ≤ c.toNat ∧ c.toNat ≤ 122 ∨
      65 ≤ c.toNat ∧ c.toNat ≤ 70 := h
  have hne {d : Char} (hd : d.toNat < 48 ∨ 70 < d.toNat ∧ d.toNat < 97 ∨ 122 < d.toNat) :
      c ≠ d := by
    rintro rfl
    omega
  have hspace : isSpace c = false := by
    simp only [isSpace, Bool.or_eq_false_iff, Bool.and_eq_false_iff, decide_eq_false_iff_not,
      beq_eq_false_iff_ne]
    omega
  have hminus : c ≠ '-' := hne (by decide)
  have htilde : c ≠ '~' := hne (by decide)
  exact ⟨hspace, hne (by decide), hne (by decide), hne (by decide), by simp [isRangeSep, *]⟩

theorem isWordChar_of_decDigit {c : Char} (h : (decDigit? c).isSome) : isWordChar c := by
  rw [decDigit?] at h
  split at h
  · next hc => exact Or.inl hc
  · cases h

theorem isWordChar_of_hexDigit {c : Char} (h : (hexDigit? c).isSome) : isWordChar c := by
  rw [hexDigit?] at h
  split at h
  · next hc => exact Or.inl hc
  · split at h
    · next hc => exact Or.inr (Or.inl ⟨hc.1, Char.le_trans hc.2 (by decide)⟩)
    · split at h
      · next hc => exact Or.inr (Or.inr hc)
      · cases h

/-- A run of digits. -/
theorem digits_eq {s ds rest : List Char} (h : digits s = some (ds, rest)) :
    s = ds ++ rest ∧ ds ≠ [] ∧ ∀ c ∈ ds, (decDigit? c).isSome := by
  rw [digits, List.span_eq_takeWhile_dropWhile] at h
  split at h
  · cases h
  · next ds' rest' hne heq =>
    obtain ⟨rfl, rfl⟩ := Prod.mk.inj (Option.some.inj h)
    obtain ⟨htake, hdrop⟩ := Prod.mk.inj heq
    refine ⟨?_, ?_, fun c hc => ?_⟩
    · rw [← htake, ← hdrop, List.takeWhile_append_dropWhile]
    · rintro rfl
      exact hne rfl
    · rw [← htake] at hc
      exact List.mem_takeWhile_imp (p := fun c => (decDigit? c).isSome) hc

/-- A hexadecimal number: the text that is kept begins with the `x`. -/
theorem hexRun_eq {inClass : Char → Bool} {s reg rest : List Char}
    (h : hexRun inClass s = some (reg, rest)) :
    ∃ ds, reg = 'x' :: ds ∧ (s = 'x' :: ds ++ rest ∨ s = '0' :: 'x' :: ds ++ rest) ∧
      ∀ c ∈ ds, inClass c := by
  have hbody : ∃ cs ds, (s = 'x' :: cs ∨ s = '0' :: 'x' :: cs) ∧
      cs.span inClass = (ds, rest) ∧ reg = 'x' :: ds := by
    unfold hexRun at h
    split at h
    · next cs =>
      dsimp only at h
      split at h
      · cases h
      · next ds _ _ hspan =>
        obtain ⟨rfl, rfl⟩ := Prod.mk.inj (Option.some.inj h)
        exact ⟨cs, ds, Or.inl rfl, hspan, rfl⟩
    · next cs =>
      dsimp only at h
      split at h
      · cases h
      · next ds _ _ hspan =>
        obtain ⟨rfl, rfl⟩ := Prod.mk.inj (Option.some.inj h)
        exact ⟨cs, ds, Or.inr rfl, hspan, rfl⟩
    · cases h
  obtain ⟨cs, ds, hs, hspan, rfl⟩ := hbody
  rw [List.span_eq_takeWhile_dropWhile] at hspan
  obtain ⟨rfl, rfl⟩ := Prod.mk.inj hspan
  refine ⟨_, rfl, ?_, fun c hc => List.mem_takeWhile_imp hc⟩
  rw [List.cons_append, List.cons_append, List.cons_append, List.takeWhile_append_dropWhile]
  exact hs

/-- A number at the start of a text: what is kept is the text of the number, without the `0` that
may stand before the `x`. -/
theorem number_eq {inClass : Char → Bool} {s reg rest : List Char}
    (h : number inClass s = some (reg, rest)) :
    ∃ text, s = text ++ rest ∧ (text = reg ∨ text = '0' :: reg ∧ ∃ ds, reg = 'x' :: ds) ∧
      reg ≠ [] ∧ ∀ c ∈ reg, inClass c ∨ (decDigit? c).isSome ∨ c = 'x' := by
  rw [number] at h
  split at h
  · next r hrun =>
    obtain rfl := Option.some.inj h
    obtain ⟨ds, rfl, hs, hds⟩ := hexRun_eq hrun
    have hchars : ∀ c ∈ 'x' :: ds, inClass c ∨ (decDigit? c).isSome ∨ c = 'x' := by
      intro c hc
      rcases List.mem_cons.mp hc with rfl | hc
      · exact Or.inr (Or.inr rfl)
      · exact Or.inl (hds c hc)
    rcases hs with hs | hs
    · exact ⟨_, hs, Or.inl rfl, List.cons_ne_nil _ _, hchars⟩
    · exact ⟨_, hs, Or.inr ⟨rfl, ds, rfl⟩, List.cons_ne_nil _ _, hchars⟩
  · obtain ⟨hs, hne, hds⟩ := digits_eq h
    exact ⟨reg, hs, Or.inl rfl, hne, fun c hc => Or.inr (Or.inl (hds c hc))⟩

/-- An `x` begins hexadecimal numbers only. -/
theorem AddressText.zero {ds : List Char} {n : Nat} (h : AddressText ('x' :: ds) n) :
    AddressText ('0' :: 'x' :: ds) n := by
  cases h with
  | decimal _ value => exact absurd (digits_of_readDigits value 'x' List.mem_cons_self) (by decide)
  | hex digits value => exact .zeroHex digits value

/-- **A number a recogniser finds**, if `strtoint` can convert it, is the text of an address. -/
theorem addressText_of_number {inClass : Char → Bool} (hclass : ∀ c, inClass c → isWordChar c)
    {s reg rest : List Char} (h : number inClass s = some (reg, rest)) (hlower : lower s = s) :
    ∃ text, s = text ++ rest ∧ (∀ c ∈ text, isWordChar c) ∧
      ∀ a, strtoint reg = some a → ∃ n : Nat, AddressText text n ∧ a = n := by
  obtain ⟨text, rfl, htext, hne, hchars⟩ := number_eq h
  have hword : ∀ c ∈ reg, isWordChar c := by
    intro c hc
    rcases hchars c hc with hc | hc | rfl
    · exact hclass c hc
    · exact isWordChar_of_decDigit hc
    · exact Or.inr (Or.inl (by decide))
  have hlowered : lower text = text := (lower_eq_self_of_append hlower).1
  have hreg : lower reg = reg := by
    rcases htext with rfl | ⟨rfl, -⟩
    · exact hlowered
    · exact (List.cons.inj hlowered).2
  have hstrip : strip (lower reg) = reg := by
    rw [hreg]
    exact strip_eq_self fun c hc => (hword c hc).clean.1
  have hunsigned : Unsigned reg :=
    ⟨fun hsign => (hword _ (List.mem_of_mem_head? hsign)).clean.2.1 rfl, fun hsign =>
      absurd (hword _ (List.mem_of_mem_head? hsign)).clean.2.2.2.2 (by decide)⟩
  refine ⟨text, rfl, ?_, fun a ha => ?_⟩
  · rcases htext with rfl | ⟨rfl, -⟩
    · exact hword
    · exact List.forall_mem_cons.mpr ⟨Or.inl (by decide), hword⟩
  · obtain ⟨n, hn, rfl⟩ := addressText_of_strtoint ha (by rwa [hstrip]) (by rwa [hstrip])
      (by rw [hstrip]; exact fun hmem => (hword _ hmem).clean.2.2.1 rfl)
    rw [hstrip] at hn
    refine ⟨n, ?_, rfl⟩
    rcases htext with rfl | ⟨rfl, ds, rfl⟩
    · exact hn
    · exact hn.zero

/-! ### Offsets -/

theorem twoDigits_eq {s rest : List Char} {n : Nat} (h : twoDigits s = some (n, rest)) :
    ∃ ds, s = ds ++ rest ∧ ShortNumber ds n := by
  rw [twoDigits] at h
  split at h
  · next ds rest' hds =>
    obtain ⟨rfl, hne, -⟩ := digits_eq hds
    split at h
    · next hshort =>
      obtain ⟨m, hm, heq⟩ := Option.map_eq_some_iff.mp h
      obtain ⟨rfl, rfl⟩ := Prod.mk.inj heq
      exact ⟨ds, rfl, hne, hshort, hm⟩
    · cases h
  · cases h

/-- The bit range of a register cell: none, or the text of one. -/
theorem bitSuffix_eq {s rest : List Char} {b e : Int} (h : bitSuffix s = some ((b, e), rest)) :
    b = -1 ∧ e = -1 ∧ s = rest ∨
      ∃ t, ∃ n m : Nat, s = t ++ rest ∧ OffsetText t (.bits n m) ∧ b = n ∧ e = m := by
  unfold bitSuffix at h
  split at h
  · next cs =>
    right
    split at h
    · cases h
    · next n rest' hn =>
      obtain ⟨ds, rfl, hds⟩ := twoDigits_eq hn
      dsimp only at h
      split at h
      · next rest'' =>
        obtain ⟨⟨m, r⟩, hm, heq⟩ := Option.map_eq_some_iff.mp h
        obtain ⟨es, rfl, hes⟩ := twoDigits_eq hm
        obtain ⟨hbe, rfl⟩ := Prod.mk.inj heq
        obtain ⟨rfl, rfl⟩ := Prod.mk.inj hbe
        exact ⟨_, n, m, by simp, .bitsB hds hes, rfl, rfl⟩
      · obtain ⟨⟨m, r⟩, hm, heq⟩ := Option.map_eq_some_iff.mp h
        obtain ⟨es, rfl, hes⟩ := twoDigits_eq hm
        obtain ⟨hbe, rfl⟩ := Prod.mk.inj heq
        obtain ⟨rfl, rfl⟩ := Prod.mk.inj hbe
        exact ⟨_, n, m, by simp, .bits hds hes, rfl, rfl⟩
    · next n rest' _ hn =>
      obtain ⟨ds, rfl, hds⟩ := twoDigits_eq hn
      obtain ⟨hbe, rfl⟩ := Prod.mk.inj (Option.some.inj h)
      obtain ⟨rfl, rfl⟩ := Prod.mk.inj hbe
      exact ⟨_, n, n, by simp, .bit hds, rfl, rfl⟩
  · obtain ⟨hbe, rfl⟩ := Prod.mk.inj (Option.some.inj h)
    obtain ⟨rfl, rfl⟩ := Prod.mk.inj hbe
    exact Or.inl ⟨rfl, rfl, rfl⟩

/-- The byte offset of a register cell. -/
theorem byteSuffix_eq {s rest : List Char} {k : Int} (h : byteSuffix s = some (k, rest)) :
    k = 0 ∧ s = rest ∨ ∃ t, ∃ n : Nat, s = t ++ rest ∧ OffsetText t (.byte n) ∧ k = n := by
  unfold byteSuffix at h
  split at h
  · next cs =>
    obtain ⟨⟨n, r⟩, hn, heq⟩ := Option.map_eq_some_iff.mp h
    obtain ⟨ds, rfl, hds⟩ := twoDigits_eq hn
    obtain ⟨rfl, rfl⟩ := Prod.mk.inj heq
    exact Or.inr ⟨_, n, rfl, .byte hds, rfl⟩
  · obtain ⟨rfl, rfl⟩ := Prod.mk.inj (Option.some.inj h)
    exact Or.inl ⟨rfl, rfl⟩

/-! ### Stripped cells -/

theorem isWordChar_of_isAddressChar {c : Char} (h : isAddressChar c) : isWordChar c := by
  rw [isAddressChar, Bool.or_eq_true, decide_eq_true_eq] at h
  rcases h with h | rfl
  · exact isWordChar_of_hexDigit h
  · exact Or.inr (Or.inl (by decide))

/-- No blank is in an offset. -/
theorem OffsetText.not_space {t : List Char} {o : Offset} (h : OffsetText t o) :
    ∀ c ∈ t, isSpace c = false := by
  intro c hc
  by_cases haddress : isAddressChar c
  · exact (isWordChar_of_isAddressChar haddress).clean.1
  · by_cases hdot : c = '.'
    · rw [hdot]
      rfl
    · by_cases hminus : c = '-'
      · rw [hminus]
        rfl
      · exact absurd hc (h.notMem (by simpa using haddress) hdot hminus)

/-- Blanks at the end are stripped from a text that has none. -/
theorem strip_append {s t : List Char} (hs : ∀ c ∈ s, isSpace c = false) (hne : s ≠ [])
    (ht : ∀ c ∈ t, isSpace c) : strip (s ++ t) = s := by
  have hhead : ∀ c, (s ++ t).head? = some c → ¬isSpace c := by
    intro c hc
    rw [List.head?_append_of_ne_nil _ hne] at hc
    rw [hs c (List.mem_of_mem_head? hc)]
    decide
  rw [strip_eq_trim, Trim.trim, Trim.dropWhile_eq_self hhead, Trim.rdropWhile_append_of_forall ht]
  refine Trim.rdropWhile_eq_self fun c hc => ?_
  rw [hs c (List.mem_of_getLast? hc)]
  decide

theorem lower_eq_self {s : List Char} (h : ∀ c ∈ s, lowerChar c = c) : lower s = s := by
  rw [lower, List.map_congr_left (g := id) h, List.map_id]

theorem lowerChar_of_mem_lower {s : List Char} {c : Char} (h : c ∈ lower s) : lowerChar c = c := by
  obtain ⟨d, _, rfl⟩ := List.mem_map.mp h
  exact lowerChar_lowerChar d

theorem mem_of_mem_strip {s : List Char} {c : Char} (h : c ∈ strip s) : c ∈ s := by
  rw [strip, List.mem_reverse] at h
  have hmem := (List.dropWhile_suffix isSpace).subset h
  exact (List.dropWhile_suffix isSpace).subset (List.mem_reverse.mp hmem)

theorem mem_of_mem_split {sep : Char} {s tok : List Char} (h : tok ∈ split sep s) :
    ∀ c ∈ tok, c ∈ s ∧ c ≠ sep := by
  induction s generalizing tok with
  | nil =>
    rw [split, List.mem_singleton] at h
    simp [h]
  | cons d s ih =>
    rw [split] at h
    split at h
    · rcases List.mem_cons.mp h with rfl | h
      · simp
      · exact fun c hc => ⟨List.mem_cons_of_mem _ (ih h c hc).1, (ih h c hc).2⟩
    · next hd =>
      split at h
      · next hnil => exact absurd hnil (split_ne_nil sep s)
      · next w ws hsplit =>
        rcases List.mem_cons.mp h with rfl | h
        · intro c hc
          rcases List.mem_cons.mp hc with rfl | hc
          · exact ⟨List.mem_cons_self, hd⟩
          · have := ih (hsplit ▸ List.mem_cons_self) c hc
            exact ⟨List.mem_cons_of_mem _ this.1, this.2⟩
        · intro c hc
          have := ih (hsplit ▸ List.mem_cons_of_mem _ h) c hc
          exact ⟨List.mem_cons_of_mem _ this.1, this.2⟩

/-! ### Single registers -/

/-- **The register pattern.** What it takes is an address, then a bit range or nothing, then a byte
offset or nothing. -/
theorem register?_eq {s : List Char} {f : RegisterFields} (h : register? s = some (some f))
    (hlower : lower s = s) :
    ∃ text u v, ∃ a : Nat, strip s = text ++ (u ++ v) ∧ AddressText text a ∧ f.register = a ∧
      (f.registerBit = -1 ∧ f.registerBitEnd = -1 ∧ u = [] ∨ ∃ n m : Nat,
        OffsetText u (.bits n m) ∧ f.registerBit = n ∧ f.registerBitEnd = m) ∧
      (f.registerByte = 0 ∧ v = [] ∨ ∃ k : Nat, OffsetText v (.byte k) ∧ f.registerByte = k) := by
  rw [register?] at h
  obtain ⟨⟨reg, s1⟩, hreg, h⟩ := Option.bind_eq_some_iff.mp h
  obtain ⟨⟨⟨bit, bitEnd⟩, s2⟩, hbits, h⟩ := Option.bind_eq_some_iff.mp h
  obtain ⟨⟨byte, s3⟩, hbyte, h⟩ := Option.bind_eq_some_iff.mp h
  dsimp only at h
  split at h
  · next hend =>
    obtain ⟨r, hr, rfl⟩ := Option.map_eq_some_iff.mp (Option.some.inj h)
    obtain ⟨text, rfl, hword, haddress⟩ :=
      addressText_of_number (fun _ hc => isWordChar_of_hexDigit hc) hreg hlower
    obtain ⟨a, ha, rfl⟩ := haddress r hr
    have htail : ∀ c ∈ s3, isSpace c := by
      rw [atEnd, decide_eq_true_eq] at hend
      rcases hend with rfl | rfl
      · exact fun c hc => absurd hc List.not_mem_nil
      · exact List.forall_mem_singleton.mpr rfl
    -- the two offsets as texts, empty where there is none
    obtain ⟨u, rfl, hu, huspace⟩ : ∃ u, s1 = u ++ s2 ∧ (bit = -1 ∧ bitEnd = -1 ∧ u = [] ∨
        ∃ n m : Nat, OffsetText u (.bits n m) ∧ bit = n ∧ bitEnd = m) ∧
        ∀ c ∈ u, isSpace c = false := by
      rcases bitSuffix_eq hbits with ⟨hb, he, rfl⟩ | ⟨u, n, m, rfl, hu, hb, he⟩
      · exact ⟨[], rfl, Or.inl ⟨hb, he, rfl⟩, by simp⟩
      · exact ⟨u, rfl, Or.inr ⟨n, m, hu, hb, he⟩, hu.not_space⟩
    obtain ⟨v, rfl, hv, hvspace⟩ : ∃ v, s2 = v ++ s3 ∧ (byte = 0 ∧ v = [] ∨
        ∃ k : Nat, OffsetText v (.byte k) ∧ byte = k) ∧ ∀ c ∈ v, isSpace c = false := by
      rcases byteSuffix_eq hbyte with ⟨hk, rfl⟩ | ⟨v, k, rfl, hv, hk⟩
      · exact ⟨[], rfl, Or.inl ⟨hk, rfl⟩, by simp⟩
      · exact ⟨v, rfl, Or.inr ⟨k, hv, hk⟩, hv.not_space⟩
    refine ⟨text, u, v, a, ?_, ha, rfl, hu, hv⟩
    rw [← List.append_assoc, ← List.append_assoc, ← List.append_assoc,
      strip_append ?_ (by simp [ha.ne_nil]) htail]
    intro c hc
    rw [List.mem_append, List.mem_append] at hc
    rcases hc with (hc | hc) | hc
    · exact (hword c hc).clean.1
    · exact huspace c hc
    · exact hvspace c hc
  · cases h

/-! ### Lists -/

theorem forall₂_of_mapM {α β : Type} {f : α → Option β} {l : List α} {ys : List β}
    (h : l.mapM f = some ys) : List.Forall₂ (fun x y => f x = some y) l ys := by
  induction l generalizing ys with
  | nil =>
    rw [List.mapM_nil] at h
    obtain rfl := Option.some.inj h
    exact .nil
  | cons x l ih =>
    rw [List.mapM_cons] at h
    obtain ⟨y, hy, h⟩ := Option.bind_eq_some_iff.mp h
    obtain ⟨zs, hzs, h⟩ := Option.bind_eq_some_iff.mp h
    obtain rfl := Option.some.inj h
    exact .cons hy (ih hzs)

/-- The tokens of a list without signs are addresses. -/
theorem tokens_of_forall₂ {tokens : List (List Char)} {l : List Int}
    (h : List.Forall₂ (fun tok a => (if strip tok = [] then none else strtoint (strip tok)) = some a)
      tokens l) (hsign : ∀ tok ∈ tokens, Unsigned (strip tok))
    (hlower : ∀ tok ∈ tokens, ∀ c ∈ tok, lowerChar c = c ∧ c ≠ '_') :
    ∃ as : List Nat, List.Forall₂ (fun tok a => AddressText (strip tok) a) tokens as ∧
      l = as.map fun a : Nat => (a : Int) := by
  induction h with
  | nil => exact ⟨[], .nil, rfl⟩
  | @cons tok a tokens l htok _ ih =>
    obtain ⟨as, has, rfl⟩ := ih (fun t ht => hsign t (List.mem_cons_of_mem _ ht))
      fun t ht => hlower t (List.mem_cons_of_mem _ ht)
    split at htok
    · cases htok
    · next hne =>
      have hchars := hlower tok List.mem_cons_self
      have hself : strip (lower (strip tok)) = strip tok := by
        rw [lower_eq_self fun c hc => (hchars c (mem_of_mem_strip hc)).1, strip_strip]
      obtain ⟨n, hn, rfl⟩ := addressText_of_strtoint htok (by rwa [hself])
        (by rw [hself]; exact hsign tok List.mem_cons_self)
        (by rw [hself]; exact fun hmem => (hchars _ (mem_of_mem_strip hmem)).2 rfl)
      rw [hself] at hn
      exact ⟨n :: as, .cons hn has, rfl⟩

/-- The list recogniser takes an underscore list and nothing else. -/
theorem lowHigh?_eq {s : List Char} {l : List Int} (h : lowHigh? s = some l) :
    '_' ∈ strip s ∧
      List.Forall₂ (fun tok a => (if strip tok = [] then none else strtoint (strip tok)) = some a)
        (split '_' (strip s)) l := by
  rw [lowHigh?] at h
  split at h
  · next hs => exact ⟨hs.1, forall₂_of_mapM h⟩
  · cases h

/-! ### Ranges -/

/-- The text of an address says which. -/
theorem AddressText.unique {s : List Char} {a b : Nat} (ha : AddressText s a)
    (hb : AddressText s b) : a = b := by
  have hx {ds : List Char} {n : Nat} (hn : readDigits decDigit? 10 0 ds = some n) : 'x' ∉ ds :=
    fun hmem => absurd (digits_of_readDigits hn 'x' hmem) (by decide)
  cases ha with
  | decimal _ value =>
    cases hb with
    | decimal _ value' => exact Option.some.inj (value.symm.trans value')
    | hex => exact absurd List.mem_cons_self (hx value)
    | zeroHex => exact absurd (List.mem_cons_of_mem _ List.mem_cons_self) (hx value)
  | hex _ value =>
    cases hb with
    | decimal _ value' => exact absurd List.mem_cons_self (hx value')
    | hex _ value' => exact Option.some.inj (value.symm.trans value')
  | zeroHex _ value =>
    cases hb with
    | decimal _ value' => exact absurd (List.mem_cons_of_mem _ List.mem_cons_self) (hx value')
    | zeroHex _ value' => exact Option.some.inj (value.symm.trans value')

/-- A text is cut at its first separator in one way only. -/
theorem append_cons_inj {p : Char → Bool} {x y x' y' : List Char} {c c' : Char}
    (hx : ∀ a ∈ x, p a = false) (hx' : ∀ a ∈ x', p a = false) (hc : p c) (hc' : p c')
    (h : x ++ c :: y = x' ++ c' :: y') : x = x' ∧ y = y' := by
  induction x generalizing x' with
  | nil =>
    cases x' with
    | nil => exact ⟨rfl, (List.cons.inj h).2⟩
    | cons a x' =>
      obtain ⟨rfl, -⟩ := List.cons.inj h
      rw [hx' c List.mem_cons_self] at hc
      cases hc
  | cons a x ih =>
    cases x' with
    | nil =>
      obtain ⟨rfl, -⟩ := List.cons.inj h
      rw [hx a List.mem_cons_self] at hc'
      cases hc'
    | cons a' x' =>
      obtain ⟨rfl, htail⟩ := List.cons.inj h
      obtain ⟨rfl, rfl⟩ := ih (fun b hb => hx b (List.mem_cons_of_mem _ hb))
        (fun b hb => hx' b (List.mem_cons_of_mem _ hb)) htail
      exact ⟨rfl, rfl⟩

theorem AddressText.not_sep {s : List Char} {a : Nat} (h : AddressText s a) :
    ∀ c ∈ s, isRangeSep c = false :=
  fun c hc => (isWordChar_of_isAddressChar (h.chars c hc)).clean.2.2.2.2

/-- The characters a range may have in its two ends. -/
def inRangeClass (c : Char) : Bool := (decDigit? c).isSome || ('a' ≤ c && c ≤ 'z')

theorem isWordChar_of_inRangeClass {c : Char} (h : inRangeClass c) : isWordChar c := by
  rw [inRangeClass, Bool.or_eq_true, Bool.and_eq_true, decide_eq_true_eq, decide_eq_true_eq] at h
  rcases h with h | h
  · exact isWordChar_of_decDigit h
  · exact Or.inr (Or.inl h)

/-- The text of a range around its two ends. -/
def rangeText (reverse : Bool) (first : List Char) (sep : Char) (second : List Char) : List Char :=
  (if reverse then ['r'] else []) ++ (first ++ sep :: second)

/-- What the range pattern wants after the `r`. -/
def rangeEnds (reverse : Bool) (body : List Char) : Option (Bool × List Char × List Char) := do
  let (start, s) ← number inRangeClass body
  match s with
  | [] => none
  | sep :: s =>
    if sep = '-' ∨ sep = '~' then
      match number inRangeClass s with
      | some (last, []) => some (reverse, start, last)
      | _ => none
    else none

theorem range?_reversed {s cs : List Char} (h : strip s = 'r' :: cs) :
    range? s = rangeEnds true cs := by
  rw [range?, h]
  rfl

theorem range?_ascending {s : List Char} (h : (strip s).head? ≠ some 'r') :
    range? s = rangeEnds false (strip s) := by
  unfold range?
  generalize strip s = t at h ⊢
  dsimp only
  split
  · exact absurd rfl h
  · rfl

theorem rangeEnds_eq {reverse reverse' : Bool} {body start last : List Char}
    (h : rangeEnds reverse' body = some (reverse, start, last)) :
    reverse = reverse' ∧ ∃ sep after, number inRangeClass body = some (start, sep :: after) ∧
      isRangeSep sep ∧ number inRangeClass after = some (last, []) := by
  rw [rangeEnds] at h
  obtain ⟨⟨first, rest⟩, hfirst, h⟩ := Option.bind_eq_some_iff.mp h
  dsimp only at h
  split at h
  · cases h
  · next sep after =>
    split at h
    · next hsep =>
      split at h
      · next last' hlast =>
        obtain ⟨rfl, heq⟩ := Prod.mk.inj (Option.some.inj h)
        obtain ⟨rfl, rfl⟩ := Prod.mk.inj heq
        exact ⟨rfl, sep, after, hfirst, by simpa [isRangeSep] using hsep, hlast⟩
      · cases h
    · cases h

/-- The range pattern takes two numbers with a separator between them. -/
theorem range?_eq {s start last : List Char} {reverse : Bool}
    (h : range? s = some (reverse, start, last)) (hlower : lower (strip s) = strip s) :
    ∃ first second sep, isRangeSep sep ∧ strip s = rangeText reverse first sep second ∧
      (reverse = false → (strip s).head? ≠ some 'r') ∧
      ((∀ c ∈ first, isWordChar c) ∧
        ∀ a, strtoint start = some a → ∃ n : Nat, AddressText first n ∧ a = n) ∧
      ((∀ c ∈ second, isWordChar c) ∧
        ∀ b, strtoint last = some b → ∃ n : Nat, AddressText second n ∧ b = n) := by
  obtain ⟨body, hbody, hhead, hends⟩ : ∃ body,
      strip s = (if reverse then ['r'] else []) ++ body ∧
      (reverse = false → (strip s).head? ≠ some 'r') ∧ ∃ sep after,
      number inRangeClass body = some (start, sep :: after) ∧ isRangeSep sep ∧
        number inRangeClass after = some (last, []) := by
    by_cases hr : (strip s).head? = some 'r'
    · obtain ⟨cs, hcs⟩ := List.head?_eq_some_iff.mp hr
      rw [range?_reversed hcs] at h
      obtain ⟨rfl, hends⟩ := rangeEnds_eq h
      exact ⟨cs, hcs, by simp, hends⟩
    · rw [range?_ascending hr] at h
      obtain ⟨rfl, hends⟩ := rangeEnds_eq h
      exact ⟨strip s, rfl, fun _ => hr, hends⟩
  obtain ⟨sep, after, hfirst, hsep, hlast⟩ := hends
  rw [hbody] at hlower
  have hbodyLower := (lower_eq_self_of_append hlower).2
  obtain ⟨first, rfl, hstart⟩ := addressText_of_number (fun _ hc => isWordChar_of_inRangeClass hc)
    hfirst hbodyLower
  have hafterLower : lower after = after :=
    (List.cons.inj (lower_eq_self_of_append hbodyLower).2).2
  obtain ⟨second, rfl, hend⟩ := addressText_of_number
    (fun _ hc => isWordChar_of_inRangeClass hc) hlast hafterLower
  rw [List.append_nil] at hbody
  exact ⟨first, second, sep, hsep, hbody, hhead, hstart, hend⟩

/-- A range that spells a form has its ends in order. -/
theorem order_of_spells {reverse : Bool} {first second : List Char} {sep : Char} {n m : Nat}
    (hn : AddressText first n) (hm : AddressText second m) (hsep : isRangeSep sep) {form : Form}
    (h : Spells (rangeText reverse first sep second) form) : n ≤ m := by
  have hchar {c : Char} (hc : c ∈ rangeText reverse first sep second) :
      isAddressChar c ∨ c = 'r' ∨ isRangeSep c := by
    rw [rangeText, List.mem_append, List.mem_append, List.mem_cons] at hc
    rcases hc with hc | hc | rfl | hc
    · cases reverse
      · cases hc
      · exact Or.inr (Or.inl (List.mem_singleton.mp hc))
    · exact Or.inl (hn.chars c hc)
    · exact Or.inr (Or.inr hsep)
    · exact Or.inl (hm.chars c hc)
  have hmem : sep ∈ rangeText reverse first sep second := by simp [rangeText]
  have hrange {t : List Char} {a b : Nat} {x y : List Char} {sep' : Char}
      (ht : first ++ sep :: second = t) (hx : AddressText x a) (hy : AddressText y b)
      (hsep' : isRangeSep sep') (heq : t = x ++ sep' :: y) (hab : a ≤ b) : n ≤ m := by
    obtain ⟨rfl, rfl⟩ := append_cons_inj hn.not_sep hx.not_sep hsep hsep' (ht.trans heq)
    rw [hn.unique hx, hm.unique hy]
    exact hab
  -- an address does not begin with the `r` of a reversed range
  have hnor {x y : List Char} {a : Nat} (hx : AddressText x a) : (x ++ y).head? ≠ some 'r' := by
    rw [List.head?_append_of_ne_nil _ hx.ne_nil]
    exact fun hr => hx.notMem (by decide) (List.mem_of_mem_head? hr)
  generalize htext : rangeText reverse first sep second = t at h hchar hmem
  cases h with
  | @single x u a o address offset =>
    have hdot : '.' ∉ u := by
      intro hdot
      rcases hchar (List.mem_append_right _ hdot) with hc | hc | hc <;> exact absurd hc (by decide)
    rw [offset.eq_nil hdot, List.append_nil] at hmem
    rw [address.not_sep sep hmem] at hsep
    cases hsep
  | list separator =>
    rcases hchar separator with hc | hc | hc <;> exact absurd hc (by decide)
  | ascending hx hy separator order =>
    cases reverse with
    | false => exact hrange htext hx hy separator rfl order
    | true => exact absurd (congrArg List.head? htext.symm) (hnor hx)
  | reversed hx hy separator order =>
    cases reverse with
    | false =>
      have hhead : (first ++ sep :: second).head? = some 'r' := congrArg List.head? htext
      exact absurd hhead (hnor hn)
    | true => exact hrange (List.cons.inj htext).2 hx hy separator rfl order

end Cell

/-! ## Rows -/

section Rows

variable {row : Row} {registryType : RegistryType} {ids : List String} {f : RegisterFields}

/-- The entries of a row whose cell has been read. -/
def Row.entries (row : Row) (registryType : RegistryType) (f : RegisterFields) :
    List RegistryMapEntry :=
  (List.range (if f.concatenateRegisters = [] then 1 else f.concatenateRegisters.length)).map
    (row.entry registryType f)

theorem registerFields_numeric :
    row.registerFields false ids = (numeric row.cell.toList, ids) := by
  simp [Row.registerFields]

theorem processRow_fields (h : numeric row.cell.toList = .fields f) :
    processRow registryType false ids row = some (row.entries registryType f, ids) := by
  rw [processRow, registerFields_numeric, h]
  rfl

/-- A row that is read is read as spelled if its cell spells the form of its entries. -/
theorem readsAsSpelled_fields (h : numeric row.cell.toList = .fields f) :
    ReadsAsSpelled row.cell.toList (processRow registryType false ids row) ↔
      ∃ form, Spells (strip (lower row.cell.toList)) form ∧
        form.EntriesOf (row.entries registryType f) := by
  rw [processRow_fields h]
  constructor
  · rintro ⟨items, ids', heq, hitems⟩
    obtain ⟨rfl, rfl⟩ := Prod.mk.inj (Option.some.inj heq)
    refine hitems.resolve_left fun hnil => ?_
    rw [Row.entries, List.map_eq_nil_iff, List.range_eq_nil] at hnil
    split at hnil
    · cases hnil
    · next hne => exact hne (List.length_eq_zero_iff.mp hnil)
  · exact fun hform => ⟨_, _, rfl, Or.inr hform⟩

/-- A row that is dropped or deferred makes no entry. -/
theorem readsAsSpelled_of_none (h : numeric row.cell.toList = .skip ∨
    numeric row.cell.toList = .deferred) :
    ReadsAsSpelled row.cell.toList (processRow registryType false ids row) := by
  refine ⟨[], ids, ?_, Or.inl rfl⟩
  rw [processRow, registerFields_numeric]
  rcases h with h | h
  · rw [h]
  · rw [h]

/-- A row that raises does not. -/
theorem not_readsAsSpelled_of_raises (h : numeric row.cell.toList = .raises) :
    ¬ReadsAsSpelled row.cell.toList (processRow registryType false ids row) := by
  rintro ⟨items, ids', heq, -⟩
  rw [processRow, registerFields_numeric, h] at heq
  cases heq

/-- The entry of a row without a range. -/
theorem entries_eq_singleton (hf : f.concatenateRegisters = []) :
    row.entries registryType f = [row.entry registryType f 0] := by
  rw [Row.entries, if_pos hf]
  rfl

/-- The entry of a single address. -/
theorem entriesOf_single (hf : Single f) {a : Nat} (ha : f.register = a) {o : Offset}
    (ho : o.Taken (row.entry registryType f 0)) :
    (Form.single a o).EntriesOf (row.entries registryType f) := by
  rw [entries_eq_singleton hf.registers]
  refine ⟨?_, ?_, List.forall_mem_singleton.mpr ho⟩
  · have hlist : (row.entry registryType f 0).registerList = [] := hf.list
    have hregister : (row.entry registryType f 0).register = a := by
      rw [← ha]
      exact Int.add_zero _
    rw [List.flatMap_singleton, RegistryMapEntry.ownAddresses, if_pos hlist, hregister]
    exact List.Perm.refl _
  · rw [List.forall_mem_singleton]
    intro hconcatenate
    cases hf.concatenate.symm.trans hconcatenate

/-- The entry of an address list. -/
theorem entriesOf_list {as : List Nat} {a : Int} {l : List Int}
    (h : a :: l = as.map fun a : Nat => (a : Int)) :
    (Form.list as).EntriesOf
      (row.entries registryType { register := a, registerList := a :: l }) := by
  have hbyte : (-1 : Int) ≤ 0 := by decide
  have hlist : (row.entry registryType { register := a, registerList := a :: l } 0).registerList =
    a :: l := rfl
  rw [entries_eq_singleton rfl]
  refine ⟨?_, ?_, List.forall_mem_singleton.mpr ⟨rfl, rfl, hbyte⟩⟩
  · rw [List.flatMap_singleton, RegistryMapEntry.ownAddresses, hlist,
      if_neg (List.cons_ne_nil a l)]
    exact List.Perm.of_eq h
  · rw [List.forall_mem_singleton]
    exact nofun

/-- The entries of a range. -/
theorem entriesOf_range {reverse : Bool} {a b : Nat} (h : a < b) :
    (Form.range reverse a b).EntriesOf
      (row.entries registryType (rangeFields reverse a b)) := by
  have hlt : (a : Int) < b := by omega
  have hlength : ((b : Int) + 1 - a).toNat = b + 1 - a := by omega
  have hregisters : (rangeFields reverse a b).concatenateRegisters =
      (Form.range reverse a b).addresses := by
    rw [rangeFields, if_pos hlt, hlength]
    rfl
  have hlist (i : Nat) :
      (row.entry registryType (rangeFields reverse a b) i).registerList = [] := by
    rw [rangeFields, if_pos hlt]
    rfl
  have hregister (i : Nat) :
      (row.entry registryType (rangeFields reverse a b) i).register = (a : Int) + i := by
    rw [rangeFields, if_pos hlt]
    rfl
  have hcount : (rangeFields reverse (a : Int) b).concatenateRegisters.length = b + 1 - a := by
    rw [hregisters, Form.addresses]
    cases reverse <;> simp
  have hentries : row.entries registryType (rangeFields reverse a b) =
      (List.range (b + 1 - a)).map (row.entry registryType (rangeFields reverse a b)) := by
    have hne : (rangeFields reverse (a : Int) b).concatenateRegisters ≠ [] := by
      intro hnil
      rw [hnil] at hcount
      simp only [List.length_nil] at hcount
      omega
    rw [Row.entries, if_neg hne, hcount]
  rw [hentries]
  refine ⟨?_, ?_, ?_⟩
  · have hown (i : Nat) :
        (row.entry registryType (rangeFields reverse a b) i).ownAddresses = [(a : Int) + i] := by
      rw [RegistryMapEntry.ownAddresses, if_pos (hlist i), hregister i]
    have hup : ((List.range (b + 1 - a)).map
        (row.entry registryType (rangeFields reverse a b))).flatMap
          RegistryMapEntry.ownAddresses = Cell.ascending a (b + 1 - a) := by
      rw [List.flatMap_map, Cell.ascending, List.map_eq_flatMap]
      exact congrArg (List.flatMap · _) (funext hown)
    rw [hup, Form.addresses]
    cases reverse with
    | false => exact List.Perm.refl _
    | true => exact (List.reverse_perm _).symm
  · rw [List.forall_mem_map]
    intro i _ _
    exact hregisters
  · rw [List.forall_mem_map]
    intro i _
    have hbyte : (-1 : Int) ≤ 0 := by decide
    rw [rangeFields, if_pos hlt]
    exact ⟨rfl, rfl, hbyte⟩

/-- The entry of a range of one address. -/
theorem entriesOf_point {reverse : Bool} {a : Nat} :
    (Form.range reverse a a).EntriesOf
      (row.entries registryType (rangeFields reverse a a)) := by
  have hfields : rangeFields reverse (a : Int) a = { register := a } :=
    if_neg (Int.lt_irrefl _)
  have haddresses : (Form.range reverse a a).addresses = (Form.single a .whole).addresses := by
    cases reverse <;> simp [Cell.ascending, Form.addresses]
  have hbyte : (-1 : Int) ≤ 0 := by decide
  rw [hfields]
  have hsingle : (Form.single a .whole).EntriesOf
      (row.entries registryType { register := (a : Int) }) :=
    entriesOf_single (single_register _) rfl ⟨rfl, rfl, hbyte⟩
  refine ⟨?_, ?_, hsingle.offset⟩
  · rw [haddresses]
    exact hsingle.addresses
  · rw [haddresses]
    exact hsingle.order

/-! ## Which cells are read as they are spelled -/

/-- A cell the list recogniser takes. -/
theorem readsAsSpelled_list {l : List Int} (h : lowHigh? (lower row.cell.toList) = some l) :
    ReadsAsSpelled row.cell.toList (processRow registryType false ids row) ↔
      ∀ tok ∈ split '_' (strip (lower row.cell.toList)), Unsigned (strip tok) := by
  obtain ⟨hunderscore, htokens⟩ := lowHigh?_eq h
  obtain ⟨a, l, rfl⟩ : ∃ a l', l = a :: l' :=
    List.exists_cons_of_ne_nil fun hnil => by simpa [hnil] using lowHigh?_length h
  have hnumeric : numeric row.cell.toList = .fields { register := a, registerList := a :: l } := by
    rw [numeric]
    simp only [h]
  rw [readsAsSpelled_fields hnumeric]
  constructor
  · rintro ⟨form, hspells, -⟩
    exact hspells.unsigned_tokens hunderscore
  · intro hsign
    obtain ⟨as, has, hl⟩ := tokens_of_forall₂ htokens hsign fun tok htok c hc =>
      ⟨lowerChar_of_mem_lower (mem_of_mem_strip (mem_of_mem_split htok c hc).1),
        (mem_of_mem_split htok c hc).2⟩
    exact ⟨.list as, .list hunderscore has, entriesOf_list hl⟩

/-- A cell the register pattern takes. -/
theorem readsAsSpelled_register {f : RegisterFields}
    (hlist : lowHigh? (lower row.cell.toList) = none)
    (h : register? (lower row.cell.toList) = some (some f)) :
    ReadsAsSpelled row.cell.toList (processRow registryType false ids row) ↔
      (strip (lower row.cell.toList)).count '.' ≤ 1 := by
  have hnumeric : numeric row.cell.toList = .fields f := by
    rw [numeric]
    simp only [hlist, h]
  rw [readsAsSpelled_fields hnumeric]
  constructor
  · rintro ⟨form, hspells, -⟩
    exact hspells.count_dot
  · intro hdots
    have hsingle := register?_single h
    obtain ⟨text, u, v, a, htext, haddress, hregister, hu, hv⟩ := register?_eq h (lower_lower _)
    rw [htext] at hdots ⊢
    rcases hu with ⟨hbit, hbitEnd, rfl⟩ | ⟨n, m, hu, hbit, hbitEnd⟩
    · rcases hv with ⟨hbyte, rfl⟩ | ⟨k, hv, hbyte⟩
      · exact ⟨_, .single haddress .whole,
          entriesOf_single hsingle hregister ⟨hbit, hbitEnd, Int.le_of_eq hbyte⟩⟩
      · exact ⟨_, .single haddress hv,
          entriesOf_single hsingle hregister ⟨hbit, hbitEnd, hbyte⟩⟩
    · rcases hv with ⟨hbyte, rfl⟩ | ⟨k, hv, hbyte⟩
      · rw [List.append_nil]
        exact ⟨_, .single haddress hu,
          entriesOf_single hsingle hregister ⟨hbit, hbitEnd, hbyte⟩⟩
      · -- two offsets are two dots
        rw [List.count_append, List.count_append] at hdots
        have := hu.one_le_count_dot nofun
        have := hv.one_le_count_dot nofun
        omega

/-- A cell the range pattern takes. -/
theorem readsAsSpelled_range {reverse : Bool} {start last : List Char}
    (hlist : lowHigh? (lower row.cell.toList) = none)
    (hregister : register? (lower row.cell.toList) = none)
    (h : range? (lower row.cell.toList) = some (reverse, start, last)) :
    ReadsAsSpelled row.cell.toList (processRow registryType false ids row) ↔
      ∃ a ∈ strtoint start, ∃ b ∈ strtoint last, a ≤ b := by
  have hlower : lower (strip (lower row.cell.toList)) = strip (lower row.cell.toList) := by
    rw [← strip_lower, lower_lower]
  obtain ⟨first, second, sep, hsep, htext, hhead, ⟨-, hstart⟩, -, hlast⟩ := range?_eq h hlower
  by_cases hends : ∃ a b, strtoint start = some a ∧ strtoint last = some b
  · obtain ⟨x, y, hx, hy⟩ := hends
    obtain ⟨a, ha, rfl⟩ := hstart x hx
    obtain ⟨b, hb, rfl⟩ := hlast y hy
    have hnumeric : numeric row.cell.toList = .fields (rangeFields reverse a b) := by
      rw [numeric]
      simp only [hlist, hregister, h, hx, hy]
    rw [readsAsSpelled_fields hnumeric, htext]
    constructor
    · rintro ⟨form, hspells, -⟩
      exact ⟨a, hx, b, hy, Int.ofNat_le.mpr (order_of_spells ha hb hsep hspells)⟩
    · rintro ⟨a', ha', b', hb', hle⟩
      obtain rfl : (a : Int) = a' := Option.some.inj (hx.symm.trans ha')
      obtain rfl : (b : Int) = b' := Option.some.inj (hy.symm.trans hb')
      have hle : a ≤ b := Int.ofNat_le.mp hle
      have hspells : Spells (rangeText reverse first sep second) (.range reverse a b) := by
        cases reverse with
        | false => exact .ascending ha hb hsep hle
        | true => exact .reversed ha hb hsep hle
      refine ⟨_, hspells, ?_⟩
      rcases Nat.lt_or_eq_of_le hle with hlt | rfl
      · exact entriesOf_range hlt
      · exact entriesOf_point
  · have hnumeric : numeric row.cell.toList = .raises := by
      rw [numeric]
      simp only [hlist, hregister, h]
      split
      · next a b ha hb => exact absurd ⟨a, b, ha, hb⟩ hends
      · rfl
    refine iff_of_false (not_readsAsSpelled_of_raises hnumeric) ?_
    rintro ⟨a, ha, b, hb, -⟩
    exact hends ⟨a, b, ha, hb⟩

/-- A cell that is left to `strtoint`. -/
theorem readsAsSpelled_rest (hlist : lowHigh? (lower row.cell.toList) = none)
    (hregister : register? (lower row.cell.toList) = none)
    (hrange : range? (lower row.cell.toList) = none) :
    ReadsAsSpelled row.cell.toList (processRow registryType false ids row) ↔
      '[' ∈ lower row.cell.toList ∨ strtoint (lower row.cell.toList) = none ∨
        strip (lower row.cell.toList) ≠ [] ∧ Unsigned (strip (lower row.cell.toList)) ∧
          '_' ∉ strip (lower row.cell.toList) := by
  by_cases hbracket : '[' ∈ lower row.cell.toList
  · have hnumeric : numeric row.cell.toList = .deferred := by
      rw [numeric]
      simp only [hlist, hregister, hrange, hbracket, if_true]
    exact iff_of_true (readsAsSpelled_of_none (Or.inr hnumeric)) (Or.inl hbracket)
  · cases hint : strtoint (lower row.cell.toList) with
    | none =>
      have hnumeric : numeric row.cell.toList = .skip := by
        rw [numeric]
        simp only [hlist, hregister, hrange, hbracket, if_false, hint]
      exact iff_of_true (readsAsSpelled_of_none (Or.inl hnumeric)) (Or.inr (Or.inl rfl))
    | some a =>
      have hnumeric : numeric row.cell.toList = .fields { register := a } := by
        rw [numeric]
        simp only [hlist, hregister, hrange, hbracket, if_false, hint]
      rw [readsAsSpelled_fields hnumeric]
      constructor
      · rintro ⟨form, hspells, hentries⟩
        refine Or.inr (Or.inr (hspells.plain ?_))
        rintro as rfl
        have hlength := hentries.addresses.length_eq
        rw [entries_eq_singleton rfl] at hlength
        have := hspells.two_le_length
        simp [RegistryMapEntry.ownAddresses, Row.entry, Form.addresses] at hlength
        omega
      · rintro (h | h | ⟨hne, hsign, hunderscore⟩)
        · exact absurd h hbracket
        · cases h
        · obtain ⟨n, hn, rfl⟩ := addressText_of_strtoint hint (by rwa [lower_lower])
            (by rwa [lower_lower]) (by rwa [lower_lower])
          rw [lower_lower] at hn
          have hbyte : (-1 : Int) ≤ 0 := by decide
          have hspells := Spells.single hn .whole
          rw [List.append_nil] at hspells
          exact ⟨_, hspells, entriesOf_single (single_register _) rfl ⟨rfl, rfl, hbyte⟩⟩

variable (row registryType ids)

/-- **The register cell grammar.** A row of a numeric-keyed map is read to its end and makes no
entry or exactly those its cell spells, if and only if its cell is regular. -/
theorem readsAsSpelled_iff :
    ReadsAsSpelled row.cell.toList (processRow registryType false ids row) ↔
      Regular row.cell.toList := by
  rw [Regular]
  split
  · next h => exact readsAsSpelled_list h
  · next hlist =>
    split
    · next h => exact readsAsSpelled_register hlist h
    · next h =>
      refine iff_of_true (readsAsSpelled_of_none (Or.inl ?_)) trivial
      rw [numeric]
      simp only [hlist, h]
    · next hregister =>
      split
      · next h => exact readsAsSpelled_range hlist hregister h
      · next hrange => exact readsAsSpelled_rest hlist hregister hrange

end Rows

/-- A row without an address. -/
def blankRow : Row := { cell := "", variableName := "soc" }

/-- A blank cell spells nothing, and is read as register 0. -/
theorem not_readsAsSpelled_blank :
    ¬ReadsAsSpelled blankRow.cell.toList (processRow .holding false [] blankRow) := by
  intro h
  rcases (readsAsSpelled_rest (by decide) (by decide) (by decide)).mp h with h | h | h
  · exact absurd h (by decide)
  · exact absurd h (by decide)
  · exact absurd h.1 (by decide)

end ProtocolGateway
