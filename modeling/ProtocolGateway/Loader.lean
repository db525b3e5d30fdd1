import ProtocolGateway.Entry

/-!
# Loading a register map

The part of `load__registry` that decides where an entry's words live. A row's address cell is
read in one of five ways, tried in this order:

* a literal key, for text-keyed protocols;
* `low_high[_mid_msb]`, an explicit address list (`"40_41"`, `"41_40"`, `"40_50"`);
* a single register, decimal or hexadecimal, with an optional bit range (`"5.b4-7"`) or byte
  offset (`"5.1"`);
* a range `A-B` or `A~B`, possibly reversed (`"r115~119"`), which makes one entry per address;
* anything `strtoint` still turns into a number (`"-5"`, `"+40"`, a blank cell).

The regular expressions of the source are unambiguous on the way to the end of the cell, so each
is read here by taking the longest run of every class. The other columns of a row are parsed
independently of the cell; a `Row` holds their parsed values.
-/

namespace ProtocolGateway

/-! ## The address cell -/

/-- The locals the address region of `process_row` leaves behind. -/
structure RegisterFields where
  register : Int := -1
  registerBit : Int := -1
  registerBitEnd : Int := -1
  registerByte : Int := -1
  registerList : List Int := []
  registerKey : String := ""
  concatenate : Bool := false
  concatenateRegisters : List Int := []
  deriving DecidableEq, Repr

/-- How `process_row` leaves the address region. -/
inductive CellResult
  | fields (f : RegisterFields)
  /-- a warning is logged and the row is dropped -/
  | skip
  /-- the row is kept in `dynamic_registry_rows` for later -/
  | deferred
  /-- a `ValueError` leaves `load__registry` -/
  | raises
  deriving DecidableEq, Repr

namespace Cell

open Text

/-- A maximal run of decimal digits, which must not be empty. -/
def digits (s : List Char) : Option (List Char × List Char) :=
  match s.span fun c => (decDigit? c).isSome with
  | ([], _) => none
  | (ds, rest) => some (ds, rest)

/-- `\d{1,2}`, where more than two digits cannot be followed by what the pattern wants next. -/
def twoDigits (s : List Char) : Option (Nat × List Char) :=
  match digits s with
  | some (ds, rest) =>
    if ds.length ≤ 2 then (readDigits decDigit? 10 0 ds).map fun n => (n, rest) else none
  | none => none

/-- `0?x[..]+`, keeping the matched text. -/
def hexRun (inClass : Char → Bool) (s : List Char) : Option (List Char × List Char) :=
  let body := match s with
    | 'x' :: cs => some cs
    | '0' :: 'x' :: cs => some cs
    | _ => none
  match body with
  | none => none
  | some cs =>
    match cs.span inClass with
    | ([], _) => none
    | (ds, rest) => some ('x' :: ds, rest)

/-- A hexadecimal number if there is one, else a decimal one. -/
def number (inClass : Char → Bool) (s : List Char) : Option (List Char × List Char) :=
  match hexRun inClass s with
  | some r => some r
  | none => digits s

/-- The optional `.b#`, `.b#-#` or `.b#-b#` of a register: start and end bit. -/
def bitSuffix (s : List Char) : Option ((Int × Int) × List Char) :=
  match s with
  | '.' :: 'b' :: cs =>
    match twoDigits cs with
    | none => none
    | some (b, '-' :: rest) =>
      let rest := match rest with
        | 'b' :: rest' => rest'
        | _ => rest
      (twoDigits rest).map fun (e, rest) => (((b : Int), (e : Int)), rest)
    | some (b, rest) => some (((b : Int), (b : Int)), rest)
  | _ => some ((-1, -1), s)

/-- The optional `.#` of a register. -/
def byteSuffix (s : List Char) : Option (Int × List Char) :=
  match s with
  | '.' :: cs => (twoDigits cs).map fun (n, rest) => ((n : Int), rest)
  | _ => some (0, s)

/-- `$`: the end of the cell, or the line break that ends it. -/
def atEnd (s : List Char) : Bool := s = [] ∨ s = ['\n']

/-- `register_regex` on a lowered cell. The outer `none` means that the pattern does not match,
the inner one that it does and the number is too long to convert. -/
def register? (s : List Char) : Option (Option RegisterFields) := do
  let (reg, s) ← number (fun c => (hexDigit? c).isSome) s
  let ((bit, bitEnd), s) ← bitSuffix s
  let (byte, s) ← byteSuffix s
  if atEnd s then
    some ((strtoint reg).map fun r =>
      { register := r, registerBit := bit, registerBitEnd := bitEnd, registerByte := byte })
  else none

/-- The `low_high` format: at least one underscore, none of them first, and every token a
number. -/
def lowHigh? (s : List Char) : Option (List Int) :=
  let s := strip s
  if '_' ∈ s ∧ s.head? ≠ some '_' then
    (split '_' s).mapM fun tok => if strip tok = [] then none else strtoint (strip tok)
  else none

/-- The addresses of a range, `start` to `last` upwards. -/
def ascending (start : Int) (n : Nat) : List Int := (List.range n).map fun i : Nat => start + i

/-- `range_regex`, matched against the whole stripped cell. -/
def range? (s : List Char) : Option (Bool × List Char × List Char) := do
  let inClass : Char → Bool := fun c => (decDigit? c).isSome || ('a' ≤ c && c ≤ 'z')
  let s := strip s
  let (reverse, s) := match s with
    | 'r' :: cs => (true, cs)
    | _ => (false, s)
  let (start, s) ← number inClass s
  match s with
  | [] => none
  | sep :: s =>
    if sep = '-' ∨ sep = '~' then
      match number inClass s with
      | some (last, []) => some (reverse, start, last)
      | _ => none
    else none

/-- The fields of a range cell from its two ends. -/
def rangeFields (reverse : Bool) (start last : Int) : RegisterFields :=
  if start < last then
    let up := ascending start (last + 1 - start).toNat
    { register := start
      concatenate := true
      concatenateRegisters := if reverse then up.reverse else up }
  else { register := start }

/-- The address region of `process_row` for a numeric cell. -/
def numeric (cell : List Char) : CellResult :=
  let s := lower cell
  match lowHigh? s with
  | some (a :: as) => .fields { register := a, registerList := a :: as }
  | _ =>
    match register? s with
    | some (some f) => .fields f
    | some none => .skip
    | none =>
      match range? s with
      | some (reverse, start, last) =>
        match strtoint start, strtoint last with
        | some a, some b => .fields (rangeFields reverse a b)
        | _, _ => .raises
      | none =>
        if '[' ∈ s then .deferred
        else
          match strtoint s with
          | some a => .fields { register := a }
          | none => .skip

end Cell

/-! ## Rows -/

/-- A row of the map after its other columns have been parsed, its address cell still text. The
defaults are those of blank columns. -/
structure Row where
  cell : String
  variableName : String
  documentedName : String := variableName
  dataType : DataType := .ushort
  dataTypeSize : Int := -1
  unit : String := ""
  unitMod : Float := 1
  adjustments : List (String × Json) := []
  values : List String := [""]
  valueRegex : String := ""
  valueMin : Int := dataType.getDefaultRange.1
  valueMax : Int := dataType.getDefaultRange.2
  readInterval : Float := 1000000
  writeMode : WriteMode := .read

/-- The entry `process_row` builds from a row and its address fields, `i` addresses on. -/
def Row.entry (row : Row) (registryType : RegistryType) (f : RegisterFields) (i : Nat) :
    RegistryMapEntry where
  registryType := registryType
  register := f.register + i
  registerBit := f.registerBit
  registerBitEnd := f.registerBitEnd
  registerByte := f.registerByte
  variableName := row.variableName
  documentedName := row.documentedName
  unit := row.unit
  unitMod := row.unitMod
  adjustments := row.adjustments
  concatenate := f.concatenate
  concatenateRegisters := f.concatenateRegisters
  values := row.values
  registerList := f.registerList
  registerKey := f.registerKey
  valueRegex := row.valueRegex
  valueMin := row.valueMin
  valueMax := row.valueMax
  dataType := row.dataType
  dataTypeSize := row.dataTypeSize
  readInterval := row.readInterval
  nextReadTimestamp := 0
  writeMode := row.writeMode
  descriptionSource := ""

/-- The address region of `process_row`. `textKeyIds` are the keys seen so far, in order of first
appearance, so that a key's id is its index. -/
def Row.registerFields (row : Row) (textKeys : Bool) (textKeyIds : List String) :
    CellResult × List String :=
  let registerKey := if textKeys then String.ofList (Text.strip row.cell.toList) else ""
  if registerKey ≠ "" then
    let ids := if registerKey ∈ textKeyIds then textKeyIds else textKeyIds ++ [registerKey]
    (.fields { register := ids.idxOf registerKey, registerByte := 0, registerKey }, ids)
  else (Cell.numeric row.cell.toList, textKeyIds)

/-- `process_row`: the entries of one row, one for each address of a range. `none` is the
`ValueError` of a range whose ends are not numbers. -/
def processRow (registryType : RegistryType) (textKeys : Bool) (textKeyIds : List String)
    (row : Row) : Option (List RegistryMapEntry × List String) :=
  match row.registerFields textKeys textKeyIds with
  | (.fields f, ids) =>
    let n := if f.concatenateRegisters = [] then 1 else f.concatenateRegisters.length
    some ((List.range n).map (row.entry registryType f), ids)
  | (.raises, _) => none
  | (.skip, ids) | (.deferred, ids) => some ([], ids)

/-- The row loop of `load__registry`. -/
def processRows (registryType : RegistryType) (textKeys : Bool) :
    List String → List Row → Option (List RegistryMapEntry)
  | _, [] => some []
  | ids, row :: rows =>
    match processRow registryType textKeys ids row with
    | none => none
    | some (items, ids') => (processRows registryType textKeys ids' rows).map (items ++ ·)

/-! ## Address forms -/

/-- The address forms the loader produces, as an invariant of its entries: an offset entry has
both ends of its bit range, an address-list entry has at least two addresses and starts at its
first one, and a range member lies in its range. -/
inductive AddressForm (e : RegistryMapEntry) : Prop
  | single (concatenate : e.concatenate = false) (list : e.registerList = [])
      (bits : e.registerBit = -1 ∧ e.registerBitEnd = -1 ∨ 0 ≤ e.registerBit ∧ 0 ≤ e.registerBitEnd)
  | list (concatenate : e.concatenate = false) (first : e.registerList.head? = some e.register)
      (two : 2 ≤ e.registerList.length)
      (bits : e.registerBit = -1 ∧ e.registerBitEnd = -1)
  | range (concatenate : e.concatenate = true) (list : e.registerList = [])
      (mem : e.register ∈ e.concatenateRegisters) (two : 2 ≤ e.concatenateRegisters.length)
      (bits : e.registerBit = -1 ∧ e.registerBitEnd = -1)

namespace Cell

theorem mem_ascending {start a : Int} {n : Nat} :
    a ∈ ascending start n ↔ start ≤ a ∧ a < start + n := by
  simp only [ascending, List.mem_map, List.mem_range]
  constructor
  · rintro ⟨i, hi, rfl⟩
    omega
  · rintro ⟨h1, h2⟩
    exact ⟨(a - start).toNat, by omega, by omega⟩

@[simp] theorem length_ascending (start : Int) (n : Nat) : (ascending start n).length = n := by
  simp [ascending]

/-- The bit range of a register cell is absent or complete. -/
theorem bitSuffix_bits {s rest : List Char} {b e : Int} (h : bitSuffix s = some ((b, e), rest)) :
    b = -1 ∧ e = -1 ∨ 0 ≤ b ∧ 0 ≤ e := by
  unfold bitSuffix at h
  split at h
  · split at h
    · exact absurd h (by simp)
    · obtain ⟨x, _, hx⟩ := Option.map_eq_some_iff.mp h
      injection hx with hbe _
      injection hbe with hb he
      exact Or.inr ⟨by omega, by omega⟩
    · injection h with h
      injection h with hbe _
      injection hbe with hb he
      exact Or.inr ⟨by omega, by omega⟩
  · injection h with h
    injection h with hbe _
    injection hbe with hb he
    exact Or.inl ⟨hb.symm, he.symm⟩

/-- The fields of a single register: neither a list nor a range, and a complete bit range if any. -/
structure Single (f : RegisterFields) : Prop where
  concatenate : f.concatenate = false
  registers : f.concatenateRegisters = []
  list : f.registerList = []
  bits : f.registerBit = -1 ∧ f.registerBitEnd = -1 ∨ 0 ≤ f.registerBit ∧ 0 ≤ f.registerBitEnd

theorem single_register (a : Int) : Single { register := a } :=
  ⟨rfl, rfl, rfl, Or.inl ⟨rfl, rfl⟩⟩

/-- The fields of a single-register cell. -/
theorem register?_single {s : List Char} {f : RegisterFields} (h : register? s = some (some f)) :
    Single f := by
  unfold register? at h
  obtain ⟨⟨reg, s1⟩, _, h⟩ := Option.bind_eq_some_iff.mp h
  obtain ⟨⟨⟨bit, bitEnd⟩, s2⟩, hbits, h⟩ := Option.bind_eq_some_iff.mp h
  obtain ⟨⟨byte, s3⟩, _, h⟩ := Option.bind_eq_some_iff.mp h
  dsimp only at h
  split at h
  · injection h with h
    obtain ⟨r, _, rfl⟩ := Option.map_eq_some_iff.mp h
    exact ⟨rfl, rfl, rfl, bitSuffix_bits hbits⟩
  · exact absurd h (by simp)

/-- A list is read if every part of it is. -/
theorem mapM_isSome_iff {α β : Type} {f : α → Option β} {l : List α} :
    (l.mapM f).isSome = true ↔ ∀ a ∈ l, (f a).isSome = true := by
  induction l with
  | nil => simp
  | cons a l ih =>
    rw [List.mapM_cons, List.forall_mem_cons, ← ih]
    cases f a <;> cases l.mapM f <;> simp

theorem mapM_length {α β : Type} {g : α → Option β} {xs : List α} {ys : List β}
    (h : xs.mapM g = some ys) : ys.length = xs.length := by
  induction xs generalizing ys with
  | nil =>
    rw [List.mapM_nil] at h
    injection h with h
    rw [← h]
    rfl
  | cons x xs ih =>
    rw [List.mapM_cons] at h
    obtain ⟨y, _, h⟩ := Option.bind_eq_some_iff.mp h
    obtain ⟨zs, hzs, h⟩ := Option.bind_eq_some_iff.mp h
    injection h with h
    rw [← h, List.length_cons, List.length_cons, ih hzs]

theorem split_ne_nil (sep : Char) (s : List Char) : Text.split sep s ≠ [] := by
  cases s with
  | nil => simp [Text.split]
  | cons c cs =>
    unfold Text.split
    split
    · simp
    · split <;> simp

/-- A separator in the text makes at least two tokens. -/
theorem two_le_length_split {sep : Char} {s : List Char} (h : sep ∈ s) :
    2 ≤ (Text.split sep s).length := by
  induction s with
  | nil => exact absurd h (by simp)
  | cons c cs ih =>
    unfold Text.split
    by_cases hc : c = sep
    · rw [if_pos hc, List.length_cons]
      have := List.length_pos_iff.mpr (split_ne_nil sep cs)
      omega
    · rw [if_neg hc]
      have hmem : sep ∈ cs := by
        rcases List.mem_cons.mp h with h | h
        · exact absurd h.symm hc
        · exact h
      have := ih hmem
      split
      · next hnil => exact absurd hnil (split_ne_nil sep cs)
      · next w ws hcons =>
        rw [hcons] at this
        simpa using this

/-- A `low_high` cell lists at least two addresses. -/
theorem lowHigh?_length {s : List Char} {l : List Int} (h : lowHigh? s = some l) :
    2 ≤ l.length := by
  unfold lowHigh? at h
  dsimp only at h
  split at h
  · next hs =>
    rw [mapM_length h]
    exact two_le_length_split hs.1
  · exact absurd h (by simp)

/-- The fields a numeric cell can leave: a single register, an address list or a range. -/
theorem numeric_fields {cell : List Char} {f : RegisterFields} (h : numeric cell = .fields f) :
    Single f ∨
    (∃ l, 2 ≤ l.length ∧ l.head? = some f.register ∧
      f = { register := f.register, registerList := l }) ∨
    (∃ reverse start last, start < last ∧ f = rangeFields reverse start last) := by
  unfold numeric at h
  dsimp only at h
  split at h
  · next a as hl =>
    injection h with h
    refine Or.inr (Or.inl ⟨a :: as, lowHigh?_length hl, ?_, ?_⟩)
    · rw [← h]
      rfl
    · rw [← h]
  · split at h
    · next g hreg =>
      injection h with h
      rw [h] at hreg
      exact Or.inl (register?_single hreg)
    · exact absurd h (by simp)
    · split at h
      · next reverse start last _ =>
        split at h
        · next a b _ _ =>
          injection h with h
          by_cases hab : a < b
          · exact Or.inr (Or.inr ⟨reverse, a, b, hab, h.symm⟩)
          · rw [rangeFields, if_neg hab] at h
            rw [← h]
            exact Or.inl (single_register a)
        · exact absurd h (by simp)
      · split at h
        · exact absurd h (by simp)
        · split at h
          · next a _ =>
            injection h with h
            rw [← h]
            exact Or.inl (single_register a)
          · exact absurd h (by simp)

end Cell

/-- Whatever the address region leaves, the entries built from it have an address form. -/
theorem Row.entry_addressForm {row : Row} {registryType : RegistryType} {textKeys : Bool}
    {textKeyIds ids : List String} {f : RegisterFields} {i : Nat}
    (hf : row.registerFields textKeys textKeyIds = (.fields f, ids))
    (hi : i < if f.concatenateRegisters = [] then 1 else f.concatenateRegisters.length) :
    AddressForm (row.entry registryType f i) := by
  unfold Row.registerFields at hf
  dsimp only at hf
  generalize (if textKeys then String.ofList (Text.strip row.cell.toList) else "") = key at hf
  by_cases hkey : key ≠ ""
  · rw [if_pos hkey] at hf
    -- a text key: one register, no bits
    injection hf with hf _
    injection hf with hf
    exact .single (by rw [← hf]; rfl) (by rw [← hf]; rfl) (Or.inl (by rw [← hf]; exact ⟨rfl, rfl⟩))
  · rw [if_neg hkey] at hf
    injection hf with hf _
    rcases Cell.numeric_fields hf with hs | ⟨l, two, first, hl⟩ | ⟨rev, a, b, hab, hr⟩
    · exact .single hs.concatenate hs.list hs.bits
    · have hn : f.concatenateRegisters = [] := by rw [hl]
      rw [if_pos hn] at hi
      have h0 : i = 0 := by omega
      have hlist : f.registerList = l := by rw [hl]
      refine .list (by rw [Row.entry, hl]) ?_ ?_ (by rw [Row.entry, hl]; exact ⟨rfl, rfl⟩)
      · simpa [Row.entry, h0, hlist] using first
      · simpa [Row.entry, hlist] using two
    · rw [Cell.rangeFields, if_pos hab] at hr
      have hcr : f.concatenateRegisters =
          if rev then (Cell.ascending a (b + 1 - a).toNat).reverse
          else Cell.ascending a (b + 1 - a).toNat := by rw [hr]
      have hlen : f.concatenateRegisters.length = (b + 1 - a).toNat := by
        rw [hcr]
        split <;> simp
      have hne : f.concatenateRegisters ≠ [] := by
        rw [← List.length_pos_iff, hlen]
        omega
      rw [if_neg hne, hlen] at hi
      refine .range (by rw [Row.entry, hr]) (by rw [Row.entry, hr]) ?_ ?_
        (by rw [Row.entry, hr]; exact ⟨rfl, rfl⟩)
      · have hreg : f.register = a := by rw [hr]
        have hmem : a + (i : Int) ∈ Cell.ascending a (b + 1 - a).toNat :=
          Cell.mem_ascending.mpr ⟨by omega, by omega⟩
        simp only [Row.entry, hcr, hreg]
        split
        · exact List.mem_reverse.mpr hmem
        · exact hmem
      · simp only [Row.entry, hlen]
        omega

/-- The members of a range are its addresses, upwards or downwards. -/
def RangeForm (e : RegistryMapEntry) : Prop :=
  e.concatenate = true → ∃ start n, e.concatenateRegisters = Cell.ascending start n ∨
    e.concatenateRegisters = (Cell.ascending start n).reverse

theorem Row.entry_rangeForm {row : Row} {registryType : RegistryType} {textKeys : Bool}
    {textKeyIds ids : List String} {f : RegisterFields} {i : Nat}
    (hf : row.registerFields textKeys textKeyIds = (.fields f, ids)) :
    RangeForm (row.entry registryType f i) := by
  unfold Row.registerFields at hf
  dsimp only at hf
  generalize (if textKeys then String.ofList (Text.strip row.cell.toList) else "") = key at hf
  intro hconcatenate
  have hf' : f.concatenate = true := hconcatenate
  by_cases hkey : key ≠ ""
  · rw [if_pos hkey] at hf
    rw [← CellResult.fields.inj (Prod.mk.inj hf).1] at hf'
    cases hf'
  · rw [if_neg hkey] at hf
    rcases Cell.numeric_fields (Prod.mk.inj hf).1 with hs | ⟨l, -, -, hl⟩ | ⟨rev, a, b, hab, hr⟩
    · rw [hs.concatenate] at hf'
      cases hf'
    · rw [hl] at hf'
      cases hf'
    · rw [Cell.rangeFields, if_pos hab] at hr
      refine ⟨a, (b + 1 - a).toNat, ?_⟩
      show f.concatenateRegisters = _ ∨ f.concatenateRegisters = _
      rw [hr]
      cases rev
      · exact Or.inl rfl
      · exact Or.inr rfl

/-- What holds of every entry built from the address fields of a row holds of all entries of the
row loop. -/
theorem processRows_forall {P : RegistryMapEntry → Prop} {registryType : RegistryType}
    {textKeys : Bool} {textKeyIds : List String} {rows : List Row} {items : List RegistryMapEntry}
    (entry : ∀ row textKeyIds f ids i,
      Row.registerFields row textKeys textKeyIds = (.fields f, ids) →
      (i < if f.concatenateRegisters = [] then 1 else f.concatenateRegisters.length) →
      P (row.entry registryType f i))
    (h : processRows registryType textKeys textKeyIds rows = some items) : ∀ e ∈ items, P e := by
  induction rows generalizing textKeyIds items with
  | nil =>
    obtain rfl := Option.some.inj h
    exact fun e he => absurd he (by simp)
  | cons row rows ih =>
    unfold processRows at h
    split at h
    · exact absurd h (by simp)
    · next items' ids' hrow =>
      obtain ⟨rest, hrest, rfl⟩ := Option.map_eq_some_iff.mp h
      intro e he
      rcases List.mem_append.mp he with he | he
      · unfold processRow at hrow
        split at hrow
        · next f ids hf =>
          obtain ⟨rfl, -⟩ := Prod.mk.inj (Option.some.inj hrow)
          obtain ⟨i, hi, rfl⟩ := List.mem_map.mp he
          exact entry row textKeyIds f ids i hf (List.mem_range.mp hi)
        · exact absurd hrow (by simp)
        all_goals
          obtain ⟨rfl, -⟩ := Prod.mk.inj (Option.some.inj hrow)
          exact absurd he (by simp)
      · exact ih hrest e he

/-- Every entry of the row loop has an address form. -/
theorem processRows_addressForm {registryType : RegistryType} {textKeys : Bool}
    {textKeyIds : List String} {rows : List Row} {items : List RegistryMapEntry}
    (h : processRows registryType textKeys textKeyIds rows = some items) :
    ∀ e ∈ items, AddressForm e :=
  processRows_forall (fun _ _ _ _ _ hf hi => Row.entry_addressForm hf hi) h

theorem processRows_rangeForm {registryType : RegistryType} {textKeys : Bool}
    {textKeyIds : List String} {rows : List Row} {items : List RegistryMapEntry}
    (h : processRows registryType textKeys textKeyIds rows = some items) :
    ∀ e ∈ items, RangeForm e :=
  processRows_forall (fun _ _ _ _ _ hf _ => Row.entry_rangeForm hf) h

end ProtocolGateway
