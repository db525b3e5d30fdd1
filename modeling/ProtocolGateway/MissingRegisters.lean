import ProtocolGateway.GroupRead

/-!
# Missing registers

A 32- or 64-bit value is made of two or four words, and a snapshot may lack some of them. Then the
entry should have no value. `process_register_ushort` looks every word up, and returns nothing if
one is absent. `process_register_bytes` takes what there is of the payload and decodes that.

`silent_iff` says in which snapshots an entry that lacks words has no value: where an address is
absent that the decoder looks at. The wire decoder looks at one address, the first.
-/

namespace ProtocolGateway

open Outcomes ProtocolSettings GroupRead

/-- The 32- and 64-bit numeric types. -/
def WideNumeric : DataType → Prop
  | .uint | .int | .acc32 | .bit32Flags | .uint64 | .int64 | .float32 | .float64 => True
  | _ => False

/-- The snapshot has all words of the entry. -/
def Complete (e : RegistryMapEntry) : Snapshot → Prop
  | .words registry => ∀ a ∈ e.addresses, (registry a).isSome = true
  | .bytes registry => ∃ payload, registry e.register = some payload ∧
      2 * e.entryWordCount ≤ (payload.drop e.registerByte.toNat).length

namespace ProtocolSettings

variable (ps : ProtocolSettings) (host : Host)

/-- `process_registery` emits no value for the entry, and does not raise because of it. -/
structure Silent (snapshot : Snapshot) (e : RegistryMapEntry) : Prop where
  /-- the turn of the entry changes nothing -/
  turn : ∀ decoded, ps.decodeStep host snapshot decoded e = .ok decoded
  /-- … so the pass is the one over the other entries, where none of them has its name -/
  pass : ∀ before after, (∀ e' ∈ before ++ after, e'.variableName ≠ e.variableName) →
    ps.processRegistery host snapshot (before ++ e :: after) =
      ps.processRegistery host snapshot (before ++ after)

variable {ps host} {snapshot : Snapshot} {e : RegistryMapEntry}

/-! ## The whole pass -/

section Emitted

variable {name : String} {entries registryMap : List RegistryMapEntry}

/-! Loops over entries with other names leave the value of a name alone. -/

theorem get?_decodeSteps_of_other (hnames : ∀ e' ∈ entries, e'.variableName ≠ name)
    {decoded decoded' : Decoded}
    (h : entries.foldlM (ps.decodeStep host snapshot) decoded = .ok decoded') :
    decoded'.info.get? name = decoded.info.get? name := by
  refine foldlM_preserves (fun between => between.info.get? name = decoded.info.get? name) ?_ rfl h
  intro e' he' between between' hsame hstep
  rcases decodeStep_cases hstep with ⟨rfl, -⟩ | ⟨-, value, -, hfile⟩
  · exact hsame
  · rw [get?_fileValue_of_other (hnames e' he') hfile, hsame]

theorem get?_contextSteps_of_other (hnames : ∀ e' ∈ entries, e'.variableName ≠ name)
    {info info' : Dict String PyValue} (h : entries.foldlM (contextStep host) info = .ok info') :
    info'.get? name = info.get? name := by
  refine foldlM_preserves (fun between => between.get? name = info.get? name) ?_ rfl h
  intro e' he' between between' hsame hstep
  rw [get?_contextStep_of_ne hstep (hnames e' he'), hsame]

theorem get?_describeSteps_of_other
    (hnames : ∀ e' ∈ entries, e'.variableName = name → e'.descriptionSource = "")
    {info info' : Dict String PyValue}
    (h : entries.foldlM (ps.describeStep host registryMap) info = .ok info') :
    info'.get? name = info.get? name := by
  refine foldlM_preserves (fun between => between.get? name = info.get? name) ?_ rfl h
  intro e' he' between between' hsame hstep
  by_cases hname : e'.variableName = name
  · rw [describeStep_of_plain (hnames e' he' hname)] at hstep
    rwa [← Except.ok.inj hstep]
  · rw [get?_describeStep_of_ne hstep hname, hsame]

end Emitted

/-- The description loop does not miss an entry whose name has no value. -/
theorem describeStep_skip {before after : List RegistryMapEntry} {info : Dict String PyValue}
    (hnone : info.get? e.variableName = none) (e' : RegistryMapEntry) :
    ps.describeStep host (before ++ e :: after) info e' =
      ps.describeStep host (before ++ after) info e' := by
  unfold describeStep
  by_cases hsource : e'.descriptionSource = e.variableName
  · rw [hsource, hnone]
  · have hother : ([e].find? (·.variableName = e'.descriptionSource)) = none :=
      List.find?_cons_of_neg (by simpa using Ne.symm hsource)
    have hsame : (before ++ e :: after).reverse.find? (·.variableName = e'.descriptionSource) =
        (before ++ after).reverse.find? (·.variableName = e'.descriptionSource) := by
      rw [List.reverse_append, List.reverse_cons, List.append_assoc, List.find?_append,
        List.find?_append, hother, Option.none_or, List.reverse_append, List.find?_append]
    rw [hsame]

/-- An entry whose turn changes nothing might as well not be in the map. -/
theorem processRegistery_skip (hsource : e.descriptionSource = "")
    (hturn : ∀ decoded, ps.decodeStep host snapshot decoded e = .ok decoded)
    {before after : List RegistryMapEntry}
    (hnames : ∀ e' ∈ before ++ after, e'.variableName ≠ e.variableName) :
    ps.processRegistery host snapshot (before ++ e :: after) =
      ps.processRegistery host snapshot (before ++ after) := by
  have hbefore : ∀ e' ∈ before, e'.variableName ≠ e.variableName :=
    fun e' he' => hnames e' (List.mem_append_left _ he')
  unfold processRegistery
  rw [foldlM_skip (fun _ => True) (fun _ _ _ _ _ _ => trivial) (fun decoded _ => hturn decoded)
    trivial]
  refine bind_congr_of_ok fun decoded hdecoded => ?_
  -- no loop gives the entry's name a value
  have hempty : decoded.info.get? e.variableName = none := get?_decodeSteps_of_other hnames hdecoded
  have hcontext : ∀ e' ∈ before ++ after, ∀ info info' : Dict String PyValue,
      info.get? e.variableName = none → contextStep host info e' = .ok info' →
      info'.get? e.variableName = none := fun e' he' info info' hnone hstep => by
    rw [get?_contextStep_of_ne hstep (hnames e' he'), hnone]
  have hskip : ∀ info : Dict String PyValue, info.get? e.variableName = none →
      contextStep host info e = .ok info := fun info hnone => by rw [contextStep, hnone]
  rw [foldlM_skip (·.get? e.variableName = none)
    (fun e' he' => hcontext e' (List.mem_append_left _ he')) hskip hempty]
  refine bind_congr_of_ok fun info hinfo => ?_
  have hnone := foldlM_preserves (·.get? e.variableName = none) hcontext hempty hinfo
  have hdescribe : ∀ e' ∈ before ++ after, ∀ info info' : Dict String PyValue,
      info.get? e.variableName = none →
      ps.describeStep host (before ++ e :: after) info e' = .ok info' →
      info'.get? e.variableName = none := fun e' he' info info' hnone hstep => by
    rw [get?_describeStep_of_ne hstep (hnames e' he'), hnone]
  rw [foldlM_skip (·.get? e.variableName = none)
    (fun e' he' => hdescribe e' (List.mem_append_left _ he'))
    (fun info _ => describeStep_of_plain hsource) hnone]
  exact foldlM_congr_of (·.get? e.variableName = none) hdescribe
    (fun e' _ info hnone => describeStep_skip hnone e') hnone

/-- What `process_registery` emits for an entry is its decoded value after its `context`
adjustment. -/
theorem emitted_cases (hplain : e.concatenate = false) (hsource : e.descriptionSource = "")
    {before after : List RegistryMapEntry}
    (hnames : ∀ e' ∈ before ++ after, e'.variableName ≠ e.variableName)
    {info : Dict String PyValue} {value : PyValue}
    (h : ps.processRegistery host snapshot (before ++ e :: after) = .ok info)
    (hvalue : info.get? e.variableName = some value) :
    ∃ decoded context, ps.decodeEntry host snapshot e = .ok (some decoded) ∧
      e.applyContext host decoded context = .ok value := by
  have hbefore : ∀ e' ∈ before, e'.variableName ≠ e.variableName :=
    fun e' he' => hnames e' (List.mem_append_left _ he')
  have hafter : ∀ e' ∈ after, e'.variableName ≠ e.variableName :=
    fun e' he' => hnames e' (List.mem_append_right _ he')
  unfold processRegistery at h
  obtain ⟨decoded, hdecoded, h⟩ := bind_eq_ok_iff.mp h
  obtain ⟨adjusted, hadjusted, h⟩ := bind_eq_ok_iff.mp h
  have hlast : info.get? e.variableName = adjusted.get? e.variableName := by
    refine get?_describeSteps_of_other (fun e' he' hname => ?_) h
    rcases List.mem_append.mp he' with he' | he'
    · exact absurd hname (hbefore e' he')
    · rcases List.mem_cons.mp he' with rfl | he'
      · exact hsource
      · exact absurd hname (hafter e' he')
  rw [List.foldlM_append] at hdecoded hadjusted
  obtain ⟨decoded₁, hdecoded₁, hdecoded⟩ := bind_eq_ok_iff.mp hdecoded
  obtain ⟨adjusted₁, hadjusted₁, hadjusted⟩ := bind_eq_ok_iff.mp hadjusted
  rw [List.foldlM_cons] at hdecoded hadjusted
  obtain ⟨decoded₂, hturn, hdecoded₂⟩ := bind_eq_ok_iff.mp hdecoded
  obtain ⟨adjusted₂, hcontext, hadjusted₂⟩ := bind_eq_ok_iff.mp hadjusted
  have hfirst : adjusted₁.get? e.variableName = decoded₂.info.get? e.variableName := by
    rw [get?_contextSteps_of_other hbefore hadjusted₁, get?_decodeSteps_of_other hafter hdecoded₂]
  rw [hlast, get?_contextSteps_of_other hafter hadjusted₂] at hvalue
  unfold contextStep at hcontext
  split at hcontext
  · next hnone =>
    rw [← Except.ok.inj hcontext, hnone] at hvalue
    cases hvalue
  · next found hfound =>
    obtain ⟨transformed, htransformed, hcontext⟩ := bind_eq_ok_iff.mp hcontext
    rw [← Except.ok.inj hcontext, Dict.get?_set, if_pos rfl] at hvalue
    obtain rfl := Option.some.inj hvalue
    refine ⟨found, _, ?_, htransformed⟩
    rw [hfound] at hfirst
    rcases decodeStep_cases hturn with ⟨rfl, -⟩ | ⟨-, v, hentry, hfile⟩
    · rw [get?_decodeSteps_of_other hbefore hdecoded₁] at hfirst
      cases hfirst
    · rcases fileValue_cases hfile with ⟨-, rfl⟩ | ⟨hrange, -⟩ | ⟨hrange, -⟩
      · rw [Dict.get?_set, if_pos rfl] at hfirst
        rw [hentry, Option.some.inj hfirst]
      · rw [hplain] at hrange
        cases hrange
      · rw [hplain] at hrange
        cases hrange

/-! ## One entry -/

/-- A wide value with an absent word is not decoded. -/
theorem decodeUshort_of_missing {registry : Int → Option Word} (order : WordOrder)
    (hwide : WideNumeric e.dataType)
    (hmissing : registerWordsToBytes registry e.register e.joinedWords order e.registerList = none) :
    ps.decodeUshort order registry e = .ok none := by
  unfold RegistryMapEntry.joinedWords at hmissing
  unfold decodeUshort
  cases htype : e.dataType with
  | uint | acc32 | int | uint64 | int64 =>
    simp only [htype] at hmissing ⊢
    rw [hmissing]
    rfl
  | float32 | float64 | bit32Flags =>
    simp only [htype] at hmissing ⊢
    rw [hmissing]
  | _ =>
    rw [htype] at hwide
    exact hwide.elim

/-- An entry has no value if its decoder looks at an absent address, and only then. -/
theorem decodeEntry_eq_none_iff (hwide : WideNumeric e.dataType) :
    ps.decodeEntry host snapshot e = .ok none ↔
      ∃ a ∈ e.decoderAddresses snapshot, snapshot.read a = none := by
  constructor
  · intro hnone
    by_contra hall
    have hsome := (decodeEntry_isSome_iff hnone).mpr fun a ha =>
      Option.isSome_iff_ne_none.mpr fun habsent => hall ⟨a, ha, habsent⟩
    cases hsome
  · rintro ⟨a, ha, habsent⟩
    cases hregister : snapshot.read e.register with
    | none => exact decodeEntry_of_absent hregister
    | some content =>
      cases snapshot with
      | bytes registry =>
        obtain rfl := List.mem_singleton.mp ha
        rw [habsent] at hregister
        cases hregister
      | words registry =>
        have hpresent : (registry e.register).isSome = true := by
          rw [← Option.isSome_map (f := Sum.inl (β := List Byte)), ← read_words, hregister]
          rfl
        have hmissing : registerWordsToBytes registry e.register e.joinedWords
            (e.getEntryByteorder ps.defaultWordOrder) e.registerList = none := by
          refine Option.not_isSome_iff_eq_none.mp fun hsome => ?_
          have hword := (registerWordsToBytes_isSome_iff _ hpresent).mp hsome a ha
          rw [Option.map_eq_none_iff.mp habsent] at hword
          cases hword
        rw [decodeEntry_eq, decoderValue, if_pos hpresent, processRegisterUshort,
          decodeUshort_of_missing _ hwide hmissing]
        rfl

/-- The turn of an entry with a value shows: the value is in one of the two dictionaries. -/
theorem decodeEntry_of_turn (hsource : e.descriptionSource = "")
    (hturn : ∀ decoded, ps.decodeStep host snapshot decoded e = .ok decoded) :
    ps.decodeEntry host snapshot e = .ok none := by
  have hset {κ : Type} [DecidableEq κ] (k : κ) (v : PyValue) :
      (Dict.empty : Dict κ PyValue) ≠ Dict.empty.set k v := fun heq => by
    have hget := Dict.get?_set Dict.empty k v k
    rw [if_pos rfl, ← heq] at hget
    cases hget
  rcases decodeStep_cases (hturn ⟨Dict.empty, Dict.empty⟩) with ⟨-, hnone⟩ | ⟨-, value, -, hfile⟩
  · exact hnone.resolve_left (absurd hsource)
  rcases fileValue_cases hfile with ⟨-, heq⟩ | ⟨-, heq, -⟩ | ⟨-, -, text, rest, -, heq⟩
  · exact absurd (congrArg Decoded.info heq) (hset _ _)
  · exact absurd (congrArg Decoded.concatenated heq) (hset _ _)
  · exact absurd (congrArg Decoded.info heq) (hset _ _)

/-- **The entries without a value** are those of which the decoder misses an address. -/
theorem silent_of_wide (hsource : e.descriptionSource = "") (hwide : WideNumeric e.dataType) :
    ps.Silent host snapshot e ↔ ∃ a ∈ e.decoderAddresses snapshot, snapshot.read a = none := by
  have hnone : ps.decodeEntry host snapshot e = .ok none ↔
      ∃ a ∈ e.decoderAddresses snapshot, snapshot.read a = none := decodeEntry_eq_none_iff hwide
  rw [← hnone]
  constructor
  · exact fun hsilent => decodeEntry_of_turn hsource hsilent.turn
  · intro hnone
    have hturn : ∀ decoded, ps.decodeStep host snapshot decoded e = .ok decoded := by
      intro decoded
      rw [decodeStep, if_neg (not_not.mpr hsource), hnone]
      rfl
    exact ⟨hturn, fun before after hnames => processRegistery_skip hsource hturn hnames⟩

/-- The entries the loader adds for code tables hold texts. -/
theorem descriptionSource_of_loaded {registryType : RegistryType} {rows : List Row}
    {items : List RegistryMapEntry} (h : ps.loadRegistry registryType rows = some items)
    (he : e ∈ items) : e.descriptionSource = "" ∨ e.dataType = .string := by
  refine ps.loadRegistry_forall (P := fun e => e.descriptionSource = "" ∨ e.dataType = .string)
    (fun raw hraw => processRows_forall (fun _ _ _ _ _ _ _ => .inl rfl) hraw)
    (fun item next hitem _ => ?_) (fun _ _ => .inr rfl) h e he
  rcases hitem with hplain | htext
  · exact .inl hplain
  · refine .inr ?_
    rw [mergePair, htext]
    rfl

/-- **No value from missing registers**, for a loaded entry and a snapshot, exactly if the snapshot
has all words of the entry or lacks an address that the decoder looks at. -/
theorem silent_iff (ps : ProtocolSettings) (host : Host) {registryType : RegistryType}
    {rows : List Row} {items : List RegistryMapEntry}
    (h : ps.loadRegistry registryType rows = some items) {e : RegistryMapEntry} (he : e ∈ items)
    (hwide : WideNumeric e.dataType) (snapshot : Snapshot) :
    (¬Complete e snapshot → ps.Silent host snapshot e) ↔
      Complete e snapshot ∨ ∃ a ∈ e.decoderAddresses snapshot, snapshot.read a = none := by
  have hsource : e.descriptionSource = "" := by
    rcases descriptionSource_of_loaded h he with hsource | htext
    · exact hsource
    · rw [htext] at hwide
      exact hwide.elim
  rw [silent_of_wide hsource hwide]
  exact Classical.or_iff_not_imp_left.symm

/-- A 32-bit counter. -/
def counterRows : List Row := [{ cell := "40", variableName := "energy", dataType := .uint }]

/-- Without its second register, the counter has no value among the words. -/
theorem counter_silent : ∃ items, ({} : ProtocolSettings).loadRegistry .holding counterRows =
    some items ∧ ∀ e ∈ items,
      ({} : ProtocolSettings).Silent default (.words fun a => if a = 40 then some 1 else none) e := by
  refine ⟨_, rfl, fun e he => ?_⟩
  have hload : ({} : ProtocolSettings).loadRegistry .holding counterRows = some _ := rfl
  have hwide : WideNumeric e.dataType := by
    obtain rfl := List.mem_singleton.mp he
    trivial
  refine (silent_iff {} default hload he hwide _).mpr (.inr ?_) ?_
  · obtain rfl := List.mem_singleton.mp he
    exact ⟨41, by decide, rfl⟩
  · obtain rfl := List.mem_singleton.mp he
    intro hcomplete
    exact absurd (hcomplete 41 (by decide)) (by decide)

/-- Half a payload is decoded to half the value. -/
theorem not_silent_half : ¬∀ (ps : ProtocolSettings) (host : Host) (rows : List Row)
    (items : List RegistryMapEntry), ps.loadRegistry .holding rows = some items →
    ∀ e ∈ items, WideNumeric e.dataType → ∀ snapshot, ¬Complete e snapshot →
      ps.Silent host snapshot e := by
  intro hall
  have hsilent := hall {} default counterRows _ rfl _ List.mem_cons_self trivial
    (.bytes fun a => if a = 40 then some [0, 1] else none) (by
      rintro ⟨payload, hpayload, hlength⟩
      obtain rfl := Option.some.inj hpayload
      exact absurd hlength (by decide))
  exact absurd (hsilent.pass [] [] (by simp)) (by decide)

end ProtocolSettings

end ProtocolGateway
