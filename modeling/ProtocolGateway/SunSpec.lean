import ProtocolGateway.Endpoint
import ProtocolGateway.Entry
import ProtocolGateway.Text
import ProtocolGateway.Lib.Numbering
import ProtocolGateway.Lib.Regex
import ProtocolGateway.Words

/-!
# SunSpec discovery

A SunSpec device lists its models in a chain of headers, each of which gives the length of its
model and so the address of the next header. `_walk_chain` follows the chain, and `build_anchors`
turns what it finds into anchors: numbered names for the models, for kinds of equipment, and for
the sub-blocks of a model.

What a device answers is arbitrary. `discover_wellFormed` says what holds of the walk and of the
anchors all the same.
-/

namespace ProtocolGateway

namespace SunSpec

open Numbering

/-! ## The device -/

/-- What a device answers to a request for registers. -/
def Device := Word → Nat → RegistryType → Option (List Word)

/-- `read_discovery_registers`. An address that is no 16-bit number cannot be encoded, and the
transport reports the exception of the client as no answer. -/
def readDiscoveryRegisters (device : Device) (start : Int) (count : Nat)
    (registryType : RegistryType) : Option (List Word) :=
  if 0 ≤ start ∧ start < 65536 then
    (device (BitVec.ofInt 16 start) count registryType).bind fun values =>
      if values.length < count then none else some (values.take count)
  else none

/-! ## Models -/

/-- A model of the chain: its id, and the address and length that its header gives. -/
structure Model where
  id : Nat
  header : Int
  length : Nat
deriving DecidableEq, Repr

/-- The kinds of equipment in `MODEL_ALIASES`. -/
inductive Alias
  | inverter
  | inverterFloat
  | meter
  | meterFloat
deriving DecidableEq, Repr

/-- The name of a kind of equipment. -/
def Alias.name : Alias → String
  | .inverter => "inverter"
  | .inverterFloat => "inverter_float"
  | .meter => "meter"
  | .meterFloat => "meter_float"

/-- `MODEL_ALIASES`. -/
def modelAliases : List (Alias × List Nat) := [
  (.inverter, [101, 102, 103]),
  (.inverterFloat, [111, 112, 113]),
  (.meter, [201, 202, 203, 204]),
  (.meterFloat, [211, 212, 213, 214])]

/-- What is numbered: the instances of a model, those of a kind of equipment, and the sub-blocks of
a repeating model. -/
inductive Family
  | model (id : Nat)
  | kind (a : Alias)
  | mppt
deriving DecidableEq, Repr

/-- `RepeatingModel`. -/
structure RepeatingModel where
  family : Family
  countOffset : Nat
  firstOffset : Nat
  blockLength : Nat

/-- `REPEATING_MODELS.get(model_id)`. -/
def repeatingModels (modelId : Nat) : Option RepeatingModel :=
  if modelId = 160 then
    some { family := .mppt, countOffset := 8, firstOffset := 10, blockLength := 20 }
  else none

/-! ## The walk -/

/-- `END_MODEL_ID`. -/
def endModelId : Nat := 0xFFFF

/-- `MAX_MODELS`. -/
def maxModels : Nat := 64

/-- The models that a walk found, and the addresses at which it read headers. -/
structure Walk where
  models : List Model
  reads : List Int
deriving DecidableEq, Repr

/-- The loop of `_walk_chain`, with room for `n` more models. -/
def walkLoop (read : Int → Nat → Option (List Word)) : Nat → Int → Walk
  | 0, _ => ⟨[], []⟩
  | n + 1, address =>
    if address + 1 ≤ 0xFFFF then
      match read address 2 with
      | some (modelId :: length :: _) =>
        if modelId.toNat = endModelId ∨ (modelId = 0 ∧ length = 0) then ⟨[], [address]⟩
        else
          let rest := walkLoop read n (address + (2 + length.toNat))
          ⟨⟨modelId.toNat, address, length.toNat⟩ :: rest.models, address :: rest.reads⟩
      -- the header is not readable, and the models found so far are kept
      | _ => ⟨[], [address]⟩
    else ⟨[], []⟩

/-- `_walk_chain`. -/
def walkChain (read : Int → Nat → Option (List Word)) (base : Int) : Walk :=
  walkLoop read maxModels (base + 2)

/-- `_read_block_counts`. -/
def readBlockCounts (read : Int → Nat → Option (List Word)) (models : List Model) :
    Dict Int Int :=
  models.foldl
    (fun counts m =>
      match repeatingModels m.id with
      | none => counts
      | some repeating =>
        match read (m.header + repeating.countOffset) 1 with
        | some (word :: _) =>
          if 0 < word.toNat ∧ word.toNat < 0x8000 then counts.set m.header word.toNat else counts
        | _ => counts)
    Dict.empty

/-! ## Anchors -/

/-- The facts about an instance. -/
inductive Field
  | base
  | length
  | model
deriving DecidableEq, Repr

/-- The last part of a name. -/
def Field.name : Field → String
  | .base => "base"
  | .length => "length"
  | .model => "model"

/-- The first part of the names of a family. -/
def Family.stem : Family → List Char
  | .model id => "model_".toList ++ id.repr.toList
  | .kind a => a.name.toList
  | .mppt => "mppt".toList

/-- The facts every instance of a family has. -/
def Family.fields : Family → List Field
  | .model _ => [.base, .length]
  | .kind _ => [.base, .length, .model]
  | .mppt => [.base]

/-- `f"{stem}_{n}_{field}"`. -/
def itemName (f : Family) (n : Nat) (field : Field) : String :=
  String.ofList ((f.stem ++ '_' :: n.repr.toList) ++ '_' :: field.name.toList)

/-- `f"{stem}_count"`. -/
def countName (f : Family) : String := String.ofList (f.stem ++ '_' :: "count".toList)

/-! ### Names -/

theorem underscore_notMem {l : List Char} (h : l.all (· != '_') = true) :
    ∀ c ∈ l, (c != '_') = true :=
  List.all_eq_true.mp h

theorem underscore_notMem_field (field : Field) :
    ∀ c ∈ field.name.toList, (c != '_') = true := by
  refine underscore_notMem ?_
  cases field <;> decide

theorem stem_inj {f f' : Family} (h : f.stem = f'.stem) : f = f' := by
  cases f with
  | model id =>
    cases f' with
    | model id' => rw [Endpoint.repr_inj (List.append_cancel_left h)]
    | kind a =>
      have hstart := congrArg (List.take 2) h
      cases a <;> cases hstart
    | mppt => cases congrArg (List.take 2) h
  | kind a =>
    cases f' with
    | model id' =>
      have hstart := congrArg (List.take 2) h
      cases a <;> cases hstart
    | kind a' =>
      revert h
      cases a <;> cases a' <;> decide
    | mppt =>
      revert h
      cases a <;> decide
  | mppt =>
    cases f' with
    | model id' => cases congrArg (List.take 2) h
    | kind a' =>
      revert h
      cases a' <;> decide
    | mppt => rfl

theorem itemName_inj {f f' : Family} {n n' : Nat} {s s' : Field}
    (h : itemName f n s = itemName f' n' s') : f = f' ∧ n = n' ∧ s = s' := by
  obtain ⟨-, hstem, hfield⟩ := Trim.append_cons_inj (underscore_notMem_field s)
    (underscore_notMem_field s') (by decide) (by decide) (String.ofList_injective h)
  obtain ⟨-, hf, hn⟩ := Endpoint.last_before_digits Endpoint.isDigit_repr Endpoint.isDigit_repr
    (by decide) (by decide) hstem
  refine ⟨stem_inj hf, Endpoint.repr_inj hn, ?_⟩
  revert hfield
  cases s <;> cases s' <;> decide

theorem countName_inj {f f' : Family} (h : countName f = countName f') : f = f' :=
  stem_inj (List.append_cancel_right (String.ofList_injective h))

theorem itemName_ne_countName {f f' : Family} {n : Nat} {s : Field} :
    itemName f n s ≠ countName f' := by
  intro h
  obtain ⟨-, -, hfield⟩ := Trim.append_cons_inj (underscore_notMem_field s)
    (underscore_notMem (l := "count".toList) rfl) (by decide) (by decide)
    (String.ofList_injective h)
  revert hfield
  cases s <;> decide

/-- The names of the anchors. -/
def names : Names Family Field String where
  item := itemName
  count := countName
  item_inj := itemName_inj
  count_inj := countName_inj
  item_ne_count := itemName_ne_countName

/-! ### Building -/

/-- The sub-blocks that the length of a model leaves room for. -/
def RepeatingModel.capacity (repeating : RepeatingModel) (length : Nat) : Nat :=
  (length - (repeating.firstOffset - 2)) / repeating.blockLength

/-- The sub-blocks of a model: those it announces, if the length leaves room for them. -/
def RepeatingModel.blocks (repeating : RepeatingModel) (counts : Dict Int Int) (m : Model) : Nat :=
  (min ((counts.get? m.header).getD (repeating.capacity m.length))
    (repeating.capacity m.length)).toNat

/-- The loop body of `build_anchors`: the anchors of a model. -/
def numberModel (counts : Dict Int Int) (t : Table Family String) (m : Model) :
    Table Family String :=
  let t := record names t (.model m.id) [(.base, m.header), (.length, m.length)]
  let t := modelAliases.foldl
    (fun t (a, ids) =>
      if m.id ∈ ids then
        record names t (.kind a) [(.base, m.header), (.length, m.length), (.model, m.id)]
      else t) t
  match repeatingModels m.id with
  | none => t
  | some repeating =>
    (List.range (repeating.blocks counts m)).foldl
      (fun t (block : Nat) => record names t repeating.family
        [(.base, m.header + repeating.firstOffset + block * repeating.blockLength)]) t

/-- The dictionary before the first model. -/
def marked (base : Int) : Table Family String where
  facts := Dict.empty.set "sunspec_base" base
  counts := Dict.empty

/-- `build_anchors`. -/
def buildAnchors (base : Int) (models : List Model) (counts : Dict Int Int) : Dict String Int :=
  (models.foldl (numberModel counts) (marked base)).facts

/-! ## The names the provider owns -/

/-- `\d+`, of which the names of anchors only use the ASCII digits. -/
def digits : Regex Char := .rep Char.isDigit 1 none

/-- A text as an expression. -/
def lit (s : String) : Regex Char := .literal s.toList

/-- The kinds of equipment, longest name first. -/
def aliasPattern : Regex Char :=
  .any (lit "inverter_float") [lit "meter_float", lit "inverter", lit "meter"]

/-- The choice of `owned_pattern`, without the line ends around it. -/
def ownedPattern : Regex Char :=
  .any (lit "sunspec_base") [
    .seq (.seq (lit "model_") digits) (lit "_count"),
    .seq (.seq (.seq (.seq (lit "model_") digits) (lit "_")) digits)
      (.seq (lit "_") (.any (lit "base") [lit "length"])),
    .seq aliasPattern (lit "_count"),
    .seq (.seq (.seq aliasPattern (lit "_")) digits)
      (.seq (lit "_") (.any (lit "base") [lit "length", lit "model"])),
    .seq (lit "mppt") (lit "_count"),
    .seq (.seq (.seq (lit "mppt") (lit "_")) digits) (lit "_base")]

theorem digits_matches (n : Nat) : digits.Matches n.repr.toList := by
  refine Regex.Matches.rep Endpoint.isDigit_repr ?_
  rw [Nat.toList_repr]
  exact Nat.length_toDigits_pos

theorem aliasPattern_matches (a : Alias) : aliasPattern.Matches a.name.toList := by
  refine Regex.Matches.any ⟨lit a.name, ?_, Regex.Matches.literal _⟩
  cases a <;> simp [Alias.name]

/-- The names of counts are owned. -/
theorem ownedPattern_countName (f : Family) :
    ownedPattern.fullMatch (countName f).toList = true := by
  refine Regex.Matches.fullMatch (Regex.Matches.any ?_)
  rw [countName, String.toList_ofList]
  cases f with
  | model id =>
    exact ⟨_, .tail _ (.head _), ((Regex.Matches.literal _).seq (digits_matches id)).seq
      (Regex.Matches.literal "_count".toList)⟩
  | kind a =>
    exact ⟨_, .tail _ (.tail _ (.tail _ (.head _))), (aliasPattern_matches a).seq
      (Regex.Matches.literal "_count".toList)⟩
  | mppt =>
    exact ⟨_, .tail _ (.tail _ (.tail _ (.tail _ (.tail _ (.head _))))),
      (Regex.Matches.literal _).seq (Regex.Matches.literal "_count".toList)⟩

/-- A name with a number is matched part by part. -/
theorem itemName_matches {stem : Regex Char} {last : Regex Char} {f : Family} {s : Field} {n : Nat}
    (hstem : stem.Matches f.stem) (hlast : last.Matches s.name.toList) :
    (Regex.seq (.seq (.seq stem (lit "_")) digits) (.seq (lit "_") last)).Matches
      (itemName f n s).toList := by
  rw [itemName, String.toList_ofList, List.append_cons f.stem]
  exact ((hstem.seq (Regex.Matches.literal "_".toList)).seq (digits_matches n)).seq
    ((Regex.Matches.literal "_".toList).seq hlast)

theorem lit_matches {s : Field} {t : String} (h : s.name = t) : (lit t).Matches s.name.toList :=
  h ▸ Regex.Matches.literal _

/-- The names of the facts that are entered are owned. -/
theorem ownedPattern_itemName {f : Family} {s : Field} (hs : s ∈ f.fields) (n : Nat) :
    ownedPattern.fullMatch (itemName f n s).toList = true := by
  refine Regex.Matches.fullMatch (Regex.Matches.any ?_)
  cases f with
  | model id =>
    refine ⟨_, .tail _ (.tail _ (.head _)), itemName_matches
      ((Regex.Matches.literal _).seq (digits_matches id)) (Regex.Matches.any ?_)⟩
    rcases List.mem_pair.mp hs with rfl | rfl
    · exact ⟨lit "base", .head _, lit_matches rfl⟩
    · exact ⟨lit "length", .tail _ (.head _), lit_matches rfl⟩
  | kind a =>
    refine ⟨_, .tail _ (.tail _ (.tail _ (.tail _ (.head _)))), itemName_matches
      (aliasPattern_matches a) (Regex.Matches.any ⟨lit s.name, ?_, Regex.Matches.literal _⟩)⟩
    cases s <;> simp [Field.name]
  | mppt =>
    obtain rfl := List.mem_singleton.mp hs
    refine ⟨_, .tail _ (.tail _ (.tail _ (.tail _ (.tail _ (.tail _ (.head _)))))), ?_⟩
    have hstem : (lit "mppt").Matches Family.mppt.stem := Regex.Matches.literal _
    have hlast : (lit "_base").Matches ('_' :: Field.base.name.toList) :=
      Regex.Matches.literal "_base".toList
    rw [itemName, String.toList_ofList, List.append_cons Family.mppt.stem]
    exact ((hstem.seq (Regex.Matches.literal "_".toList)).seq (digits_matches n)).seq hlast

/-! ## What holds of the anchors -/

/-- The registers of a sub-block lie behind the header of a model with room for them. -/
def InsideModel (models : List Model) (address : Int) : Prop :=
  ∃ m ∈ models, ∃ repeating, repeatingModels m.id = some repeating ∧
    m.header + 2 ≤ address ∧ address + repeating.blockLength ≤ m.header + 2 + m.length

/-- What holds of the anchors after any number of models. -/
structure Anchored (models : List Model) (t : Table Family String) : Prop where
  numbered : Numbered names Family.fields t
  owned : ∀ k ∈ t.facts.keys, ownedPattern.fullMatch k.toList = true
  inside : ∀ f n s v, t.facts.get? (itemName f n s) = some v → f = .mppt → InsideModel models v

/-- **A step.** An instance with the facts of its family, and in its model if it is a sub-block,
keeps what holds of the anchors. -/
theorem Anchored.record {models : List Model} {t : Table Family String} (h : Anchored models t)
    {f : Family} {fields : List (Field × Int)} (hfields : fields.map Prod.fst = f.fields)
    (hinside : f = .mppt → ∀ sv ∈ fields, InsideModel models sv.2) :
    Anchored models (record names t f fields) where
  numbered := by
    refine h.numbered.record fun s hs => ?_
    rw [← hfields] at hs
    obtain ⟨sv, hsv, rfl⟩ := List.mem_map.mp hs
    exact ⟨sv, hsv, rfl⟩
  owned := by
    refine forall_keys_record h.owned (ownedPattern_countName f) ?_
    intro sv hsv n _
    exact ownedPattern_itemName (hfields ▸ List.mem_map_of_mem hsv) n
  inside := by
    refine forall_facts_record (N := names) (P := fun f _ v => f = .mppt → InsideModel models v)
      h.inside ?_
    intro sv hsv hf
    exact hinside hf sv hsv

/-- `mppt` is the family of every repeating model. -/
theorem repeatingModels_eq {id : Nat} {repeating : RepeatingModel}
    (h : repeatingModels id = some repeating) :
    repeating = { family := .mppt, countOffset := 8, firstOffset := 10, blockLength := 20 } := by
  rw [repeatingModels] at h
  split at h
  · exact (Option.some.inj h).symm
  · cases h

/-- A sub-block that the length leaves room for lies inside of the model. -/
theorem insideModel_block {models : List Model} {m : Model} (hm : m ∈ models)
    {repeating : RepeatingModel} (hrepeating : repeatingModels m.id = some repeating)
    {counts : Dict Int Int} {block : Nat} (hblock : block < repeating.blocks counts m) :
    InsideModel models (m.header + repeating.firstOffset + block * repeating.blockLength) := by
  refine ⟨m, hm, repeating, hrepeating, ?_⟩
  obtain rfl := repeatingModels_eq hrepeating
  have hroom : block < (m.length - 8) / 20 := by
    refine Nat.lt_of_lt_of_le hblock ?_
    simp only [RepeatingModel.blocks, RepeatingModel.capacity]
    omega
  constructor
  · simp only
    omega
  · simp only
    omega

/-- **A model.** The anchors of a model keep what holds of the anchors. -/
theorem Anchored.numberModel {models : List Model} {counts : Dict Int Int}
    {t : Table Family String} (h : Anchored models t) {m : Model} (hm : m ∈ models) :
    Anchored models (numberModel counts t m) := by
  have hmodel : Anchored models
      (Numbering.record names t (.model m.id) [(.base, m.header), (.length, m.length)]) :=
    h.record rfl (fun hf => by cases hf)
  have hkinds := List.foldlRecOn modelAliases
    (fun t (a, ids) => if m.id ∈ ids then
      Numbering.record names t (.kind a) [(.base, m.header), (.length, m.length), (.model, m.id)]
      else t) hmodel (by
    rintro t ht ⟨a, ids⟩ -
    dsimp only
    split
    · exact ht.record rfl (fun hf => by cases hf)
    · exact ht)
  unfold SunSpec.numberModel
  cases hrepeating : repeatingModels m.id with
  | none => exact hkinds
  | some repeating =>
    refine List.foldlRecOn _ _ hkinds ?_
    intro t ht block hblock
    refine ht.record (by rw [repeatingModels_eq hrepeating]; rfl) ?_
    intro _ sv hsv
    obtain rfl := List.mem_singleton.mp hsv
    exact insideModel_block hm hrepeating (List.mem_range.mp hblock)

/-- The marker has a name of its own. -/
theorem itemName_ne_marker {f : Family} {n : Nat} {s : Field} :
    itemName f n s ≠ "sunspec_base" := by
  intro h
  obtain ⟨-, hstem, -⟩ := Trim.append_cons_inj (d := '_') (underscore_notMem_field s)
    (underscore_notMem (l := "base".toList) rfl) (by decide) (by decide)
    (show _ = "sunspec".toList ++ '_' :: "base".toList from
      (String.toList_ofList.symm.trans (congrArg String.toList h)))
  have hmem : '_' ∈ f.stem ++ '_' :: n.repr.toList := List.mem_append_right _ (.head _)
  rw [hstem] at hmem
  exact absurd (underscore_notMem (l := "sunspec".toList) rfl _ hmem) (by decide)

theorem countName_ne_marker {f : Family} : countName f ≠ "sunspec_base" := by
  intro h
  obtain ⟨-, -, hlast⟩ := Trim.append_cons_inj (p := (· != '_')) (c := '_') (d := '_')
    (underscore_notMem (l := "count".toList) rfl)
    (underscore_notMem (l := "base".toList) rfl) (by decide) (by decide)
    (show f.stem ++ '_' :: _ = "sunspec".toList ++ '_' :: "base".toList from
      (String.toList_ofList.symm.trans (congrArg String.toList h)))
  revert hlast
  decide

theorem keys_marked {base : Int} {k : String} :
    k ∈ (marked base).facts.keys ↔ k = "sunspec_base" := by
  rw [marked, Dict.mem_keys_set]
  exact or_iff_left (by simp [Dict.keys])

theorem anchored_marked (models : List Model) (base : Int) : Anchored models (marked base) where
  numbered := {
    items := by
      intro f s _ n
      rw [keys_marked]
      constructor
      · intro h
        exact absurd h itemName_ne_marker
      · rintro ⟨hpos, hle⟩
        have hzero : (marked base).countOf f = 0 := rfl
        omega
    total := by
      intro f hpos
      exact absurd hpos (Nat.lt_irrefl 0)
    absent := by
      intro f _ hmem
      exact countName_ne_marker (keys_marked.mp hmem) }
  owned := by
    intro k hk
    rw [keys_marked.mp hk]
    exact Regex.Matches.fullMatch (Regex.Matches.any ⟨_, .head _, Regex.Matches.literal _⟩)
  inside := by
    intro f n s v hget
    exact absurd (keys_marked.mp (Dict.mem_keys.mpr ⟨v, Dict.mem_of_get? hget⟩))
      itemName_ne_marker

/-- **A run.** What holds of the anchors of a chain. -/
theorem anchored_models (base : Int) (models : List Model) (counts : Dict Int Int) :
    Anchored models (models.foldl (numberModel counts) (marked base)) :=
  List.foldlRecOn models _ (anchored_marked models base) fun _ ht _ hm => ht.numberModel hm

/-! ## Discovery -/

/-- `int(text, 0)`: the base is read off the prefix, and a decimal number has no leading zero. -/
def intLiteral (text : List Char) : Option Int :=
  let (sign, body) := Text.takeSign (Text.strip text)
  let magnitude : Option Nat :=
    match body with
    | '0' :: 'x' :: ds | '0' :: 'X' :: ds => based Text.hexDigit? 16 ds
    | '0' :: 'o' :: ds | '0' :: 'O' :: ds => based (below 8) 8 ds
    | '0' :: 'b' :: ds | '0' :: 'B' :: ds => based (below 2) 2 ds
    | ds => ((Text.dropUnderscores false ds).bind Text.decimal?).filter fun n =>
      n = 0 || ds.head? != some '0'
  magnitude.map fun n => sign * n
where
  below (base : Nat) (c : Char) : Option Nat := (Text.decDigit? c).filter (· < base)
  based (digit? : Char → Option Nat) (base : Nat) (ds : List Char) : Option Nat :=
    match Text.dropUnderscores true ds with
    | none | some [] => none
    | some ds => Text.readDigits digit? base 0 ds

/-- `DEFAULT_BASE_ADDRESSES`. -/
def defaultBaseAddresses : List Int := [40000, 0, 50000]

/-- `_candidate_bases`. -/
def candidateBases (settings : Dict String String) : List Int :=
  let configured := Text.strip ((settings.get? "sunspec_base_address").getD "").toList
  if configured = [] then defaultBaseAddresses
  else
    match intLiteral configured with
    | some base => [base]
    | none => defaultBaseAddresses

/-- `_registry_type`. -/
def registryType (settings : Dict String String) : RegistryType :=
  let name := Text.strip ((settings.get? "sunspec_registry_type").getD "holding").toList
  -- the dotless i is the one other letter that `upper` turns into a letter of the word
  if name.map (fun c => if c = 'ı' then 'i' else Text.lowerChar c) = "input".toList then .input
  else .holding

/-- `MARKER_WORDS`. -/
def markerWords : List Word := [0x5375, 0x6E53]

/-- `DiscoveryResult`. -/
structure DiscoveryResult where
  anchors : Dict String Int
  ownedPatterns : List (Regex Char)
  summary : String

/-- What `discover` returns, and the walk it took. -/
structure Discovery where
  walk : Walk
  result : DiscoveryResult

/-- The loop body of `discover`: nothing when there is no marker at the address. -/
def discoverAt (read : Int → Nat → Option (List Word)) (base : Int) : Option Discovery :=
  (read base 2).bind fun marker =>
    if marker.take 2 = markerWords then
      let walk := walkChain read base
      some {
        walk
        result := {
          anchors := buildAnchors base walk.models (readBlockCounts read walk.models)
          ownedPatterns := [ownedPattern]
          summary := "SunSpec marker at " ++ toString base ++ ", " ++
            toString walk.models.length ++ " model(s): " ++
            ", ".intercalate (walk.models.map fun m => toString m.id) } }
    else none

/-- `discover`. -/
def discover (device : Device) (settings : Dict String String) : Option Discovery :=
  (candidateBases settings).findSome? <| discoverAt fun start count =>
    readDiscoveryRegisters device start count (registryType settings)

/-- A header is read for every model, behind the address the walk starts from. -/
theorem walkLoop_reads (read : Int → Nat → Option (List Word)) (n : Nat) (address : Int) :
    (walkLoop read n address).reads.length ≤ n ∧
      (∀ a ∈ (walkLoop read n address).reads, address ≤ a ∧ a + 1 ≤ 0xFFFF) ∧
      ∀ m ∈ (walkLoop read n address).models, m.header ∈ (walkLoop read n address).reads := by
  induction n generalizing address with
  | zero => simp [walkLoop]
  | succ n ih =>
    rw [walkLoop]
    split
    · next haddress =>
      -- the walk stops after this header
      have hstop : ([address] : List Int).length ≤ n + 1 ∧
          (∀ a ∈ [address], address ≤ a ∧ a + 1 ≤ 0xFFFF) ∧
          ∀ m ∈ ([] : List Model), m.header ∈ [address] := by
        simpa using haddress
      split
      · next modelId length _ _ =>
        split
        · exact hstop
        · obtain ⟨hlength, hreads, hheaders⟩ := ih (address + (2 + length.toNat))
          refine ⟨Nat.succ_le_succ hlength,
            List.forall_mem_cons.mpr ⟨⟨Int.le_refl _, haddress⟩, ?_⟩,
            List.forall_mem_cons.mpr ⟨.head _, ?_⟩⟩
          · intro a ha
            have := hreads a ha
            omega
          · intro m hm
            exact .tail _ (hheaders m hm)
      · exact hstop
    · simp

/-- A discovery is well formed: what holds of the walk, and of the anchors of its models. -/
structure Discovery.WellFormed (d : Discovery) : Prop where
  bounded : d.walk.reads.length ≤ maxModels
  addressable : ∀ a ∈ d.walk.reads, 0 ≤ a ∧ a + 1 ≤ 0xFFFF
  headers : ∀ m ∈ d.walk.models, m.header ∈ d.walk.reads
  numbered : ∀ f : Family, ∃ count : Nat,
    (0 < count → d.result.anchors.get? (countName f) = some (count : Int)) ∧
      (count = 0 → countName f ∉ d.result.anchors.keys) ∧
      ∀ s ∈ f.fields, ∀ n, itemName f n s ∈ d.result.anchors.keys ↔ 1 ≤ n ∧ n ≤ count
  owned : ∀ k ∈ d.result.anchors.keys,
    ∃ pattern ∈ d.result.ownedPatterns, pattern.fullMatch k.toList = true
  inside : ∀ n a, d.result.anchors.get? (itemName .mppt n .base) = some a →
    InsideModel d.walk.models a

/-- What is found behind a marker is well formed when addresses are answered from zero on. -/
theorem discoverAt_wellFormed {read : Int → Nat → Option (List Word)} {base : Int} {d : Discovery}
    (hanswered : ∀ start count words, read start count = some words → 0 ≤ start)
    (h : discoverAt read base = some d) : d.WellFormed := by
  obtain ⟨marker, hmarker, hd⟩ := Option.bind_eq_some_iff.mp h
  have hbase : 0 ≤ base := hanswered _ _ _ hmarker
  split at hd
  · obtain rfl := Option.some.inj hd
    obtain ⟨hlength, hreads, hheaders⟩ := walkLoop_reads read maxModels (base + 2)
    have hanchored := anchored_models base (walkChain read base).models
      (readBlockCounts read (walkChain read base).models)
    exact {
      bounded := hlength
      addressable := by
        intro a ha
        have hrange := hreads a ha
        omega
      headers := hheaders
      numbered := fun f => ⟨_, hanchored.numbered.total f, hanchored.numbered.absent f,
        fun s hs n => hanchored.numbered.items f s hs n⟩
      owned := fun k hk => ⟨_, .head _, hanchored.owned k hk⟩
      inside := fun n a ha => hanchored.inside .mppt n .base a ha rfl }
  · cases hd

/-- An answer is for an address of 16 bits. -/
theorem readDiscoveryRegisters_nonneg {device : Device} {start : Int} {count : Nat}
    {registryType : RegistryType} {words : List Word}
    (h : readDiscoveryRegisters device start count registryType = some words) : 0 ≤ start := by
  rw [readDiscoveryRegisters] at h
  split at h
  · next haddress => exact haddress.1
  · cases h

/-- A device with one MPPT model at the first candidate address. Its length leaves room for two
sub-blocks, and it announces five. -/
def mpptDevice : Device := fun start _ _ =>
  if start = 40000 then some [0x5375, 0x6E53]
  else if start = 40002 then some [160, 48]
  else if start = 40010 then some [5]
  else if start = 40052 then some [0xFFFF, 0]
  else none

end SunSpec

end ProtocolGateway
