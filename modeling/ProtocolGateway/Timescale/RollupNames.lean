import ProtocolGateway.Lib.Dict
import ProtocolGateway.Lib.Holes
import ProtocolGateway.Timescale.Identifiers
import ProtocolGateway.Timescale.RollupViews

/-!
# From a protocol to its rollup views and back

A protocol's wide table is named after the protocol, its rollup prefix after the table, and its
views after the prefix. The names are built where the protocol is registered, where the views are
created and where they are refreshed or dropped; the policies of a view read the granularity and the
protocol back from its name.

`parsesBack_iff`: the sets of protocols whose view names are told apart and read back.
-/

namespace ProtocolGateway

namespace Timescale

/-! ## Building the names -/

/-- `text.removeprefix(start)`. -/
def removePrefix (start text : List Char) : List Char :=
  if start.isPrefixOf text then text.drop start.length else text

/-- `f"rollup_{wide_table_name.removeprefix('device_metrics_')}"`. -/
def rollupPrefixOf (wideTableName : List Char) : List Char :=
  "rollup_".toList ++ removePrefix "device_metrics_".toList wideTableName

/-- The rollup prefixes of `protocol_registry`, by protocol name. -/
abbrev ProtocolRegistry := Dict (List Char) (Option (List Char))

/-- `_upsert_protocol_registry`. -/
def upsertProtocolRegistry (registry : ProtocolRegistry) (protocol : List Char)
    (wideTableName : Option (List Char)) : ProtocolRegistry :=
  registry.set protocol (wideTableName.map rollupPrefixOf)

/-- The registry after `_register_protocol_schema` of each protocol. -/
def registerProtocols (protocols : List (List Char)) : ProtocolRegistry :=
  protocols.foldl
    (fun registry protocol => upsertProtocolRegistry registry protocol (safeTableName protocol))
    Dict.empty

/-- The view names of `_ensure_cagg_views_for_protocol`. -/
def ensureCaggViewsForProtocol (wideTableName : List Char) : List (List Char) :=
  Granularity.all.map fun gran => viewName gran (rollupPrefixOf wideTableName)

/-- `_wide_view_names`. -/
def wideViewNames (wideTableName : List Char) : List (List Char) :=
  Granularity.all.map fun gran => viewName gran (rollupPrefixOf wideTableName)

/-- `_narrow_view_names`. -/
def narrowViewNames : List (List Char) :=
  Granularity.all.map fun gran => viewName gran "rollup_narrow".toList

/-- The view of a protocol. -/
def protocolView (gran : Granularity) (protocol : List Char) : List Char :=
  viewName gran (rollupPrefixOf (safeTableName protocol))

/-! ## Reading the names -/

/-- `text.lower()`. -/
def lowerText (text : List Char) : List Char := text.flatMap lowerCase

/-- `_granularity_from_view_name_helper`. -/
def granularityFromViewName (viewName : List Char) : List Char :=
  let nameLower := lowerText viewName
  let start := nameLower.takeWhile (· != '_')
  if (Granularity.all.map Granularity.word).contains start then start
  else ((Granularity.all.map Granularity.word).find? fun word => decide (word <:+: nameLower)).getD
    "default".toList

/-- `_derive_target_protocol_from_view_name_helper`, where the query finds its first row. -/
def deriveTargetProtocol (registry : ProtocolRegistry) (viewName granularity : List Char) :
    Option (List Char) :=
  if "narrow".toList <:+: lowerText viewName then none
  else
    let rollupPrefix :=
      if granularity ≠ "default".toList ∧ (granularity ++ ['_']).isPrefixOf viewName then
        viewName.drop (granularity.length + 1)
      else viewName
    (registry.items.find? fun row => row.2 == some rollupPrefix).map Prod.fst

/-! ## Views of registered protocols -/

/-- The view names of a set of protocols are told apart, agree in the places that build them, and
give the granularity and the protocol back. -/
structure ParsesBack (protocols : List (List Char)) : Prop where
  granularity : ∀ p ∈ protocols, ∀ g, granularityFromViewName (protocolView g p) = g.word
  protocol : ∀ p ∈ protocols, ∀ g,
    deriveTargetProtocol (registerProtocols protocols) (protocolView g p) g.word = some p
  distinct : ∀ p ∈ protocols, ∀ q ∈ protocols, ∀ g g',
    protocolView g p = protocolView g' q → p = q
  agree : ∀ p ∈ protocols, ∃ rollupPrefix,
    (registerProtocols protocols).get? p = some (some rollupPrefix) ∧
      ensureCaggViewsForProtocol (safeTableName p) = Granularity.all.map (viewName · rollupPrefix) ∧
      wideViewNames (safeTableName p) = Granularity.all.map (viewName · rollupPrefix)

/-! ## The parts of a view name -/

theorem rollupPrefixOf_safeTableName (protocol : List Char) :
    rollupPrefixOf (safeTableName protocol) = "rollup_wide__".toList ++ shortName protocol := by
  rw [safeTableName_eq]
  rfl

theorem protocolView_eq (g : Granularity) (protocol : List Char) :
    protocolView g protocol =
      (g.word ++ "_rollup_wide_".toList) ++ '_' :: shortName protocol := by
  rw [protocolView, rollupPrefixOf_safeTableName]
  cases g <;> rfl

/-! ## View names are lower case -/

theorem lowerCase_of_continuesIdentifier {c : Char} (h : continuesIdentifier c) :
    lowerCase c = [c] := by
  have hcapital : ¬ ('A' ≤ c ∧ c ≤ 'Z') := by
    intro hc
    have := not_capital h
    rw [decide_eq_true hc.1, decide_eq_true hc.2] at this
    exact absurd this (by decide)
  have hz : c.toNat ≤ 'z'.toNat := by
    simp only [continuesIdentifier, startsIdentifier, Bool.or_eq_true, Bool.and_eq_true,
      decide_eq_true_eq, beq_iff_eq] at h
    rcases h with (⟨-, hletter⟩ | rfl) | ⟨-, hdigit⟩
    · exact hletter
    · decide
    · exact Nat.le_trans hdigit (by decide)
  have hz' : 'z'.toNat = 122 := rfl
  rw [lowerCase, if_neg hcapital, if_neg (by omega), if_neg (by omega)]

/-- Lowering an identifier changes nothing. -/
theorem lowerText_of_continuesIdentifier {text : List Char}
    (h : ∀ c ∈ text, continuesIdentifier c) : lowerText text = text := by
  rw [lowerText, List.flatMap_congr fun c hc => lowerCase_of_continuesIdentifier (h c hc)]
  exact List.flatMap_singleton' text

theorem lowerText_protocolView (g : Granularity) (protocol : List Char) :
    lowerText (protocolView g protocol) = protocolView g protocol := by
  refine lowerText_of_continuesIdentifier ?_
  rw [protocolView_eq]
  intro c hc
  rcases List.mem_append.mp hc with hc | hc
  · have hfixed : (g.word ++ "_rollup_wide_".toList).all continuesIdentifier := by
      cases g <;> decide
    exact List.all_eq_true.mp hfixed c hc
  · rcases List.mem_cons.mp hc with rfl | hc
    · rfl
    · obtain ⟨d, ds, hname, hstart, hrest⟩ := guardStart_cons
        fun d (hd : d ∈ substituted protocol) => continuesIdentifier_substituted hd
      have hmem := List.mem_of_mem_take hc
      rw [hname] at hmem
      rcases List.mem_cons.mp hmem with rfl | hmem
      · rw [continuesIdentifier, hstart, Bool.true_or]
      · exact hrest c hmem

/-! ## Reading a view name -/

/-- The granularity of a protocol's view is read back whatever the protocol is called. -/
theorem granularityFromViewName_protocolView (g : Granularity) (protocol : List Char) :
    granularityFromViewName (protocolView g protocol) = g.word := by
  rw [granularityFromViewName, lowerText_protocolView, protocolView_eq]
  have hstart : ((g.word ++ "_rollup_wide_".toList) ++ '_' :: shortName protocol).takeWhile
      (· != '_') = g.word := by
    cases g <;> rfl
  have hmem : (Granularity.all.map Granularity.word).contains g.word :=
    List.contains_iff_mem.mpr (List.mem_map_of_mem (Granularity.mem_all g))
  rw [hstart]
  exact if_pos hmem

/-- A view is taken for a shared one when the shortened protocol name contains the word. -/
theorem narrow_infix_protocolView (g : Granularity) (protocol : List Char) :
    "narrow".toList <:+: protocolView g protocol ↔ "narrow".toList <:+: shortName protocol := by
  rw [protocolView_eq]
  constructor
  · intro h
    refine (Holes.infix_append_cons (by decide) h).resolve_left ?_
    cases g <;> decide
  · intro h
    exact h.trans ⟨g.word ++ "_rollup_wide_".toList ++ ['_'], [], by simp⟩

/-- The shared views belong to no protocol. -/
theorem deriveTargetProtocol_narrow (registry : ProtocolRegistry) {view : List Char}
    (h : view ∈ narrowViewNames) (granularity : List Char) :
    deriveTargetProtocol registry view granularity = none := by
  have hnarrow : narrowViewNames.all fun view =>
      decide ("narrow".toList <:+: lowerText view) := by decide
  exact if_pos (of_decide_eq_true (List.all_eq_true.mp hnarrow view h))

/-! ## The registry -/

/-- A registered protocol has the rollup prefix of its table. -/
theorem mem_registerProtocols {protocols : List (List Char)}
    {row : List Char × Option (List Char)} :
    row ∈ (registerProtocols protocols).items ↔
      row.1 ∈ protocols ∧ row.2 = some (rollupPrefixOf (safeTableName row.1)) := by
  induction protocols using List.reverseRecOn with
  | nil => exact iff_of_false List.not_mem_nil fun h => absurd h.1 List.not_mem_nil
  | append_singleton protocols p ih =>
    rw [registerProtocols, List.foldl_append, List.foldl_cons, List.foldl_nil, ← registerProtocols,
      upsertProtocolRegistry, Dict.mem_set, ih, List.mem_append, List.mem_singleton]
    by_cases hrow : row.1 = p
    · subst hrow
      simp [Prod.ext_iff]
    · simp [Prod.ext_iff, hrow]

/-- The query for a protocol's prefix among protocols whose tables have different names. -/
theorem deriveTargetProtocol_protocolView {protocols : List (List Char)} (g : Granularity)
    {p : List Char} (hp : p ∈ protocols) (hnarrow : ¬ "narrow".toList <:+: shortName p)
    (hdistinct : ∀ q ∈ protocols, safeTableName q = safeTableName p → q = p) :
    deriveTargetProtocol (registerProtocols protocols) (protocolView g p) g.word = some p := by
  have hcut : protocolView g p = g.word ++ '_' :: rollupPrefixOf (safeTableName p) := by
    cases g <;> rfl
  have hmark : g.word ≠ "default".toList ∧ (g.word ++ ['_']).isPrefixOf (protocolView g p) := by
    rw [hcut]
    cases g <;> exact ⟨by decide, rfl⟩
  have hdrop : (protocolView g p).drop (g.word.length + 1) = rollupPrefixOf (safeTableName p) := by
    rw [hcut]
    cases g <;> rfl
  have hview : ¬ "narrow".toList <:+: lowerText (protocolView g p) := by
    rw [lowerText_protocolView]
    exact mt (narrow_infix_protocolView g p).mp hnarrow
  unfold deriveTargetProtocol
  simp only [if_neg hview, if_pos hmark, hdrop]
  have hrow : (p, some (rollupPrefixOf (safeTableName p))) ∈ (registerProtocols protocols).items :=
    mem_registerProtocols.mpr ⟨hp, rfl⟩
  cases hfind : (registerProtocols protocols).items.find?
      fun row => row.2 == some (rollupPrefixOf (safeTableName p)) with
  | none => exact absurd (beq_self_eq_true _) (List.find?_eq_none.mp hfind _ hrow)
  | some row =>
    obtain ⟨hmem, hcell⟩ := mem_registerProtocols.mp (List.mem_of_find?_eq_some hfind)
    have hsame := List.find?_some hfind
    rw [hcell, beq_iff_eq, Option.some.injEq, rollupPrefixOf_safeTableName,
      rollupPrefixOf_safeTableName, List.append_cancel_left_eq, shortName_eq_iff] at hsame
    rw [Option.map_some, hdistinct row.1 hmem hsame]

/-! ## The sets of protocols that parse back -/

/-- **View names parse back.** The view names of a set of protocols are told apart and give their
protocols back exactly when no shortened protocol name contains the word `narrow` and no two
protocols are shortened to one table name. -/
theorem parsesBack_iff (protocols : List (List Char)) :
    ParsesBack protocols ↔
      (∀ p ∈ protocols, ¬ "narrow".toList <:+: shortName p) ∧
      ∀ p ∈ protocols, ∀ q ∈ protocols, safeTableName p = safeTableName q → p = q := by
  constructor
  · intro h
    refine ⟨fun p hp hnarrow => ?_, fun p hp q hq heq => ?_⟩
    · have hnone : deriveTargetProtocol (registerProtocols protocols) (protocolView .hourly p)
          Granularity.hourly.word = none := by
        have hview : "narrow".toList <:+: lowerText (protocolView .hourly p) := by
          rw [lowerText_protocolView]
          exact (narrow_infix_protocolView .hourly p).mpr hnarrow
        unfold deriveTargetProtocol
        exact if_pos hview
      rw [h.protocol p hp .hourly] at hnone
      cases hnone
    · exact h.distinct p hp q hq .hourly .hourly (by rw [protocolView, heq, protocolView])
  · rintro ⟨hnarrow, hdistinct⟩
    refine ⟨fun p _ g => granularityFromViewName_protocolView g p, fun p hp g => ?_,
      fun p hp q hq g g' heq => ?_, fun p hp => ?_⟩
    · exact deriveTargetProtocol_protocolView g hp (hnarrow p hp)
        fun q hq heq => hdistinct q hq p hp heq
    · have hword : g.word = g'.word := by
        rw [← granularityFromViewName_protocolView g p, heq,
          granularityFromViewName_protocolView]
      rw [protocolView_eq, protocolView_eq, hword, List.append_cancel_left_eq] at heq
      exact hdistinct p hp q hq (shortName_eq_iff.mp (List.cons.inj heq).2)
    · refine ⟨rollupPrefixOf (safeTableName p), ?_, rfl, rfl⟩
      exact Dict.get?_eq_some_iff.mpr (mem_registerProtocols.mpr ⟨hp, rfl⟩)

/-- A protocol called `narrowband_meter` is taken for the shared stack. -/
theorem not_parsesBack_narrowband :
    ¬ ∀ protocols : List (List Char), ParsesBack protocols := by
  intro hall
  have hprotocol := (hall ["narrowband_meter".toList]).protocol "narrowband_meter".toList
    (List.mem_singleton_self _) .hourly
  exact absurd hprotocol (by decide)

end Timescale

end ProtocolGateway
