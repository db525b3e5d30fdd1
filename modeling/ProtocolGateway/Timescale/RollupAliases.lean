import ProtocolGateway.Lib.CollisionNames
import ProtocolGateway.Lib.Dict
import ProtocolGateway.Timescale.Identifiers

/-!
# The aliases of the rollup columns

A wide rollup carries three columns for each metric column, named by a prefix and the metric
column and cut to the 63 bytes PostgreSQL keeps. A name that several columns are cut to is rebuilt
with a hash of the whole column name. Which columns are rebuilt depends on the other columns of the
table, and these change between the creation of one view and the next.

`steady_iff`: the lists of columns whose aliases are distinct and outlast further columns.
-/

namespace ProtocolGateway

namespace Timescale

/-! ## The helper -/

/-- `hashlib.sha256(column.encode("utf-8")).hexdigest()`. -/
structure Sha256 where
  hexdigest : List Char → List Char
  length_hexdigest : ∀ column, (hexdigest column).length = 64

/-- The first eight digits of the hash. -/
def Sha256.digest (sha : Sha256) (column : List Char) : List Char := (sha.hexdigest column).take 8

theorem Sha256.length_digest (sha : Sha256) (column : List Char) :
    (sha.digest column).length = 8 := by
  rw [digest, List.length_take, sha.length_hexdigest]
  rfl

/-- `f"{prefix}{column}"[:63]`. -/
def naturalAlias (rollupPrefix column : List Char) : List Char := (rollupPrefix ++ column).take 63

/-- `f"{f'{prefix}{column}'[:54]}_{digest}"`. -/
def rebuiltAlias (sha : Sha256) (rollupPrefix column : List Char) : List Char :=
  (rollupPrefix ++ column).take 54 ++ '_' :: sha.digest column

/-- `_rollup_aliases_helper`. -/
def rollupAliases (sha : Sha256) (rollupPrefix : List Char) (columnNames : List (List Char)) :
    Dict (List Char) (List Char) :=
  let natural : Dict (List Char) (List Char) :=
    Dict.empty.update (columnNames.map fun column => (column, naturalAlias rollupPrefix column))
  let counts := fun name => (natural.items.map Prod.snd).count name
  Dict.empty.update (columnNames.map fun column =>
    let cut := naturalAlias rollupPrefix column
    (column, if 1 < counts cut then rebuiltAlias sha rollupPrefix column else cut))

variable {sha : Sha256} {rollupPrefix : List Char} {columns added : List (List Char)}

/-! ## Aliases of distinct columns -/

/-- The alias of a column among distinct columns. -/
theorem get?_rollupAliases (hnodup : columns.Nodup) {column : List Char} (h : column ∈ columns) :
    (rollupAliases sha rollupPrefix columns).get? column =
      some (CollisionNames.name (naturalAlias rollupPrefix) (rebuiltAlias sha rollupPrefix) columns
        column) := by
  have hkeys (f : List Char → List Char) :
      ((columns.map fun column => (column, f column)).map Prod.fst).Nodup := by
    rw [List.map_map]
    exact (List.map_id columns).symm ▸ hnodup
  have hitems : (Dict.empty.update (columns.map fun column =>
      (column, naturalAlias rollupPrefix column))).items.map Prod.snd =
        columns.map (naturalAlias rollupPrefix) := by
    rw [Dict.items_update (hkeys _), show (Dict.empty : Dict (List Char) (List Char)).items = []
      from rfl, List.nil_append, List.map_map]
    rfl
  rw [rollupAliases, Dict.get?_update_empty (hkeys _), List.mem_map]
  exact ⟨column, h, by rw [hitems]; rfl⟩

/-- Columns outside the list have no alias. -/
theorem get?_rollupAliases_of_notMem {column : List Char} (h : column ∉ columns) :
    (rollupAliases sha rollupPrefix columns).get? column = none := by
  rw [rollupAliases, Dict.get?_update_of_notMem]
  · rfl
  · simpa using h

/-- Rebuilt aliases are as distinct as the digests. -/
theorem digest_eq_of_rebuiltAlias_eq {c d : List Char}
    (h : rebuiltAlias sha rollupPrefix c = rebuiltAlias sha rollupPrefix d) :
    sha.digest c = sha.digest d := by
  rw [rebuiltAlias, rebuiltAlias] at h
  have hlength : ('_' :: sha.digest c).length = ('_' :: sha.digest d).length := by
    rw [List.length_cons, List.length_cons, sha.length_digest, sha.length_digest]
  exact (List.cons.inj (List.append_inj' h hlength).2).2

/-- No alias is longer than an identifier may be. -/
theorem length_name_le (column : List Char) :
    (CollisionNames.name (naturalAlias rollupPrefix) (rebuiltAlias sha rollupPrefix) columns
      column).length ≤ 63 := by
  rw [CollisionNames.name]
  split
  · rw [rebuiltAlias, List.length_append, List.length_cons, sha.length_digest, List.length_take]
    omega
  · exact List.length_take_le ..

/-! ## Steady aliases -/

/-- The aliases of the columns are distinct, fit into an identifier, do not depend on the order of
the columns and stay when further columns are added. -/
structure Steady (sha : Sha256) (rollupPrefix : List Char) (columns added : List (List Char)) :
    Prop where
  distinct : ∀ c ∈ columns, ∀ d ∈ columns,
    (rollupAliases sha rollupPrefix columns).get? c =
      (rollupAliases sha rollupPrefix columns).get? d → c = d
  short : ∀ c ∈ columns, ∃ name, (rollupAliases sha rollupPrefix columns).get? c = some name ∧
    name.length ≤ 63
  orderless : ∀ reordered : List (List Char), reordered.Perm columns → ∀ c,
    (rollupAliases sha rollupPrefix reordered).get? c =
      (rollupAliases sha rollupPrefix columns).get? c
  lasting : ∀ c ∈ columns, (rollupAliases sha rollupPrefix (columns ++ added)).get? c =
    (rollupAliases sha rollupPrefix columns).get? c

/-- The column is cut to the same name as another column of the list. -/
abbrev Collides (rollupPrefix : List Char) (columns : List (List Char)) (c : List Char) : Prop :=
  CollisionNames.Shares (naturalAlias rollupPrefix) columns c

/-- **Steady aliases.** With digests that tell the columns apart, the aliases are distinct and
lasting exactly when no hashed name of a colliding column is the cut name of a column that collides
with none, and no added column is cut to the name of a column that collided with none. -/
theorem steady_iff (sha : Sha256) (rollupPrefix : List Char) {columns added : List (List Char)}
    (hnodup : (columns ++ added).Nodup)
    (hdigest : ∀ c ∈ columns ++ added, ∀ d ∈ columns ++ added,
      sha.digest c = sha.digest d → c = d) :
    Steady sha rollupPrefix columns added ↔
      (∀ c ∈ columns, ∀ d ∈ columns, Collides rollupPrefix columns c →
        ¬ Collides rollupPrefix columns d →
        rebuiltAlias sha rollupPrefix c ≠ naturalAlias rollupPrefix d) ∧
      ∀ c ∈ columns, ¬ Collides rollupPrefix columns c →
        (∃ d ∈ added, naturalAlias rollupPrefix d = naturalAlias rollupPrefix c) →
        rebuiltAlias sha rollupPrefix c = naturalAlias rollupPrefix c := by
  have hcolumns : columns.Nodup := (List.nodup_append.mp hnodup).1
  have hrebuilt : ∀ c ∈ columns, ∀ d ∈ columns,
      rebuiltAlias sha rollupPrefix c = rebuiltAlias sha rollupPrefix d → c = d :=
    fun c hc d hd heq => hdigest c (List.mem_append_left _ hc) d (List.mem_append_left _ hd)
      (digest_eq_of_rebuiltAlias_eq heq)
  rw [← CollisionNames.name_injOn_iff hcolumns hrebuilt]
  constructor
  · intro hsteady
    refine ⟨fun c hc d hd heq => hsteady.distinct c hc d hd ?_, fun c hc => ?_⟩
    · rw [get?_rollupAliases hcolumns hc, get?_rollupAliases hcolumns hd, heq]
    · rw [← CollisionNames.name_append_iff hnodup hc]
      have := hsteady.lasting c hc
      rw [get?_rollupAliases hnodup (List.mem_append_left _ hc),
        get?_rollupAliases hcolumns hc] at this
      exact Option.some.inj this
  · rintro ⟨hdistinct, hlasting⟩
    refine ⟨fun c hc d hd heq => ?_, fun c hc => ?_, fun reordered hperm c => ?_, fun c hc => ?_⟩
    · rw [get?_rollupAliases hcolumns hc, get?_rollupAliases hcolumns hd] at heq
      exact hdistinct c hc d hd (Option.some.inj heq)
    · exact ⟨_, get?_rollupAliases hcolumns hc, length_name_le c⟩
    · by_cases hc : c ∈ columns
      · rw [get?_rollupAliases (hperm.nodup_iff.mpr hcolumns) (hperm.mem_iff.mpr hc),
          get?_rollupAliases hcolumns hc, CollisionNames.name_perm hperm]
      · rw [get?_rollupAliases_of_notMem hc,
          get?_rollupAliases_of_notMem (mt hperm.mem_iff.mp hc)]
    · rw [get?_rollupAliases hnodup (List.mem_append_left _ hc), get?_rollupAliases hcolumns hc,
        (CollisionNames.name_append_iff hnodup hc).mpr (hlasting c hc)]

/-! ## Two columns that share a long beginning -/

/-- `grid_import_total_energy_accumulated_since_commissioning_kwh_a`. -/
def columnA : List Char := "grid_import_total_energy_accumulated_since_commissioning_kwh_a".toList

/-- `grid_import_total_energy_accumulated_since_commissioning_kwh_b`. -/
def columnB : List Char := "grid_import_total_energy_accumulated_since_commissioning_kwh_b".toList

/-- The hashes of the two columns. -/
def exampleSha : Sha256 where
  hexdigest column :=
    if column = columnA then
      "9e0cf64732bbaf4b09dbc072a19f656e88363fa84380deb071911a488a30756d".toList
    else if column = columnB then
      "6358bad392bc420d54979ae9b427ff78215335900bde8800094a247c061a1a1b".toList
    else List.replicate 64 '0'
  length_hexdigest column := by split_ifs <;> rfl

theorem steady_iff_pair :
    [columnA].Nodup ∧
      (Steady exampleSha "min_".toList [columnA] [] ↔
        (∀ c ∈ [columnA], ∀ d ∈ [columnA], Collides "min_".toList [columnA] c →
          ¬ Collides "min_".toList [columnA] d →
          rebuiltAlias exampleSha "min_".toList c ≠ naturalAlias "min_".toList d) ∧
        ∀ c ∈ [columnA], ¬ Collides "min_".toList [columnA] c →
          (∃ d ∈ [], naturalAlias "min_".toList d = naturalAlias "min_".toList c) →
          rebuiltAlias exampleSha "min_".toList c = naturalAlias "min_".toList c) :=
  ⟨List.nodup_singleton _, steady_iff exampleSha "min_".toList (List.nodup_singleton columnA)
    (fun _ hc _ hd _ => (List.mem_singleton.mp hc).trans (List.mem_singleton.mp hd).symm)⟩

/-- The alias of a column changes when a second column is cut to the same name. -/
theorem not_steady_pair :
    ¬ ∀ (sha : Sha256), ∀ rollupPrefix ∈ ["min_".toList, "max_".toList, "stats_summary_".toList],
      ∀ columns added : List (List Char), (∀ c ∈ columns ++ added, isIdentifier c) →
      (columns ++ added).Nodup →
      (∀ c ∈ columns ++ added, ∀ d ∈ columns ++ added, sha.digest c = sha.digest d → c = d) →
      Steady sha rollupPrefix columns added := by
  intro hall
  have hpair : ([columnA] ++ [columnB]).Nodup := by decide
  have hdigest : exampleSha.digest columnA ≠ exampleSha.digest columnB := by decide
  have hsteady := hall exampleSha "stats_summary_".toList (by simp) [columnA] [columnB]
    (List.all_eq_true.mp (by decide)) hpair (by
      intro c hc d hd heq
      rcases List.mem_pair.mp hc with rfl | rfl <;> rcases List.mem_pair.mp hd with rfl | rfl
      · rfl
      · exact absurd heq hdigest
      · exact absurd heq.symm hdigest
      · rfl)
  have hlasting := hsteady.lasting columnA (List.mem_singleton_self _)
  rw [get?_rollupAliases hpair (List.mem_cons_self ..),
    get?_rollupAliases (List.nodup_singleton _) (List.mem_singleton_self _)] at hlasting
  exact absurd hlasting (by decide)

end Timescale

end ProtocolGateway
