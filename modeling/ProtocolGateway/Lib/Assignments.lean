import Mathlib.Data.List.Perm.Basic
import Mathlib.Logic.Function.Basic

/-!
# Assignments carried out in place

A list of assignments over an environment that maps names to values: each one replaces the value
of its *target* by a function of that value and of the value of its *source*. It is idle where one
of them has no value, or where a test rejects the target's value. `run` carries the list out in
order, every assignment seeing what the ones before it left.

* `Simultaneous`: what the list means when every assignment reads the environment at the start.
* `Independent`: no name is assigned twice, and no assigned name is the source of another
  assignment. Then `run` has the simultaneous meaning (`run_eq_ok_iff`), in every order of the
  list (`run_perm`).
* `Rises`: assignments that lift their target above both values they read. They tell how often a
  name was assigned, and so show what goes wrong without independence (`run_of_not_distinct`,
  `run_of_chained`).
-/

universe u v w

/-- `target := value target source`. -/
structure Assignment (κ : Type u) (ν : Type v) (ε : Type w) where
  target : κ
  source : κ
  value : ν → ν → Except ε ν

namespace Assignment

variable {κ : Type u} {ν : Type v} {ε : Type w} (p : ν → Bool)

/-- The assignment is not idle: its target has a value that passes the test, its source has one. -/
def Applies (env : κ → Option ν) (a : Assignment κ ν ε) : Prop :=
  (∃ v, env a.target = some v ∧ p v = true) ∧ ∃ c, env a.source = some c

/-- No name is assigned twice, and no assigned name is the source of another assignment. -/
structure Independent (as : List (Assignment κ ν ε)) (env : κ → Option ν) : Prop where
  distinct : as.Pairwise fun a b => a.Applies p env → b.Applies p env → a.target ≠ b.target
  apart : ∀ a ∈ as, ∀ b ∈ as, a.Applies p env → b.Applies p env → a.source = b.target →
    a.target = b.target

/-- Every assignment reads the values at the start, and all other names keep theirs. -/
structure Simultaneous (as : List (Assignment κ ν ε)) (env env' : κ → Option ν) : Prop where
  assigned : ∀ a ∈ as, ∀ v c, env a.target = some v → p v = true → env a.source = some c →
    ∃ v', a.value v c = .ok v' ∧ env' a.target = some v'
  kept : ∀ k, (∀ a ∈ as, a.Applies p env → a.target ≠ k) → env' k = env k

variable {p}

/-- Independence does not depend on the order. -/
theorem Independent.perm {as as' : List (Assignment κ ν ε)} {env : κ → Option ν}
    (hp : as.Perm as') (h : Independent p as env) : Independent p as' env where
  distinct := h.distinct.perm hp fun hne ha hb heq => hne hb ha heq.symm
  apart a ha b hb := h.apart a (hp.mem_iff.mpr ha) b (hp.mem_iff.mpr hb)

/-- Nor does the simultaneous meaning. -/
theorem Simultaneous.perm {as as' : List (Assignment κ ν ε)} {env env' : κ → Option ν}
    (hp : as.Perm as') (h : Simultaneous p as env env') : Simultaneous p as' env env' where
  assigned a ha := h.assigned a (hp.mem_iff.mpr ha)
  kept k hk := h.kept k fun a ha => hk a (hp.mem_iff.mp ha)

/-! ## Environments whose values only rise -/

variable (p) (lev : ν → Nat)

/-- The assignment lifts its target above both values it reads. -/
def Rises (a : Assignment κ ν ε) : Prop :=
  ∀ v c, p v = true →
    ∃ v', a.value v c = .ok v' ∧ p v' = true ∧ lev v < lev v' ∧ lev c < lev v'

/-- The same names have values, on which the test says the same, and no value has sunk. -/
def Grown (env env' : κ → Option ν) : Prop :=
  ∀ k, (env k = none ∧ env' k = none) ∨
    ∃ v v', env k = some v ∧ env' k = some v' ∧ p v = p v' ∧ lev v ≤ lev v'

variable {p lev}

theorem Grown.refl (env : κ → Option ν) : Grown p lev env env := by
  intro k
  cases h : env k with
  | none => exact Or.inl ⟨rfl, rfl⟩
  | some v => exact Or.inr ⟨v, v, rfl, rfl, rfl, Nat.le_refl _⟩

theorem Grown.trans {env env₁ env₂ : κ → Option ν} (h : Grown p lev env env₁)
    (h' : Grown p lev env₁ env₂) : Grown p lev env env₂ := by
  intro k
  rcases h k with ⟨hn, hn₁⟩ | ⟨v, v₁, hv, hv₁, hp, hle⟩
  · rcases h' k with ⟨-, hn₂⟩ | ⟨w, _, hw, -⟩
    · exact Or.inl ⟨hn, hn₂⟩
    · rw [hn₁] at hw
      cases hw
  · rcases h' k with ⟨hn, -⟩ | ⟨w, v₂, hw, hv₂, hp', hle'⟩
    · rw [hv₁] at hn
      cases hn
    · obtain rfl := Option.some.inj (hv₁.symm.trans hw)
      exact Or.inr ⟨v, v₂, hv, hv₂, hp.trans hp', Nat.le_trans hle hle'⟩

/-- What a name's value has become. -/
theorem Grown.value {env env' : κ → Option ν} (h : Grown p lev env env') {k : κ} {v : ν}
    (hv : env k = some v) : ∃ v', env' k = some v' ∧ p v = p v' ∧ lev v ≤ lev v' := by
  rcases h k with ⟨hn, -⟩ | ⟨w, v', hw, hv', hp, hle⟩
  · rw [hv] at hn
    cases hn
  · obtain rfl := Option.some.inj (hv.symm.trans hw)
    exact ⟨v', hv', hp, hle⟩

/-- What applied before still applies. -/
theorem Grown.applies {env env' : κ → Option ν} (h : Grown p lev env env')
    {a : Assignment κ ν ε} (ha : a.Applies p env) : a.Applies p env' := by
  obtain ⟨⟨v, hv, hp⟩, c, hc⟩ := ha
  obtain ⟨v', hv', hp', -⟩ := h.value hv
  obtain ⟨c', hc', -⟩ := h.value hc
  exact ⟨⟨v', hv', hp' ▸ hp⟩, c', hc'⟩

/-! ## Carrying assignments out -/

variable [DecidableEq κ] (p)

/-- Carry one assignment out. -/
def step (env : κ → Option ν) (a : Assignment κ ν ε) : Except ε (κ → Option ν) :=
  match env a.target, env a.source with
  | some v, some c =>
    if p v then (a.value v c).map fun v' => Function.update env a.target (some v') else .ok env
  | _, _ => .ok env

/-- Carry a list of assignments out, one after the other. -/
def run (as : List (Assignment κ ν ε)) (env : κ → Option ν) : Except ε (κ → Option ν) :=
  as.foldlM (step p) env

variable {p}

@[simp] theorem run_nil {env : κ → Option ν} : run p ([] : List (Assignment κ ν ε)) env = .ok env :=
  rfl

theorem run_cons {a : Assignment κ ν ε} {as : List (Assignment κ ν ε)} {env : κ → Option ν} :
    run p (a :: as) env = step p env a >>= run p as := rfl

theorem step_of_applies {a : Assignment κ ν ε} {env : κ → Option ν} {v c : ν}
    (hv : env a.target = some v) (hp : p v = true) (hc : env a.source = some c) :
    step p env a = (a.value v c).map fun v' => Function.update env a.target (some v') := by
  simp only [step, hv, hc, hp, if_true]

theorem step_of_idle {a : Assignment κ ν ε} {env : κ → Option ν} (h : ¬a.Applies p env) :
    step p env a = .ok env := by
  unfold step
  split
  · next v c hv hc => exact if_neg fun hp => h ⟨⟨v, hv, hp⟩, c, hc⟩
  · rfl

/-- Assignments that put back what they find. -/
theorem run_of_keeps {as : List (Assignment κ ν ε)} {env : κ → Option ν}
    (h : ∀ a ∈ as, ∀ v c, a.value v c = .ok v) : run p as env = .ok env := by
  induction as with
  | nil => rfl
  | cons a as ih =>
    have hstep : step p env a = .ok env := by
      by_cases ha : a.Applies p env
      · obtain ⟨⟨v, hv, hp⟩, c, hc⟩ := ha
        have hupdate : Function.update env a.target (some v) = env := by
          rw [← hv, Function.update_eq_self]
        rw [step_of_applies hv hp hc, h a List.mem_cons_self v c]
        exact congrArg Except.ok hupdate
      · exact step_of_idle ha
    rw [run_cons, hstep]
    exact ih fun b hb => h b (List.mem_cons_of_mem _ hb)

/-! ## Independent assignments -/

/-- An assignment makes no other one of an independent list idle, and wakes none up. -/
theorem applies_update {a b : Assignment κ ν ε} {env : κ → Option ν} (v' : ν)
    (ha : a.Applies p env) (hne : b.Applies p env → a.target ≠ b.target) :
    b.Applies p (Function.update env a.target (some v')) ↔ b.Applies p env := by
  obtain ⟨⟨v, hv, hp⟩, -⟩ := ha
  have hsource : (∃ c, Function.update env a.target (some v') b.source = some c) ↔
      ∃ c, env b.source = some c := by
    by_cases heq : b.source = a.target
    · rw [heq, Function.update_self, hv]
      simp
    · rw [Function.update_of_ne heq]
  by_cases htarget : b.target = a.target
  · -- both are idle: otherwise the target's old value would have let `b` apply
    constructor
    · intro h
      exact absurd htarget.symm (hne ⟨⟨v, htarget ▸ hv, hp⟩, hsource.mp h.2⟩)
    · exact fun h => absurd htarget.symm (hne h)
  · unfold Applies
    rw [Function.update_of_ne htarget, hsource]

/-- Independent assignments mean the same one after the other and at once. -/
theorem run_eq_ok_iff {as : List (Assignment κ ν ε)} {env env' : κ → Option ν}
    (h : Independent p as env) : run p as env = .ok env' ↔ Simultaneous p as env env' := by
  induction as generalizing env with
  | nil =>
    constructor
    · intro heq
      obtain rfl := Except.ok.inj heq
      exact ⟨by simp, fun _ _ => rfl⟩
    · intro hsim
      have : env' = env := funext fun k => hsim.kept k (by simp)
      rw [run_nil, this]
  | cons a as ih =>
    have hdistinct := List.pairwise_cons.mp h.distinct
    by_cases ha : a.Applies p env
    · obtain ⟨⟨v, hv, hp⟩, c, hc⟩ := id ha
      rw [run_cons, step_of_applies hv hp hc]
      cases hvalue : a.value v c with
      | error e =>
        refine ⟨fun heq => (by cases heq), fun hsim => ?_⟩
        obtain ⟨v', hv', -⟩ := hsim.assigned a List.mem_cons_self v c hv hp hc
        rw [hvalue] at hv'
        cases hv'
      | ok w =>
        -- the environment after `a`, as the assignments behind `a` see it
        have hne (b) (hb : b ∈ as) : b.Applies p env → a.target ≠ b.target := hdistinct.1 b hb ha
        have hiff (b) (hb : b ∈ as) := applies_update w ha (hne b hb)
        have hreads (b) (hb : b ∈ as) (happ : b.Applies p env) :
            Function.update env a.target (some w) b.target = env b.target ∧
              Function.update env a.target (some w) b.source = env b.source := by
          refine ⟨Function.update_of_ne (hne b hb happ).symm _ _, Function.update_of_ne ?_ _ _⟩
          intro heq
          exact hne b hb happ
            (h.apart b (List.mem_cons_of_mem _ hb) a List.mem_cons_self happ ha heq).symm
        have hind : Independent p as (Function.update env a.target (some w)) := by
          refine ⟨hdistinct.2.imp_of_mem fun hb hb' hrel => ?_, fun b hb b' hb' => ?_⟩
          · rw [hiff _ hb, hiff _ hb']
            exact hrel
          · rw [hiff b hb, hiff b' hb']
            exact h.apart b (List.mem_cons_of_mem _ hb) b' (List.mem_cons_of_mem _ hb')
        show run p as (Function.update env a.target (some w)) = .ok env' ↔ _
        rw [ih hind]
        constructor
        · intro hsim
          have hself : env' a.target = some w := by
            rw [hsim.kept a.target fun b hb happ => (hne b hb ((hiff b hb).mp happ)).symm]
            exact Function.update_self _ _ _
          refine ⟨fun b hb v₁ c₁ hv₁ hp₁ hc₁ => ?_, fun k hk => ?_⟩
          · rcases List.mem_cons.mp hb with rfl | hb
            · obtain rfl := Option.some.inj (hv.symm.trans hv₁)
              obtain rfl := Option.some.inj (hc.symm.trans hc₁)
              exact ⟨w, hvalue, hself⟩
            · obtain ⟨htarget, hsource⟩ := hreads b hb ⟨⟨v₁, hv₁, hp₁⟩, c₁, hc₁⟩
              exact hsim.assigned b hb v₁ c₁ (htarget.trans hv₁) hp₁ (hsource.trans hc₁)
          · rw [hsim.kept k fun b hb happ =>
              hk b (List.mem_cons_of_mem _ hb) ((hiff b hb).mp happ)]
            exact Function.update_of_ne (hk a List.mem_cons_self ha).symm _ _
        · intro hsim
          obtain ⟨w', hw', hself⟩ := hsim.assigned a List.mem_cons_self v c hv hp hc
          obtain rfl := Except.ok.inj (hvalue.symm.trans hw')
          refine ⟨fun b hb v₁ c₁ hv₁ hp₁ hc₁ => ?_, fun k hk => ?_⟩
          · obtain ⟨htarget, hsource⟩ := hreads b hb ((hiff b hb).mp ⟨⟨v₁, hv₁, hp₁⟩, c₁, hc₁⟩)
            exact hsim.assigned b (List.mem_cons_of_mem _ hb) v₁ c₁ (htarget ▸ hv₁) hp₁
              (hsource ▸ hc₁)
          · by_cases hka : k = a.target
            · rw [hka, hself, Function.update_self]
            · rw [Function.update_of_ne hka]
              refine hsim.kept k fun b hb happ => ?_
              rcases List.mem_cons.mp hb with rfl | hb
              · exact Ne.symm hka
              · exact hk b hb ((hiff b hb).mpr happ)
    · have hind : Independent p as env :=
        ⟨hdistinct.2, fun b hb b' hb' =>
          h.apart b (List.mem_cons_of_mem _ hb) b' (List.mem_cons_of_mem _ hb')⟩
      rw [run_cons, step_of_idle ha]
      show run p as env = .ok env' ↔ _
      rw [ih hind]
      constructor
      · intro hsim
        refine ⟨fun b hb v c hv hp hc => ?_, fun k hk => ?_⟩
        · rcases List.mem_cons.mp hb with rfl | hb
          · exact absurd ⟨⟨v, hv, hp⟩, c, hc⟩ ha
          · exact hsim.assigned b hb v c hv hp hc
        · exact hsim.kept k fun b hb => hk b (List.mem_cons_of_mem _ hb)
      · intro hsim
        refine ⟨fun b hb => hsim.assigned b (List.mem_cons_of_mem _ hb), fun k hk => ?_⟩
        refine hsim.kept k fun b hb happ => ?_
        rcases List.mem_cons.mp hb with rfl | hb
        · exact absurd happ ha
        · exact hk b hb happ

/-- The order of independent assignments does not matter. -/
theorem run_perm {as as' : List (Assignment κ ν ε)} {env env' : κ → Option ν}
    (hp : as.Perm as') (h : Independent p as env) :
    run p as env = .ok env' ↔ run p as' env = .ok env' := by
  rw [run_eq_ok_iff h, run_eq_ok_iff (h.perm hp)]
  exact ⟨fun hsim => hsim.perm hp, fun hsim => hsim.perm hp.symm⟩

/-! ## Assignments that tell how often they were carried out -/

/-- One rising assignment. -/
theorem step_of_rises {a : Assignment κ ν ε} (env : κ → Option ν) (h : a.Rises p lev) :
    ∃ env', step p env a = .ok env' ∧ Grown p lev env env' ∧
      ∀ v c, env a.target = some v → p v = true → env a.source = some c →
        ∃ v', env' a.target = some v' ∧ lev v < lev v' ∧ lev c < lev v' := by
  by_cases ha : a.Applies p env
  · obtain ⟨⟨v, hv, hp⟩, c, hc⟩ := ha
    obtain ⟨v', hv', hp', hlv, hlc⟩ := h v c hp
    refine ⟨Function.update env a.target (some v'), ?_, fun k => ?_, fun v₁ c₁ hv₁ _ hc₁ => ?_⟩
    · rw [step_of_applies hv hp hc, hv']
      rfl
    · by_cases hk : k = a.target
      · rw [hk, Function.update_self]
        exact Or.inr ⟨v, v', hv, rfl, hp.trans hp'.symm, Nat.le_of_lt hlv⟩
      · rw [Function.update_of_ne hk]
        exact Grown.refl env k
    · obtain rfl := Option.some.inj (hv.symm.trans hv₁)
      obtain rfl := Option.some.inj (hc.symm.trans hc₁)
      exact ⟨v', Function.update_self _ _ _, hlv, hlc⟩
  · exact ⟨env, step_of_idle ha, Grown.refl env, fun v c hv hp hc =>
      absurd ⟨⟨v, hv, hp⟩, c, hc⟩ ha⟩

/-- A run of rising assignments: every one that applies lifts its target above the values at the
start. -/
theorem run_of_rises {as : List (Assignment κ ν ε)} (env : κ → Option ν)
    (h : ∀ a ∈ as, a.Rises p lev) :
    ∃ env', run p as env = .ok env' ∧ Grown p lev env env' ∧
      ∀ a ∈ as, ∀ v c, env a.target = some v → p v = true → env a.source = some c →
        ∃ v', env' a.target = some v' ∧ lev v < lev v' ∧ lev c < lev v' := by
  induction as generalizing env with
  | nil => exact ⟨env, rfl, Grown.refl env, by simp⟩
  | cons a as ih =>
    obtain ⟨env₁, hstep, hgrown, hlift⟩ := step_of_rises env (h a List.mem_cons_self)
    obtain ⟨env', hrun, hgrown', hlift'⟩ := ih env₁ fun b hb =>
      h b (List.mem_cons_of_mem _ hb)
    refine ⟨env', ?_, hgrown.trans hgrown', fun b hb v c hv hp hc => ?_⟩
    · rw [run_cons, hstep]
      exact hrun
    · rcases List.mem_cons.mp hb with rfl | hb
      · obtain ⟨v₁, hv₁, hlv, hlc⟩ := hlift v c hv hp hc
        obtain ⟨v', hv', -, hle⟩ := hgrown'.value hv₁
        exact ⟨v', hv', by omega, by omega⟩
      · obtain ⟨v₁, hv₁, hp₁, hle⟩ := hgrown.value hv
        obtain ⟨c₁, hc₁, -, hlec⟩ := hgrown.value hc
        obtain ⟨v', hv', hlv, hlc⟩ := hlift' b hb v₁ c₁ hv₁ (hp₁ ▸ hp) hc₁
        exact ⟨v', hv', by omega, by omega⟩

/-- An assigned source passes its rise on to the target of the assignment that reads it later. -/
theorem run_of_chained {a b : Assignment κ ν ε} {as : List (Assignment κ ν ε)}
    {env : κ → Option ν} (h : ∀ a' ∈ b :: as, a'.Rises p lev) (ha : a ∈ as)
    (haa : a.Applies p env) (hba : b.Applies p env) (hread : a.source = b.target) {c : ν}
    (hc : env b.target = some c) :
    ∃ env' v', run p (b :: as) env = .ok env' ∧ env' a.target = some v' ∧ lev c + 1 < lev v' := by
  obtain ⟨env₁, hstep, hgrown, hlift⟩ := step_of_rises env (h b List.mem_cons_self)
  obtain ⟨env', hrun, -, hlift'⟩ := run_of_rises env₁ fun a' ha' =>
    h a' (List.mem_cons_of_mem _ ha')
  obtain ⟨⟨v, hv, hp⟩, d, hd⟩ := hba
  obtain rfl := Option.some.inj (hc.symm.trans hv)
  obtain ⟨c₁, hc₁, hlc, -⟩ := hlift c d hc hp hd
  obtain ⟨⟨v₁, hv₁, hp₁⟩, -⟩ := hgrown.applies haa
  obtain ⟨v', hv', -, hlv⟩ := hlift' a ha v₁ c₁ hv₁ hp₁ (hread ▸ hc₁)
  refine ⟨env', v', ?_, hv', by omega⟩
  rw [run_cons, hstep]
  exact hrun

/-- A name that is assigned twice rises twice. -/
theorem run_of_not_distinct {as : List (Assignment κ ν ε)} {env : κ → Option ν}
    (h : ∀ a ∈ as, a.Rises p lev)
    (hd : ¬as.Pairwise fun a b => a.Applies p env → b.Applies p env → a.target ≠ b.target) :
    ∃ env' k v v', run p as env = .ok env' ∧ env k = some v ∧ env' k = some v' ∧
      lev v + 1 < lev v' := by
  induction as generalizing env with
  | nil => exact absurd List.Pairwise.nil hd
  | cons a as ih =>
    have has : ∀ b ∈ as, b.Rises p lev := fun b hb => h b (List.mem_cons_of_mem _ hb)
    obtain ⟨env₁, hstep, hgrown, hlift⟩ := step_of_rises env (h a List.mem_cons_self)
    by_cases hfirst : ∀ b ∈ as, a.Applies p env → b.Applies p env → a.target ≠ b.target
    · -- the name is assigned twice behind `a`
      have hd₁ : ¬as.Pairwise fun a b =>
          a.Applies p env₁ → b.Applies p env₁ → a.target ≠ b.target := by
        intro hpair
        exact hd (List.pairwise_cons.mpr ⟨hfirst, hpair.imp fun hrel ha hb =>
          hrel (hgrown.applies ha) (hgrown.applies hb)⟩)
      obtain ⟨env', k, v₁, v', hrun, hv₁, hv', hlt⟩ := ih has hd₁
      rcases hgrown k with ⟨-, hn⟩ | ⟨v, w, hv, hw, -, hle⟩
      · rw [hv₁] at hn
        cases hn
      · obtain rfl := Option.some.inj (hv₁.symm.trans hw)
        refine ⟨env', k, v, v', ?_, hv, hv', by omega⟩
        rw [run_cons, hstep]
        exact hrun
    · push Not at hfirst
      obtain ⟨b, hb, ⟨⟨v, hv, hp⟩, c, hc⟩, hbapp, htarget⟩ := hfirst
      obtain ⟨v₁, hv₁, hlv, -⟩ := hlift v c hv hp hc
      obtain ⟨⟨w, hw, hpw⟩, d, hd₁⟩ := hgrown.applies hbapp
      obtain ⟨env', hrun, -, hlift'⟩ := run_of_rises env₁ has
      obtain ⟨v', hv', hlw, -⟩ := hlift' b hb w d hw hpw hd₁
      rw [← htarget] at hw hv'
      obtain rfl := Option.some.inj (hv₁.symm.trans hw)
      refine ⟨env', a.target, v, v', ?_, hv, hv', by omega⟩
      rw [run_cons, hstep]
      exact hrun

end Assignment
