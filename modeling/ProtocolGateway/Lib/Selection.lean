import ProtocolGateway.Lib.BigEndian

/-!
# Readings of selected places

A reader looks at a list of places of a memory and computes something from the contents found
there. Two lists of places give the same result for every memory only if they are the same list,
as soon as the reader tells enough contents apart (`Separates`): a reader of numbers does, and so
does any reader of texts. For single bits of a number the places that matter are those the bits
come from (`testBit_reading_iff`).
-/

namespace Selection

variable {ι β γ : Type}

/-- A reader that tells the length of an unvaried list, and the lists over two contents of one
length, apart. -/
structure Separates (g : List β → γ) (x y : β) : Prop where
  ne : x ≠ y
  length : ∀ m n, g (List.replicate m x) = g (List.replicate n x) → m = n
  inj : ∀ as bs, as.length = bs.length → (∀ b ∈ as, b = x ∨ b = y) → (∀ b ∈ bs, b = x ∨ b = y) →
    g as = g bs → as = bs

/-- A reader that is injective on the lists over two contents separates them. -/
theorem Separates.of_injective {g : List β → γ} {x y : β} (hne : x ≠ y)
    (h : ∀ as bs, (∀ b ∈ as, b = x ∨ b = y) → (∀ b ∈ bs, b = x ∨ b = y) → g as = g bs → as = bs) :
    Separates g x y where
  ne := hne
  length m n hmn := by
    have heq := h _ _ (fun b hb => Or.inl (List.eq_of_mem_replicate hb))
      (fun b hb => Or.inl (List.eq_of_mem_replicate hb)) hmn
    simpa using congrArg List.length heq
  inj as bs _ := h as bs

/-- What an injective function makes of a reading tells no less apart. -/
theorem Separates.comp {δ : Type} {g : List β → γ} {x y : β} (hg : Separates g x y) {h : γ → δ}
    (hh : Function.Injective h) : Separates (fun bs => h (g bs)) x y where
  ne := hg.ne
  length m n hmn := hg.length m n (hh hmn)
  inj as bs hl ha hb hab := hg.inj as bs hl ha hb (hh hab)

variable [DecidableEq ι]

/-- Two selections that read alike from every memory are the same selection. -/
theorem eq_of_reads {g : List β → γ} {x y : β} (hg : Separates g x y) {ps qs : List ι}
    (h : ∀ f : ι → β, g (ps.map f) = g (qs.map f)) : ps = qs := by
  have hlen : ps.length = qs.length := by
    apply hg.length
    have := h fun _ => x
    rwa [List.map_const', List.map_const'] at this
  apply List.ext_getElem hlen
  intro i hp hq
  -- the memory that holds `x` at the `i`-th place of `ps` and `y` everywhere else
  let f : ι → β := fun p => if p = ps[i] then x else y
  have hf (rs : List ι) : ∀ b ∈ rs.map f, b = x ∨ b = y := by
    intro b hb
    obtain ⟨p, _, rfl⟩ := List.mem_map.mp hb
    by_cases hpi : p = ps[i] <;> simp [f, hpi]
  have hmap : ps.map f = qs.map f := hg.inj _ _ (by simpa using hlen) (hf ps) (hf qs) (h f)
  have hi : f ps[i] = f qs[i] := by
    have := congrArg (·[i]?) hmap
    simpa [hp, hq] using this
  by_contra hne
  have hx : f ps[i] = x := if_pos rfl
  have hy : f qs[i] = y := if_neg (Ne.symm hne)
  exact hg.ne (hx ▸ hy ▸ hi)

/-- Readers of numbers separate. -/
theorem separates_number {w : Nat} (hw : 0 < w) :
    Separates (BigEndian.number (w := w)) 1 0 where
  ne h := by
    have := congrArg BitVec.toNat h
    have hone : 1 % 2 ^ w = 1 := Nat.mod_eq_of_lt (Nat.one_lt_two_pow (by omega))
    simp [hone] at this
  length m n h := BigEndian.number_replicate_one_inj hw h
  inj as bs hl _ _ h := BigEndian.number_inj hl h

/-- Readers of numbers in two's complement separate. -/
theorem separates_signedNumber {w : Nat} (hw : 1 < w) :
    Separates (BigEndian.signedNumber (w := w)) 1 0 where
  ne := (separates_number (by omega)).ne
  length m n h := BigEndian.signedNumber_replicate_one_inj hw h
  inj as bs hl _ _ h := BigEndian.signedNumber_inj hl h

/-- A bit of a number read from two selections is always the same bit exactly if it comes from the
same place of both, or from neither. -/
theorem testBit_reading_iff {w : Nat} (hw : 0 < w) {ps qs : List ι} {j : Nat} :
    (∀ f : ι → BitVec w, (BigEndian.number (ps.map f)).testBit j
      = (BigEndian.number (qs.map f)).testBit j) ↔ ps.reverse[j / w]? = qs.reverse[j / w]? := by
  have hread (rs : List ι) (f : ι → BitVec w) : (BigEndian.number (rs.map f)).testBit j
      = (rs.reverse[j / w]?).any fun p => (f p).getLsbD (j % w) := by
    rw [BigEndian.testBit_number hw, ← List.map_reverse, List.getElem?_map, Option.any_map]
  have hmod : j % w < w := Nat.mod_lt _ hw
  simp only [hread]
  constructor
  · intro h
    -- all ones at one place, zeros elsewhere
    cases hp : ps.reverse[j / w]? with
    | none =>
      cases hq : qs.reverse[j / w]? with
      | none => rfl
      | some q =>
        have := h fun _ => BitVec.allOnes w
        simp [hp, hq, hmod] at this
    | some p =>
      have := h fun r => if r = p then BitVec.allOnes w else 0
      rw [hp] at this
      cases hq : qs.reverse[j / w]? with
      | none => simp [hq, hmod] at this
      | some q =>
        by_cases hqp : q = p
        · rw [hqp]
        · simp [hq, hqp, hmod] at this
  · intro h f
    rw [h]

end Selection
