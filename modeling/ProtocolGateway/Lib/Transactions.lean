import Mathlib.Data.List.Basic

/-!
# Transactions

A transaction collects the effects of its statements and commits them together. A statement that
fails aborts it: every statement after it fails too, and the commit goes back to the state at the
start. A program may leave at the first failure, or catch each failure and go on.

* `catching_eq_untilFailure` — going on after a failure saves nothing.
* `commit_catching` — all the effects are committed, or none.
-/

universe u

/-- A statement: whether it fails, and what it does if not. -/
structure Statement (σ : Type u) where
  fails : Bool
  effect : σ → σ

/-- An open transaction. -/
structure Transaction (σ : Type u) where
  /-- the state it was begun in -/
  start : σ
  /-- the state its next statement sees -/
  current : σ
  aborted : Bool

namespace Transaction

variable {σ : Type u}

/-- A transaction that has just been begun. -/
def fresh (s : σ) : Transaction σ := ⟨s, s, false⟩

/-- One statement. -/
def execute (t : Transaction σ) (statement : Statement σ) : Transaction σ :=
  if t.aborted || statement.fails then { t with aborted := true }
  else { t with current := statement.effect t.current }

/-- The statements one after the other, the failure of each caught. -/
def catching (t : Transaction σ) (statements : List (Statement σ)) : Transaction σ :=
  statements.foldl execute t

/-- The statements up to the first that fails. -/
def untilFailure (t : Transaction σ) : List (Statement σ) → Transaction σ
  | [] => t
  | statement :: rest =>
    if (t.execute statement).aborted then t.execute statement
    else (t.execute statement).untilFailure rest

/-- The state that a transaction leaves. -/
def commit (t : Transaction σ) : σ := if t.aborted then t.start else t.current

/-- The effects of statements, none of which fails. -/
def effects (statements : List (Statement σ)) (s : σ) : σ :=
  statements.foldl (fun s statement => statement.effect s) s

/-! ## One statement -/

theorem execute_of_aborted {t : Transaction σ} (h : t.aborted = true) (statement : Statement σ) :
    t.execute statement = t := by
  obtain ⟨start, current, aborted⟩ := t
  cases h
  rfl

theorem execute_of_fails {t : Transaction σ} {statement : Statement σ}
    (h : statement.fails = true) : t.execute statement = { t with aborted := true } := by
  rw [execute, h, Bool.or_true, if_pos rfl]

theorem execute_of_succeeds {t : Transaction σ} {statement : Statement σ} (ht : t.aborted = false)
    (h : statement.fails = false) :
    t.execute statement = { t with current := statement.effect t.current } := by
  rw [execute, ht, h, Bool.or_false]
  rfl

/-! ## Several statements -/

theorem catching_of_aborted {t : Transaction σ} (h : t.aborted = true)
    (statements : List (Statement σ)) : t.catching statements = t := by
  induction statements with
  | nil => rfl
  | cons statement rest ih =>
    rw [catching, List.foldl_cons, execute_of_aborted h]
    exact ih

/-- A program that catches the failures of its statements leaves the transaction as one that stops
at the first of them. -/
theorem catching_eq_untilFailure (t : Transaction σ) (statements : List (Statement σ)) :
    t.catching statements = t.untilFailure statements := by
  induction statements generalizing t with
  | nil => rfl
  | cons statement rest ih =>
    rw [catching, List.foldl_cons, untilFailure]
    split
    · next h => exact catching_of_aborted h rest
    · exact ih _

/-- A transaction goes back to its start if one of the statements fails, and otherwise has all their
effects. -/
theorem commit_catching_of_open {t : Transaction σ} (ht : t.aborted = false)
    (statements : List (Statement σ)) :
    (t.catching statements).commit =
      if statements.any Statement.fails then t.start else effects statements t.current := by
  induction statements generalizing t with
  | nil =>
    show t.commit = t.current
    rw [commit, ht]
    rfl
  | cons statement rest ih =>
    rw [catching, List.foldl_cons, List.any_cons]
    cases hfails : statement.fails with
    | true =>
      have hstop : (t.execute statement).catching rest = t.execute statement := by
        rw [execute_of_fails hfails]
        exact catching_of_aborted rfl rest
      rw [← catching, hstop, execute_of_fails hfails]
      rfl
    | false =>
      rw [execute_of_succeeds ht hfails, ← catching,
        @ih { t with current := statement.effect t.current } ht]
      rfl

/-- A transaction is aborted once one of its statements has failed. -/
theorem aborted_catching_of_open {t : Transaction σ} (ht : t.aborted = false)
    (statements : List (Statement σ)) :
    (t.catching statements).aborted = statements.any Statement.fails := by
  induction statements generalizing t with
  | nil => exact ht
  | cons statement rest ih =>
    rw [catching, List.foldl_cons, List.any_cons]
    cases hfails : statement.fails with
    | true =>
      rw [execute_of_fails hfails, ← catching, catching_of_aborted rfl]
      rfl
    | false =>
      rw [execute_of_succeeds ht hfails, ← catching,
        @ih { t with current := statement.effect t.current } ht]
      rfl

/-- **All or nothing.** -/
theorem commit_catching (s : σ) (statements : List (Statement σ)) :
    ((fresh s).catching statements).commit =
      if statements.any Statement.fails then s else effects statements s :=
  commit_catching_of_open rfl statements

theorem commit_untilFailure (s : σ) (statements : List (Statement σ)) :
    ((fresh s).untilFailure statements).commit =
      if statements.any Statement.fails then s else effects statements s := by
  rw [← catching_eq_untilFailure, commit_catching]

theorem aborted_untilFailure (s : σ) (statements : List (Statement σ)) :
    ((fresh s).untilFailure statements).aborted = statements.any Statement.fails := by
  rw [← catching_eq_untilFailure]
  exact aborted_catching_of_open rfl statements

end Transaction
