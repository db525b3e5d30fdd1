import ProtocolGateway.Text

/-!
# The names of the rollup views

Every rollup view is named `<granularity>_<rollup prefix>`, the prefix being that of one wide table
or the shared `rollup_narrow`.
-/

namespace ProtocolGateway

namespace Timescale

/-! ## Granularities -/

/-- The tiers of rollup views. -/
inductive Granularity
  | hourly
  | daily
  | weekly
  | monthly
  deriving DecidableEq, Repr

namespace Granularity

/-- The word a view name starts with. -/
def word : Granularity → List Char
  | hourly => "hourly".toList
  | daily => "daily".toList
  | weekly => "weekly".toList
  | monthly => "monthly".toList

/-- `("hourly", "daily", "weekly", "monthly")`. -/
def all : List Granularity := [hourly, daily, weekly, monthly]

theorem mem_all (g : Granularity) : g ∈ all := by cases g <;> decide

/-- `f"{granularity}_"`. -/
def mark (g : Granularity) : List Char := g.word ++ ['_']

end Granularity

/-- `f"{granularity}_{rollup_prefix}"`. -/
def viewName (g : Granularity) (rollupPrefix : List Char) : List Char := g.mark ++ rollupPrefix

/-- A view name starts with the word of its own granularity only. -/
theorem isPrefixOf_viewName (g g' : Granularity) (rollupPrefix : List Char) :
    g'.mark.isPrefixOf (viewName g rollupPrefix) = (g' == g) := by
  cases g <;> cases g' <;> rfl

end Timescale

end ProtocolGateway
