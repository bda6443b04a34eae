import RangeCache.Span

/-!
# Prefetch plans

What a read makes worth fetching: spans, each with a priority, in the order in which they are asked for.
An immediate span is one that a caller is about to wait for, a speculative one may turn out useless. A
plan never lists a span without bytes.
-/

namespace RangeCache

/-- How urgent a fetch is. -/
inductive Priority where
  | speculative
  | immediate
  deriving DecidableEq, Repr, Inhabited

/-- The rank of a priority in the fetch queue; the lower rank goes first. -/
def Priority.rank : Priority → Nat
  | immediate => 0
  | speculative => 1

/-- What gave rise to a plan. -/
inductive PlanKind where
  | empty
  /-- Sequential reads: the bytes that come next. -/
  | sequential
  /-- Columns that were declared. -/
  | columns
  /-- Columns that were read recently. -/
  | predictive
  deriving DecidableEq, Repr, Inhabited

/-- Whether the spans of such a plan are fetched as they are, not widened to whole cells of the grid. -/
def PlanKind.isExact : PlanKind → Bool
  | columns | predictive => true
  | empty | sequential => false

/-- A span to fetch. -/
structure PlanEntry where
  span : Span
  priority : Priority
  deriving DecidableEq, Repr, Inhabited

/-- The spans to fetch, in order. -/
structure Plan where
  kind : PlanKind := .empty
  entries : List PlanEntry := []
  deriving DecidableEq, Repr, Inhabited

namespace Plan

def entriesFor (spans : List Span) (priority : Priority) : List PlanEntry :=
  (spans.filter fun s => !s.isEmpty).map fun s => ⟨s, priority⟩

def of (kind : PlanKind) (spans : List Span) (priority : Priority) : Plan := ⟨kind, entriesFor spans priority⟩

def withSpans (p : Plan) (spans : List Span) (priority : Priority) : Plan :=
  { p with entries := p.entries ++ entriesFor spans priority }

def isEmpty (p : Plan) : Bool := p.entries.isEmpty

def spans (p : Plan) (priority : Priority) : List Span :=
  (p.entries.filter fun e => e.priority == priority).map (·.span)

end Plan

end RangeCache
