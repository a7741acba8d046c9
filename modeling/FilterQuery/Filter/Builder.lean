import FilterQuery.Filter

/-!
# Building filters

A builder collects comparisons and finished groups under one logical operator.
Finishing it gives nothing if nothing was added, the node itself if there is one,
and a group otherwise.  A nested builder that finishes with nothing leaves no
trace.
-/

namespace FilterQuery

/-- A filter under construction: the operator of its top level and the nodes
added so far, in order. -/
structure FilterBuilder where
  mode : LogicalOperator
  nodes : List Filter := []

namespace FilterBuilder

def new (mode : LogicalOperator) : FilterBuilder :=
  { mode }

def push (builder : FilterBuilder) (node : Filter) : FilterBuilder :=
  { builder with nodes := builder.nodes ++ [node] }

/-- Adds a comparison with any operator. -/
def compare (builder : FilterBuilder) (selector operator : String) (arguments : List String) :
    FilterBuilder :=
  builder.push (.comparison { selector, operator, arguments })

/-- Adds a comparison with the canonical symbol of an operator. -/
def compareWith (builder : FilterBuilder) (operator : ComparisonOperator) (selector : String)
    (arguments : List String) : FilterBuilder :=
  builder.compare selector operator.symbol arguments

/-- Adds a test for a missing value, or for a present one.  The argument is the
null token of the default options. -/
def testNull (builder : FilterBuilder) (selector : String) (negated : Bool) : FilterBuilder :=
  builder.compareWith (if negated then .notEqual else .equal) selector ["null"]

/-- The filter that has been built. -/
def finish (builder : FilterBuilder) : Option Filter :=
  match builder.nodes with
  | [] => none
  | [node] => some node
  | nodes => some (.group builder.mode nodes)

/-- Adds what a nested builder has built. -/
def addGroup (builder nested : FilterBuilder) : FilterBuilder :=
  match nested.finish with
  | some node => builder.push node
  | none => builder

end FilterBuilder

/-! ## Calls -/

/-- A call on a builder; a group holds the calls on the builder nested in it. -/
inductive BuilderCall
  | compare (operator : ComparisonOperator) (selector : String) (arguments : List String)
  | testNull (selector : String) (negated : Bool)
  | custom (selector operator : String) (arguments : List String)
  | group (mode : LogicalOperator) (calls : List BuilderCall)

namespace FilterBuilder

mutual
/-- Makes one call. -/
def call (builder : FilterBuilder) : BuilderCall → FilterBuilder
  | .compare operator selector arguments => builder.compareWith operator selector arguments
  | .testNull selector negated => builder.testNull selector negated
  | .custom selector operator arguments => builder.compare selector operator arguments
  | .group mode calls => builder.addGroup (callAll (new mode) calls)

/-- Makes calls in order. -/
def callAll (builder : FilterBuilder) : List BuilderCall → FilterBuilder
  | [] => builder
  | first :: rest => callAll (call builder first) rest
end

end FilterBuilder

end FilterQuery
