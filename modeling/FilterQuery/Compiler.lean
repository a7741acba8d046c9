import FilterQuery.Compile

/-!
# Compilers

A compiler is a configuration: metadata, tools and options.  A query compiler
turns filters into queries for the rows of an entity or for their number; both go
through the same compile and differ in the projection alone.  A predicate
compiler adds to a query that is there already.
-/

namespace FilterQuery

/-- The parts of a compiler that can be exchanged. -/
structure Tools where
  mapper : Mapper := AliasTable.empty.map
  parser : ArgumentParser := .standard
  strategy : Option Strategy := none

namespace Tools

/-- The usual tools with the date formats of options. -/
def ofOptions (options : Options) : Except OptionsError Tools :=
  (ArgumentParser.ofOptions options).map fun parser => { parser }

/-- Exchanges the mapper, or goes back to the one without aliases. -/
def withMapper (tools : Tools) (mapper : Option Mapper) : Tools :=
  { tools with mapper := mapper.getD ({} : Tools).mapper }

/-- Exchanges the parser, or goes back to the standard one. -/
def withParser (tools : Tools) (parser : Option ArgumentParser) : Tools :=
  { tools with parser := parser.getD .standard }

/-- Exchanges the strategy, or drops it. -/
def withStrategy (tools : Tools) (strategy : Option Strategy) : Tools :=
  { tools with strategy }

/-- A description of the tools, which shows whether there is a strategy. -/
def describe (tools : Tools) : String :=
  "BuilderTools \x7b predicate_builder: " ++ (if tools.strategy.isSome then "true" else "false")
    ++ ", .. \x7d"

end Tools

/-- Tools and options, which go together: options bring a parser for their date
formats. -/
structure Configuration where
  tools : Tools := {}
  options : Options := {}

namespace Configuration

/-- Takes over options once they have been checked. -/
def withOptions (configuration : Configuration) (options : Options) :
    Except OptionsError Configuration := do
  options.validate
  let parser ← ArgumentParser.ofOptions options
  pure { tools := configuration.tools.withParser (some parser), options }

/-- What a compile from an origin goes by. -/
def scope (configuration : Configuration) (metadata : Metadata) (origin : Origin) (steps : Nat) :
    Scope where
  metadata := metadata
  mapper := configuration.tools.mapper
  parser := configuration.tools.parser
  options := configuration.options
  origin := origin
  steps := steps

/-- Compiles a filter from an origin. -/
def compile (configuration : Configuration) (metadata : Metadata) (origin : Origin)
    (steps : Nat) (filter : Filter) : Compile Predicate :=
  (configuration.scope metadata origin steps).compile configuration.tools.strategy filter

end Configuration

/-- The bound on steps that compilers start with. -/
def defaultSteps : Nat := 1000000

/-! ## Queries -/

/-- A compiler of filters into queries. -/
structure QueryCompiler where
  metadata : Metadata
  root : EntityId
  projection : Projection
  configuration : Configuration := {}
  steps : Nat := defaultSteps

namespace QueryCompiler

/-- A compiler of queries for the rows of an entity. -/
def select (metadata : Metadata) (root : EntityId) : QueryCompiler :=
  { metadata, root, projection := .entities }

/-- A compiler of queries for the number of rows of an entity. -/
def count (metadata : Metadata) (root : EntityId) : QueryCompiler :=
  { metadata, root, projection := .count }

/-- Compiles a filter into a query, which keeps its root and its joins. -/
def compileInto (compiler : QueryCompiler) (query : Query) (filter : Filter) :
    Except Stop Query :=
  let query := { query with projection := compiler.projection }
  let compile := compiler.configuration.compile compiler.metadata (.root query.root)
    compiler.steps filter
  match compile query with
  | (.error stop, _) => .error stop
  | (.ok predicate, query) =>
      .ok { query with
        filter := some predicate
        distinct := query.distinct || compiler.configuration.options.distinct }

/-- Compiles a filter into a fresh query. -/
def compile (compiler : QueryCompiler) (filter : Filter) : Except Stop Query :=
  compiler.compileInto { root := compiler.root, projection := compiler.projection } filter

end QueryCompiler

/-! ## Predicates -/

/-- A compiler of filters into predicates on a query. -/
structure PredicateCompiler where
  metadata : Metadata
  /-- Where selectors start, once that is known. -/
  context : Option Context := none
  configuration : Configuration := {}
  steps : Nat := defaultSteps

namespace PredicateCompiler

/-- The origin of selectors in a query. -/
def origin (compiler : PredicateCompiler) (query : Query) : Except CompileError Origin :=
  match compiler.context with
  | none => .error .undefinedRoot
  | some context =>
      match query.entityOf context with
      | none => .error (.rootNotInQuery context.display)
      | some entity => .ok { context, entity }

/-- Compiles a filter and adds its joins to the query. -/
def compile (compiler : PredicateCompiler) (filter : Filter) : Compile Predicate := do
  let origin ← Compile.ofExcept (compiler.origin (← get))
  compiler.configuration.compile compiler.metadata origin compiler.steps filter

end PredicateCompiler

end FilterQuery
