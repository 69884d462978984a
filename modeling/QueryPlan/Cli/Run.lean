import QueryPlan.Cli.Report
import QueryPlan.Json.Parser
import QueryPlan.Query.Json

/-!
# Running a command

A command reads a query and perhaps a catalog, compiles the one over the other, and reports on the
plan. The query is read first, so its faults come before those of the catalog.
-/

namespace QueryPlan.Cli

/-- Why a command fails. -/
inductive Failure
  | unreadable (file reason : String)
  | invalidQuery (file : String)
  | invalidCatalog (file : String)
  | compile (error : Error)

/-- An error of the compiler is followed by each of its causes. -/
def Failure.message : Failure → String
  | unreadable file reason => "failed to read " ++ file ++ ": " ++ reason
  | invalidQuery file => file ++ " is not a valid query"
  | invalidCatalog file => file ++ " is not a valid catalog"
  | compile error => ": ".intercalate (error.chain.map Error.message)

/-- What a run leaves behind: an exit code, what it prints, and its complaint. -/
structure Outcome where
  exitCode : Nat
  output : String
  complaint : Option String

/-- The contents of files by name, or why a file cannot be read. -/
abbrev Files := String → Except String String

def readFile (files : Files) (file : String) : Except Failure String :=
  match files file with
  | .ok contents => .ok contents
  | .error reason => .error (.unreadable file reason)

def readQuery (files : Files) (file : String) : Except Failure Query := do
  match (Json.parse? (← readFile files file)).bind (Query.ofJson? .file) with
  | some query => return query
  | none => throw (.invalidQuery file)

/-- The catalog in a file, or the default one. -/
def readCatalog (files : Files) : Option String → Except Failure Catalog
  | none => .ok .withDefaultGraph
  | some file => do
    match (Json.parse? (← readFile files file)).bind Catalog.ofJson? with
    | some catalog => return catalog
    | none => throw (.invalidCatalog file)

/-- Reads and compiles what the arguments name. -/
def compile (files : Files) (args : Arguments) : Except Failure Compiled := do
  let query ← readQuery files args.query
  let catalog ← readCatalog files args.catalog
  match ((Compiler.new catalog args.settings).compile query).1 with
  | .ok compiled => return compiled
  | .error e => throw (.compile e)

/-- Runs a well-formed command line. -/
def Arguments.run (args : Arguments) (files : Files) : Outcome :=
  match compile files args with
  | .ok compiled =>
    ⟨0, if args.quiet then "" else report args.format args.command compiled, none⟩
  | .error failure => ⟨1, "", some ("✗ " ++ failure.message)⟩

/-- What the program is called, and its version. -/
def version : String := "polyplan 0.1.0"

/-- What comes of arguments that are not read to their end. Those that are not understood have exit
code two. -/
def Halt.outcome : Halt → Outcome
  | fault => ⟨2, "", none⟩
  | version => ⟨0, Cli.version ++ "\n", none⟩

/-- Runs a command line over some files. -/
def run (files : Files) (args : List String) : Outcome :=
  match Arguments.parse args with
  | .ok args => args.run files
  | .error halt => halt.outcome

end QueryPlan.Cli
