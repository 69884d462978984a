import QueryPlan.Cli.Run

/-! # The command line -/

namespace QueryPlan.Cli

def usage : String :=
  "usage: [OPTIONS] explain|schema|fingerprint QUERY [--catalog FILE]\n" ++
    "options: --format table|json, -q, -v, --namespace N, --target-model MODEL, --no-substitution\n"

/-- Why a file cannot be read, with the number of the fault. -/
def faultText : IO.Error → String
  | .noFileOrDirectory _ code _ => s!"No such file or directory (os error {code})"
  | .permissionDenied _ code _ => s!"Permission denied (os error {code})"
  | e => toString e

/-- The contents of a file, or why it cannot be read. -/
def readContents (file : String) : IO (Except String String) := do
  try
    return .ok (← IO.FS.readFile file)
  catch e =>
    return .error (faultText e)

/-- Reads the files that the arguments name, runs the command and gives its exit code. -/
def execute (args : List String) : IO UInt32 := do
  match Arguments.parse args with
  | .error halt =>
    IO.print halt.outcome.output
    if halt = .fault then IO.eprint usage
    return halt.outcome.exitCode.toUInt32
  | .ok parsed =>
    let query ← readContents parsed.query
    let catalog ← match parsed.catalog with
      | some file => readContents file
      | none => pure (.error "")
    let outcome := parsed.run fun file => if file = parsed.query then query else catalog
    IO.print outcome.output
    match outcome.complaint with
    | some complaint => IO.eprintln complaint
    | none => pure ()
    return outcome.exitCode.toUInt32

end QueryPlan.Cli

def main (args : List String) : IO UInt32 := QueryPlan.Cli.execute args
