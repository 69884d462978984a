import QueryPlan.Cli.Arguments
import QueryPlan.Json.Printer
import QueryPlan.Plan.Json
import QueryPlan.Text.Table

/-!
# What the commands print

Each command shows one side of a compiled query, as a table or as JSON.
-/

namespace QueryPlan.Cli

mutual

/-- A row for each node: its operator, indented by its depth, its model and its schema. -/
def planRows (depth : Nat) : Plan → List (List String)
  | ⟨_, op, inputs, schema, model⟩ =>
    [String.ofList (List.replicate (2 * depth) ' ') ++ op.kind, model.text, schema.text] ::
      planRowsAll (depth + 1) inputs

def planRowsAll (depth : Nat) : List Plan → List (List String)
  | [] => []
  | p :: ps => planRows depth p ++ planRowsAll depth ps

end

/-- The fields of a schema with their numbers, counting from `start`. -/
def schemaRows (start : Nat) : Schema → List (Nat × Field)
  | [] => []
  | f :: fs => (start, f) :: schemaRows (start + 1) fs

def tableReport (command : Command) (c : Compiled) : String :=
  match command with
  | .explain =>
    "Kind: " ++ c.kind.jsonName ++ "\n\n" ++
      Text.Table.text ⟨["Operator", "Model", "Schema"], planRows 0 c.root⟩
  | .schema =>
    Text.Table.text ⟨["#", "Name", "Type"],
      (schemaRows 0 c.root.schema).map fun (index, f) => [toString index, f.name, f.ty.text]⟩
  | .fingerprint =>
    Text.Table.text ⟨["Property", "Value"], [["Kind", c.kind.jsonName],
      ["Digest", (Digest.text c.root.digest)], ["Nodes", toString c.root.size],
      ["Fingerprint", c.root.fingerprint]]⟩

def jsonReport (command : Command) (c : Compiled) : Json :=
  match command with
  | .explain =>
    .obj [("kind", .str c.kind.jsonName), ("fingerprint", .str (Digest.text c.root.digest)),
      ("plan", c.root.toJson)]
  | .schema =>
    .arr ((schemaRows 0 c.root.schema).map fun (index, f) =>
      .obj [("index", .ofNat index), ("name", .str f.name), ("type", .str f.ty.text)])
  | .fingerprint =>
    .obj [("kind", .str c.kind.jsonName), ("digest", .str (Digest.text c.root.digest)),
      ("nodes", .ofNat c.root.size), ("fingerprint", .str c.root.fingerprint)]

def report (format : Format) (command : Command) (c : Compiled) : String :=
  match format with
  | .table => tableReport command c ++ "\n"
  | .json => (jsonReport command c).pretty ++ "\n"

end QueryPlan.Cli
