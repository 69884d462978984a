import QueryPlan.Compiler

/-!
# The arguments of the command line

A command is followed by the file that holds the query. General options stand before or after the
command; one given on both sides has the later value, one given twice on the same side is a fault,
as is whatever else is not expected. Before the command one may also ask for the version.
-/

namespace QueryPlan.Cli

inductive Command
  | explain
  | schema
  | fingerprint
deriving DecidableEq, Repr

def Command.ofName? : String → Option Command
  | "explain" => some explain
  | "schema" => some schema
  | "fingerprint" => some fingerprint
  | _ => none

inductive Format
  | table
  | json
deriving DecidableEq, Repr

def Format.ofName? : String → Option Format
  | "table" => some table
  | "json" => some json
  | _ => none

/-- Names of models on the command line are in small letters. -/
def modelOfName? : String → Option Model
  | "graph" => some .graph
  | "document" => some .document
  | "relational" => some .relational
  | _ => none

/-- A number of 64 bits in decimal digits, perhaps after a plus sign. -/
def wordOfText? (s : String) : Option UInt64 :=
  let digits := match s.toList with
    | '+' :: rest => rest
    | cs => cs
  if digits.isEmpty || !digits.all Char.isDigit then none
  else
    let n : Nat := digits.foldl (fun n c => n * 10 + (c.toNat - '0'.toNat)) 0
    if n < UInt64.size then some n.toUInt64 else none

/-- The options found on one side of the command. -/
structure Options where
  format : Option Format
  quiet : Bool
  verbose : Bool
  home : Option UInt64
  model : Option Model
  noSubstitution : Bool
  catalog : Option String
  query : Option String

namespace Options

def initial : Options := ⟨none, false, false, none, none, false, none, none⟩

/-- Sets a mark by its long name. A mark is set only once. -/
def setFlag? (o : Options) : String → Option Options
  | "quiet" => if o.quiet then none else some { o with quiet := true }
  | "verbose" => if o.verbose then none else some { o with verbose := true }
  | "no-substitution" =>
    if o.noSubstitution then none else some { o with noSubstitution := true }
  | _ => none

/-- The long name of a mark with a name of one letter. -/
def flagOfLetter? : Char → Option String
  | 'q' => some "quiet"
  | 'v' => some "verbose"
  | _ => none

/-- Whether an option takes a value. The catalog is named only after the command. -/
def takesValue (afterCommand : Bool) (name : String) : Bool :=
  ["format", "namespace", "target-model"].contains name || (afterCommand && name = "catalog")

/-- Sets an option that takes a value. An option is set only once. -/
def setValue? (o : Options) (name value : String) : Option Options :=
  match name with
  | "format" => do
    if o.format.isSome then none
    return { o with format := some (← Format.ofName? value) }
  | "namespace" => do
    if o.home.isSome then none
    return { o with home := some (← wordOfText? value) }
  | "target-model" => do
    if o.model.isSome then none
    return { o with model := some (← modelOfName? value) }
  | "catalog" =>
    if o.catalog.isSome || value.isEmpty then none else some { o with catalog := some value }
  | _ => none

/-- Sets the file of the query. There is only one. -/
def setQuery? (o : Options) (file : String) : Option Options :=
  if o.query.isSome || file.isEmpty then none else some { o with query := some file }

end Options

/-- Why arguments are not read to their end. -/
inductive Halt
  | fault
  /-- The version is asked for; what follows is not looked at. -/
  | version
deriving DecidableEq, Repr

def orFault {α : Type} : Option α → Except Halt α
  | some a => .ok a
  | none => .error .fault

/-- Sets marks given by their letters. -/
def Options.setLetters (afterCommand : Bool) (o : Options) : List Char → Except Halt Options
  | [] => .ok o
  | c :: cs => do
    if c = 'V' && !afterCommand then throw .version
    let o ← orFault ((flagOfLetter? c).bind o.setFlag?)
    setLetters afterCommand o cs

/-- What one argument is. -/
inductive Token
  /-- Two hyphens: whatever follows is no option. -/
  | stop
  /-- An option by its long name, perhaps with a value after an equals sign. -/
  | long (name : String) (value : Option String)
  /-- Marks by their letters. -/
  | letters (cs : List Char)
  | plain (s : String)

/-- A single hyphen is no option. -/
def Token.ofArgument (s : String) : Token :=
  match s.toList with
  | ['-', '-'] => stop
  | '-' :: '-' :: cs =>
    let name := String.ofList (cs.takeWhile (· ≠ '='))
    match cs.dropWhile (· ≠ '=') with
    | _ :: value => long name (some (String.ofList value))
    | [] => long name none
  | '-' :: c :: cs => letters (c :: cs)
  | _ => plain s

/-- Reads the arguments of one side of the command. Before the command it ends at the first plain
argument, and gives that and what follows. -/
def readOptions (afterCommand : Bool) :
    Options → List String → Except Halt (Options × List String)
  | o, [] => .ok (o, [])
  | o, arg :: args =>
    match Token.ofArgument arg with
    | .stop =>
      if afterCommand then do return (← orFault (args.foldlM Options.setQuery? o), [])
      else .error .fault
    | .plain s =>
      if afterCommand then do readOptions afterCommand (← orFault (o.setQuery? s)) args
      else .ok (o, arg :: args)
    | .letters cs => do readOptions afterCommand (← o.setLetters afterCommand cs) args
    | .long name (some value) =>
      if Options.takesValue afterCommand name then do
        readOptions afterCommand (← orFault (o.setValue? name value)) args
      else .error .fault
    | .long name none =>
      if name = "version" && !afterCommand then .error .version
      else if Options.takesValue afterCommand name then
        match args with
        | value :: args =>
          match Token.ofArgument value with
          | .plain _ => do readOptions afterCommand (← orFault (o.setValue? name value)) args
          | _ => .error .fault
        | [] => .error .fault
      else do readOptions afterCommand (← orFault (o.setFlag? name)) args

/-- A well-formed command line. -/
structure Arguments where
  command : Command
  query : String
  catalog : Option String
  format : Format
  quiet : Bool
  verbose : Bool
  settings : Settings

/-- The settings that the options ask for. Nothing is kept from one plan to the next. -/
def settingsOf (home : UInt64) (model : Model) (noSubstitution : Bool) : Settings :=
  let s := ((Settings.default.withHome ⟨home⟩).withTargetModel model).withCacheCapacity 0
  if noSubstitution then s.withoutSubstitution else s

def Arguments.parse (args : List String) : Except Halt Arguments := do
  let (before, rest) ← readOptions false .initial args
  match rest with
  | [] => throw .fault
  | name :: rest =>
    let command ← orFault (Command.ofName? name)
    let (after, _) ← readOptions true .initial rest
    let query ← orFault after.query
    return {
      command, query
      catalog := after.catalog
      format := (after.format.or before.format).getD .table
      quiet := before.quiet || after.quiet
      verbose := before.verbose || after.verbose
      settings := settingsOf ((after.home.or before.home).getD 0)
        ((after.model.or before.model).getD .graph)
        (before.noSubstitution || after.noSubstitution) }

end QueryPlan.Cli
