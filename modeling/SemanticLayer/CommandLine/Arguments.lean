import SemanticLayer.Access.Qualify
import SemanticLayer.CommandLine.Option

/-!
# Reading arguments

Arguments are read from the left: options, then a command, then its options and what it is about.
What follows two hyphens alone is no option. A request for help or for the version ends the
reading.
-/

namespace SemanticLayer.CommandLine

/-- Why reading ends early: help or the version is asked for, or the arguments make no sense. -/
inductive Stop where
  | help
  | version
  | usage
  deriving DecidableEq, Repr

/-- The options given, in order, and the arguments that are no options. -/
structure Given where
  options : List (Topic × String) := []
  others : List String := []
  deriving DecidableEq, Repr

namespace Given

/-- The texts given for an option. -/
def texts (given : Given) (topic : Topic) : List String :=
  (given.options.filter fun option => option.1 == topic).map Prod.snd

/-- The text given for an option. -/
def text? (given : Given) (topic : Topic) : Option String :=
  (given.texts topic).head?

/-- One more option. -/
def addOption (verb : Option Verb) (given : Given) (topic : Topic) (text : String) :
    Except Stop Given :=
  match topic with
  | .help => .error .help
  | .version => .error .version
  | _ =>
    if !topic.isRepeatable && (given.text? topic).isSome then .error .usage
    else if topic.accepts verb text then
      .ok { given with options := given.options ++ [(topic, text)] }
    else .error .usage

/-- One more argument that is no option. A command is about one thing. -/
def addOther (given : Given) (text : String) : Except Stop Given :=
  if given.others.isEmpty then .ok { given with others := [text] } else .error .usage

end Given

/-- What an argument says: what it gives, and an option whose text is the next argument. -/
structure Said where
  given : Given
  pending : Option Topic := none
  deriving DecidableEq, Repr

/-- Whether an argument looks like an option. A hyphen alone does not. -/
def looksLikeOption (argument : String) : Bool :=
  match argument.toList with
  | '-' :: _ :: _ => true
  | _ => false

/-- An option of a word, with its text behind an equals sign or in the next argument. -/
def readWord (verb : Option Verb) (given : Given) (chars : List Char) : Except Stop Said := do
  let text? :=
    match chars.dropWhile (· != '=') with
    | _ :: text => some (String.ofList text)
    | [] => none
  match Topic.ofWord? verb (String.ofList (chars.takeWhile (· != '='))), text? with
  | none, _ => .error .usage
  | some topic, some text =>
    if topic.takesText then do
      let given ← given.addOption verb topic text
      pure { given }
    else .error .usage
  | some topic, none =>
    if topic.takesText then pure { given, pending := some topic }
    else do
      let given ← given.addOption verb topic ""
      pure { given }

/-- Options of a letter each. The text of one that takes a text is the rest, an equals sign in front
of it left out, or the next argument. -/
def readLetters (verb : Option Verb) : List Char → Given → Except Stop Said
  | [], given => .ok { given }
  | c :: rest, given =>
    match Topic.ofLetter? verb c with
    | none => .error .usage
    | some topic =>
      if topic.takesText then
        match rest with
        | [] => .ok { given, pending := some topic }
        | '=' :: text => do
          let given ← given.addOption verb topic (String.ofList text)
          pure { given }
        | text => do
          let given ← given.addOption verb topic (String.ofList text)
          pure { given }
      else do
        let given ← given.addOption verb topic ""
        readLetters verb rest given

/-- An argument that looks like an option. -/
def readOption (verb : Option Verb) (argument : String) (given : Given) : Except Stop Said :=
  match argument.toList with
  | '-' :: '-' :: chars => readWord verb given chars
  | chars => readLetters verb (chars.drop 1) given

/-- Reads options, where `pending` waits for its text. In front of a command reading ends at the
first argument that is no option; it is given back with those behind it. -/
def readArguments (verb : Option Verb) :
    Option Topic → List String → Given → Except Stop (Given × List String)
  | none, [], given => .ok (given, [])
  | some _, [], _ => .error .usage
  | some topic, text :: rest, given =>
    if looksLikeOption text then .error .usage
    else do
      let given ← given.addOption verb topic text
      readArguments verb none rest given
  | none, argument :: rest, given =>
    if argument = "--" then do
      let given ← rest.foldlM Given.addOther given
      if verb.isNone then .error .usage else pure (given, [])
    else if looksLikeOption argument then do
      let said ← readOption verb argument given
      readArguments verb said.pending rest said.given
    else if verb.isNone then .ok (given, argument :: rest)
    else do
      let given ← given.addOther argument
      readArguments verb none rest given

/-- A command with what it is about. -/
inductive Command where
  | node (name : String) (groupBys filters : List String) (database : Option Int)
  | sql (query : String) (database : Option Int)
  | verify (query : String) (permissions : List String) (context : Access.Context)
  | dimensions (name : String)
  deriving DecidableEq, Repr

/-- What the program is asked to do, and how. -/
structure Invocation where
  config : Option String := none
  asJson : Bool := false
  verbose : Bool := false
  command : Command
  deriving DecidableEq, Repr

/-- The id that is given for a database. -/
def databaseId (given : Given) : Option Int :=
  ((given.text? .database).bind fun text => Number.int64? text.toList).map Int64.toInt

/-- The command that a verb and its arguments make. -/
def commandOf (verb : Verb) (given : Given) : Except Stop Command :=
  match given.others with
  | [] => .error .usage
  | subject :: _ =>
    match verb with
    | .node =>
      .ok (.node subject (given.texts .dimension) (given.texts .filter) (databaseId given))
    | .sql => .ok (.sql subject (databaseId given))
    | .dimensions => .ok (.dimensions subject)
    | .verify =>
      match given.texts .permission, given.text? .database with
      | [], _ | _, none => .error .usage
      | permissions, some database =>
        let context : Access.Context :=
          { database, catalog := given.text? .catalog, schema := given.text? .schema }
        .ok (.verify subject permissions context)

/-- What is asked for by arguments that do not start with a command. -/
def readHelp : List String → Stop
  | [] => .help
  | [word] => if word = "help" ∨ (Verb.ofWord? word).isSome then .help else .usage
  | _ => .usage

/-- What the arguments ask for. Options in front of the command and behind it count the same; what
is behind it wins. -/
def Invocation.ofArguments (arguments : List String) : Except Stop Invocation := do
  let (before, rest) ← readArguments none none arguments {}
  match rest with
  | [] => .error .usage
  | word :: rest =>
    if word = "help" then .error (readHelp rest)
    else
      match Verb.ofWord? word with
      | none => .error .usage
      | some verb => do
        let (given, _) ← readArguments (some verb) none rest {}
        let command ← commandOf verb given
        pure
          { config := (given.text? .config).or (before.text? .config)
            asJson := (given.text? .format).or (before.text? .format) == some "json"
            verbose := (given.text? .verbose).isSome || (before.text? .verbose).isSome
            command }

end SemanticLayer.CommandLine
