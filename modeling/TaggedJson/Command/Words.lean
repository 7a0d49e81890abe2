import TaggedJson.Command.Basic
/-! From the words of a command line to a command. Words are taken from the left, and the first one
that does not fit decides. -/
namespace TaggedJson

/-- Why a command line is no command. -/
inductive Usage where
  | helpAsked
  | nothingGiven
  | unknownCommand
  | missingHierarchy
  | unknownWord
  | repeatedFlag
  | flagWithValue
  | emptyPath
deriving DecidableEq

inductive Word where
  | optionsEnd
  | long (name : List Char) (value : Option (List Char))
  | short (letters : List Char)
  | plain (text : String)

/-- A dash alone is a plain word. -/
def Word.ofText (text : String) : Word :=
  match text.toList with
  | ['-', '-'] => .optionsEnd
  | '-' :: '-' :: rest =>
    .long (rest.takeWhile (· ≠ '=')) (rest.dropWhile (· ≠ '=')).tail?
  | '-' :: c :: rest => .short (c :: rest)
  | _ => .plain text

/-- The options there are. -/
inductive Flag where
  | help
  | strict
deriving DecidableEq

def Flag.long (flag : Flag) : String :=
  match flag with
  | .help => "help"
  | .strict => "strict"

inductive Verb where
  | check
  | decode
  | encode
deriving DecidableEq

namespace Verb

def ofText? : String → Option Verb
  | "check" => some .check
  | "decode" => some .decode
  | "encode" => some .encode
  | _ => none

def flags : Verb → List Flag
  | .decode => [.help, .strict]
  | .check | .encode => [.help]

/-- How many paths there may be; the first is required. -/
def places : Verb → Nat
  | .check => 1
  | .decode | .encode => 2

def command (verb : Verb) (hierarchy : String) (input : Option String) (strict : Bool) : Command :=
  match verb with
  | .check => .check hierarchy
  | .decode => .decode hierarchy input strict
  | .encode => .encode hierarchy input

end Verb

/-- The flag a word stands for among those that are known. Short options are read letter by letter,
and the only letter is that for help. -/
def Word.flag (flags : List Flag) : Word → Except Usage Flag
  | .long name value =>
    match flags.find? fun flag => flag.long.toList == name with
    | none => .error .unknownWord
    | some flag => if value.isSome then .error .flagWithValue else .ok flag
  | .short ('h' :: _) => .ok .help
  | _ => .error .unknownWord

/-- The words of a verb so far. -/
structure Given where
  paths : List String
  strict : Bool

namespace Given

def empty : Given := ⟨[], false⟩

/-- The path before the next thing that fits must not be empty. -/
def settled (given : Given) : Except Usage Given :=
  if given.paths.getLast? = some "" then .error .emptyPath else .ok given

def addPath (verb : Verb) (given : Given) (text : String) : Except Usage Given := do
  if given.paths.length < verb.places then
    let given ← given.settled
    .ok { given with paths := given.paths ++ [text] }
  else .error .unknownWord

def addFlag (given : Given) (flag : Flag) : Except Usage Given := do
  let given ← given.settled
  match flag with
  | .help => .error .helpAsked
  | .strict => if given.strict then .error .repeatedFlag else .ok { given with strict := true }

def addAll (verb : Verb) (given : Given) : List String → Except Usage Given
  | [] => .ok given
  | word :: rest =>
    match Word.ofText word with
    -- All words after the end of the options are paths, whatever they look like.
    | .optionsEnd => rest.foldlM (addPath verb) given
    | .plain text => do addAll verb (← given.addPath verb text) rest
    | option => do addAll verb (← given.addFlag (← option.flag verb.flags)) rest

end Given

def Verb.read (verb : Verb) (words : List String) : Except Usage Command := do
  let given ← Given.empty.addAll verb words
  let given ← given.settled
  match given.paths with
  | hierarchy :: rest => .ok (verb.command hierarchy rest.head? given.strict)
  | [] => .error .missingHierarchy

/-- Help can be asked for as a command, which takes the name of one that help is wanted on. -/
def helpWord : String := "help"

def isCommandName (text : String) : Bool := (Verb.ofText? text).isSome || text == helpWord

def helpOn : List String → Usage
  | [] => .helpAsked
  | [topic] => if isCommandName topic then .helpAsked else .unknownCommand
  | _ => .unknownCommand

def Command.parse : List String → Except Usage Command
  | [] => .error .nothingGiven
  | word :: rest =>
    match Word.ofText word with
    | .optionsEnd =>
      match rest with
      | [] => .error .nothingGiven
      | text :: _ => .error (if isCommandName text then .unknownWord else .unknownCommand)
    | .plain text =>
      match Verb.ofText? text with
      | some verb => verb.read rest
      | none => .error (if text = helpWord then helpOn rest else .unknownCommand)
    | option => do
      let _ ← option.flag [.help]
      .error .helpAsked

end TaggedJson
