import TaggedJson.Command.Run
import TaggedJson.Command.Words
/-! The program: files and standard input are read, the command runs on them, and what it says is
printed. -/
namespace TaggedJson

def programName : String := "sealedctl"

def Usage.message : Usage → String
  | .helpAsked | .nothingGiven =>
    "usage: sealedctl check HIERARCHY\n" ++
      "       sealedctl decode HIERARCHY [INPUT] [--strict]\n" ++
      "       sealedctl encode HIERARCHY [INPUT]"
  | .unknownCommand => "unknown command"
  | .missingHierarchy => "a hierarchy file is required"
  | .unknownWord => "unexpected argument"
  | .repeatedFlag => "an option is given twice"
  | .flagWithValue => "an option takes no value"
  | .emptyPath => "a path is empty"

/-- The number of an error, which some calls give negated. -/
def errorNumber (code : UInt32) : Nat := min code.toNat (-code).toNat

def faultOf (e : IO.Error) : PathFault :=
  match e with
  | .noFileOrDirectory .. => .missing
  | .permissionDenied .. => .other "Permission denied (os error 13)"
  | .inappropriateType _ code _ | .invalidArgument _ code _ =>
    match errorNumber code with
    | 20 => .throughFile
    | 21 => .isFolder
    | 36 => .tooLong
    | _ => .other (toString e)
  | _ => .other (toString e)

def readFile (path : String) : IO (Except PathFault (List UInt8)) := do
  try
    return .ok (← IO.FS.readBinFile path).toList
  catch e => return .error (faultOf e)

def readStandardInput : IO (List UInt8) := do
  return (← (← IO.getStdin).readBinToEnd).toList

/-- Standard input is not waited for if the hierarchy is not sound. -/
def Command.surroundings (command : Command) : IO Surroundings := do
  let files ← command.paths.mapM fun path => return (path, ← readFile path)
  let around : Surroundings := ⟨fun path => (files.lookup path).getD (.error .missing), []⟩
  match command.readsStandardInput, around.loadTable command.hierarchyPath with
  | true, .ok _ => return { around with standardInput := ← readStandardInput }
  | _, _ => return around

def runWords (words : List String) : IO UInt32 := do
  match Command.parse words with
  | .error .helpAsked => do
    IO.println Usage.helpAsked.message
    return 0
  | .error usage => do
    IO.eprintln usage.message
    return 2
  | .ok command => do
    let outcome := command.run (← command.surroundings)
    IO.print outcome.output
    IO.eprint outcome.errorOutput
    match outcome.result with
    | .ok () => return 0
    | .error e => do
      IO.eprintln (programName ++ " " ++ command.name ++ ": " ++ e.message)
      return 1

end TaggedJson

def main (words : List String) : IO UInt32 := TaggedJson.runWords words
