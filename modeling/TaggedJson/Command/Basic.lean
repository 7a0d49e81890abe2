/-! The commands of the program. -/
namespace TaggedJson

/-- Paths are as given; without an input path a conversion reads standard input. -/
inductive Command where
  | check (hierarchy : String)
  | decode (hierarchy : String) (input : Option String) (strict : Bool)
  | encode (hierarchy : String) (input : Option String)
deriving DecidableEq

namespace Command

def name : Command → String
  | .check _ => "check"
  | .decode .. => "decode"
  | .encode .. => "encode"

def hierarchyPath : Command → String
  | .check hierarchy | .decode hierarchy _ _ | .encode hierarchy _ => hierarchy

def inputPath? : Command → Option String
  | .check _ => none
  | .decode _ input _ | .encode _ input => input

def readsStandardInput : Command → Bool
  | .check _ => false
  | .decode _ input _ | .encode _ input => input.isNone

/-- The files a command reads. -/
def paths (command : Command) : List String := command.hierarchyPath :: command.inputPath?.toList

end Command
end TaggedJson
