import TaggedJson.Text.Blank
import TaggedJson.Text.Utf8
/-! Documents one to a line. Each is converted on its own: what succeeds is printed, what fails is
reported with the number of its line, and blank lines count as lines only. -/
namespace TaggedJson

def newline : UInt8 := '\n'.toUInt8

/-- The lines of an input without their newlines. An input that ends in a newline has no line after
it. -/
def splitLines : List UInt8 → List (List UInt8)
  | [] => []
  | byte :: rest =>
    if byte = newline then [] :: splitLines rest
    else
      match splitLines rest with
      | [] => [[byte]]
      | line :: lines => (byte :: line) :: lines

/-- The document on a line, if the line is UTF-8. It is empty on a blank line. -/
def documentOf? (line : List UInt8) : Option String :=
  (Text.ofUtf8? line).map fun text => String.ofList (Text.trimBlanks text.toList)

/-- Each text on a line of its own. -/
def linesText (lines : List String) : String := String.join (lines.map (· ++ "\n"))

/-- What came of a run over lines: the results, and the errors with the numbers of their lines. -/
structure Report (ε : Type) where
  printed : List String
  failures : List (Nat × ε)
  /-- Whether the run ended early, at a line that is not UTF-8. -/
  broken : Bool

namespace Report
variable {ε : Type}

def empty : Report ε := ⟨[], [], false⟩

def stopped : Report ε := ⟨[], [], true⟩

/-- A report with the outcome of an earlier document put in front. -/
def cons (number : Nat) (outcome : Except ε String) (report : Report ε) : Report ε :=
  match outcome with
  | .ok text => { report with printed := text :: report.printed }
  | .error e => { report with failures := (number, e) :: report.failures }

def failed (report : Report ε) : Nat := report.failures.length

def processed (report : Report ε) : Nat := report.printed.length + report.failed

def output (report : Report ε) : String := linesText report.printed

def errorOutput (message : ε → String) (report : Report ε) : String :=
  linesText (report.failures.map fun (number, e) =>
    "line " ++ toString number ++ ": " ++ message e)

end Report

/-- The report on lines of which the first has the given number. -/
def convertLines (convert : String → Except ε String) (number : Nat) :
    List (List UInt8) → Report ε
  | [] => .empty
  | line :: rest =>
    match documentOf? line with
    | none => .stopped
    | some document =>
      let report := convertLines convert (number + 1) rest
      if document.isEmpty then report else report.cons number (convert document)

def convertInput (convert : String → Except ε String) (input : List UInt8) : Report ε :=
  convertLines convert 1 (splitLines input)

end TaggedJson
