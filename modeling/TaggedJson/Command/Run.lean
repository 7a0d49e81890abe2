import TaggedJson.Command.Basic
import TaggedJson.Command.Folder
import TaggedJson.Hierarchy.LabelTable
import TaggedJson.HierarchyFile.Build
import TaggedJson.HierarchyFile.Parser
import TaggedJson.Lines.Conversion
import TaggedJson.Lines.Report
/-! Running commands on given files and a given standard input. -/
namespace TaggedJson
open Hierarchy

/-- What a command finds around it: the bytes of each file or the reason why it cannot be read. -/
structure Surroundings where
  file : String → Except PathFault (List UInt8)
  standardInput : List UInt8

def notUtf8 : String := "stream did not contain valid UTF-8"

inductive CommandFailure where
  | file (error : HierarchyFile.Error)
  | notOpened (path : String) (fault : PathFault)
  | inputIsFolder
  | inputBroken
  | documents (failed total : Nat)
deriving DecidableEq

def CommandFailure.message : CommandFailure → String
  | .file error => error.message
  | .notOpened path fault => "failed to open " ++ path ++ ": " ++ fault.message
  | .inputIsFolder => "I/O error: " ++ PathFault.isFolder.message
  | .inputBroken => "I/O error: " ++ notUtf8
  | .documents failed total =>
    toString failed ++ " of " ++ toString total ++ " documents failed"

structure Outcome where
  output : String
  errorOutput : String
  result : Except CommandFailure Unit

namespace Outcome

def failed (error : CommandFailure) : Outcome := ⟨"", "", .error error⟩

/-- A run that ends early fails for that alone, whatever failed before. -/
def ofReport (report : Report LineFailure) : Outcome :=
  ⟨report.output, report.errorOutput LineFailure.message,
    if report.broken then .error .inputBroken
    else if report.failed = 0 then .ok ()
    else .error (.documents report.failed report.processed)⟩

end Outcome

namespace Surroundings

def loadFile (around : Surroundings) (path : String) : Except HierarchyFile.Error HierarchyFile :=
  match around.file path with
  | .error fault => .error (.unreadable path fault.message)
  | .ok bytes =>
    match Text.ofUtf8? bytes with
    | none => .error (.unreadable path notUtf8)
    | some text => HierarchyFile.parse text

def loadTable (around : Surroundings) (path : String) :
    Except HierarchyFile.Error (Table Variant) := do
  (← around.loadFile path).table

/-- A folder can be opened like a file, but not read. -/
def input (around : Surroundings) : Option String → Except CommandFailure (List UInt8)
  | none => .ok around.standardInput
  | some path =>
    match around.file path with
    | .ok bytes => .ok bytes
    | .error .isFolder => .error .inputIsFolder
    | .error fault => .error (.notOpened path fault)

/-- The input is not looked at unless the hierarchy is sound. -/
def convert (around : Surroundings) (hierarchy : String) (path : Option String)
    (line : Table Variant → String → Except LineFailure String) : Outcome :=
  match around.loadTable hierarchy with
  | .error e => .failed (.file e)
  | .ok table =>
    match around.input path with
    | .error e => .failed e
    | .ok bytes => .ofReport (convertInput (line table) bytes)

end Surroundings

def Command.run (around : Surroundings) : Command → Outcome
  | .check hierarchy =>
    match around.loadTable hierarchy with
    | .error e => .failed (.file e)
    | .ok table => ⟨linesText table.labelLines, "", .ok ()⟩
  | .decode hierarchy path strict =>
    around.convert hierarchy path fun table => decodeLine table strict
  | .encode hierarchy path => around.convert hierarchy path encodeLine

end TaggedJson
