/-! Folders, the files in them, and where paths lead. A path is followed name by name, from the
folder a command works in or, if it starts with a slash, from the root. -/
namespace TaggedJson

/-- Why a path leads to nothing that can be read. -/
inductive PathFault where
  | missing
  /-- The path goes on after a file. -/
  | throughFile
  | isFolder
  | tooLong
  | holdsNul
  | other (reason : String)
deriving DecidableEq

def PathFault.message : PathFault → String
  | .missing => "No such file or directory (os error 2)"
  | .throughFile => "Not a directory (os error 20)"
  | .isFolder => "Is a directory (os error 21)"
  | .tooLong => "File name too long (os error 36)"
  | .holdsNul => "file name contained an unexpected NUL byte"
  | .other reason => reason

inductive Entry where
  | file (bytes : List UInt8)
  | folder (entries : List (String × Entry))

/-- The bytes one name of a path may have. -/
def longestName : Nat := 255

/-- The bytes a whole path may have. -/
def longestPath : Nat := 4095

/-- The names of a path. Every slash ends a name, so some names can be empty. -/
def splitSlashes : List Char → List (List Char)
  | [] => [[]]
  | c :: rest =>
    if c = '/' then [] :: splitSlashes rest
    else
      match splitSlashes rest with
      | [] => [[c]]
      | name :: names => (c :: name) :: names

def pathNames (path : String) : List String := (splitSlashes path.toList).map String.ofList

namespace Entry

/-- Where names lead from an entry, given the folders around it from the nearest on. An empty name
and a dot stay in a folder, two dots leave it, and nothing leaves the outermost one. -/
def follow (around : List Entry) (here : Entry) : List String → Except PathFault Entry
  | [] => .ok here
  | name :: names =>
    match here with
    | .file _ => .error .throughFile
    | .folder entries =>
      if name = "" ∨ name = "." then follow around here names
      else if name = ".." then
        match around with
        -- The folder above the root is the root.
        | [] => follow [] here names
        | outer :: others => follow others outer names
      else if longestName < name.utf8ByteSize then .error .tooLong
      else
        match entries.lookup name with
        | none => .error .missing
        | some inner => follow (here :: around) inner names

/-- Entries with a file put where names lead, in folders of its own where there are none. -/
def put (bytes : List UInt8) : List String → List (String × Entry) → List (String × Entry)
  | [], entries => entries
  | [name], entries => (name, .file bytes) :: entries
  | name :: next :: names, entries =>
    let inner := match entries.lookup name with
      | some (.folder inner) => inner
      | _ => []
    (name, .folder (put bytes (next :: names) inner)) :: entries

/-- A folder that holds the given files, each under its path. -/
def ofFiles (files : List (String × List UInt8)) : Entry :=
  .folder (files.foldl (fun entries (path, bytes) => put bytes (pathNames path) entries) [])

/-- What the root of every system holds: some folders, and a file that is always empty. -/
def systemRoot : Entry :=
  .folder (("dev", .folder [("null", .file [])]) ::
    ["bin", "boot", "etc", "home", "lib", "mnt", "opt", "proc", "root", "run", "sbin", "srv", "sys",
      "tmp", "usr", "var"].map fun name => (name, .folder []))

/-- The file a path leads to from a folder to work in. Of the folder around that one nothing is
known, so it counts as empty and outermost. -/
def read (working root : Entry) (path : String) : Except PathFault (List UInt8) :=
  if '\x00' ∈ path.toList then .error .holdsNul
  else if path = "" then .error .missing
  else if longestPath < path.utf8ByteSize then .error .tooLong
  else
    let found :=
      if path.toList.head? = some '/' then root.follow [] (pathNames path)
      else working.follow [.folder []] (pathNames path)
    match found with
    | .ok (.file bytes) => .ok bytes
    | .ok (.folder _) => .error .isFolder
    | .error fault => .error fault

end Entry
end TaggedJson
