import TaggedJson.Hierarchy.Table
import TaggedJson.Text.Diagnostic
/-! Tables and what labels resolve to, as diagnostics show them. -/
namespace TaggedJson.Hierarchy
open Text
variable {α : Type}

def revealBool (value : Bool) : String := if value then "true" else "false"

def Entry.describe (entry : Entry α) : String :=
  revealRecord "SubtypeEntry" [("subtype", reveal entry.subtype), ("label", reveal entry.label),
    ("alternate_labels", revealList (entry.alternates.map reveal)),
    ("singleton", revealBool entry.isSingleton)]

def Policy.detail : Policy α → String
  | .none => "None"
  | .null => "Null"
  | .object subtype _ => "ObjectInstance(" ++ reveal subtype ++ ")"
  | .fallback subtype _ => "DelegateAdapter(" ++ reveal subtype ++ ")"

def Table.describe (table : Table α) : String :=
  revealRecord "ResolutionTable" [("key", reveal table.key),
    ("entries", revealList (table.entries.map Entry.describe)),
    ("nested", revealList (table.nested.map fun group => reveal group.1)),
    ("default", table.policy.detail)]

def Table.describeAdapter (table : Table α) (strict : Bool) : String :=
  revealRecord "SealedAdapter" [("table", table.describe), ("strict", revealBool strict)]

def Target.describe : Target α → String
  | .subtype entry => "Subtype(" ++ entry.describe ++ ")"
  | .null => "Null"
  | .object _ => "Object"
  | .fallback _ => "Delegate"

end TaggedJson.Hierarchy
