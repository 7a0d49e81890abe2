import TaggedJson.Hierarchy.Table
/-! The label table of a hierarchy: a row for each label that documents may have. -/
namespace TaggedJson.Hierarchy
variable {α : Type}

inductive Row.Kind where
  | adapter
  | singleton
  /-- A label that is read but not written. -/
  | alternate
deriving DecidableEq

def Row.Kind.text : Row.Kind → String
  | .adapter => "adapter"
  | .singleton => "singleton"
  | .alternate => "alternate"

structure Row where
  label : String
  /-- The nested tables around the entry, from the outside. -/
  groups : List String
  subtype : String
  kind : Row.Kind
deriving DecidableEq

def Entry.rows (groups : List String) (entry : Entry α) : List Row :=
  ⟨entry.label, groups, entry.subtype, if entry.isSingleton then .singleton else .adapter⟩ ::
    entry.alternates.map fun label => ⟨label, groups, entry.subtype, .alternate⟩

mutual
def Table.rows (groups : List String) : Table α → List Row
  | ⟨_, entries, nested, _⟩ => entries.flatMap (Entry.rows groups) ++ nestedRows groups nested

def nestedRows (groups : List String) : List (String × Table α) → List Row
  | [] => []
  | (name, table) :: rest => table.rows (groups ++ [name]) ++ nestedRows groups rest
end

/-! Layout. -/

/-- Text filled up with spaces to a width in characters; longer text stays as it is. -/
def padTo (width : Nat) (text : String) : String :=
  text ++ String.ofList (List.replicate (width - text.length) ' ')

def labelWidth : Nat := 24
def subtypeWidth : Nat := 32
def ruleWidth : Nat := 68

def columns (label subtype kind : String) : String :=
  padTo labelWidth label ++ " " ++ padTo subtypeWidth subtype ++ " " ++ kind

def Row.place (row : Row) : String := "/".intercalate (row.groups ++ [row.subtype])

def Row.text (row : Row) : String := columns row.label row.place row.kind.text

/-- The lines below the key and the default. -/
def tableLines : List Row → List String
  | [] => ["No labels declared"]
  | rows =>
    [columns "LABEL" "SUBTYPE" "KIND", String.ofList (List.replicate ruleWidth '-')] ++
      rows.map Row.text

def Table.labelLines (table : Table α) : List String :=
  ["Key:     " ++ table.key, "Default: " ++ table.policy.describe] ++ tableLines (table.rows [])

end TaggedJson.Hierarchy
