/-! Positions between the tokens of a document. -/
namespace TaggedJson.Json

/-- What may come next at a position, as the innermost container has it. -/
inductive Scope where
  | documentStart
  | documentEnd
  | objectStart
  /-- After a name: its value. -/
  | objectValue
  | objectNext
  | arrayStart
  | arrayNext
deriving DecidableEq

end TaggedJson.Json
