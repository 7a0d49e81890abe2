/-! What may stand between the tokens of a document. -/
namespace TaggedJson.Json

def isSpace (c : Char) : Bool := c == ' ' || c == '\t' || c == '\n' || c == '\r'

def skipSpace (chars : List Char) : List Char := chars.dropWhile isSpace

end TaggedJson.Json
