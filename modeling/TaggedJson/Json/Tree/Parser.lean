import TaggedJson.Json.Space
import TaggedJson.Json.Tree
/-! From text to tree, by the grammar alone: no limit on nesting, names or numbers. Hierarchy files
and the lines that hold variants are taken in as a whole by a JSON library, not by the reader that
documents of a hierarchy go through. Which texts it takes is stated here; where it gives up on any
other text, and in which words, is left open. -/
namespace TaggedJson.Json

/-- The rest of a quoted string after its opening quote. -/
def scanPieces : List Char → Option (List Piece × List Char)
  | [] => none
  | '"' :: rest => some ([], rest)
  | '\\' :: 'u' :: a :: b :: c :: d :: rest => do
    let unit ← Text.fourHex? a b c d
    let (pieces, rest) ← scanPieces rest
    some (.code unit :: pieces, rest)
  | '\\' :: mark :: rest => do
    let c ← Text.shortEscape? mark
    let (pieces, rest) ← scanPieces rest
    some (.plain c :: pieces, rest)
  | c :: rest =>
    if c = '\\' ∨ c.toNat < 0x20 then none
    else do
      let (pieces, rest) ← scanPieces rest
      some (.plain c :: pieces, rest)

namespace Tree

mutual
/-- Each call gets one step less than its caller, and a text of n characters never needs more than
2n + 2 of them. -/
def scan : Nat → List Char → Option (Tree × List Char)
  | 0, _ => none
  | steps + 1, chars =>
    match skipSpace chars with
    | '{' :: rest =>
      match skipSpace rest with
      | '}' :: rest => some (.object [], rest)
      | rest => do
        let (members, rest) ← scanMembers steps rest
        some (.object members, rest)
    | '[' :: rest =>
      match skipSpace rest with
      | ']' :: rest => some (.array [], rest)
      | rest => do
        let (items, rest) ← scanItems steps rest
        some (.array items, rest)
    | '"' :: rest => do
      let (pieces, rest) ← scanPieces rest
      some (.string pieces, rest)
    | 't' :: 'r' :: 'u' :: 'e' :: rest => some (.bool true, rest)
    | 'f' :: 'a' :: 'l' :: 's' :: 'e' :: rest => some (.bool false, rest)
    | 'n' :: 'u' :: 'l' :: 'l' :: rest => some (.null, rest)
    | rest =>
      match NumberLiteral.scan rest with
      | .ok (literal, rest) => some (.number literal, rest)
      | .error _ => none

def scanItems : Nat → List Char → Option (List Tree × List Char)
  | 0, _ => none
  | steps + 1, chars => do
    let (item, rest) ← scan steps chars
    match skipSpace rest with
    | ',' :: rest => do
      let (items, rest) ← scanItems steps rest
      some (item :: items, rest)
    | ']' :: rest => some ([item], rest)
    | _ => none

def scanMembers : Nat → List Char → Option (List (List Piece × Tree) × List Char)
  | 0, _ => none
  | steps + 1, chars =>
    match skipSpace chars with
    | '"' :: rest => do
      let (name, rest) ← scanPieces rest
      match skipSpace rest with
      | ':' :: rest => do
        let (tree, rest) ← scan steps rest
        match skipSpace rest with
        | ',' :: rest => do
          let (members, rest) ← scanMembers steps rest
          some ((name, tree) :: members, rest)
        | '}' :: rest => some ([(name, tree)], rest)
        | _ => none
      | _ => none
    | _ => none
end

/-- The tree of a text that is one document, with nothing but space around it. -/
def parse (chars : List Char) : Option Tree := do
  let (tree, rest) ← scan (2 * chars.length + 2) chars
  if (skipSpace rest).isEmpty then some tree else none

end Tree
end TaggedJson.Json
