/-! Classes of characters given by inclusive ranges of code points. -/
namespace TaggedJson.Text

def inRanges (ranges : List (Nat × Nat)) (c : Char) : Bool :=
  ranges.any fun range => range.1 ≤ c.toNat && c.toNat ≤ range.2

end TaggedJson.Text
