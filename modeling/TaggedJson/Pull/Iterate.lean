import TaggedJson.Pull.Take
/-! Loops over the tokens of a document. A step either goes on with a new state or ends the loop
with a result, and one that goes on has left less of the text to read. -/
namespace TaggedJson.Pull

/-- Every step that goes on takes something. -/
def Advances (step : σ → Pull (σ ⊕ β)) : Prop :=
  ∀ s c s' c', step s c = .ok (.inl s') c' → c'.remaining < c.remaining

def iterate (step : σ → Pull (σ ⊕ β)) (advances : Advances step) (s : σ) (c : Cursor) : Outcome β :=
  match _ : step s c with
  | .error e c' => .error e c'
  | .ok (.inr result) c' => .ok result c'
  | .ok (.inl s') c' => iterate step advances s' c'
termination_by c.remaining
decreasing_by exact advances _ _ _ _ (by assumption)

end TaggedJson.Pull
