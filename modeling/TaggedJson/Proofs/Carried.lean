import TaggedJson.Proofs.Numbers
import TaggedJson.Pull.Error
/-! What the message of an error carries: keys and labels of a table, and names and labels that were
read, alone or as parts of a path. Everything else in a message is fixed and on one line. -/
namespace TaggedJson
open Json Pull

/-! Texts on one line. -/

def Unbroken (text : String) : Prop := '\n' ∉ text.toList

instance (text : String) : Decidable (Unbroken text) :=
  inferInstanceAs (Decidable ('\n' ∉ text.toList))

@[simp] theorem unbroken_append (front back : String) :
    Unbroken (front ++ back) ↔ Unbroken front ∧ Unbroken back := by
  simp [Unbroken]

theorem isDigits_unbroken {digits : List Char} (all : IsDigits digits) : '\n' ∉ digits :=
  fun newline => absurd (all '\n' newline) (by decide)

theorem unbroken_number (number : Nat) : Unbroken (toString number) := by
  rw [Unbroken, Nat.toString_eq_repr, Nat.toList_repr]
  exact isDigits_unbroken fun _ digit => Nat.isDigit_of_mem_toDigits (by decide) (by decide) digit

theorem unbroken_intercalate (texts : List String) :
    Unbroken (", ".intercalate texts) ↔ ∀ text ∈ texts, Unbroken text := by
  rw [Unbroken, String.toList_intercalate]
  induction texts with
  | nil => simp
  | cons first rest ih =>
    cases rest with
    | nil => simp [Unbroken]
    | cons second rest =>
      rw [List.forall_mem_cons, ← ih]
      simp [List.intercalate, Unbroken]

theorem unbroken_alternatives (texts : List String) :
    Unbroken (alternatives texts) ↔ ∀ text ∈ texts, Unbroken text := by
  rw [alternatives, unbroken_append, unbroken_append, unbroken_intercalate]
  simp [Unbroken]

/-! Messages. -/

/-- The parts of a message that come from the document or its hierarchy. -/
def Pull.DecodeError.carried : DecodeError → List String
  | .malformed _ _ path | .unexpectedToken _ _ path | .endOfInput path | .tooDeep path
  | .unexpectedNull path | .notFullyConsumed path | .badPayload path => [path]
  | .unexpectedName name path | .repeatedName name path => [name, path]
  | .missingLabel key known => key :: known
  | .unknownLabel key label known => key :: label :: known
  | .notAnInt literal path => [literal, path]

theorem malformed_unbroken (cause : Malformed) : Unbroken cause.text := by
  cases cause <;> simp [Malformed.text, Unbroken]

theorem expected_unbroken (expected : Expected) : Unbroken expected.text := by
  cases expected <;> simp [Expected.text, Token.text, Unbroken]

theorem token_unbroken (token : Token) : Unbroken token.text := by
  cases token <;> simp [Token.text, Unbroken]

/-- Nothing but what a message carries can break it. -/
theorem message_unbroken (e : DecodeError) :
    Unbroken e.message ↔ ∀ text ∈ e.carried, Unbroken text := by
  cases e with
  | malformed cause offset path =>
    show Unbroken ("malformed JSON at offset " ++ toString offset ++ " (" ++ path ++ "): " ++
      cause.text) ↔ ∀ text ∈ [path], Unbroken text
    have cause := malformed_unbroken cause
    have offset := unbroken_number offset
    simp only [unbroken_append, List.forall_mem_singleton, cause, offset]
    simp [Unbroken]
  | unexpectedToken expected found path =>
    show Unbroken ("expected " ++ expected.text ++ " but was " ++ found.text ++ " at path " ++
      path) ↔ ∀ text ∈ [path], Unbroken text
    have expected := expected_unbroken expected
    have found := token_unbroken found
    simp only [unbroken_append, List.forall_mem_singleton, expected, found]
    simp [Unbroken]
  | endOfInput path =>
    show Unbroken ("unexpected end of input at path " ++ path) ↔ ∀ text ∈ [path], Unbroken text
    simp [Unbroken]
  | unexpectedName name path =>
    show Unbroken ("cannot skip unexpected name '" ++ name ++ "' at path " ++ path) ↔
      ∀ text ∈ [name, path], Unbroken text
    simp [Unbroken]
  | tooDeep path =>
    show Unbroken ("nesting too deep at path " ++ path ++ " (limit " ++ toString depthLimit ++
      ")") ↔ ∀ text ∈ [path], Unbroken text
    have limit := unbroken_number depthLimit
    simp only [unbroken_append, List.forall_mem_singleton, limit]
    simp [Unbroken]
  | unexpectedNull path =>
    show Unbroken ("unexpected null at path " ++ path) ↔ ∀ text ∈ [path], Unbroken text
    simp [Unbroken]
  | notFullyConsumed path =>
    show Unbroken ("JSON document was not fully consumed (at path " ++ path ++ ")") ↔
      ∀ text ∈ [path], Unbroken text
    simp [Unbroken]
  | missingLabel key known =>
    show Unbroken ("missing label for key '" ++ key ++ "' (expected one of " ++
      alternatives known ++ ")") ↔ ∀ text ∈ key :: known, Unbroken text
    simp only [unbroken_append, List.forall_mem_cons, unbroken_alternatives]
    simp [Unbroken]
  | unknownLabel key label known =>
    show Unbroken ("expected one of " ++ alternatives known ++ " for key '" ++ key ++
      "' but found '" ++ label ++ "'. Register a subtype for this label.") ↔
      ∀ text ∈ key :: label :: known, Unbroken text
    simp only [unbroken_append, List.forall_mem_cons, unbroken_alternatives]
    have texts : Unbroken "expected one of " ∧ Unbroken " for key '" ∧ Unbroken "' but found '" ∧
        Unbroken "'. Register a subtype for this label." := by simp [Unbroken]
    obtain ⟨start, middle, found, last⟩ := texts
    simp only [start, middle, found, last, true_and, and_true]
    exact ⟨fun ⟨⟨known, key⟩, label⟩ => ⟨key, label, known⟩,
      fun ⟨key, label, known⟩ => ⟨⟨known, key⟩, label⟩⟩
  | badPayload path =>
    show Unbroken ("invalid payload at path " ++ path ++ ": *") ↔ ∀ text ∈ [path], Unbroken text
    simp [Unbroken]
  | repeatedName name path =>
    show Unbroken ("map key '" ++ name ++ "' has multiple values at path " ++ path) ↔
      ∀ text ∈ [name, path], Unbroken text
    simp [Unbroken]
  | notAnInt literal path =>
    show Unbroken ("expected an int but was " ++ literal ++ " at path " ++ path) ↔
      ∀ text ∈ [literal, path], Unbroken text
    simp [Unbroken]

end TaggedJson
