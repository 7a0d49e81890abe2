import TaggedJson.Command.Run
import TaggedJson.Proofs.Output
import TaggedJson.Proofs.Restoration
import TaggedJson.Proofs.Transport
/-! Runs over lines. A run is what its documents come to one by one: each is converted on its own,
and all that a document shares with the others is the count of the lines before it. -/
namespace TaggedJson
open Json Hierarchy Pull

/-! Lines of bytes. -/

/-- Bytes that end no line are part of the line they stand in front of. -/
theorem splitLines_front {front : List UInt8} (single : newline ∉ front) (some : front ≠ [])
    (rest : List UInt8) : splitLines (front ++ rest) =
      match splitLines rest with
      | [] => [front]
      | line :: lines => (front ++ line) :: lines := by
  induction front with
  | nil => exact (some rfl).elim
  | cons byte front ih =>
    rw [List.mem_cons, not_or] at single
    rw [List.cons_append, splitLines, if_neg (Ne.symm single.1)]
    by_cases last : front = []
    · subst last
      rfl
    · rw [ih single.2 last]
      cases splitLines rest <;> rfl

theorem splitLines_append (front back : List UInt8) : splitLines (front ++ newline :: back) =
    splitLines (front ++ [newline]) ++ splitLines back := by
  induction front with
  | nil => rfl
  | cons byte front ih =>
    rw [List.cons_append, List.cons_append, splitLines, splitLines]
    by_cases ends : byte = newline
    · rw [if_pos ends, if_pos ends, ih, List.cons_append]
    · rw [if_neg ends, if_neg ends, ih]
      cases shape : splitLines (front ++ [newline]) with
      | nil =>
        -- There is a newline, so there is a line.
        exfalso
        cases front with
        | nil => cases shape
        | cons first more =>
          rw [List.cons_append, splitLines] at shape
          repeat' split at shape
          all_goals cases shape
      | cons line lines => rfl

/-- Lines with a newline after each. -/
def joinLines (lines : List (List UInt8)) : List UInt8 := lines.flatMap (· ++ [newline])

/-- The lines are what stands before each newline, and what stands after the last if it is
anything. -/
theorem splitLines_joined {lines : List (List UInt8)} {last : List UInt8}
    (single : ∀ line ∈ lines, newline ∉ line) (open_ : newline ∉ last) :
    splitLines (joinLines lines ++ last) = lines ++ if last.isEmpty then [] else [last] := by
  induction lines with
  | nil =>
    cases last with
    | nil => rfl
    | cons byte rest =>
      have only := splitLines_front open_ (List.cons_ne_nil byte rest) []
      rwa [List.append_nil] at only
  | cons line rest ih =>
    obtain ⟨first, others⟩ := List.forall_mem_cons.mp single
    rw [joinLines, List.flatMap_cons, List.append_assoc, List.append_assoc]
    rw [List.singleton_append, splitLines_line first, List.cons_append, ← ih others]
    rfl

theorem splitLines_single (input : List UInt8) : ∀ line ∈ splitLines input, newline ∉ line := by
  induction input with
  | nil => exact fun _ member => absurd member List.not_mem_nil
  | cons byte rest ih =>
    rw [splitLines]
    by_cases ends : byte = newline
    · rw [if_pos ends]
      exact List.forall_mem_cons.mpr ⟨List.not_mem_nil, ih⟩
    · rw [if_neg ends]
      cases shape : splitLines rest with
      | nil => simpa using Ne.symm ends
      | cons line lines =>
        obtain ⟨first, others⟩ := List.forall_mem_cons.mp (shape ▸ ih)
        refine List.forall_mem_cons.mpr ⟨?_, others⟩
        rw [List.mem_cons, not_or]
        exact ⟨Ne.symm ends, first⟩

/-- The lines of a text are texts. -/
theorem splitLines_encoded (chars : List Char) : ∃ texts : List String,
    splitLines (chars.flatMap String.utf8EncodeChar) = texts.map Text.toUtf8 := by
  induction chars with
  | nil => exact ⟨[], rfl⟩
  | cons c rest ih =>
    obtain ⟨texts, lines⟩ := ih
    rw [List.flatMap_cons]
    by_cases ends : c = '\n'
    · subst ends
      refine ⟨"" :: texts, ?_⟩
      rw [List.map_cons, ← lines]
      rfl
    · have some : String.utf8EncodeChar c ≠ [] := by
        intro none
        have size := String.length_utf8EncodeChar c
        rw [none] at size
        exact absurd size (Nat.ne_of_lt (Char.utf8Size_pos c))
      rw [splitLines_front (mt Text.newline_encoded ends) some, lines]
      cases texts with
      | nil =>
        refine ⟨[String.ofList [c]], ?_⟩
        simp [Text.toUtf8_eq]
      | cons first others =>
        refine ⟨String.ofList (c :: first.toList) :: others, ?_⟩
        simp [Text.toUtf8_eq]

/-- A line that a document may stand on. -/
def Sound (line : List UInt8) : Prop := Text.ofUtf8? line ≠ none

theorem text_sound (text : String) : ∀ line ∈ splitLines (Text.toUtf8 text), Sound line := by
  obtain ⟨texts, lines⟩ := splitLines_encoded text.toList
  rw [Text.toUtf8_eq, lines]
  intro line member
  obtain ⟨own, -, rfl⟩ := List.mem_map.mp member
  rw [Sound, Text.ofUtf8_toUtf8]
  exact Option.some_ne_none own

/-- The lines in front of the first that is no text. -/
def soundLines (lines : List (List UInt8)) : List (List UInt8) :=
  lines.takeWhile fun line => (Text.ofUtf8? line).isSome

theorem soundLines_sound (lines : List (List UInt8)) : ∀ line ∈ soundLines lines, Sound line := by
  intro line member
  have decoded := List.mem_takeWhile_imp (p := fun line => (Text.ofUtf8? line).isSome) member
  exact Option.isSome_iff_ne_none.mp decoded

theorem first_unsound {lines : List (List UInt8)}
    (broken : ∃ line ∈ lines, Text.ofUtf8? line = none) :
    ∃ line rest, lines = soundLines lines ++ line :: rest ∧ Text.ofUtf8? line = none := by
  induction lines with
  | nil => simp at broken
  | cons first others ih =>
    cases decoded : Text.ofUtf8? first with
    | none =>
      refine ⟨first, others, ?_, decoded⟩
      rw [soundLines, List.takeWhile_cons_of_neg (by simp [decoded])]
      rfl
    | some text =>
      have later : ∃ line ∈ others, Text.ofUtf8? line = none := by
        obtain ⟨line, member, unsound⟩ := broken
        refine ⟨line, (List.mem_cons.mp member).resolve_left ?_, unsound⟩
        rintro rfl
        rw [decoded] at unsound
        cases unsound
      obtain ⟨line, rest, shape, unsound⟩ := ih later
      refine ⟨line, rest, ?_, unsound⟩
      rw [soundLines, List.takeWhile_cons_of_pos (by simp [decoded]), List.cons_append]
      exact congrArg (first :: ·) shape

/-! Documents. -/

/-- The document on a line, with the number of the line. A blank line has none. -/
def numberedDocument? (line : List UInt8) (number : Nat) : Option (Nat × String) :=
  match documentOf? line with
  | some document => if document.isEmpty then none else some (number, document)
  | none => none

/-- The documents on lines of which the first has the given number. -/
def documentsFrom (number : Nat) (lines : List (List UInt8)) : List (Nat × String) :=
  (lines.zipIdx number).filterMap fun line => numberedDocument? line.1 line.2

theorem documentsFrom_cons (number : Nat) (line : List UInt8) (rest : List (List UInt8)) :
    documentsFrom number (line :: rest) =
      (numberedDocument? line number).toList ++ documentsFrom (number + 1) rest := by
  rw [documentsFrom, List.zipIdx_cons, List.filterMap_cons]
  split <;> rename_i found <;> rw [found] <;> rfl

section Conversions
variable {ε : Type} (convert : String → Except ε String)

def converted (documents : List (Nat × String)) : List String :=
  documents.filterMap fun document => (convert document.2).toOption

def refused (documents : List (Nat × String)) : List (Nat × ε) :=
  documents.filterMap fun document =>
    match convert document.2 with
    | .ok _ => none
    | .error e => some (document.1, e)

theorem converted_cons (document : Nat × String) (rest : List (Nat × String)) :
    converted convert (document :: rest) =
      (convert document.2).toOption.toList ++ converted convert rest := by
  rw [converted, List.filterMap_cons]
  cases (convert document.2).toOption <;> rfl

theorem refused_cons (document : Nat × String) (rest : List (Nat × String)) :
    refused convert (document :: rest) = match convert document.2 with
      | .ok _ => refused convert rest
      | .error e => (document.1, e) :: refused convert rest := by
  rw [refused, List.filterMap_cons]
  cases convert document.2 <;> rfl

theorem Sound.document {line : List UInt8} (sound : Sound line) :
    ∃ document, documentOf? line = some document := by
  obtain ⟨text, decoded⟩ := Option.ne_none_iff_exists'.mp sound
  rw [documentOf?, decoded]
  exact ⟨_, rfl⟩

theorem convertLines_sound {lines : List (List UInt8)} (sound : ∀ line ∈ lines, Sound line)
    (number : Nat) : convertLines convert number lines =
      ⟨converted convert (documentsFrom number lines),
        refused convert (documentsFrom number lines), false⟩ := by
  induction lines generalizing number with
  | nil => rfl
  | cons line rest ih =>
    obtain ⟨first, others⟩ := List.forall_mem_cons.mp sound
    obtain ⟨document, stands⟩ := first.document
    rw [convertLines, documentsFrom_cons, numberedDocument?, stands, ih others]
    cases blank : document.isEmpty with
    | true => simp [blank]
    | false =>
      cases came : convert document <;>
        simp [blank, came, Report.cons, converted_cons, refused_cons, Except.toOption]

end Conversions

/-- The report on lines after others, with the report on those in front. -/
def Report.after {ε : Type} (earlier later : Report ε) : Report ε :=
  ⟨earlier.printed ++ later.printed, earlier.failures ++ later.failures, later.broken⟩

/-- The report with so many more lines in front of the first. -/
def Report.shift {ε : Type} (count : Nat) (report : Report ε) : Report ε :=
  { report with failures := report.failures.map fun (number, e) => (number + count, e) }

section Runs
variable {ε : Type} (convert : String → Except ε String)

theorem convertLines_append {front : List (List UInt8)} (sound : ∀ line ∈ front, Sound line)
    (back : List (List UInt8)) (number : Nat) : convertLines convert number (front ++ back) =
      (convertLines convert number front).after
        (convertLines convert (number + front.length) back) := by
  induction front generalizing number with
  | nil => rfl
  | cons line rest ih =>
    obtain ⟨first, others⟩ := List.forall_mem_cons.mp sound
    obtain ⟨document, stands⟩ := first.document
    have next : number + 1 + rest.length = number + (rest.length + 1) := by omega
    rw [List.cons_append, convertLines, convertLines, stands, List.length_cons]
    simp only [ih others, next]
    split
    · rfl
    · cases convert document <;> rfl

theorem convertLines_shift (count number : Nat) (lines : List (List UInt8)) :
    convertLines convert (number + count) lines =
      (convertLines convert number lines).shift count := by
  induction lines generalizing number with
  | nil => rfl
  | cons line rest ih =>
    have next : number + count + 1 = number + 1 + count := by omega
    rw [convertLines, convertLines]
    cases documentOf? line with
    | none => rfl
    | some document =>
      simp only [next, ih]
      split
      · rfl
      · cases convert document <;> rfl

theorem convertLines_broken {line : List UInt8} (unsound : Text.ofUtf8? line = none)
    (rest : List (List UInt8)) (number : Nat) :
    convertLines convert number (line :: rest) = .stopped := by
  rw [convertLines, documentOf?, unsound]
  rfl

end Runs

/-! The two conversions. -/

inductive Conversion where
  | decode (strict : Bool)
  | encode

def Conversion.line (table : Table Variant) : Conversion → String → Except LineFailure String
  | .decode strict => decodeLine table strict
  | .encode => encodeLine table

theorem Json.Value.text_single (value : Value) : '\n' ∉ value.text.toList := by
  rw [Value.text, String.toList_ofList]
  intro newline
  exact absurd (Value.chars_printable value _ newline) (by decide)

/-- Whatever a line is converted into is one line. -/
theorem Conversion.line_single {table : Table Variant} {conversion : Conversion}
    {document result : String} (came : conversion.line table document = .ok result) :
    '\n' ∉ result.toList := by
  cases conversion with
  | decode strict =>
    rw [Conversion.line, decodeLine] at came
    split at came <;> cases came <;> exact Value.text_single _
  | encode =>
    rw [Conversion.line, encodeLine] at came
    split at came
    · cases came
    · split at came <;> cases came
      rename_i wrote
      obtain ⟨output, -, rfl⟩ := Table.toJson_ok.mp wrote
      exact Value.text_single output

/-! Whole inputs. -/

/-- What a run owes to lines that are all texts: the results of the documents that can be converted,
in order and each on a line, and for each of the others its error, with the number of its line. -/
structure Linewise {ε : Type} (convert : String → Except ε String) (lines : List (List UInt8))
    (report : Report ε) : Prop where
  whole : report.broken = false
  processed : report.processed = (documentsFrom 1 lines).length
  failed : report.failed =
    (documentsFrom 1 lines).countP fun document => !(convert document.2).isOk
  output : report.output = linesText (converted convert (documentsFrom 1 lines))
  succeeded : (converted convert (documentsFrom 1 lines)).length =
    report.processed - report.failed
  errorOutput : ∀ message : ε → String, report.errorOutput message =
    linesText ((refused convert (documentsFrom 1 lines)).map fun (number, e) =>
      "line " ++ toString number ++ ": " ++ message e)

section Outcomes
variable {ε : Type} (convert : String → Except ε String)

theorem refused_length (documents : List (Nat × String)) : (refused convert documents).length =
    documents.countP fun document => !(convert document.2).isOk := by
  induction documents with
  | nil => rfl
  | cons document rest ih =>
    rw [refused_cons, List.countP_cons, ← ih]
    cases convert document.2 <;> rfl

theorem converted_length (documents : List (Nat × String)) :
    (converted convert documents).length + (refused convert documents).length =
      documents.length := by
  induction documents with
  | nil => rfl
  | cons document rest ih =>
    rw [converted_cons, refused_cons, List.length_append, List.length_cons, ← ih]
    cases convert document.2 <;> simp [Except.toOption] <;> omega

theorem sound_linewise {lines : List (List UInt8)} (sound : ∀ line ∈ lines, Sound line) :
    Linewise convert lines (convertLines convert 1 lines) := by
  rw [convertLines_sound convert sound]
  have all := converted_length convert (documentsFrom 1 lines)
  exact {
    whole := rfl
    processed := all
    failed := refused_length convert _
    output := rfl
    succeeded := (Nat.add_sub_cancel ..).symm
    errorOutput := fun _ => rfl }

theorem linesText_append (front back : List String) :
    linesText (front ++ back) = linesText front ++ linesText back := by
  simp [linesText]

/-- Behind other lines, the first of them one that ends, an input comes to what it does alone. -/
theorem convertInput_append {front : List UInt8}
    (sound : ∀ line ∈ splitLines (front ++ [newline]), Sound line) (back : List UInt8) :
    convertInput convert (front ++ newline :: back) =
      (convertInput convert (front ++ [newline])).after
        ((convertInput convert back).shift (splitLines (front ++ [newline])).length) := by
  rw [convertInput, splitLines_append, convertLines_append convert sound, convertLines_shift]
  rfl

end Outcomes

/-- What is reported behind other lines. -/
def Report.errorsAfter {ε : Type} (count : Nat) (message : ε → String) (report : Report ε) :
    String :=
  linesText (report.failures.map fun (number, e) =>
    "line " ++ toString (number + count) ++ ": " ++ message e)

section Inputs
variable {ε : Type} (convert : String → Except ε String)

theorem errorOutput_after (message : ε → String) (first second : Report ε) (count : Nat) :
    (first.after (second.shift count)).errorOutput message =
      first.errorOutput message ++ second.errorsAfter count message := by
  simp only [Report.errorOutput, Report.errorsAfter, Report.after, Report.shift, List.map_append,
    linesText_append, List.map_map]
  rfl

theorem convertInput_texts (front back : String) :
    convertInput convert (Text.toUtf8 (front ++ "\n" ++ back)) =
      (convertInput convert (Text.toUtf8 (front ++ "\n"))).after
        ((convertInput convert (Text.toUtf8 back)).shift
          (splitLines (Text.toUtf8 (front ++ "\n"))).length) := by
  have ended : Text.toUtf8 (front ++ "\n") = Text.toUtf8 front ++ [newline] :=
    Text.toUtf8_append ..
  have whole : Text.toUtf8 (front ++ "\n" ++ back) =
      Text.toUtf8 front ++ newline :: Text.toUtf8 back := by
    rw [Text.toUtf8_append, ended, List.append_assoc, List.singleton_append]
  have sound := text_sound (front ++ "\n")
  rw [ended] at sound
  rw [whole, ended]
  exact convertInput_append convert sound _

/-- The sound lines in front, each with a newline after it, are the lines of an input. -/
theorem splitLines_soundLines (input : List UInt8) :
    splitLines (joinLines (soundLines (splitLines input))) = soundLines (splitLines input) := by
  have single : ∀ line ∈ soundLines (splitLines input), newline ∉ line := fun line member =>
    splitLines_single input line ((List.takeWhile_sublist _).subset member)
  simpa using @splitLines_joined _ [] single nofun

/-- A run over an input that is no text is the run over the lines in front, stopped. -/
theorem convertInput_broken {input : List UInt8}
    (broken : ∃ line ∈ splitLines input, Text.ofUtf8? line = none) : convertInput convert input =
      (convertInput convert (joinLines (soundLines (splitLines input)))).after .stopped := by
  obtain ⟨line, rest, shape, unsound⟩ := first_unsound broken
  rw [convertInput, shape, convertLines_append convert (soundLines_sound _),
    convertLines_broken convert unsound, convertInput, ← shape, splitLines_soundLines]

end Inputs

/-- Each line of an input is converted on its own, and nothing is lost. Two inputs one after the
other, the first of which ends its last line, come to what each comes to, the numbers of the second
counted on from the first. A line that is no text ends the run, with everything from the lines
before it written. -/
theorem lines_independent (table : Table Variant) (conversion : Conversion) :
    (∀ text : String, Linewise (conversion.line table) (splitLines (Text.toUtf8 text))
      (convertInput (conversion.line table) (Text.toUtf8 text))) ∧
    (∀ document result : String, conversion.line table document = .ok result →
      '\n' ∉ result.toList) ∧
    (∀ front back : String,
      let first := convertInput (conversion.line table) (Text.toUtf8 (front ++ "\n"))
      let second := convertInput (conversion.line table) (Text.toUtf8 back)
      let both := convertInput (conversion.line table) (Text.toUtf8 (front ++ "\n" ++ back))
      both.output = first.output ++ second.output ∧
      both.errorOutput LineFailure.message = first.errorOutput LineFailure.message ++
        second.errorsAfter (splitLines (Text.toUtf8 (front ++ "\n"))).length LineFailure.message ∧
      both.processed = first.processed + second.processed ∧
      both.failed = first.failed + second.failed) ∧
    (∀ input : List UInt8, (∃ line ∈ splitLines input, Text.ofUtf8? line = none) →
      let before := soundLines (splitLines input)
      let earlier := convertInput (conversion.line table) (joinLines before)
      let outcome := Outcome.ofReport (convertInput (conversion.line table) input)
      Linewise (conversion.line table) before earlier ∧ outcome.result = .error .inputBroken ∧
        outcome.output = earlier.output ∧
        outcome.errorOutput = earlier.errorOutput LineFailure.message) := by
  refine ⟨fun text => sound_linewise _ (text_sound text), fun _ _ => Conversion.line_single, ?_, ?_⟩
  · intro front back first second both
    have joined : both = first.after
        (second.shift (splitLines (Text.toUtf8 (front ++ "\n"))).length) :=
      convertInput_texts _ front back
    rw [joined]
    refine ⟨linesText_append .., errorOutput_after .., ?_, ?_⟩
    · simp only [Report.processed, Report.failed, Report.after, Report.shift, List.length_append,
        List.length_map]
      omega
    · simp only [Report.failed, Report.after, Report.shift, List.length_append, List.length_map]
  · intro input broken before earlier outcome
    have whole : Linewise (conversion.line table) before earlier := by
      show Linewise _ _ (convertLines _ 1 (splitLines (joinLines before)))
      rw [splitLines_soundLines]
      exact sound_linewise _ (soundLines_sound _)
    have ended : outcome = Outcome.ofReport (earlier.after .stopped) :=
      congrArg Outcome.ofReport (convertInput_broken _ broken)
    rw [ended]
    refine ⟨whole, rfl, ?_, ?_⟩
    · exact congrArg linesText (List.append_nil _)
    · exact congrArg (fun failures => Report.errorOutput LineFailure.message ⟨[], failures, false⟩)
        (List.append_nil _)

/-! A document, a blank line, a line that is no document, and one that is no text. -/

theorem null_read (table : Table Variant) (strict : Bool) :
    table.fromJson strict "null" = .ok none := by
  have looked : ahead (Cursor.ofText "null") =
      .ok .null ⟨⟨[], 4⟩, some .null, [.documentEnd], [], false, []⟩ := rfl
  rw [Table.fromJson, decodeDocument, bind_of_ok (Table.read_null looked)]
  rfl

theorem null_converted (table : Table Variant) (strict : Bool) :
    decodeLine table strict "null" = .ok "null" := by
  rw [decodeLine, null_read]
  rfl

theorem letter_refused (table : Table Variant) (strict : Bool) :
    decodeLine table strict "x" = .error (.decode (.malformed .strayCharacter 0 "$")) := by
  have looked : ∃ c, ahead (Cursor.ofText "x") = .error (.malformed .strayCharacter 0 "$") c :=
    ⟨_, rfl⟩
  obtain ⟨c, looked⟩ := looked
  have read : table.fromJson strict "x" = .error (.malformed .strayCharacter 0 "$") := by
    rw [Table.fromJson, decodeDocument,
      bind_of_error (Table.read_error.mpr (.inl looked))]
  rw [decodeLine, read]

def brokenInput : List UInt8 := Text.toUtf8 "null\n \nx\n" ++ [0xFF]

theorem lines_before_broken :
    (∃ line ∈ splitLines brokenInput, Text.ofUtf8? line = none) ∧
    Outcome.ofReport (convertInput (decodeLine figuresTable true) brokenInput) =
      ⟨"null\n", "line 3: malformed JSON at offset 0 ($): unexpected character\n",
        .error .inputBroken⟩ := by
  have broken : ∃ line ∈ splitLines brokenInput, Text.ofUtf8? line = none :=
    ⟨[0xFF], by decide +kernel, by decide +kernel⟩
  have documents : documentsFrom 1 (soundLines (splitLines brokenInput)) =
      [(1, "null"), (3, "x")] := by decide +kernel
  obtain ⟨-, -, -, before⟩ := lines_independent figuresTable (.decode true)
  obtain ⟨earlier, result, output, errors⟩ := before brokenInput broken
  refine ⟨broken, ?_⟩
  rw [earlier.output, documents] at output
  rw [earlier.errorOutput, documents] at errors
  have printed : converted (decodeLine figuresTable true) [(1, "null"), (3, "x")] = ["null"] := by
    rw [converted_cons, converted_cons, null_converted, letter_refused]
    rfl
  have failures : refused (decodeLine figuresTable true) [(1, "null"), (3, "x")] =
      [(3, .decode (.malformed .strayCharacter 0 "$"))] := by
    rw [refused_cons, refused_cons, null_converted, letter_refused]
    rfl
  have parts (outcome : Outcome) :
      outcome = ⟨outcome.output, outcome.errorOutput, outcome.result⟩ := rfl
  have line : Conversion.line figuresTable (.decode true) = decodeLine figuresTable true := rfl
  rw [line] at result output errors
  rw [parts (Outcome.ofReport _), result, output, errors, printed, failures]
  rfl

end TaggedJson
