import Mathlib.Algebra.Order.BigOperators.Group.List
import TaggedJson.Proofs.Declared
import TaggedJson.Proofs.Linewise
import TaggedJson.Proofs.Provenance
import TaggedJson.Proofs.Resolution
/-! The lines of an error report. A document that fails has one entry, whose first line has the
number of its line. But an entry has as many lines as its message, which carries names and labels as
they were read: a newline that a document spells in one of them is a newline of the report, and what
follows it can look like the entry of another document. -/
namespace TaggedJson
open Json Hierarchy Pull

/-! Lines of texts. -/

/-- How many newlines a text has. -/
def breaks (text : String) : Nat := text.toList.count '\n'

theorem breaks_eq_zero {text : String} : breaks text = 0 ↔ Unbroken text := List.count_eq_zero

theorem count_encoded (chars : List Char) :
    (chars.flatMap String.utf8EncodeChar).count newline = chars.count '\n' := by
  induction chars with
  | nil => rfl
  | cons c rest ih =>
    rw [List.flatMap_cons, List.count_append, ih, List.count_cons, Nat.add_comm]
    by_cases ends : c = '\n'
    · subst ends
      rfl
    · rw [List.count_eq_zero.mpr (mt Text.newline_encoded ends), if_neg (by simpa using ends)]

theorem splitLines_length (bytes : List UInt8) :
    (splitLines (bytes ++ [newline])).length = bytes.count newline + 1 := by
  induction bytes with
  | nil => rfl
  | cons byte rest ih =>
    rw [List.cons_append, splitLines, List.count_cons]
    by_cases ends : byte = newline
    · rw [if_pos ends, List.length_cons, ih, if_pos (by simpa using ends)]
    · rw [if_neg ends, if_neg (by simpa using ends)]
      cases shape : splitLines (rest ++ [newline]) with
      | nil =>
        rw [shape] at ih
        cases ih
      | cons line lines =>
        rw [shape] at ih
        exact ih

/-- The lines a text is on. -/
def textLines (text : String) : List (List UInt8) := splitLines (Text.toUtf8 text ++ [newline])

theorem textLines_length (text : String) : (textLines text).length = breaks text + 1 := by
  rw [textLines, splitLines_length, Text.toUtf8_eq, count_encoded, breaks]

theorem textLines_unbroken {text : String} (single : Unbroken text) :
    textLines text = [Text.toUtf8 text] :=
  splitLines_line (Text.newline_toUtf8 single) []

theorem splitLines_linesText (texts : List String) :
    splitLines (Text.toUtf8 (linesText texts)) = texts.flatMap textLines := by
  induction texts with
  | nil => rfl
  | cons text rest ih =>
    have bytes : Text.toUtf8 (linesText (text :: rest)) =
        Text.toUtf8 text ++ newline :: Text.toUtf8 (linesText rest) := by
      rw [linesText_cons, Text.toUtf8_append, Text.toUtf8_append]
      rfl
    rw [bytes, splitLines_append, ih, List.flatMap_cons, textLines]

/-! Documents that fail. -/

section Rejections
variable {table : Table Variant} {strict : Bool}

/-- The documents that cannot be read, by the numbers of their lines, with their errors. -/
def rejections (table : Table Variant) (strict : Bool) (documents : List (Nat × String)) :
    List (Nat × DecodeError) :=
  documents.filterMap fun document =>
    match table.fromJson strict document.2 with
    | .ok _ => none
    | .error e => some (document.1, e)

theorem refused_decode (documents : List (Nat × String)) :
    refused (decodeLine table strict) documents =
      (rejections table strict documents).map fun rejection =>
        (rejection.1, .decode rejection.2) := by
  rw [refused, rejections, List.map_filterMap]
  congr 1
  funext document
  rw [decodeLine]
  cases table.fromJson strict document.2 with
  | ok result => cases result <;> rfl
  | error e => rfl

theorem numberedDocument_number {line : List UInt8} {number : Nat} {document : Nat × String}
    (found : numberedDocument? line number = some document) : document.1 = number := by
  unfold numberedDocument? at found
  repeat' split at found
  all_goals cases found
  rfl

theorem documentsFrom_later {number : Nat} {lines : List (List UInt8)} :
    ∀ document ∈ documentsFrom number lines, number ≤ document.1 := by
  intro document member
  obtain ⟨⟨line, own⟩, listed, found⟩ := List.mem_filterMap.mp member
  rw [numberedDocument_number found]
  exact List.le_snd_of_mem_zipIdx listed

theorem documentsFrom_increasing (number : Nat) (lines : List (List UInt8)) :
    (documentsFrom number lines).Pairwise fun one other => one.1 < other.1 := by
  induction lines generalizing number with
  | nil => exact .nil
  | cons line rest ih =>
    rw [documentsFrom_cons]
    cases found : numberedDocument? line number with
    | none => exact ih _
    | some document =>
      refine List.pairwise_cons.mpr ⟨fun other later => ?_, ih _⟩
      rw [numberedDocument_number found]
      exact documentsFrom_later other later

theorem rejections_increasing {documents : List (Nat × String)}
    (increasing : documents.Pairwise fun one other => one.1 < other.1) :
    (rejections table strict documents).Pairwise fun one other => one.1 < other.1 := by
  rw [rejections, List.pairwise_filterMap]
  refine increasing.imp fun less one own other also => ?_
  split at own <;> cases own
  split at also <;> cases also
  exact less

end Rejections

/-! Entries. -/

/-- What every entry starts with. -/
def opening (number : Nat) : String := "line " ++ toString number ++ ": "

def entryOf (rejection : Nat × DecodeError) : String := opening rejection.1 ++ rejection.2.message

theorem opening_unbroken (number : Nat) : Unbroken (opening number) := by
  rw [opening, unbroken_append, unbroken_append]
  exact ⟨⟨by decide, unbroken_number number⟩, by decide⟩

theorem entry_unbroken (rejection : Nat × DecodeError) :
    Unbroken (entryOf rejection) ↔ ∀ text ∈ rejection.2.carried, Unbroken text := by
  rw [entryOf, unbroken_append, message_unbroken]
  exact and_iff_right (opening_unbroken rejection.1)

/-- The first line of an entry starts with the number, and only the message has more lines. -/
theorem entry_lines (rejection : Nat × DecodeError) : ∃ first rest,
    textLines (entryOf rejection) = (Text.toUtf8 (opening rejection.1) ++ first) :: rest ∧
      textLines rejection.2.message = first :: rest := by
  have front := Text.newline_toUtf8 (opening_unbroken rejection.1)
  have some : Text.toUtf8 (opening rejection.1) ≠ [] := by
    rw [opening, String.append_assoc, Text.toUtf8_append]
    exact List.append_ne_nil_of_left_ne_nil (by decide) _
  have whole := splitLines_front front some (Text.toUtf8 rejection.2.message ++ [newline])
  rw [← List.append_assoc, ← Text.toUtf8_append, ← entryOf] at whole
  cases shape : textLines rejection.2.message with
  | nil =>
    have size := textLines_length rejection.2.message
    rw [shape] at size
    cases size
  | cons first rest =>
    rw [textLines] at shape
    rw [shape] at whole
    exact ⟨first, rest, whole, rfl⟩

/-- A report on documents that failed, as lines. -/
structure Itemized (rejected : List (Nat × DecodeError)) (lines : List (List UInt8)) : Prop where
  increasing : rejected.Pairwise fun one other => one.1 < other.1
  entries : lines = rejected.flatMap fun rejection => textLines (entryOf rejection)
  opens : ∀ rejection ∈ rejected, ∃ first rest,
    textLines (entryOf rejection) = (Text.toUtf8 (opening rejection.1) ++ first) :: rest
  size : lines.length = rejected.length +
    (rejected.map fun rejection => breaks rejection.2.message).sum
  /-- There is one line to a document unless a message carries a newline. -/
  single : lines.length = rejected.length ↔
    ∀ rejection ∈ rejected, ∀ text ∈ rejection.2.carried, Unbroken text
  alone : (∀ rejection ∈ rejected, ∀ text ∈ rejection.2.carried, Unbroken text) →
    lines = rejected.map fun rejection => Text.toUtf8 (entryOf rejection)

theorem entries_length (rejected : List (Nat × DecodeError)) :
    (rejected.flatMap fun rejection => textLines (entryOf rejection)).length =
      rejected.length + (rejected.map fun rejection => breaks rejection.2.message).sum := by
  induction rejected with
  | nil => rfl
  | cons rejection rest ih =>
    obtain ⟨first, more, entry, message⟩ := entry_lines rejection
    have own := textLines_length rejection.2.message
    rw [message, List.length_cons] at own
    rw [List.flatMap_cons, List.length_append, ih, entry, List.map_cons, List.sum_cons,
      List.length_cons, List.length_cons]
    omega

theorem entries_itemized {rejected : List (Nat × DecodeError)}
    (increasing : rejected.Pairwise fun one other => one.1 < other.1) :
    Itemized rejected (rejected.flatMap fun rejection => textLines (entryOf rejection)) where
  increasing := increasing
  entries := rfl
  opens rejection _ := by
    obtain ⟨first, rest, entry, -⟩ := entry_lines rejection
    exact ⟨first, rest, entry⟩
  size := entries_length rejected
  single := by
    rw [entries_length, Nat.add_eq_left, List.sum_eq_zero_iff, List.forall_mem_map]
    refine forall₂_congr fun rejection _ => ?_
    rw [breaks_eq_zero, message_unbroken]
  alone single := by
    rw [List.map_eq_flatMap]
    refine List.flatMap_congr fun rejection member => ?_
    exact textLines_unbroken ((entry_unbroken rejection).mpr (single rejection member))

/-! Keys and labels of a file. -/

mutual
def Member.texts : Member → List String
  | ⟨_, label, alternates, _, _, own, some subtypes⟩ =>
    label.toList ++ alternates ++ own.toList ++ memberTexts subtypes
  | ⟨_, label, alternates, _, _, _, none⟩ => label.toList ++ alternates

def memberTexts : List Member → List String
  | [] => []
  | member :: rest => member.texts ++ memberTexts rest
end

theorem memberTexts_eq (members : List Member) :
    memberTexts members = members.flatMap Member.texts := by
  induction members with
  | nil => rfl
  | cons member rest ih => rw [memberTexts, ih, List.flatMap_cons]

def HierarchyFile.texts (file : HierarchyFile) : List String :=
  file.key :: memberTexts file.subtypes

/-- What a declaration adds to a table is on one line. -/
structure Smoothly (declaration : Declaration Variant) : Prop where
  labels : ∀ label ∈ declaration.takenLabels, Unbroken label
  tables : ∀ within ∈ declaration.tables, Plain within

theorem taken_own {declaration : Declaration Variant} (lone : declaration.group? = none) :
    ∀ label ∈ declaration.takenLabels,
      label ∈ declaration.label.toList ++ declaration.alternates := by
  intro label taken
  rw [Declaration.takenLabels, lone, Option.toList_none, List.flatMap_nil, List.append_nil] at taken
  obtain ⟨entry, made, labeled⟩ := List.mem_flatMap.mp taken
  obtain ⟨body, -, named⟩ := Option.bind_eq_some_iff.mp (Option.mem_toList.mp made)
  obtain ⟨text, own, rfl⟩ := Option.map_eq_some_iff.mp named
  rw [own]
  exact labeled

theorem plain_of_build {key : String} {table : Table Variant}
    {declarations : List (Declaration Variant)} (built : Table.build key declarations = .ok table)
    (single : Unbroken key) (smoothly : ∀ declaration ∈ declarations, Smoothly declaration) :
    Plain table := by
  have builds := build_ok built
  refine .table (builds.key_eq ▸ single) ?_ ?_ ?_
  · intro label listed
    obtain ⟨entry, member, labeled⟩ := List.mem_flatMap.mp listed
    obtain ⟨declaration, declared, own⟩ := builds.mem_members.mp member
    refine (smoothly declaration declared).labels label (List.mem_append.mpr ?_)
    rcases own with made | ⟨group, made, member⟩
    · exact .inl (List.mem_flatMap.mpr ⟨entry, Option.mem_toList.mpr made, labeled⟩)
    · refine .inr (List.mem_flatMap.mpr ⟨group, Option.mem_toList.mpr made, ?_⟩)
      exact List.mem_flatMap.mpr ⟨entry, member, labeled⟩
  · intro entry member within used
    obtain ⟨declaration, declared, made | ⟨group, made, member⟩⟩ := builds.mem_members.mp member
    · refine (smoothly declaration declared).tables within ?_
      obtain ⟨name, label, alternates, kind⟩ := declaration
      obtain ⟨body, has, labeled⟩ := Option.bind_eq_some_iff.mp made
      obtain ⟨text, -, rfl⟩ := Option.map_eq_some_iff.mp labeled
      cases kind <;> cases has <;> exact used
    · obtain ⟨name, label, alternates, kind⟩ := declaration
      cases kind <;> cases made
      rename_i table
      obtain ⟨-, -, inner, -⟩ := (smoothly _ declared).tables table (List.mem_singleton.mpr rfl)
      exact inner entry member within used
  · intro name adapter policy within used
    obtain ⟨declaration, declared, made⟩ := builds.policy_declared policy nofun
    obtain ⟨_, label, alternates, kind⟩ := declaration
    cases kind <;> cases made
    exact (smoothly _ declared).tables within used

/-- A member whose texts are on one line adds nothing else to a table whose key is. -/
def AddsSmoothly (key : String) (member : Member) (declaration : Declaration Variant) : Prop :=
  Unbroken key → (∀ text ∈ member.texts, Unbroken text) → Smoothly declaration

theorem smoothly_of_each {key : String} {members : List Member}
    {declarations : List (Declaration Variant)}
    (each : List.Forall₂ (AddsSmoothly key) members declarations) (keyed : Unbroken key)
    (single : ∀ text ∈ memberTexts members, Unbroken text) :
    ∀ declaration ∈ declarations, Smoothly declaration := by
  intro declaration declared
  obtain ⟨member, listed, adds⟩ := exists_of_mem_right each declared
  refine adds keyed fun text own => single text ?_
  rw [memberTexts_eq]
  exact List.mem_flatMap.mpr ⟨member, listed, own⟩

theorem smoothly_hereditary : Hereditary fun key _ => AddsSmoothly key := by
  constructor
  · intro key outer name label alternates singleton isDefault own _ _ single
    refine ⟨fun text taken => single text (taken_own ?_ text taken), ?_⟩
    · cases singleton <;> cases isDefault <;> rfl
    · cases singleton <;> cases isDefault <;> nofun
  · intro key outer name label alternates subtypes inner table _ built each keyed single
    have plain := plain_of_build built keyed
      (smoothly_of_each each keyed fun text inside => single text (List.mem_append_right _ inside))
    obtain ⟨-, labels, -, -⟩ := id plain
    refine ⟨fun text taken => labels text ?_, fun other used => ?_⟩
    · simpa [Declaration.takenLabels, Declaration.entry?, Declaration.body?,
        Declaration.group?] using taken
    · rw [List.mem_singleton.mp used]
      exact plain
  · intro key outer name text alternates within subtypes inner table _ built each _ single
    have own : Unbroken within := single within (by simp [Member.texts])
    have plain := plain_of_build built own
      (smoothly_of_each each own fun text inside => single text (List.mem_append_right _ inside))
    refine ⟨fun label taken => single label ?_, fun other used => ?_⟩
    · exact List.mem_append_left _ (List.mem_append_left _ (taken_own rfl label taken))
    · rw [List.mem_singleton.mp used]
      exact plain

theorem plain_of_file {file : HierarchyFile} {table : Table Variant}
    (made : file.table = .ok table) (single : ∀ text ∈ file.texts, Unbroken text) :
    Plain table := by
  obtain ⟨declarations, declared, built⟩ := file_built made
  obtain ⟨keyed, inside⟩ := List.forall_mem_cons.mp single
  have each := smoothly_hereditary.members file.subtypes declared
  refine plain_of_build built keyed fun declaration member => ?_
  rcases mem_file_declarations.mp member with ⟨-, rfl⟩ | own
  · exact ⟨nofun, nofun⟩
  · exact smoothly_of_each each keyed inside declaration own

/-! Labels that are not known. -/

/-- An object with a label and nothing else. -/
def labelOnly (key label : String) : Value := .object [(key, .string label)]

/-- A label that no entry has is reported as it was read. -/
theorem stranger_refused {table : Table Variant} (policy : table.policy = .none) {label : String}
    (foreign : label ∉ table.labels) (strict : Bool) :
    table.fromJson strict (labelOnly table.key label).text =
      .error (.unknownLabel table.key label table.labels) := by
  have shallow : (labelOnly table.key label).document.depth ≤ depthLimit :=
    (by decide : 1 ≤ depthLimit)
  obtain ⟨c, reads, -⟩ := reads_text.mpr ⟨Value.text_spells _, shallow⟩
  obtain ⟨_, ⟨d, looked, -⟩, -⟩ := id reads
  have here := (reads_looked looked).mpr reads
  have searched : lookForLabel table.key d = .ok (some label) d :=
    (lookForLabel_iff here).mpr ⟨rfl, _, rfl, if_pos rfl⟩
  obtain ⟨-, m, found⟩ := lookForLabel_ok.mp searched
  have unknown : table.lookup label = none := by
    rw [← Option.not_isSome_iff_eq_none, lookup_isSome]
    exact foreign
  have unresolved : table.Unresolved (Cursor.ofText (labelOnly table.key label).text)
      (.unknownLabel table.key label table.labels) :=
    .unknown looked nofun found unknown policy
  rw [Table.fromJson, decodeDocument,
    bind_of_error (Table.read_error.mpr (.inr (.inl ⟨unresolved, rfl⟩)))]

/-- What follows a newline in the label starts a line of the entry. -/
theorem stranger_lines (number : Nat) (key : String) (known : List String) {forged : String}
    (single : Unbroken forged) : ∃ line ∈
      textLines (entryOf (number, .unknownLabel key ("\n" ++ forged) known)),
      Text.toUtf8 forged <+: line := by
  have last : Unbroken (forged ++ "'. Register a subtype for this label.") :=
    (unbroken_append ..).mpr ⟨single, by decide⟩
  have entry : entryOf (number, .unknownLabel key ("\n" ++ forged) known) =
      opening number ++ ("expected one of " ++ alternatives known ++ " for key '" ++ key ++
        "' but found '") ++ "\n" ++ (forged ++ "'. Register a subtype for this label.") := by
    show opening number ++ ("expected one of " ++ alternatives known ++ " for key '" ++ key ++
      "' but found '" ++ ("\n" ++ forged) ++ "'. Register a subtype for this label.") = _
    simp only [String.append_assoc]
  refine ⟨Text.toUtf8 (forged ++ "'. Register a subtype for this label."), ?_, ?_⟩
  · have newline : Text.toUtf8 "\n" = [newline] := rfl
    rw [entry, textLines, Text.toUtf8_append, Text.toUtf8_append _ "\n", newline,
      List.append_assoc, List.append_assoc, List.singleton_append, splitLines_append]
    apply List.mem_append_right
    rw [← textLines, textLines_unbroken last]
    exact List.mem_singleton.mpr rfl
  · rw [Text.toUtf8_append]
    exact List.prefix_append ..

/-! Reports. -/

/-- A run of `decode` over a text reports the documents that cannot be read, one entry each, in
order and with the numbers of their lines. The report has one line for each of them if and only if
no name or label that their messages carry has a newline. Where neither a key nor a label of the
file has one, a document has to spell it; and where the file has no default, a document can be
written that starts a line of the report with any text. -/
theorem report_itemized {file : HierarchyFile} {table : Table Variant}
    (made : file.table = .ok table) (strict : Bool) (text : String) :
    let documents := documentsFrom 1 (splitLines (Text.toUtf8 text))
    let report := convertInput (decodeLine table strict) (Text.toUtf8 text)
    let rejected := rejections table strict documents
    report.failed = rejected.length ∧
    Itemized rejected (splitLines (Text.toUtf8 (report.errorOutput LineFailure.message))) ∧
    ((∀ text ∈ file.texts, Unbroken text) → ∀ number document e, (number, document) ∈ documents →
      table.fromJson strict document = .error e → ¬SpellsBreak document.toList →
        ∀ text ∈ e.carried, Unbroken text) ∧
    (table.policy = .none → ∀ forged, Unbroken forged → "\n" ++ forged ∉ table.labels →
      ∃ document e, '\n' ∉ document.toList ∧ table.fromJson strict document = .error e ∧
        ∀ number, ∃ line ∈ textLines (entryOf (number, e)), Text.toUtf8 forged <+: line) := by
  intro documents report rejected
  have linewise : Linewise (decodeLine table strict) (splitLines (Text.toUtf8 text)) report :=
    sound_linewise _ (text_sound text)
  have reported : report.errorOutput LineFailure.message = linesText (rejected.map entryOf) := by
    rw [linewise.errorOutput, refused_decode, List.map_map]
    rfl
  refine ⟨?_, ?_, ?_, ?_⟩
  · rw [linewise.failed, ← refused_length, refused_decode, List.length_map]
  · rw [reported, splitLines_linesText, List.flatMap_map]
    exact entries_itemized (rejections_increasing (documentsFrom_increasing _ _))
  · intro single number document e _ failed unspelled
    exact fromJson_unbroken (plain_of_file made single) failed unspelled
  · intro policy forged single foreign
    refine ⟨_, _, Value.text_single _, stranger_refused policy foreign strict, fun number => ?_⟩
    exact stranger_lines number table.key table.labels single

/-! A document whose label has the look of an entry for the line after it, where null stands. -/

def letters : HierarchyFile :=
  ⟨"type", false, [⟨"A", some "a", [], false, false, none, none⟩]⟩

def lettersTable : Table Variant :=
  ⟨"type", [⟨"A", "a", [], .adapter (Variant.record "A" ["type"])⟩], [], .none⟩

def forgery : String :=
  linesText [(labelOnly "type" "x\nline 2: forged").text, "null"]

theorem forgery_reported : letters.table = .ok lettersTable ∧
    let report := convertInput (decodeLine lettersTable false) (Text.toUtf8 forgery)
    report.failed = 1 ∧
    splitLines (Text.toUtf8 (report.errorOutput LineFailure.message)) =
      ["line 1: expected one of [a] for key 'type' but found 'x",
        "line 2: forged'. Register a subtype for this label."].map Text.toUtf8 := by
  have made : letters.table = .ok lettersTable := rfl
  obtain ⟨failed, itemized, -, -⟩ := report_itemized made false forgery
  have written : documentsFrom 1 (splitLines (Text.toUtf8 forgery)) =
      [(1, (labelOnly lettersTable.key "x\nline 2: forged").text), (2, "null")] := by
    decide +kernel
  have foreign : "x\nline 2: forged" ∉ lettersTable.labels := by decide
  have first := stranger_refused rfl foreign false
  have second := null_read lettersTable false
  have rejected :
      rejections lettersTable false (documentsFrom 1 (splitLines (Text.toUtf8 forgery))) =
        [(1, .unknownLabel "type" "x\nline 2: forged" ["a"])] := by
    rw [written, rejections, List.filterMap_cons, first, List.filterMap_cons, second]
    rfl
  rw [rejected] at failed itemized
  refine ⟨made, failed, itemized.entries.trans ?_⟩
  decide +kernel

end TaggedJson
