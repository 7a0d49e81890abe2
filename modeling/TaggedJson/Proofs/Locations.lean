import TaggedJson.Proofs.Nesting
import TaggedJson.Proofs.Probes
/-! Where a reader stands. A place in a document is given by the containers around it, each with its
parts before and behind the place. Whatever operations have led there, the path names the member in
each object and counts the items that come before in each array. -/
namespace TaggedJson

/-! Places in documents. -/
namespace Json.Document

/-- A container around a place, without the part that is or holds the place. -/
inductive Around where
  | item (before after : List Document)
  | member (before : List (String × Document)) (name : String) (after : List (String × Document))

/-- The document that has the value at the place. Containers are listed from the outermost. -/
def fill : List Around → Document → Document
  | [], value => value
  | .item before after :: inner, value => .array (before ++ fill inner value :: after)
  | .member before name after :: inner, value =>
    .object (before ++ (name, fill inner value) :: after)

def Around.text : Around → String
  | .item before _ => "[" ++ toString before.length ++ "]"
  | .member _ name _ => "." ++ name

/-- The location of the place, as in `$.items[2].name`. -/
def locationText (containers : List Around) : String :=
  containers.foldl (fun outer container => outer ++ container.text) "$"

end Json.Document

namespace Pull
open Json (Document Spells)
open Json.Document (Around fill locationText)

/-- What is taken of a container on the way to the place in it. -/
def entering : Around → List Event
  | .item before _ => .beginArray :: before.flatMap documentEvents
  | .member before name _ => .beginObject :: (openMembers before ++ [.name name])

/-- What is left of a container behind the place in it. -/
def leaving : Around → List Event
  | .item _ after => itemEvents after
  | .member _ _ after => memberEvents after

/-- What is left of the containers, the innermost first. -/
def leavingAll : List Around → List Event
  | [] => []
  | container :: inner => leavingAll inner ++ leaving container

theorem itemEvents_append (before rest : List Document) :
    itemEvents (before ++ rest) = before.flatMap documentEvents ++ itemEvents rest := by
  rw [itemEvents_eq, itemEvents_eq, List.flatMap_append, List.append_assoc]

theorem memberEvents_append (before rest : List (String × Document)) :
    memberEvents (before ++ rest) = openMembers before ++ memberEvents rest := by
  rw [memberEvents_eq, memberEvents_eq, openMembers_append, List.append_assoc]

/-- A document is taken by taking what is before a place, the value there, and what is behind. -/
theorem fill_events (containers : List Around) (value : Document) :
    documentEvents (fill containers value) =
      containers.flatMap entering ++ (documentEvents value ++ leavingAll containers) := by
  induction containers with
  | nil => exact (List.append_nil _).symm
  | cons container inner ih =>
    cases container with
    | item before after =>
      rw [fill, documentEvents, itemEvents_append, itemEvents, ih]
      simp [entering, leavingAll, leaving]
    | member before name after =>
      rw [fill, documentEvents, memberEvents_append, memberEvents, ih]
      simp [entering, leavingAll, leaving]

/-! Where a document goes on with a value, that is one of its parts. -/

/-- The next event is one of the first part, or that part has been taken. -/
theorem next_within {first others taken rest : List Event} {next : Event}
    (split : first ++ others = taken ++ next :: rest) :
    (∃ inside, first = taken ++ next :: inside) ∨
      ∃ later, taken = first ++ later ∧ others = later ++ next :: rest := by
  rcases List.append_eq_append_iff.mp split with past | ⟨left, within, further⟩
  · exact .inr past
  · cases left with
    | nil => exact .inr ⟨[], by simpa using within.symm, further.symm⟩
    | cons event inside =>
      obtain ⟨rfl, -⟩ := List.cons.inj further
      exact .inl ⟨inside, within⟩

/-- Behind the end of a container there is nothing of it. -/
theorem nothing_behind {last next : Event} {taken rest : List Event}
    (split : [last] = taken ++ next :: rest) : next = last := by
  cases taken with
  | nil => exact (List.cons.inj split).1.symm
  | cons event more => simp at split

mutual
theorem place_of_document : ∀ (document : Document) {taken rest : List Event} {next : Event},
    documentEvents document = taken ++ next :: rest → next.seen.starts = true →
    ∃ containers value, document = fill containers value ∧ taken = containers.flatMap entering
  | document, [], _, _, _, _ => ⟨[], document, rfl, rfl⟩
  | .null, _ :: _, _, _, split, _ | .bool _, _ :: _, _, _, split, _
  | .number _, _ :: _, _, _, split, _ | .string _, _ :: _, _, _, split, _ => by
    simp [documentEvents] at split
  | .array items, first :: taken, rest, next, split, starts => by
    obtain ⟨rfl, inside⟩ := List.cons.inj split
    obtain ⟨before, after, containers, value, rfl, rfl⟩ := place_of_items items inside starts
    exact ⟨.item before after :: containers, value, rfl, rfl⟩
  | .object members, first :: taken, rest, next, split, starts => by
    obtain ⟨rfl, inside⟩ := List.cons.inj split
    obtain ⟨before, name, after, containers, value, rfl, rfl⟩ :=
      place_of_members members inside starts
    refine ⟨.member before name after :: containers, value, rfl, ?_⟩
    simp [entering]

theorem place_of_items : ∀ (items : List Document) {taken rest : List Event} {next : Event},
    itemEvents items = taken ++ next :: rest → next.seen.starts = true →
    ∃ before after containers value, items = before ++ fill containers value :: after ∧
      taken = before.flatMap documentEvents ++ containers.flatMap entering
  | [], taken, rest, next, split, starts => by
    obtain rfl := nothing_behind split
    cases starts
  | item :: others, taken, rest, next, split, starts => by
    rcases next_within split with ⟨inside, first⟩ | ⟨later, rfl, further⟩
    · obtain ⟨containers, value, rfl, rfl⟩ := place_of_document item first starts
      exact ⟨[], others, containers, value, rfl, rfl⟩
    · obtain ⟨before, after, containers, value, rfl, rfl⟩ := place_of_items others further starts
      exact ⟨item :: before, after, containers, value, rfl, by simp⟩

theorem place_of_members : ∀ (members : List (String × Document)) {taken rest : List Event}
    {next : Event}, memberEvents members = taken ++ next :: rest → next.seen.starts = true →
    ∃ before name after containers value,
      members = before ++ (name, fill containers value) :: after ∧
        taken = openMembers before ++ .name name :: containers.flatMap entering
  | [], taken, rest, next, split, starts => by
    obtain rfl := nothing_behind split
    cases starts
  | (name, document) :: others, [], rest, next, split, starts => by
    obtain ⟨rfl, -⟩ := List.cons.inj split
    cases starts
  | (name, document) :: others, first :: taken, rest, next, split, starts => by
    obtain ⟨rfl, inside⟩ := List.cons.inj split
    rcases next_within inside with ⟨inside, first⟩ | ⟨later, rfl, further⟩
    · obtain ⟨containers, value, rfl, rfl⟩ := place_of_document document first starts
      exact ⟨[], name, others, containers, value, rfl, rfl⟩
    · obtain ⟨before, other, after, containers, value, rfl, rfl⟩ :=
        place_of_members others further starts
      exact ⟨(name, document) :: before, other, after, containers, value, rfl,
        by simp [openMembers_cons]⟩
end

/-! The path to a place. -/

def step : Around → Step
  | .item before _ => .index before.length
  | .member _ name _ => .field (some name)

theorem items_before (before : List Document) (position : Nat) (outer : List Step) :
    leavePaths (before.flatMap documentEvents) (.index position :: outer) =
      .index (position + before.length) :: outer := by
  induction before generalizing position with
  | nil => rfl
  | cons item rest ih =>
    rw [List.flatMap_cons, leavePaths_append, document_leaves item, passed, ih, List.length_cons,
      Nat.add_right_comm, Nat.add_assoc]

theorem members_before (before : List (String × Document)) (last : Option String)
    (outer : List Step) :
    ∃ last', leavePaths (openMembers before) (.field last :: outer) = .field last' :: outer := by
  induction before generalizing last with
  | nil => exact ⟨last, rfl⟩
  | cons member rest ih =>
    obtain ⟨name, document⟩ := member
    rw [openMembers_cons, leavePaths_cons, leavePaths_append, document_leaves document]
    exact ih (some name)

theorem entering_path (container : Around) (outer : List Step) :
    leavePaths (entering container) outer = step container :: outer := by
  cases container with
  | item before after =>
    rw [entering, leavePaths_cons]
    exact (items_before before 0 outer).trans (by rw [Nat.zero_add]; rfl)
  | member before name after =>
    rw [entering, leavePaths_cons, leavePaths_append]
    obtain ⟨last, inside⟩ := members_before before none outer
    show leavePaths _ (leavePaths (openMembers before) (.field none :: outer)) = _
    rw [inside]
    rfl

theorem step_text (container : Around) : (step container).text = container.text := by
  cases container <;> rfl

/-- On the way to a place every container adds its own text to the path. -/
theorem entering_text (containers : List Around) (path : List Step) :
    (leavePaths (containers.flatMap entering) path).foldr
        (fun step outer => outer ++ step.text) "$" =
      containers.foldl (fun outer container => outer ++ container.text)
        (path.foldr (fun step outer => outer ++ step.text) "$") := by
  induction containers generalizing path with
  | nil => rfl
  | cons container inner ih =>
    rw [List.flatMap_cons, leavePaths_append, entering_path, ih, List.foldr_cons, step_text,
      List.foldl_cons]

theorem path_of_place {containers : List Around} {c : Cursor}
    (path : c.path = leavePaths (containers.flatMap entering) []) :
    c.pathText = locationText containers := by
  rw [Cursor.pathText, path, entering_text]
  rfl

/-! Documents of any depth foretell what is read of them. -/

/-- What is beyond the limit is never reached, but it stands where it is expected. -/
theorem Blocked.foretells {events : List Event} {c : Cursor} (blocked : Blocked events c) :
    Foretells events c := by
  obtain ⟨before, bracket, after, m, e, rfl, runs, opens, looked, full⟩ := blocked
  intro taken d further
  obtain ⟨more, split | split⟩ := runs_comparable further runs
  · subst split
    refine ⟨more ++ bracket :: after, by simp, ?_⟩
    obtain ⟨n, same, others⟩ := runs_append.mp runs
    obtain rfl := runs_deterministic same further
    cases more with
    | nil =>
      cases others
      exact ⟨e, looked⟩
    | cons event rest =>
      obtain ⟨_, ⟨f, found, -⟩, -⟩ := others
      exact ⟨f, found⟩
  · subst split
    obtain ⟨n, same, others⟩ := runs_append.mp further
    obtain rfl := runs_deterministic same runs
    cases more with
    | nil =>
      cases others
      exact ⟨bracket :: after, by simp, e, looked⟩
    | cons event rest =>
      -- No event can be taken at a bracket for which there is no room.
      obtain ⟨_, ⟨f, found, leaves⟩, -⟩ := others
      rw [looked] at found
      injection found with same place
      subst place
      have room : e.scopes.length ≤ depthLimit := by
        cases bracket <;> cases opens <;> cases event <;> cases same <;>
          exact (openScope_iff.mp leaves).1
      exact absurd full (Nat.not_lt_of_le room)

theorem foretells_text {text : String} {document : Document} (spells : Spells text document) :
    Foretells (documentEvents document) (Cursor.ofText text) := by
  by_cases shallow : document.depth ≤ depthLimit
  · exact (remains_text.mpr ⟨document, spells, shallow, rfl⟩).foretells
  · exact (blocked_text spells (Nat.lt_of_not_le shallow)).foretells

section Foretells
variable {events : List Event} {c d : Cursor}

theorem Foretells.looked (foretells : Foretells events c) {seen : Ahead}
    (look : Pull.ahead c = .ok seen d) : Foretells events d := by
  intro taken e runs
  cases taken with
  | nil =>
    cases runs
    exact ⟨events, rfl, d, by rw [ahead_twice look, foretells.seen look]⟩
  | cons event rest =>
    exact foretells _ e ((runs_looked (List.cons_ne_nil event rest) look).mp runs)

theorem Foretells.under (foretells : Foretells events c) (flag : Bool)
    (allowances : List Allowance) : Foretells events (c.under flag allowances) := by
  intro taken e runs
  obtain ⟨d, within, rfl⟩ := runs_under_iff.mp runs
  obtain ⟨rest, split, f, look⟩ := foretells taken d within
  exact ⟨rest, split, _, ahead_under look⟩

end Foretells

/-! Operations that succeed. -/

/-- What an operation with that answer leaves of the events. -/
inductive Operation.Leaves : Operation → Answer → List Event → List Event → Prop
  | takes {request : Call} {answer : Answer} {taken rest : List Event}
    (one : request.Takes answer taken) : Leaves (.call request) answer (taken ++ rest) rest
  | sees {request : Call} {answer : Answer} {rest : List Event}
    (one : request.Sees answer rest) : Leaves (.call request) answer rest rest
  | failOnUnknown {fails : Bool} {rest : List Event} :
    Leaves (.failOnUnknown fails) .done rest rest
  | allow {name : String} {stripped : Bool} {rest : List Event} :
    Leaves (.allow name stripped) .done rest rest
  | disallow {rest : List Event} : Leaves .disallow .done rest rest

/-- What operations with those answers leave of the events, one after the other. -/
inductive Follows : List Operation → List Answer → List Event → List Event → Prop
  | nil {rest : List Event} : Follows [] [] rest rest
  | cons {operation : Operation} {answer : Answer} {operations : List Operation}
    {answers : List Answer} {events between rest : List Event}
    (one : operation.Leaves answer events between)
    (more : Follows operations answers between rest) :
    Follows (operation :: operations) (answer :: answers) events rest

/-- In the document the reader stands where the events that are left begin. -/
structure Located (document : Document) (rest : List Event) (c : Cursor) : Prop where
  path : ∃ taken, documentEvents document = taken ++ rest ∧ c.path = leavePaths taken []
  foretells : Foretells rest c

theorem located_text {text : String} {document : Document} (spells : Spells text document) :
    Located document (documentEvents document) (Cursor.ofText text) :=
  ⟨⟨[], rfl, rfl⟩, foretells_text spells⟩

section Located
variable {document : Document} {rest : List Event} {c : Cursor}

theorem Located.under (located : Located document rest c) (flag : Bool)
    (allowances : List Allowance) : Located document rest (c.under flag allowances) :=
  ⟨located.path, located.foretells.under flag allowances⟩

theorem reply_ok {request : Call} {answer : Answer}
    (replied : Operation.reply c (.call request) = .ok answer) :
    request.run c = .ok answer (Operation.run c (.call request)).cursor := by
  rw [Operation.reply] at replied
  rw [Operation.run]
  cases ran : request.run c with
  | error e d =>
    rw [ran] at replied
    cases replied
  | ok found d =>
    rw [ran] at replied
    cases replied
    rfl

theorem Located.step (located : Located document rest c) {operation : Operation} {answer : Answer}
    (replied : operation.reply c = .ok answer) :
    ∃ left, operation.Leaves answer rest left ∧
      Located document left (operation.run c).cursor := by
  obtain ⟨passed, whole, path⟩ := located.path
  cases operation with
  | call request =>
    rcases run_cases (reply_ok replied) with ⟨taken, runs, takes⟩ | ⟨⟨seen, looked⟩, sees⟩
    · obtain ⟨left, rfl, foretells⟩ := located.foretells.after runs
      refine ⟨left, .takes takes, ⟨passed ++ taken, ?_, ?_⟩, foretells⟩
      · rw [whole, List.append_assoc]
      · rw [runs_path runs, path, leavePaths_append]
    · exact ⟨rest, .sees (sees rest located.foretells),
        ⟨passed, whole, (looked_path looked).trans path⟩, located.foretells.looked looked⟩
  | failOnUnknown fails =>
    cases replied
    exact ⟨rest, .failOnUnknown, located.under _ _⟩
  | allow name stripped =>
    cases replied
    exact ⟨rest, .allow, located.under _ _⟩
  | disallow =>
    cases replied
    exact ⟨rest, .disallow, located.under _ _⟩

theorem Located.run {operations : List Operation} {answers : List Answer}
    (located : Located document rest c)
    (succeeded : (transcript operations c).map Prod.fst = answers.map .ok) :
    ∃ left, Follows operations answers rest left ∧
      Located document left (runOperations operations c) := by
  induction operations generalizing answers rest c with
  | nil =>
    cases answers with
    | nil => exact ⟨rest, .nil, located⟩
    | cons => cases succeeded
  | cons operation operations ih =>
    cases answers with
    | nil => cases succeeded
    | cons answer answers =>
      obtain ⟨replied, others⟩ := List.cons.inj succeeded
      obtain ⟨between, one, onward⟩ := located.step replied
      obtain ⟨left, more, reached⟩ := ih onward others
      exact ⟨left, .cons one more, reached⟩

/-- Before a value the reader is at its place, and the path is the location. -/
theorem Located.value (located : Located document rest c)
    (starts : (nextAhead rest).starts = true) :
    ∃ containers value, document = fill containers value ∧
      rest = documentEvents value ++ leavingAll containers ∧
      c.pathText = locationText containers := by
  obtain ⟨taken, whole, path⟩ := located.path
  cases rest with
  | nil => cases starts
  | cons next later =>
    obtain ⟨containers, value, rfl, rfl⟩ := place_of_document document whole starts
    rw [fill_events] at whole
    exact ⟨containers, value, rfl, (List.append_cancel_left whole).symm, path_of_place path⟩

end Located

/-- Whichever operations succeed on a document, they have taken its beginning, and the reader tells
what comes next. Where that is a value, the path gives its place: for every container around it,
from the outermost inwards, the name of the member it is in or the number of items before it. -/
theorem path_leads_to_value (text : String) (document : Document) (operations : List Operation)
    (answers : List Answer) (spells : Spells text document)
    (succeeded : (transcript operations (Cursor.ofText text)).map Prod.fst = answers.map .ok) :
    ∃ rest, Follows operations answers (documentEvents document) rest ∧
      (∃ d, peek (runOperations operations (Cursor.ofText text)) =
          .ok (nextAhead rest).token d ∧
        d.pathText = (runOperations operations (Cursor.ofText text)).pathText) ∧
      ((nextAhead rest).starts = true → ∃ containers value,
        document = fill containers value ∧
        rest = documentEvents value ++ leavingAll containers ∧
        (runOperations operations (Cursor.ofText text)).pathText = locationText containers) := by
  obtain ⟨rest, follows, located⟩ := (located_text spells).run succeeded
  refine ⟨rest, follows, ?_, located.value⟩
  obtain ⟨d, looked⟩ := located.foretells.ahead
  exact ⟨d, peek_ahead looked, Looked.path (.inr ⟨_, looked⟩)⟩

/-- Read as `{"a":[true,{"b":null}]}`. -/
def nested : Json.Value :=
  .object [("a", .array [.bool true, .object [("b", .null)]])]

/-- Leads past the first item to the member of the second. -/
def descent : List Operation := [.call .beginObject, .call .nextName, .call .beginArray,
  .call .skipValue, .call .beginObject, .call (.selectName ["b"])]

theorem path_leads_to_value_nested :
    Spells nested.text nested.document ∧
    (transcript descent (Cursor.ofText nested.text)).map Prod.fst =
      [Answer.done, .text "a", .done, .done, .done, .choice (some 0)].map .ok ∧
    (runOperations descent (Cursor.ofText nested.text)).pathText = "$.a[1].b" ∧
    ∃ rest, Follows descent [.done, .text "a", .done, .done, .done, .choice (some 0)]
        (documentEvents nested.document) rest ∧
      ((nextAhead rest).starts = true → ∃ containers value,
        nested.document = fill containers value ∧
        rest = documentEvents value ++ leavingAll containers ∧
        (runOperations descent (Cursor.ofText nested.text)).pathText =
          locationText containers) := by
  have spells : Spells nested.text nested.document := nested.text_spells
  have succeeded : (transcript descent (Cursor.ofText nested.text)).map Prod.fst =
      [Answer.done, .text "a", .done, .done, .done, .choice (some 0)].map .ok := by
    with_unfolding_all rfl
  obtain ⟨rest, follows, -, leads⟩ := path_leads_to_value _ _ _ _ spells succeeded
  exact ⟨spells, succeeded, by with_unfolding_all rfl, rest, follows, leads⟩

end Pull
end TaggedJson
