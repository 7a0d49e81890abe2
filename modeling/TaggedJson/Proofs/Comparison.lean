import TaggedJson.Proofs.Aftermath
import TaggedJson.Proofs.Consumption
import TaggedJson.Proofs.Passed
import TaggedJson.Proofs.Rejections
/-! Passing a value and taking it, step by step. Both take the same tokens and fail over the same
text, at the same place. Only what a value may not hold stops taking where passing goes on: a name
that comes twice in one object, and a number beyond the doubles. -/
namespace TaggedJson.Pull
open Json (Document Members NumberLiteral Scope Value)

/-- Members of an object that has not ended yet. -/
def openMembers (members : List (String × Document)) : List Event :=
  members.flatMap fun (name, document) => .name name :: documentEvents document

theorem openMembers_cons (name : String) (document : Document) (rest : List (String × Document)) :
    openMembers ((name, document) :: rest) =
      .name name :: (documentEvents document ++ openMembers rest) := List.flatMap_cons

theorem openMembers_append (front back : List (String × Document)) :
    openMembers (front ++ back) = openMembers front ++ openMembers back := List.flatMap_append

theorem openMembers_single (name : String) (document : Document) :
    openMembers [(name, document)] = .name name :: documentEvents document := List.append_nil _

theorem memberEvents_eq (members : List (String × Document)) :
    memberEvents members = openMembers members ++ [.endObject] := by
  induction members with
  | nil => rfl
  | cons member rest ih =>
    rw [memberEvents, ih, openMembers_cons, List.cons_append, List.append_assoc]

/-- What no value holds, behind tokens that can be passed. -/
inductive Unvalued (c : Cursor) : DecodeError → Prop
  /-- The last of the members that have been read has the name of an earlier one. -/
  | repeated {before : List Event} {members : List (String × Document)} {name : String}
    {document : Document} {d : Cursor}
    (runs : Runs (before ++ .beginObject :: openMembers (members ++ [(name, document)])) c d)
    (earlier : name ∈ members.map Prod.fst) : Unvalued c (.repeatedName name d.pathText)
  /-- The next token is a number that no double is as large as. -/
  | overflow {before : List Event} {literal : NumberLiteral} {m d : Cursor} {q : Place}
    {negative : Bool} (runs : Runs before c m) (looked : ahead m = .ok .number d)
    (scanned : scanNumber d.place = .ok (literal, q))
    (infinite : literal.toBinary64 = .infinite negative) :
    Unvalued c (.malformed .badNumber d.place.offset d.pathText)

/-! The containers that are open around a place, as the events have left them. -/

/-- The events open the containers, and what they hold so far has the values in the frames. -/
inductive Built : List Frame → List Event → Prop
  | nil : Built [] []
  | items {outer : List Frame} {events : List Event} {documents : List Document}
    {done : List Value} (around : Built outer events)
    (values : Document.itemValues? documents = some done.reverse) :
    Built (.items done :: outer) (events ++ .beginArray :: documents.flatMap documentEvents)
  | members {outer : List Frame} {events : List Event} {members : List (String × Document)}
    {done : Members} (around : Built outer events)
    (values : Document.memberValues? members = some done.reverse)
    (distinct : (members.map Prod.fst).Nodup) :
    Built (.members done :: outer) (events ++ .beginObject :: openMembers members)
  | member {outer : List Frame} {events : List Event} {members : List (String × Document)}
    {done : Members} {name : String} (around : Built outer events)
    (values : Document.memberValues? members = some done.reverse)
    (distinct : (members.map Prod.fst).Nodup) :
    Built (.member done name :: outer)
      (events ++ .beginObject :: (openMembers members ++ [.name name]))

/-- A value may come in the container. -/
def Frame.awaits : Frame → Prop
  | .members _ => False
  | _ => True

theorem itemValues_append {front back : List Document} {values more : List Value}
    (first : Document.itemValues? front = some values)
    (last : Document.itemValues? back = some more) :
    Document.itemValues? (front ++ back) = some (values ++ more) := by
  induction front generalizing values with
  | nil =>
    cases first
    exact last
  | cons item rest ih =>
    obtain ⟨value, one, others⟩ := Option.bind_eq_some_iff.mp first
    obtain ⟨inner, found, rfl⟩ := Option.map_eq_some_iff.mp others
    rw [List.cons_append, Document.itemValues?, one, Option.bind_some, ih found]
    rfl

theorem memberValues_append {front back : List (String × Document)} {values more : Members}
    (first : Document.memberValues? front = some values)
    (last : Document.memberValues? back = some more) :
    Document.memberValues? (front ++ back) = some (values ++ more) := by
  induction front generalizing values with
  | nil =>
    cases first
    exact last
  | cons member rest ih =>
    obtain ⟨value, one, others⟩ := Option.bind_eq_some_iff.mp first
    obtain ⟨inner, found, rfl⟩ := Option.map_eq_some_iff.mp others
    rw [List.cons_append, Document.memberValues?, one, Option.bind_some, ih found]
    rfl

theorem names_of_done {members : List (String × Document)} {done : Members}
    (values : Document.memberValues? members = some done.reverse) (name : String) :
    done.has name = true ↔ name ∈ members.map Prod.fst := by
  rw [has_iff, ← Document.memberValues_names values, List.map_reverse, List.mem_reverse]

/-- A value that has been read to its end joins the container it is in. -/
theorem Built.deliver {frames next : List Frame} {events : List Event} {document : Document}
    {value : Value} (built : Built frames events) (denoted : document.value? = some value)
    (awaits : ∀ frame ∈ frames.head?, frame.awaits)
    (delivered : deliver? value frames = some (.inl next)) :
    Built next (events ++ documentEvents document) := by
  cases built with
  | nil => cases delivered
  | members => exact (awaits _ rfl).elim
  | @items outer before documents done around values =>
    cases delivered
    have one : Document.itemValues? [document] = some [value] := by
      simp [Document.itemValues?, denoted]
    have joined : Document.itemValues? (documents ++ [document]) =
        some (value :: done).reverse := by
      rw [itemValues_append values one, List.reverse_cons]
    have longer := Built.items around joined
    rw [List.flatMap_append, List.flatMap_singleton] at longer
    rwa [List.append_assoc, List.cons_append]
  | @member outer before members done name around values distinct =>
    rw [deliver_member] at delivered
    split at delivered <;> cases delivered
    rename_i fresh
    have one : Document.memberValues? [(name, document)] = some [(name, value)] := by
      simp [Document.memberValues?, denoted]
    have joined : Document.memberValues? (members ++ [(name, document)]) =
        some ((name, value) :: done).reverse := by
      rw [memberValues_append values one, List.reverse_cons]
    have apart : ((members ++ [(name, document)]).map Prod.fst).Nodup := by
      rw [List.map_append, List.nodup_append]
      refine ⟨distinct, List.nodup_singleton _, ?_⟩
      rintro other member _ last rfl
      obtain rfl := List.mem_singleton.mp last
      exact fresh ((names_of_done values _).mpr member)
    have longer := Built.members around joined apart
    rw [openMembers_append, openMembers_single] at longer
    rwa [List.append_assoc, List.cons_append, List.append_assoc, List.singleton_append]

theorem Built.repeats {outer : List Frame} {events : List Event} {document : Document}
    {done : Members} {name : String} {c d : Cursor}
    (built : Built (.member done name :: outer) events)
    (runs : Runs (events ++ documentEvents document) c d) (repeated : done.has name = true) :
    Unvalued c (.repeatedName name d.pathText) := by
  cases built with
  | @member outer before members done name around values distinct =>
    rw [List.append_assoc, List.cons_append, List.append_assoc, List.singleton_append,
      ← openMembers_single, ← openMembers_append] at runs
    exact .repeated runs ((names_of_done values name).mp repeated)

/-! Where the containers stand. -/

/-- What may come next in the container, as its scope has it. -/
def Frame.At : Frame → Scope → Prop
  | .items _, scope => AtItem scope
  | .members _, scope => AtMember scope
  | .member _ _, scope => scope = .objectValue

/-- A value has begun in the container. -/
def Frame.Past : Frame → Scope → Prop
  | .items _, scope => scope = .arrayNext
  | .members _, _ => False
  | .member _ _, scope => scope = .objectNext

/-- The containers are those around a value that has begun. -/
def Enclosing : List Frame → List Scope → Prop
  | [], _ => True
  | _ :: _, [] => False
  | frame :: outer, scope :: rest => frame.Past scope ∧ Enclosing outer rest

/-- The containers are those around what comes next. -/
def Fits : List Frame → List Scope → Prop
  | [], _ => True
  | _ :: _, [] => False
  | frame :: outer, scope :: rest => frame.At scope ∧ Enclosing outer rest

theorem Frame.At.past {frame : Frame} {scope after : Scope} (stands : frame.At scope)
    (place : afterValue scope = some after) : frame.Past after := by
  cases frame with
  | items =>
    rcases stands with rfl | rfl <;> cases place <;> rfl
  | members => rcases stands with rfl | rfl <;> cases place
  | member =>
    cases stands
    cases place
    rfl

theorem Fits.enclosing {frames : List Frame} {scope after : Scope} {outer : List Scope}
    (fits : Fits frames (scope :: outer)) (place : afterValue scope = some after) :
    Enclosing frames (after :: outer) := by
  cases frames with
  | nil => trivial
  | cons frame frames => exact ⟨fits.1.past place, fits.2⟩

theorem Enclosing.awaits {frames : List Frame} {scopes : List Scope}
    (enclosing : Enclosing frames scopes) : ∀ frame ∈ frames.head?, frame.awaits := by
  rintro frame first
  cases frames with
  | nil => cases first
  | cons _ outer =>
    cases first
    cases scopes with
    | nil => exact enclosing.elim
    | cons scope rest => cases frame <;> first | trivial | exact enclosing.1.elim

/-- Once the value has ended, the container goes on behind it. -/
theorem Enclosing.deliver {frames next : List Frame} {scopes : List Scope} {value : Value}
    (enclosing : Enclosing frames scopes) (delivered : deliver? value frames = some (.inl next)) :
    Fits next scopes := by
  cases frames with
  | nil => cases delivered
  | cons frame outer =>
    cases scopes with
    | nil => exact enclosing.elim
    | cons scope rest =>
      obtain ⟨past, around⟩ := enclosing
      cases frame with
      | items =>
        cases delivered
        exact ⟨.inr past, around⟩
      | members => exact past.elim
      | member =>
        rw [deliver_member] at delivered
        split at delivered <;> cases delivered
        exact ⟨.inr past, around⟩

/-- What the reader has come to since it began to take the value at a cursor. -/
structure Underway (c : Cursor) (frames : List Frame) (d : Cursor) : Prop where
  built : ∃ events, Built frames events ∧ Runs events c d
  fits : frames ≠ [] → d.ahead = none ∧ Fits frames d.scopes

theorem underway_start (c : Cursor) : Underway c [] c :=
  ⟨⟨[], .nil, rfl⟩, fun some => (some rfl).elim⟩

section Underway
variable {c d e m : Cursor} {frames next : List Frame}

theorem Underway.moves {event : Event} {frame : Frame} (underway : Underway c (frame :: frames) d)
    (taken : event.Taken d e) : ∃ scope outer, event.Moves (scope :: outer) e.scopes ∧
      frame.At scope ∧ Enclosing frames outer ∧ e.ahead = none := by
  obtain ⟨fresh, fits⟩ := underway.fits (List.cons_ne_nil _ _)
  obtain ⟨moves, clear⟩ := taken_moves fresh taken
  generalize d.scopes = scopes at fits moves
  cases scopes with
  | nil => exact fits.elim
  | cons scope outer => exact ⟨scope, outer, moves, fits.1, fits.2, clear⟩

/-- Where a scalar ends, a value may have begun. -/
theorem Underway.scalar {event : Event} (underway : Underway c frames d)
    (taken : event.Taken d e) (single : event.isScalar = true) (inside : frames ≠ []) :
    Enclosing frames e.scopes ∧ e.ahead = none := by
  cases frames with
  | nil => exact (inside rfl).elim
  | cons frame frames =>
    obtain ⟨scope, outer, moves, stands, around, clear⟩ := underway.moves taken
    generalize e.scopes = after at moves
    cases moves with
    | scalar place => exact ⟨⟨stands.past place, around⟩, clear⟩
    | _ => cases single

/-- A bracket that closes leaves a value that has ended. -/
theorem Underway.closes {event : Event} {frame : Frame}
    (underway : Underway c (frame :: frames) d) (taken : event.Taken d e)
    (closing : event = .endObject ∨ event = .endArray) :
    Enclosing frames e.scopes ∧ e.ahead = none := by
  obtain ⟨scope, outer, moves, stands, around, clear⟩ := underway.moves taken
  generalize e.scopes = after at moves
  cases moves with
  | endObject => exact ⟨around, clear⟩
  | endArray => exact ⟨around, clear⟩
  | scalar place single => rcases closing with rfl | rfl <;> cases single
  | _ => rcases closing with h | h <;> cases h

/-- A bracket that opens puts a frame around what comes next. -/
theorem Underway.opens {event : Event} {frame : Frame} {scope : Scope}
    (underway : Underway c frames d) (taken : event.Taken d e)
    (opening : event = .beginObject ∧ scope = .objectStart ∨
      event = .beginArray ∧ scope = .arrayStart) (stands : frame.At scope) :
    e.ahead = none ∧ Fits (frame :: frames) e.scopes := by
  cases frames with
  | nil =>
    obtain ⟨m, -, leaves⟩ := taken
    obtain ⟨clear, scopes⟩ := leaves_scopes leaves
    rw [scopes]
    rcases opening with ⟨rfl, rfl⟩ | ⟨rfl, rfl⟩ <;> exact ⟨clear, stands, trivial⟩
  | cons outermost frames =>
    obtain ⟨before, outer, moves, inside, around, clear⟩ := underway.moves taken
    generalize e.scopes = after at moves ⊢
    rcases opening with ⟨rfl, rfl⟩ | ⟨rfl, rfl⟩
    · cases moves with
      | beginObject place => exact ⟨clear, stands, inside.past place, around⟩
      | scalar _ single => cases single
    · cases moves with
      | beginArray place => exact ⟨clear, stands, inside.past place, around⟩
      | scalar _ single => cases single

/-- A value has ended in the containers. -/
def Completes (c : Cursor) (frames : List Frame) (value : Value) (d : Cursor) : Prop :=
  ∃ events document, Built frames events ∧ Runs (events ++ documentEvents document) c d ∧
    document.value? = some value ∧ (frames ≠ [] → Enclosing frames d.scopes ∧ d.ahead = none)

theorem Completes.underway {value : Value} (completes : Completes c frames value d)
    (delivered : deliver? value frames = some (.inl next)) : Underway c next d := by
  obtain ⟨events, document, built, runs, denoted, inside⟩ := completes
  have some : frames ≠ [] := by
    rintro rfl
    cases delivered
  obtain ⟨enclosing, fresh⟩ := inside some
  exact ⟨⟨_, built.deliver denoted enclosing.awaits delivered, runs⟩,
    fun _ => ⟨fresh, enclosing.deliver delivered⟩⟩

/-- A value that cannot join its container has a name that was there before. -/
theorem Completes.refused {value : Value} {fault : DecodeError}
    (completes : Completes c frames value d) (failed : deliver value frames d = .error fault e) :
    Unvalued c fault := by
  obtain ⟨events, document, built, runs, -, -⟩ := completes
  unfold deliver at failed
  split at failed
  · cases failed
  · cases failed
  · split at failed
    · rename_i repeated
      cases failed
      exact built.repeats runs repeated
    · cases failed
  · cases failed

theorem Underway.further {event : Event} (underway : Underway c frames d)
    (taken : event.Taken d e) : ∃ events, Built frames events ∧ Runs (events ++ [event]) c e := by
  obtain ⟨events, built, runs⟩ := underway.built
  exact ⟨events, built, runs_append.mpr ⟨d, runs, runs_singleton.mpr taken⟩⟩

theorem Underway.scalar_completes {event : Event} (document : Document) {value : Value}
    (underway : Underway c frames d) (taken : event.Taken d e) (scalar : event.isScalar = true)
    (single : documentEvents document = [event]) (denoted : document.value? = some value) :
    Completes c frames value e := by
  obtain ⟨events, built, runs⟩ := underway.further taken
  rw [← single] at runs
  exact ⟨events, document, built, runs, denoted, underway.scalar taken scalar⟩

theorem Underway.array_completes {done : List Value}
    (underway : Underway c (.items done :: frames) d) (taken : Event.endArray.Taken d e) :
    Completes c frames (.array done.reverse) e := by
  obtain ⟨events, built, runs⟩ := underway.further taken
  cases built with
  | @items _ before documents _ around values =>
    rw [List.append_assoc, List.cons_append, ← itemEvents_eq, ← documentEvents] at runs
    have denoted : (Document.array documents).value? = some (.array done.reverse) := by
      rw [Document.value?, values]
      rfl
    exact ⟨before, _, around, runs, denoted, fun _ => underway.closes taken (.inr rfl)⟩

theorem Underway.object_completes {done : Members}
    (underway : Underway c (.members done :: frames) d) (taken : Event.endObject.Taken d e) :
    Completes c frames (.object done.reverse) e := by
  obtain ⟨events, built, runs⟩ := underway.further taken
  cases built with
  | @members _ before members _ around values distinct =>
    rw [List.append_assoc, List.cons_append, ← memberEvents_eq, ← documentEvents] at runs
    have apart : (done.reverse.map Prod.fst).Nodup := by
      rwa [Document.memberValues_names values]
    have denoted : (Document.object members).value? = some (.object done.reverse) := by
      rw [Document.value?, values, Option.bind_some, if_pos apart]
    exact ⟨before, _, around, runs, denoted, fun _ => underway.closes taken (.inl rfl)⟩

theorem number_value {literal : NumberLiteral} {number : Json.Number}
    (denoted : literal.number? = some number) :
    (Document.number literal).value? = some (.number number) := by
  rw [Document.value?, denoted]
  rfl

/-- A step that goes on leaves the reader underway. -/
theorem Underway.step {event : Event} (underway : Underway c frames d) (taken : event.Taken d e)
    (read : readNext frames event = some (.inl next)) : Underway c next e := by
  obtain ⟨events, built, runs⟩ := underway.further taken
  unfold readNext at read
  split at read
  · cases read
    have opened : Built (.members [] :: frames) (events ++ .beginObject :: openMembers []) :=
      .members built rfl List.nodup_nil
    exact ⟨⟨_, opened, runs⟩, fun _ => underway.opens taken (.inl ⟨rfl, rfl⟩) (.inl rfl)⟩
  · cases read
    have opened : Built (.items [] :: frames)
        (events ++ .beginArray :: [].flatMap documentEvents) := .items built rfl
    exact ⟨⟨_, opened, runs⟩, fun _ => underway.opens taken (.inr ⟨rfl, rfl⟩) (.inl rfl)⟩
  · exact (underway.object_completes taken).underway read
  · exact (underway.array_completes taken).underway read
  · rename_i text done outer
    cases read
    cases built with
    | @members _ before members _ around values distinct =>
      rw [List.append_assoc, List.cons_append] at runs
      obtain ⟨scope, rest, moves, stands, enclosing, clear⟩ := underway.moves taken
      refine ⟨⟨_, .member around values distinct, runs⟩, fun _ => ⟨clear, ?_⟩⟩
      generalize e.scopes = after at moves ⊢
      cases moves with
      | name => exact ⟨rfl, enclosing⟩
      | scalar _ single => cases single
  · exact (underway.scalar_completes (.string _) taken rfl rfl rfl).underway read
  · obtain ⟨number, denoted, delivered⟩ := Option.bind_eq_some_iff.mp read
    have value := number_value denoted
    exact (underway.scalar_completes (.number _) taken rfl rfl value).underway delivered
  · exact (underway.scalar_completes (.bool _) taken rfl rfl rfl).underway read
  · exact (underway.scalar_completes .null taken rfl rfl rfl).underway read
  · cases read

/-! Failing steps. -/

/-- The token ahead, if there is one, is one that the container can have next. -/
def Frame.Sees : Frame → Ahead → Prop
  | .items _, seen => seen.starts = true ∨ seen = .endArray
  | .members _, seen => seen = .name ∨ seen = .endObject
  | .member _ _, seen => seen.starts = true

theorem Frame.At.sees {frame : Frame} {scope : Scope} {outer after : List Scope} {seen : Ahead}
    (stands : frame.At scope) (sees : Pull.Sees (scope :: outer) seen after) :
    frame.Sees seen := by
  cases frame with
  | items done =>
    rcases stands with rfl | rfl
    all_goals cases sees with
      | value place starts => exact .inl starts
      | endArray => exact .inr rfl
      | name member | endObject member => rcases member with h | h <;> cases h
      | endDocument done => rcases done with h | h <;> cases h
  | members done =>
    rcases stands with rfl | rfl
    all_goals cases sees with
      | value place => cases place
      | name => exact .inl rfl
      | endObject => exact .inr rfl
      | endArray item => rcases item with h | h <;> cases h
      | endDocument done => rcases done with h | h <;> cases h
  | member done name =>
    cases stands
    cases sees with
    | value place starts => exact starts
    | name member | endObject member => rcases member with h | h <;> cases h
    | endArray item => rcases item with h | h <;> cases h
    | endDocument done => rcases done with h | h <;> cases h

/-- The cursor is where the container goes on. -/
def Frame.GoesOn (frame : Frame) (c : Cursor) : Prop :=
  c.ahead = none ∧ ∃ scope outer, c.scopes = scope :: outer ∧ frame.At scope

theorem Frame.GoesOn.sees {frame : Frame} {seen : Ahead} (goes : frame.GoesOn d)
    (looked : ahead d = .ok seen m) : frame.Sees seen := by
  obtain ⟨fresh, scope, outer, shape, stands⟩ := goes
  obtain ⟨e, found, -⟩ := (ahead_fresh fresh).mp looked
  have sees := look_sees found
  rw [shape] at sees
  exact stands.sees sees

theorem Underway.sees {frame : Frame} {seen : Ahead} (underway : Underway c (frame :: frames) d)
    (looked : ahead d = .ok seen m) : frame.Sees seen := by
  obtain ⟨fresh, fits⟩ := underway.fits (List.cons_ne_nil _ _)
  cases shape : d.scopes with
  | nil =>
    rw [shape] at fits
    exact fits.elim
  | cons scope outer =>
    rw [shape] at fits
    exact Frame.GoesOn.sees ⟨fresh, scope, outer, shape, fits.1⟩ looked

theorem returns_error {x : Pull α} {f : α → β} {fault : DecodeError} :
    (x >>= fun a => (pure (f a) : Pull β)) c = .error fault d ↔ x c = .error fault d := by
  rw [bind_error]
  constructor
  · rintro (failed | ⟨a, m, -, failed⟩)
    · exact failed
    · cases failed
  · exact .inl

/-- A number without a value overflows. -/
theorem overflows {literal : NumberLiteral} (valueless : literal.number? = none) :
    ∃ negative, literal.toBinary64 = .infinite negative := by
  have unbounded : ¬∃ value, literal.toBinary64 = .finite value := by
    rw [← NumberLiteral.number_iff, valueless]
    rintro ⟨_, ⟨⟩⟩
  rw [NumberLiteral.toBinary64, Decimal.toBinary64, Binary64.ofRank] at unbounded ⊢
  split at unbounded
  · exact absurd ⟨_, rfl⟩ unbounded
  · rename_i beyond
    rw [dif_neg beyond]
    exact ⟨_, rfl⟩

/-- The literal of a number is scanned, or fails, whatever it was asked for as. -/
theorem nextLiteral_ahead (expected : Expected) (looked : ahead d = .ok .number m) :
    nextLiteral expected d = takeLexeme scanNumber { m with ahead := none } := by
  have asked : aheadAs expected (Ahead.only? .number) d = .ok () m := by
    simp only [aheadAs, looked, Ahead.only?, if_true]
  rw [nextLiteral, bind_of_ok asked]
  rfl

/-- A number is refused over its literal, as it is when it is passed, or because it overflows. -/
theorem nextNumber_error {fault : DecodeError} (looked : ahead m = .ok .number m)
    (failed : nextNumber m = .error fault e) : nextLiteral .value m = .error fault e ∨
      ∃ literal q negative, scanNumber m.place = .ok (literal, q) ∧
        literal.toBinary64 = .infinite negative ∧
        fault = .malformed .badNumber m.place.offset m.pathText := by
  rw [nextLiteral_ahead .value looked]
  rcases bind_error.mp failed with stopped | ⟨literal, d, scanned, rest⟩
  · rw [nextLiteral_ahead .number looked] at stopped
    exact .inl stopped
  · rw [nextLiteral_ahead .number looked] at scanned
    obtain ⟨q, found, rfl⟩ := takeLexeme_iff.mp scanned
    cases denoted : literal.number? with
    | some number =>
      rw [denoted] at rest
      cases rest
    | none =>
      rw [denoted] at rest
      cases rest
      obtain ⟨negative, infinite⟩ := overflows denoted
      have start : q.offset - literal.chars.length = m.place.offset := by
        rw [(scanNumber_reaches found).2]
        exact Nat.add_sub_cancel ..
      exact .inr ⟨literal, q, negative, found, infinite,
        congrArg (DecodeError.malformed .badNumber · m.pathText) start⟩

/-- A step that takes a value and hands it on fails where passing it fails, or over its name. -/
theorem Underway.value_error {x : Pull α} {made : α → Value} {fault : DecodeError}
    (completes : ∀ a k, x m = .ok a k → Completes c frames (made a) k)
    (failed : (x >>= fun a => deliver (made a) frames) m = .error fault e) :
    x m = .error fault e ∨ Unvalued c fault := by
  rcases bind_error.mp failed with stopped | ⟨a, k, ran, refused⟩
  · exact .inl stopped
  · exact .inr ((completes a k ran).refused refused)

/-- Where taking a token fails, passing it fails alike, or the value cannot hold what it is. -/
theorem Underway.error {fault : DecodeError} (underway : Underway c frames d)
    (failed : readToken frames d = .error fault e) :
    skipToken frames.length d = .error fault e ∨ Unvalued c fault := by
  rcases bind_error.mp failed with stopped | ⟨seen, m, looked, rest⟩
  · exact .inl (bind_of_error stopped)
  have here {event : Event} (k : Cursor) (taken : event.Taken m k) : event.Taken d k :=
    (taken_looked looked).mp taken
  rw [skipToken, bind_of_ok looked]
  cases seen with
  | beginObject => exact .inl (returns_error.mpr (returns_error.mp rest))
  | beginArray => exact .inl (returns_error.mpr (returns_error.mp rest))
  | endObject =>
    cases frames with
    | nil =>
      cases rest
      exact .inl rfl
    | cons frame outer =>
      cases frame with
      | members done =>
        refine Or.imp_left returns_error.mpr (Underway.value_error (fun _ k ran => ?_) rest)
        exact underway.object_completes (here k (endObject_iff.mp ran))
      | items done => rcases underway.sees looked with h | h <;> cases h
      | member done name => cases underway.sees looked
  | endArray =>
    cases frames with
    | nil =>
      cases rest
      exact .inl rfl
    | cons frame outer =>
      cases frame with
      | items done =>
        refine Or.imp_left returns_error.mpr (Underway.value_error (fun _ k ran => ?_) rest)
        exact underway.array_completes (here k (endArray_iff.mp ran))
      | members done => rcases underway.sees looked with h | h <;> cases h
      | member done name => cases underway.sees looked
  | name =>
    cases frames with
    | nil =>
      cases rest
      exact .inl rfl
    | cons frame outer =>
      cases frame with
      | members done => exact .inl (returns_error.mpr (returns_error.mp rest))
      | items done => rcases underway.sees looked with h | h <;> cases h
      | member done name => cases underway.sees looked
  | string =>
    refine Or.imp_left returns_error.mpr (Underway.value_error (fun text k ran => ?_) rest)
    rcases nextString_iff.mp ran with taken | ⟨literal, -, taken⟩
    · exact underway.scalar_completes (.string text) (here k taken) rfl rfl rfl
    · cases taken_seen (ahead_twice looked) taken
  | number =>
    have completes (number : Json.Number) (k : Cursor) (ran : nextNumber m = .ok number k) :
        Completes c frames (.number number) k := by
      obtain ⟨literal, taken, denoted⟩ := nextNumber_iff.mp ran
      exact underway.scalar_completes (.number literal) (here k taken) rfl rfl
        (number_value denoted)
    rcases Underway.value_error completes rest with stopped | unvalued
    · rcases nextNumber_error (ahead_twice looked) stopped with stopped | overflow
      · exact .inl (bind_of_error stopped)
      · obtain ⟨literal, q, negative, scanned, infinite, rfl⟩ := overflow
        obtain ⟨events, -, runs⟩ := underway.built
        exact .inr (.overflow runs looked scanned infinite)
    · exact .inr unvalued
  | bool value =>
    refine Or.imp_left returns_error.mpr (Underway.value_error (fun value k ran => ?_) rest)
    exact underway.scalar_completes (.bool value) (here k (nextBool_iff.mp ran)) rfl rfl rfl
  | null =>
    refine Or.imp_left returns_error.mpr (Underway.value_error (fun _ k ran => ?_) rest)
    exact underway.scalar_completes .null (here k (nextNull_iff.mp ran)) rfl rfl rfl
  | endDocument =>
    cases rest
    exact .inl rfl

end Underway

/-! Whole values. -/

/-- How passing ends, given how taking has ended. -/
def Compared (c : Cursor) (skipped : Outcome Unit) : Outcome Value → Prop
  | .ok _ d => skipped = .ok () d
  | .error e d => skipped = .error e d ∨ Unvalued c e

/-- The loops take the same tokens until one ends, and so does the other, or a value cannot be. -/
theorem Underway.run {c d : Cursor} {frames : List Frame} (underway : Underway c frames d) :
    Compared c (iterate skipToken (Takes.advances skipToken_takes) frames.length d)
      (iterate readToken (Takes.advances readToken_takes) frames d) := by
  have skipped {d e : Cursor} {frames : List Frame} {chosen : List Frame ⊕ Value}
      (stepped : readToken frames d = .ok chosen e) :
      skipToken frames.length d = .ok (openCount chosen) e := by
    obtain ⟨event, taken, read⟩ := readNext_of_readToken stepped
    exact skipToken_of_skipNext taken (readNext_openCount read)
  fun_induction iterate readToken (Takes.advances readToken_takes) frames d with
  | case1 frames d e k failed =>
    exact Or.imp_left iterate_error (underway.error failed)
  | case2 frames d value k stepped => exact iterate_ok.mpr (.inl (skipped stepped))
  | case3 frames d next k stepped ih =>
    obtain ⟨event, taken, read⟩ := readNext_of_readToken stepped
    rw [iterate_step (skipped stepped)]
    exact ih (underway.step taken read)

theorem values_compared (c : Cursor) : Compared c (skipValue c) (readValue c) :=
  (underway_start c).run

/-- From any state passing a value and taking it end alike: a value that is taken is passed to the
same state, and failures are the same, at the same place, unless what cannot be taken is a name that
has come before or a number that overflows. -/
theorem passing_agrees (c : Cursor) :
    (∀ value d, readValue c = .ok value d → skipValue c = .ok () d) ∧
      (∀ d e d', skipValue c = .ok () d → readValue c = .error e d' → Unvalued c e) ∧
      ∀ e d, skipValue c = .error e d →
        readValue c = .error e d ∨ ∃ e' d', readValue c = .error e' d' ∧ Unvalued c e' := by
  have compared := values_compared c
  refine ⟨fun value d read => ?_, fun d e d' skipped failed => ?_, fun e d stopped => ?_⟩
  · rw [read] at compared
    exact compared
  · rw [failed, skipped] at compared
    rcases compared with same | unvalued
    · cases same
    · exact unvalued
  · rw [stopped] at compared
    cases read : readValue c with
    | ok value d' =>
      rw [read] at compared
      cases compared
    | error e' d' =>
      rw [read] at compared
      rcases compared with same | unvalued
      · cases same
        exact .inl rfl
      · exact .inr ⟨e', d', rfl, unvalued⟩

/-- An object with one name for two members. -/
def doubled : Value := .object [("a", .null), ("a", .null)]

theorem doubled_passed : ∃ d e d', skipValue (Cursor.ofText doubled.text) = .ok () d ∧
    readValue (Cursor.ofText doubled.text) = .error e d' ∧
    Unvalued (Cursor.ofText doubled.text) e := by
  obtain ⟨d, reads, last⟩ := reads_text.mpr ⟨doubled.text_spells, by decide⟩
  have skipped : skipValue (Cursor.ofText doubled.text) = .ok () d := skipValue_iff.mpr ⟨_, reads⟩
  cases read : readValue (Cursor.ofText doubled.text) with
  | error e d' =>
    obtain ⟨-, fault, -⟩ := passing_agrees (Cursor.ofText doubled.text)
    exact ⟨d, e, d', skipped, rfl, fault d e d' skipped read⟩
  | ok value d' =>
    -- A text has but one document, and that of this one has no value.
    obtain ⟨document, other, denoted⟩ := readValue_iff.mp read
    obtain rfl := reads_end other reads
    obtain ⟨spells, -⟩ := reads_text.mp ⟨_, other, last⟩
    rw [Json.spells_unique spells doubled.text_spells] at denoted
    cases denoted

end TaggedJson.Pull
