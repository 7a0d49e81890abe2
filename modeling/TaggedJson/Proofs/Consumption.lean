import TaggedJson.Proofs.Chain
/-! What reading a value takes from a document: one value, as much as passing it takes, whatever the
reader makes of it. So the items of an array are read one after the other, each of them once. -/
namespace TaggedJson.Pull
open Json (Document Scope)

/-! A document leaves as many containers open as there were. -/

theorem taken_leaves {event : Event} {c d : Cursor} (taken : event.Taken c d) :
    ∃ scopes : List Scope, scopes.length = c.scopes.length ∧ d.scopes = event.leave scopes := by
  obtain ⟨m, looked, leaves⟩ := taken
  exact ⟨m.scopes, (looked_frame looked).1, (leaves_scopes leaves).2⟩

mutual
theorem reads_length : ∀ (document : Document) {c c' : Cursor}, Reads document c c' →
    c'.scopes.length = c.scopes.length
  | .null, c, c', reads | .bool _, c, c', reads | .number _, c, c', reads
  | .string _, c, c', reads => by
    obtain ⟨scopes, length, left⟩ := taken_leaves (runs_singleton.mp reads)
    rw [left]
    exact length
  | .array items, c, c', reads => by
    obtain ⟨d, opened, rest⟩ := reads
    obtain ⟨scopes, length, left⟩ := taken_leaves opened
    have closed := items_length items rest
    rw [left, Event.leave, List.length_cons, length] at closed
    exact closed
  | .object members, c, c', reads => by
    obtain ⟨d, opened, rest⟩ := reads
    obtain ⟨scopes, length, left⟩ := taken_leaves opened
    have closed := members_length members rest
    rw [left, Event.leave, List.length_cons, length] at closed
    exact closed

theorem items_length : ∀ (items : List Document) {c c' : Cursor}, Runs (itemEvents items) c c' →
    c'.scopes.length = c.scopes.length - 1
  | [], c, c', runs => by
    obtain ⟨scopes, length, left⟩ := taken_leaves (runs_singleton.mp runs)
    rw [left, Event.leave, List.length_tail, length]
  | item :: rest, c, c', runs => by
    obtain ⟨d, first, others⟩ := runs_append.mp runs
    rw [items_length rest others, reads_length item first]

theorem members_length : ∀ (members : List (String × Document)) {c c' : Cursor},
    Runs (memberEvents members) c c' → c'.scopes.length = c.scopes.length - 1
  | [], c, c', runs => by
    obtain ⟨scopes, length, left⟩ := taken_leaves (runs_singleton.mp runs)
    rw [left, Event.leave, List.length_tail, length]
  | (name, document) :: rest, c, c', runs => by
    obtain ⟨d, named, others⟩ := runs
    obtain ⟨e, first, others⟩ := runs_append.mp others
    obtain ⟨scopes, length, left⟩ := taken_leaves named
    rw [members_length rest others, reads_length document first, left, Event.leave, length]
    all_goals nofun
end

/-- The next value is read under the same setting. -/
theorem reads_setting {document : Document} {c c' : Cursor} (reads : Reads document c c') :
    c'.setting = c.setting := by
  obtain ⟨flag, allowances⟩ := runs_frame reads
  rw [Cursor.setting, Cursor.setting, reads_length document reads, flag, allowances]

/-! Values in sequence. -/

/-- Reads so many values, one after the other. -/
def readEach (body : Pull β) : Nat → Pull (List β)
  | 0 => pure []
  | count + 1 => do
    let first ← body
    let rest ← readEach body count
    return first :: rest

/-- Reads an array of so many items. -/
def readArray (body : Pull β) (count : Nat) : Pull (List β) := do
  beginArray
  let results ← readEach body count
  endArray
  return results

/-- The setting of the items of an array that starts at the cursor. -/
def Cursor.itemSetting (c : Cursor) : Setting :=
  ⟨c.failOnUnknown, keysAt c.allowances (c.scopes.length + 2)⟩

theorem setting_opened {c d : Cursor} (opened : Event.beginArray.Taken c d) :
    d.setting = c.itemSetting := by
  obtain ⟨flag, allowances⟩ := runs_frame (runs_singleton.mpr opened)
  obtain ⟨scopes, length, left⟩ := taken_leaves opened
  rw [Cursor.setting, Cursor.itemSetting, left, Event.leave, List.length_cons, length, flag,
    allowances]

theorem itemEvents_eq (items : List Document) :
    itemEvents items = items.flatMap documentEvents ++ [.endArray] := by
  induction items with
  | nil => rfl
  | cons item rest ih => rw [itemEvents, ih, List.flatMap_cons, List.append_assoc]

/-- The body takes whole values, and what it makes of one depends on the setting and the value. -/
def TakesValues (body : Pull β) (made : Setting → Document → Option β) : Prop :=
  ∀ c c' result, body c = .ok result c' ↔
    ∃ document, Reads document c c' ∧ made c.setting document = some result

section Sequences
variable {β : Type} {body : Pull β} {made : Setting → Document → Option β}

theorem readEach_iff (takes : TakesValues body made) {count : Nat} {c c' : Cursor}
    {results : List β} : readEach body count c = .ok results c' ↔
      ∃ items : List Document, items.length = count ∧
        Runs (items.flatMap documentEvents) c c' ∧ items.mapM (made c.setting) = some results := by
  induction count generalizing c results with
  | zero =>
    constructor
    · intro ran
      obtain ⟨rfl, rfl⟩ := pure_ok.mp ran
      exact ⟨[], rfl, rfl, rfl⟩
    · rintro ⟨items, none, runs, all⟩
      obtain rfl := List.length_eq_zero_iff.mp none
      cases all
      exact pure_ok.mpr ⟨rfl, runs⟩
  | succ count ih =>
    constructor
    · intro ran
      obtain ⟨first, d, one, rest⟩ := bind_ok.mp ran
      obtain ⟨others, more, rfl⟩ := returns_iff.mp rest
      obtain ⟨item, reads, is⟩ := (takes ..).mp one
      obtain ⟨items, rfl, runs, all⟩ := ih.mp more
      rw [reads_setting reads] at all
      refine ⟨item :: items, rfl, runs_append.mpr ⟨d, reads, runs⟩, ?_⟩
      rw [List.mapM_cons, is, all]
      rfl
    · rintro ⟨items, length, runs, all⟩
      cases items with
      | nil => cases length
      | cons item items =>
        obtain ⟨d, reads, runs⟩ := runs_append.mp runs
        rw [List.mapM_cons] at all
        obtain ⟨first, is, all⟩ := Option.bind_eq_some_iff.mp all
        obtain ⟨others, rest, same⟩ := Option.bind_eq_some_iff.mp all
        cases same
        rw [← reads_setting reads] at rest
        have more := ih.mpr ⟨items, Nat.succ.inj length, runs, rest⟩
        exact bind_ok.mpr ⟨first, d, (takes ..).mpr ⟨item, reads, is⟩,
          returns_iff.mpr ⟨others, more, rfl⟩⟩

theorem readArray_iff (takes : TakesValues body made) {count : Nat} {c c' : Cursor}
    {results : List β} : readArray body count c = .ok results c' ↔
      ∃ items : List Document, items.length = count ∧ Reads (.array items) c c' ∧
        items.mapM (made c.itemSetting) = some results := by
  constructor
  · intro ran
    obtain ⟨_, d, begun, rest⟩ := bind_ok.mp ran
    obtain ⟨found, e, each, rest⟩ := bind_ok.mp rest
    obtain ⟨_, ended, rfl⟩ := returns_iff.mp rest
    have opened := beginArray_iff.mp begun
    obtain ⟨items, length, runs, all⟩ := (readEach_iff takes).mp each
    rw [setting_opened opened] at all
    refine ⟨items, length, ⟨d, opened, ?_⟩, all⟩
    rw [itemEvents_eq]
    exact runs_append.mpr ⟨e, runs, runs_singleton.mpr (endArray_iff.mp ended)⟩
  · rintro ⟨items, length, ⟨d, opened, runs⟩, all⟩
    rw [itemEvents_eq] at runs
    obtain ⟨e, runs, ended⟩ := runs_append.mp runs
    rw [← setting_opened opened] at all
    have each := (readEach_iff takes).mpr ⟨items, length, runs, all⟩
    have closed : endArray e = .ok () c' := endArray_iff.mpr (runs_singleton.mp ended)
    exact bind_ok.mpr ⟨(), d, beginArray_iff.mpr opened, bind_ok.mpr ⟨results, e, each,
      returns_iff.mpr ⟨(), closed, rfl⟩⟩⟩

end Sequences

/-- What the body takes is what passing a value takes, and in sequence it reads one value after the
other. -/
structure ReadsOne (body : Pull β) (made : Setting → Document → Option β) : Prop where
  /-- The cursor is left as it would be behind the value that was passed. -/
  skipped : ∀ c c' result, body c = .ok result c' → skipValue c = .ok () c'
  /-- Each value gives its own result, whatever the ones before it were. -/
  sequence : ∀ count c c' results, readEach body count c = .ok results c' ↔
    ∃ items : List Document, items.length = count ∧ Runs (items.flatMap documentEvents) c c' ∧
      items.mapM (made c.setting) = some results
  array : ∀ count c c' results, readArray body count c = .ok results c' ↔
    ∃ items : List Document, items.length = count ∧ Reads (.array items) c c' ∧
      items.mapM (made c.itemSetting) = some results

theorem TakesValues.readsOne {body : Pull β} {made : Setting → Document → Option β}
    (takes : TakesValues body made) : ReadsOne body made := by
  constructor
  · intro c c' result ran
    obtain ⟨document, reads, -⟩ := (takes ..).mp ran
    exact skipValue_iff.mpr ⟨document, reads⟩
  · intro count c c' results
    exact readEach_iff takes
  · intro count c c' results
    exact readArray_iff takes

end TaggedJson.Pull

namespace TaggedJson.Hierarchy
open Json Pull
variable {α : Type}

/-- The value of a document, which only an object has. -/
def Adapter.ofDocument? (adapter : Adapter α) (setting : Setting) : Document → Option α
  | .object members => adapter.ofMembers? setting members
  | _ => none

theorem adapter_takes (adapter : Adapter α) : TakesValues adapter.read adapter.ofDocument? := by
  intro c c' value
  rw [adapter_decodes adapter c c' value]
  constructor
  · rintro ⟨members, reads, made⟩
    exact ⟨.object members, reads, made⟩
  · rintro ⟨document, reads, made⟩
    cases document with
    | object members => exact ⟨members, reads, made⟩
    | _ => cases made

theorem table_takes (table : Table α) (strict : Bool) :
    TakesValues (table.read strict) (table.ofDocument? strict) :=
  fun _ _ _ => table_read_iff table

/-- Every adapter and every table takes one value at whatever place of a document it is asked for
one, and leaves the cursor as passing the value would. -/
theorem reads_one (adapter : Adapter α) (table : Table α) (strict : Bool) :
    ReadsOne adapter.read adapter.ofDocument? ∧
      ReadsOne (table.read strict) (table.ofDocument? strict) :=
  ⟨(adapter_takes adapter).readsOne, (table_takes table strict).readsOne⟩

/-- An object with both labels behind its field, and a null. -/
def circleAndNone : Value :=
  .array [.object [("r", .null), ("shape", .string "round"), ("type", .string "figure")], .null]

theorem reads_one_figures : ∃ c d e,
    beginArray (Cursor.ofText circleAndNone.text) = .ok () c ∧
      figuresTable.read true c = .ok (some ⟨"Circle", [("r", .null)]⟩) d ∧
      skipValue c = .ok () d ∧
      readArray (figuresTable.read true) 2 (Cursor.ofText circleAndNone.text) =
        .ok [some ⟨"Circle", [("r", .null)]⟩, none] e := by
  obtain ⟨e, reads, -⟩ := reads_text.mpr ⟨circleAndNone.text_spells, by decide⟩
  obtain ⟨skipped, -, array⟩ := (reads_one circleEntry.body.adapterOf figuresTable true).2
  have outer : figuresTable.resolve (some "figure") = .ok (.subtype figureEntry) := rfl
  have inner : shapesTable.resolve (some "round") = .ok (.subtype circleEntry) := rfl
  have circle : figuresTable.ofMembers? true Setting.outermost
      [("r", .null), ("shape", .string "round"), ("type", .string "figure")] =
        some (some ⟨"Circle", [("r", .null)]⟩) := by
    rw [Table.ofMembers?_resolved (by rfl) outer, Target.ofMembers?, figureEntry, Body.ofMembers?,
      Adapter.ofMembers?, Table.ofMembers?_resolved (by rfl) inner, Target.ofMembers?, circleEntry,
      Body.ofMembers?, Variant.record, Adapter.ofMembers?]
    rfl
  have both : List.mapM (figuresTable.ofDocument? true Setting.outermost)
      [.object [("r", .null), ("shape", .string "round"), ("type", .string "figure")], .null] =
        some [some ⟨"Circle", [("r", .null)]⟩, none] := by
    rw [List.mapM_cons, Table.ofDocument?, circle]
    rfl
  have ran := (array 2 _ e _).mpr ⟨_, rfl, reads, both⟩
  obtain ⟨_, c, begun, rest⟩ := bind_ok.mp ran
  obtain ⟨found, k, each, rest⟩ := bind_ok.mp rest
  obtain ⟨first, d, one, more⟩ := bind_ok.mp each
  obtain ⟨others, -, rfl⟩ := returns_iff.mp more
  obtain ⟨_, -, same⟩ := returns_iff.mp rest
  cases same
  exact ⟨c, d, e, begun, one, skipped _ _ _ one, ran⟩

end TaggedJson.Hierarchy
