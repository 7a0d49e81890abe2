import TaggedJson.Proofs.Frames
import TaggedJson.Proofs.Subtrees
/-! Objects as a whole: the loops over members come to a fold over the members of the object, and
the search for a label to a search among them. -/
namespace TaggedJson.Pull
open Json (Document Scope)

/-- How the members of an object are read: whether unknown names fail, and the names let through,
each with whether it is stripped. An earlier name hides a later one. -/
structure Setting where
  strict : Bool
  keys : List (String × Bool)

namespace Setting

def strips (setting : Setting) (name : String) : Bool := (setting.keys.lookup name).getD false

def allows (setting : Setting) (name : String) : Bool := (setting.keys.lookup name).isSome

/-- One more member among the fields. What is stripped need not have a value. -/
def addField (setting : Setting) (fields : Fields) (member : String × Document) : Option Fields :=
  if setting.strips member.1 then some fields
  else member.2.value?.map fun value => ⟨fields.values.put member.1 value,
    if setting.allows member.1 then member.1 :: fields.allowed else fields.allowed⟩

/-- The fields of an object, if all that is kept has a value. -/
def fields? (setting : Setting) (members : List (String × Document)) : Option Fields :=
  members.foldlM setting.addField ⟨[], []⟩

/-- Whether all names of an object may be passed. -/
def skips (setting : Setting) (members : List (String × Document)) : Bool :=
  members.all fun member => !setting.strict || setting.allows member.1

theorem bare_strips {setting : Setting} (bare : setting.keys = []) (name : String) :
    setting.strips name = false := by
  rw [strips, bare]
  rfl

theorem bare_allows {setting : Setting} (bare : setting.keys = []) (name : String) :
    setting.allows name = false := by
  rw [allows, bare]
  rfl

end Setting

/-- The text of a label, if the document can be one. -/
def labelText? : Document → Option String
  | .string text => some text
  | .number literal => some literal.text
  | _ => none

/-- The label among members: nothing if no member has the name, and a failure if the first one that
has it cannot be a label. -/
def labelOf? (key : String) : List (String × Document) → Option (Option String)
  | [] => some none
  | (name, document) :: rest =>
    if name = key then (labelText? document).map some else labelOf? key rest

/-! The setting a cursor stands for. -/

def keysAt (allowances : List Allowance) (depth : Nat) : List (String × Bool) :=
  (allowances.filter (·.depth == depth)).map fun allowed => (allowed.name, allowed.stripped)

/-- The setting of the object the cursor is in. -/
def Cursor.inner (c : Cursor) : Setting := ⟨c.failOnUnknown, keysAt c.allowances c.scopes.length⟩

/-- The setting of an object that starts at the cursor. -/
def Cursor.setting (c : Cursor) : Setting :=
  ⟨c.failOnUnknown, keysAt c.allowances (c.scopes.length + 1)⟩

theorem lookup_keysAt (allowances : List Allowance) (depth : Nat) (name : String) :
    (keysAt allowances depth).lookup name =
      (allowances.find? fun allowed => allowed.depth == depth && allowed.name == name).map
        Allowance.stripped := by
  induction allowances with
  | nil => rfl
  | cons allowed rest ih =>
    unfold keysAt at ih ⊢
    by_cases here : allowed.depth = depth
    · by_cases named : allowed.name = name
      · simp [here, named]
      · have apart : (name == allowed.name) = false := by simpa using fun same => named same.symm
        simp [here, named, List.lookup_cons, apart, ih]
    · simp [here, ih]

theorem strips_inner (c : Cursor) (name : String) : c.strips name = c.inner.strips name := by
  rw [Setting.strips, Cursor.inner, lookup_keysAt, Cursor.strips, Cursor.allowance?]
  cases c.allowances.find? _ <;> rfl

theorem allows_inner (c : Cursor) (name : String) : c.allows name = c.inner.allows name := by
  rw [Setting.allows, Cursor.inner, lookup_keysAt, Cursor.allows, Cursor.allowance?]
  cases c.allowances.find? _ <;> rfl

theorem looked_frame {c d : Cursor} {seen : Ahead} (looked : ahead c = .ok seen d) :
    d.scopes.length = c.scopes.length ∧ d.failOnUnknown = c.failOnUnknown ∧
      d.allowances = c.allowances := by
  have same : ahead (c.under c.failOnUnknown c.allowances) =
      .ok seen (d.under c.failOnUnknown c.allowances) := ahead_under looked
  -- The look is the same under the setting it already has, so it has kept it.
  have framed : d = d.under c.failOnUnknown c.allowances := by
    have : c.under c.failOnUnknown c.allowances = c := rfl
    rw [this, looked] at same
    injection same
  refine ⟨?_, by rw [framed]; rfl, by rw [framed]; rfl⟩
  unfold ahead at looked
  cases kept : c.ahead with
  | some before =>
    rw [kept] at looked
    cases looked
    rfl
  | none =>
    rw [kept] at looked
    cases found : look c with
    | error => simp [found] at looked
    | ok seen e =>
      simp only [found] at looked
      cases looked
      exact (look_sees found).length

theorem setting_looked {c d : Cursor} {seen : Ahead} (looked : ahead c = .ok seen d) :
    d.setting = c.setting := by
  obtain ⟨length, flag, allowances⟩ := looked_frame looked
  rw [Cursor.setting, Cursor.setting, length, flag, allowances]

/-- The cursor is in an object before a member or the end. -/
def Cursor.Inside (c : Cursor) : Prop :=
  c.ahead = none ∧ ∃ scope outer, c.scopes = scope :: outer ∧ AtMember scope

theorem inside_opened {c d : Cursor} (taken : Event.beginObject.Taken c d) :
    d.Inside ∧ d.inner = c.setting := by
  have frame := runs_frame (runs_singleton.mpr taken)
  obtain ⟨m, looked, leaves⟩ := taken
  obtain ⟨fresh, scopes⟩ := leaves_scopes leaves
  refine ⟨⟨fresh, _, _, scopes, .inl rfl⟩, ?_⟩
  have length : d.scopes.length = c.scopes.length + 1 := by
    rw [scopes, Event.leave, List.length_cons, (looked_frame looked).1]
  rw [Cursor.inner, Cursor.setting, length, frame.1, frame.2]

theorem inside_named {c d : Cursor} {name : String} (inside : c.Inside)
    (taken : (Event.name name).Taken c d) :
    d.ahead = none ∧ (∃ outer, d.scopes = .objectValue :: outer) ∧ d.inner = c.inner := by
  have frame := runs_frame (runs_singleton.mpr taken)
  obtain ⟨fresh, scope, outer, shape, member⟩ := inside
  obtain ⟨moves, clear⟩ := moves_of_taken fresh shape taken
  have named := moves_name moves
  exact ⟨clear, ⟨outer, named⟩, by simp [Cursor.inner, named, shape, frame]⟩

theorem inside_member {c d : Cursor} {name : String} {document : Document} (inside : c.Inside)
    (runs : Runs (.name name :: documentEvents document) c d) :
    d.Inside ∧ d.inner = c.inner := by
  obtain ⟨e, named, reads⟩ := runs
  obtain ⟨fresh, ⟨outer, shape⟩, same⟩ := inside_named inside named
  obtain ⟨after, place, scopes, clear⟩ := reads_scopes document fresh shape reads
  have frame := runs_frame reads
  cases place
  exact ⟨⟨clear, _, _, scopes, .inr rfl⟩, by rw [← same]; simp [Cursor.inner, scopes, shape, frame]⟩

/-! Loops over members. -/

theorem hasNext_iff {c d : Cursor} {next : Bool} : hasNext c = .ok next d ↔
    ∃ seen, ahead c = .ok seen d ∧
      next = (seen != .endObject && seen != .endArray && seen != .endDocument) := by
  unfold hasNext
  cases looked : ahead c with
  | error => simp
  | ok seen e =>
    simp only [EStateM.Result.ok.injEq]
    constructor
    · rintro ⟨rfl, rfl⟩
      exact ⟨seen, ⟨rfl, rfl⟩, rfl⟩
    · rintro ⟨_, ⟨rfl, rfl⟩, rfl⟩
      exact ⟨rfl, rfl⟩

section Loops
variable {σ β : Type}

/-- The step of a loop over members: it goes on or ends as the one that is there has it. -/
def memberLoop (more : σ → Pull (σ ⊕ β)) (last : σ → β) (s : σ) : Pull (σ ⊕ β) :=
  hasNext >>= fun next => if next = true then more s else pure (.inr (last s))

/-- What is done with a member takes the member and nothing else. -/
def TakesMembers (more : σ → Pull (σ ⊕ β))
    (next : Setting → σ → String × Document → Option σ) : Prop :=
  ∀ s c chosen c', c.Inside → (more s c = .ok chosen c' ↔ ∃ s' name document, chosen = .inl s' ∧
    Runs (.name name :: documentEvents document) c c' ∧ next c.inner s (name, document) = some s')

variable {more : σ → Pull (σ ⊕ β)} {last : σ → β}
  {next : Setting → σ → String × Document → Option σ}

theorem memberLoop_more {s : σ} {c c' : Cursor} {chosen : σ ⊕ β} (looks : ∀ s, Looks (more s))
    (ran : memberLoop more last s c = .ok chosen c') :
    more s c = .ok chosen c' ∨ chosen = .inr (last s) ∧ ∃ seen, ahead c = .ok seen c' := by
  obtain ⟨next, d, found, rest⟩ := bind_ok.mp ran
  obtain ⟨seen, looked, -⟩ := hasNext_iff.mp found
  cases next with
  | true => exact .inl ((looks s c seen d looked).trans rest)
  | false =>
    obtain ⟨rfl, rfl⟩ := pure_ok.mp rest
    exact .inr ⟨rfl, seen, looked⟩

theorem members_of_loop (takes : TakesMembers more next) (looks : ∀ s, Looks (more s))
    {advances : Advances (memberLoop more last)} {s : σ} {c d c' : Cursor} {result : β}
    (inside : c.Inside) (ran : iterate (memberLoop more last) advances s c = .ok result d)
    (ended : Event.endObject.Taken d c') : ∃ members, Runs (memberEvents members) c c' ∧
      (members.foldlM (next c.inner) s).map last = some result := by
  fun_induction iterate (memberLoop more last) advances s c with
  | case1 => cases ran
  | case2 s c found e stepped =>
    cases ran
    rcases memberLoop_more looks stepped with taken | ⟨same, seen, looked⟩
    · obtain ⟨_, _, _, wrong, _⟩ := (takes _ _ _ _ inside).mp taken
      cases wrong
    · cases same
      exact ⟨[], runs_singleton.mpr ((taken_looked looked).mp ended), rfl⟩
  | case3 s c s' e stepped ih =>
    rcases memberLoop_more looks stepped with taken | ⟨wrong, _⟩
    · obtain ⟨_, name, document, same, runs, chosen⟩ := (takes _ _ _ _ inside).mp taken
      cases same
      obtain ⟨insideToo, setting⟩ := inside_member inside runs
      obtain ⟨members, others, folded⟩ := ih insideToo ran
      refine ⟨(name, document) :: members, runs_append.mpr ⟨e, runs, others⟩, ?_⟩
      rw [List.foldlM_cons, chosen]
      rw [setting] at folded
      exact folded
    · cases wrong

theorem loop_of_members (takes : TakesMembers more next) (looks : ∀ s, Looks (more s))
    {advances : Advances (memberLoop more last)} {s : σ} {c c' : Cursor} {result : β}
    {members : List (String × Document)} (inside : c.Inside)
    (runs : Runs (memberEvents members) c c')
    (folded : (members.foldlM (next c.inner) s).map last = some result) :
    ∃ d, iterate (memberLoop more last) advances s c = .ok result d ∧
      Event.endObject.Taken d c' := by
  induction members generalizing s c with
  | nil =>
    have ended := runs_singleton.mp runs
    obtain ⟨d, looked, leaves⟩ := id ended
    have stepped : memberLoop more last s c = .ok (.inr (last s)) d :=
      bind_ok.mpr ⟨false, d, hasNext_iff.mpr ⟨_, looked, rfl⟩, rfl⟩
    cases folded
    exact ⟨d, iterate_ok.mpr (.inl stepped), (taken_looked looked).mpr ended⟩
  | cons member rest ih =>
    obtain ⟨name, document⟩ := member
    obtain ⟨e, first, others⟩ := runs_append.mp (show Runs
      ((.name name :: documentEvents document) ++ memberEvents rest) c c' from runs)
    rw [List.foldlM_cons] at folded
    cases chosen : next c.inner s (name, document) with
    | none =>
      rw [chosen] at folded
      cases folded
    | some s' =>
      rw [chosen] at folded
      obtain ⟨insideToo, setting⟩ := inside_member inside first
      rw [← setting] at folded
      obtain ⟨d, ran, ended⟩ := ih insideToo others folded
      refine ⟨d, ?_, ended⟩
      -- The loop has looked for a member before it takes one, which changes nothing for the taking.
      obtain ⟨m, ⟨k, looked, _⟩, _⟩ := id first
      have taken := (takes s c (.inl s') e inside).mpr ⟨s', name, document, rfl, first, chosen⟩
      have stepped : memberLoop more last s c = .ok (.inl s') e :=
        bind_ok.mpr ⟨true, k, hasNext_iff.mpr ⟨_, looked, rfl⟩,
          (looks s c _ k looked).symm.trans taken⟩
      exact iterate_ok.mpr (.inr ⟨s', e, stepped, ran⟩)

/-- An object is read by a loop over its members, from one brace to the other. -/
theorem memberLoop_object (takes : TakesMembers more next) (looks : ∀ s, Looks (more s))
    {advances : Advances (memberLoop more last)} {s : σ} {c c' : Cursor} {result : β} :
    (∃ d e, beginObject c = .ok () d ∧ iterate (memberLoop more last) advances s d =
      .ok result e ∧ endObject e = .ok () c') ↔ ∃ members, Reads (.object members) c c' ∧
        (members.foldlM (next c.setting) s).map last = some result := by
  simp only [beginObject_iff, endObject_iff]
  constructor
  · rintro ⟨d, e, opened, looped, ended⟩
    obtain ⟨inside, setting⟩ := inside_opened opened
    obtain ⟨members, runs, folded⟩ := members_of_loop takes looks inside looped ended
    rw [setting] at folded
    exact ⟨members, ⟨d, opened, runs⟩, folded⟩
  · rintro ⟨members, ⟨d, opened, runs⟩, folded⟩
    obtain ⟨inside, setting⟩ := inside_opened opened
    rw [← setting] at folded
    obtain ⟨e, looped, ended⟩ := loop_of_members takes looks inside runs folded
    exact ⟨d, e, opened, looped, ended⟩

end Loops

/-! Fields, and objects that are passed. -/

def fieldMore (fields : Fields) : Pull (Fields ⊕ Fields) :=
  nextName >>= fun name => get >>= fun c =>
    if c.strips name then skipValue >>= fun _ => pure (.inl fields)
    else readValue >>= fun value => pure (.inl ⟨fields.values.put name value,
      if c.allows name then name :: fields.allowed else fields.allowed⟩)

theorem fieldMore_takes : TakesMembers fieldMore Setting.addField := by
  intro fields c chosen c' inside
  constructor
  · intro ran
    obtain ⟨name, d, named, rest⟩ := bind_ok.mp ran
    obtain ⟨_, _, got, rest⟩ := bind_ok.mp rest
    obtain ⟨rfl, rfl⟩ := get_ok.mp got
    have taken := nextName_iff.mp named
    obtain ⟨-, -, same⟩ := inside_named inside taken
    rw [strips_inner, allows_inner, same] at rest
    by_cases stripped : c.inner.strips name = true
    · rw [if_pos stripped] at rest
      obtain ⟨_, skipped, rfl⟩ := returns_iff.mp rest
      obtain ⟨document, reads⟩ := skipValue_iff.mp skipped
      exact ⟨fields, name, document, rfl, ⟨d, taken, reads⟩, by simp [Setting.addField, stripped]⟩
    · rw [if_neg stripped] at rest
      obtain ⟨value, read, rfl⟩ := returns_iff.mp rest
      obtain ⟨document, reads, denoted⟩ := readValue_iff.mp read
      exact ⟨_, name, document, rfl, ⟨d, taken, reads⟩,
        by simp [Setting.addField, stripped, denoted]⟩
  · rintro ⟨s', name, document, rfl, ⟨d, taken, reads⟩, added⟩
    obtain ⟨-, -, same⟩ := inside_named inside taken
    refine bind_ok.mpr ⟨name, d, nextName_iff.mpr taken, bind_ok.mpr ⟨d, d, rfl, ?_⟩⟩
    rw [strips_inner, allows_inner, same]
    unfold Setting.addField at added
    by_cases stripped : c.inner.strips name = true
    · rw [if_pos stripped] at added ⊢
      cases added
      exact returns_iff.mpr ⟨(), skipValue_iff.mpr ⟨document, reads⟩, rfl⟩
    · rw [if_neg stripped] at added ⊢
      obtain ⟨value, denoted, rfl⟩ := Option.map_eq_some_iff.mp added
      exact returns_iff.mpr ⟨value, readValue_iff.mpr ⟨document, reads, denoted⟩, rfl⟩

theorem looks_nextName : Looks nextName := (looks_takeToken _ _).bind _

theorem looks_fieldMore (fields : Fields) : Looks (fieldMore fields) := looks_nextName.bind _

theorem takeFields_iff {c c' : Cursor} {fields : Fields} :
    takeFields c = .ok fields c' ↔
      ∃ members, Reads (.object members) c c' ∧ c.setting.fields? members = some fields := by
  -- By definition, fieldStep is the loop over members around fieldMore.
  have loop : (∃ d e, beginObject c = .ok () d ∧ iterate fieldStep fieldStep_advances ⟨[], []⟩ d =
      .ok fields e ∧ endObject e = .ok () c') ↔ ∃ members, Reads (.object members) c c' ∧
        (members.foldlM c.setting.addField ⟨[], []⟩).map id = some fields :=
    memberLoop_object fieldMore_takes looks_fieldMore
  simp only [Option.map_id_fun, id] at loop
  refine Iff.trans ?_ loop
  constructor
  · intro ran
    obtain ⟨_, d, begun, rest⟩ := bind_ok.mp ran
    obtain ⟨found, e, looped, rest⟩ := bind_ok.mp rest
    obtain ⟨_, ended, rfl⟩ := returns_iff.mp rest
    exact ⟨d, e, begun, looped, ended⟩
  · rintro ⟨d, e, begun, looped, ended⟩
    exact bind_ok.mpr ⟨(), d, begun, bind_ok.mpr
      ⟨fields, e, looped, returns_iff.mpr ⟨(), ended, rfl⟩⟩⟩

/-- One more member that may be passed. -/
def Setting.pass (setting : Setting) (_ : Unit) (member : String × Document) : Option Unit :=
  if !setting.strict || setting.allows member.1 then some () else none

theorem pass_members (setting : Setting) (members : List (String × Document)) :
    members.foldlM setting.pass () = some () ↔ setting.skips members = true := by
  induction members with
  | nil => simp [Setting.skips]
  | cons member rest ih =>
    rw [List.foldlM_cons, Setting.pass, Setting.skips, List.all_cons, ← Setting.skips]
    by_cases passed : (!setting.strict || setting.allows member.1) = true
    · rw [if_pos passed, passed, Bool.true_and]
      exact ih
    · rw [if_neg passed, Bool.eq_false_iff.mpr passed, Bool.false_and]
      simp

def skipMore (_ : Unit) : Pull (Unit ⊕ Unit) :=
  skipName >>= fun _ => skipValue >>= fun _ => pure (.inl ())

theorem skipName_iff {c c' : Cursor} {u : Unit} : skipName c = .ok u c' ↔
    ∃ name, (Event.name name).Taken c c' ∧ (!c'.failOnUnknown || c'.allows name) = true := by
  constructor
  · intro ran
    obtain ⟨name, d, named, rest⟩ := bind_ok.mp ran
    obtain ⟨_, _, got, rest⟩ := bind_ok.mp rest
    obtain ⟨rfl, rfl⟩ := get_ok.mp got
    split at rest
    · exact (fail_ok.mp rest).elim
    · rename_i known
      obtain ⟨_, rfl⟩ := pure_ok.mp rest
      refine ⟨name, nextName_iff.mp named, ?_⟩
      cases flag : d.failOnUnknown with
      | false => rfl
      | true => simpa [flag] using known
  · rintro ⟨name, taken, known⟩
    refine bind_ok.mpr ⟨name, c', nextName_iff.mpr taken, bind_ok.mpr ⟨c', c', rfl, ?_⟩⟩
    have quiet : (c'.failOnUnknown && !c'.allows name) = false := by
      cases flag : c'.failOnUnknown with
      | false => rfl
      | true => simpa [flag] using known
    rw [quiet]
    rfl

theorem skipMore_takes : TakesMembers skipMore Setting.pass := by
  intro s c chosen c' inside
  constructor
  · intro ran
    obtain ⟨_, d, passed, rest⟩ := bind_ok.mp ran
    obtain ⟨_, skipped, rfl⟩ := returns_iff.mp rest
    obtain ⟨name, taken, known⟩ := skipName_iff.mp passed
    obtain ⟨document, reads⟩ := skipValue_iff.mp skipped
    obtain ⟨-, -, same⟩ := inside_named inside taken
    rw [allows_inner, same, show d.failOnUnknown = c.inner.strict from
      congrArg Setting.strict same] at known
    exact ⟨(), name, document, rfl, ⟨d, taken, reads⟩, if_pos known⟩
  · rintro ⟨s', name, document, rfl, ⟨d, taken, reads⟩, passed⟩
    obtain ⟨-, -, same⟩ := inside_named inside taken
    have known : (!c.inner.strict || c.inner.allows name) = true :=
      (Option.ite_none_right_eq_some.mp passed).1
    rw [← same, ← allows_inner] at known
    exact bind_ok.mpr ⟨(), d, skipName_iff.mpr ⟨name, taken, known⟩,
      returns_iff.mpr ⟨(), skipValue_iff.mpr ⟨document, reads⟩, rfl⟩⟩

theorem looks_skipMore (s : Unit) : Looks (skipMore s) := (looks_nextName.bind _).bind _

theorem skipMembers_iff {c c' : Cursor} {u : Unit} : skipMembers c = .ok u c' ↔
    ∃ members, Reads (.object members) c c' ∧ c.setting.skips members = true := by
  -- By definition, skipStep is the loop over members around skipMore.
  have loop : (∃ d e, beginObject c = .ok () d ∧ iterate skipStep skipStep_advances () d =
      .ok () e ∧ endObject e = .ok () c') ↔ ∃ members, Reads (.object members) c c' ∧
        (members.foldlM c.setting.pass ()).map id = some () :=
    memberLoop_object skipMore_takes looks_skipMore
  simp only [Option.map_id_fun, id, pass_members] at loop
  refine Iff.trans ?_ loop
  constructor
  · intro ran
    obtain ⟨_, d, begun, rest⟩ := bind_ok.mp ran
    obtain ⟨_, e, looped, ended⟩ := bind_ok.mp rest
    exact ⟨d, e, begun, looped, ended⟩
  · rintro ⟨d, e, begun, looped, ended⟩
    exact bind_ok.mpr ⟨(), d, begun, bind_ok.mpr ⟨(), e, looped, ended⟩⟩

/-! The search for a label. Only the members up to the one found are looked at, so what is found
says something about the object only if the rest of it is read as well. -/

/-- A name that is among the given is taken, and any other is only looked at. -/
theorem selectName_iff {names : List String} {name : String} {c c' d : Cursor} {found : Option Nat}
    (taken : (Event.name name).Taken c c') : selectName names c = .ok found d ↔
      found = names.findIdx? (· == name) ∧
        if found.isSome = true then d = c' else ahead c = .ok .name d := by
  obtain ⟨m, looked, e, lexeme, rfl⟩ := taken
  have looked : ahead c = .ok .name m := looked
  unfold takeLexeme at lexeme
  cases scanned : scanString m.place with
  | error fault =>
    simp only [scanned] at lexeme
    cases lexeme
  | ok read =>
    obtain ⟨text, place⟩ := read
    simp only [scanned] at lexeme
    cases lexeme
    simp only [selectName, looked, scanned]
    cases names.findIdx? (· == name) <;> cases found <;> simp [eq_comm]

theorem selectName_key {key name : String} {c c' d : Cursor} {found : Option Nat}
    (taken : (Event.name name).Taken c c') : selectName [key] c = .ok found d ↔
      if name = key then found = some 0 ∧ d = c'
      else found = none ∧ ahead c = .ok .name d := by
  rw [selectName_iff taken]
  by_cases same : name = key
  · simp +contextual [same, List.findIdx?_cons]
  · have apart : (key == name) = false := by simpa using fun eq => same eq.symm
    simp +contextual [same, apart, List.findIdx?_cons]

/-- The first event of what a label is taken from. -/
theorem nextString_reads {document : Document} {c c' : Cursor} {text : String}
    (reads : Reads document c c') : (∃ d, nextString c = .ok text d) ↔
      labelText? document = some text := by
  obtain ⟨event, rest, e, shape, taken, -⟩ := reads.first
  constructor
  · rintro ⟨d, ran⟩
    rcases nextString_iff.mp ran with other | ⟨literal, same, other⟩
    · obtain ⟨rfl, -⟩ := taken_unique taken other
      cases document <;> cases shape
      rfl
    · obtain ⟨rfl, -⟩ := taken_unique taken other
      cases document <;> cases shape
      exact congrArg some same
  · intro label
    cases document <;> cases shape <;> cases label
    · exact ⟨e, nextString_iff.mpr (.inr ⟨_, rfl, taken⟩)⟩
    · exact ⟨e, nextString_iff.mpr (.inl taken)⟩

/-- What is done once it is known whether the name ahead is the key. -/
def labelTaken : Option Nat → Pull (Unit ⊕ Option String)
  | some _ => nextString >>= fun text => pure (.inr (some text))
  | none => skipName >>= fun _ => skipValue >>= fun _ => pure (.inl ())

theorem labelStep_next {key : String} {c m : Cursor} (named : hasNext c = .ok true m) :
    labelStep key () c = (selectName [key] >>= labelTaken) m := by
  unfold labelStep
  show EStateM.bind hasNext _ c = _
  rw [EStateM.bind, named]
  rfl

section Named
variable {key name : String} {document : Document} {c d e : Cursor}
  {chosen : Unit ⊕ Option String}

theorem labelStep_found (taken : (Event.name name).Taken c d) (same : name = key) {c' : Cursor} :
    labelStep key () c = .ok chosen c' ↔
      ∃ text, nextString d = .ok text c' ∧ chosen = .inr (some text) := by
  obtain ⟨m, looked, -⟩ := id taken
  rw [labelStep_next (hasNext_iff.mpr ⟨_, looked, rfl⟩), bind_ok]
  have selected {found : Option Nat} {f : Cursor} :
      selectName [key] m = .ok found f ↔ found = some 0 ∧ f = d := by
    rw [selectName_key ((taken_looked looked).mpr taken), if_pos same]
  simp only [selected]
  constructor
  · rintro ⟨_, _, ⟨rfl, rfl⟩, rest⟩
    obtain ⟨text, ran, rfl⟩ := returns_iff.mp rest
    exact ⟨text, ran, rfl⟩
  · rintro ⟨text, ran, rfl⟩
    exact ⟨some 0, d, ⟨rfl, rfl⟩, returns_iff.mpr ⟨text, ran, rfl⟩⟩

/-- No name fails during the search, so any other member is passed. -/
theorem labelStep_passed (lenient : c.failOnUnknown = false)
    (taken : (Event.name name).Taken c d) (reads : Reads document d e) (apart : name ≠ key)
    {c' : Cursor} : labelStep key () c = .ok chosen c' ↔ chosen = .inl () ∧ c' = e := by
  obtain ⟨m, looked, -⟩ := id taken
  have taken := (taken_looked looked).mpr taken
  have passed : skipName m = .ok () d := by
    refine skipName_iff.mpr ⟨name, taken, ?_⟩
    rw [(runs_frame (runs_singleton.mpr ((taken_looked looked).mp taken))).1, lenient]
    rfl
  rw [labelStep_next (hasNext_iff.mpr ⟨_, looked, rfl⟩), bind_ok]
  have selected {found : Option Nat} {f : Cursor} :
      selectName [key] m = .ok found f ↔ found = none ∧ ahead m = .ok .name f := by
    rw [selectName_key taken, if_neg apart]
  simp only [selected, ahead_twice looked]
  constructor
  · rintro ⟨_, _, ⟨rfl, ⟨⟩⟩, rest⟩
    obtain ⟨_, g, skipped, rest⟩ := bind_ok.mp rest
    rw [passed] at skipped
    cases skipped
    obtain ⟨_, ran, rfl⟩ := returns_iff.mp rest
    obtain ⟨other, readsToo⟩ := skipValue_iff.mp ran
    exact ⟨rfl, reads_end readsToo reads⟩
  · rintro ⟨rfl, rfl⟩
    exact ⟨none, m, ⟨rfl, rfl⟩, bind_ok.mpr
      ⟨(), d, passed, returns_iff.mpr ⟨(), skipValue_iff.mpr ⟨document, reads⟩, rfl⟩⟩⟩

/-- The first member with the key decides, for the search ends there either way. -/
theorem labelLoop_found (taken : (Event.name name).Taken c d) (same : name = key)
    (reads : Reads document d e) {label : Option String} :
    (∃ f, iterate (labelStep key) (labelStep_advances key) () c = .ok label f) ↔
      (labelText? document).map some = some label := by
  have step {chosen : Unit ⊕ Option String} {f : Cursor} : labelStep key () c = .ok chosen f ↔
      ∃ text, nextString d = .ok text f ∧ chosen = .inr (some text) :=
    labelStep_found taken same
  have last (s : Unit) (f : Cursor) : labelStep key () c ≠ .ok (.inl s) f := by
    intro stepped
    obtain ⟨_, _, wrong⟩ := step.mp stepped
    cases wrong
  simp only [iterate_last last, step, Option.map_eq_some_iff, ← nextString_reads reads]
  constructor
  · rintro ⟨f, text, took, found⟩
    cases found
    exact ⟨text, ⟨f, took⟩, rfl⟩
  · rintro ⟨text, ⟨f, took⟩, rfl⟩
    exact ⟨f, text, took, rfl⟩

end Named

section Ended
variable {key : String} {c d : Cursor}

theorem labelStep_ended (ended : Event.endObject.Taken c d) {c' : Cursor}
    {chosen : Unit ⊕ Option String} :
    labelStep key () c = .ok chosen c' ↔ chosen = .inr none ∧ ahead c = .ok .endObject c' := by
  obtain ⟨m, looked, -⟩ := ended
  have looked : ahead c = .ok .endObject m := looked
  have last : hasNext c = .ok false m := hasNext_iff.mpr ⟨_, looked, rfl⟩
  unfold labelStep
  simp only [bind_ok, last, EStateM.Result.ok.injEq]
  constructor
  · rintro ⟨_, _, ⟨rfl, rfl⟩, rest⟩
    obtain ⟨rfl, rfl⟩ := pure_ok.mp rest
    exact ⟨rfl, looked⟩
  · rintro ⟨rfl, again⟩
    rw [looked] at again
    cases again
    exact ⟨false, c', ⟨rfl, rfl⟩, rfl⟩

/-- At the end of the object the label is missing. -/
theorem labelLoop_ended (ended : Event.endObject.Taken c d) {label : Option String} :
    (∃ f, iterate (labelStep key) (labelStep_advances key) () c = .ok label f) ↔
      label = none := by
  obtain ⟨m, looked, -⟩ := id ended
  have last (s : Unit) (f : Cursor) : labelStep key () c ≠ .ok (.inl s) f := by
    intro stepped
    cases ((labelStep_ended ended).mp stepped).1
  simp only [iterate_last last, labelStep_ended ended]
  constructor
  · rintro ⟨f, found, -⟩
    cases found
    rfl
  · rintro rfl
    exact ⟨m, rfl, looked⟩

end Ended

theorem labelLoop_iff {key : String} {members : List (String × Document)} {c c' : Cursor}
    {label : Option String} (inside : c.Inside) (lenient : c.failOnUnknown = false)
    (runs : Runs (memberEvents members) c c') :
    (∃ d, iterate (labelStep key) (labelStep_advances key) () c = .ok label d) ↔
      labelOf? key members = some label := by
  induction members generalizing c with
  | nil =>
    rw [labelLoop_ended (runs_singleton.mp runs), labelOf?, Option.some.injEq, eq_comm]
  | cons member rest ih =>
    obtain ⟨name, document⟩ := member
    obtain ⟨e, first, others⟩ := runs_append.mp (show Runs
      ((.name name :: documentEvents document) ++ memberEvents rest) c c' from runs)
    obtain ⟨insideToo, -⟩ := inside_member inside first
    have frame := runs_frame first
    obtain ⟨d, taken, reads⟩ := first
    rw [labelOf?]
    by_cases same : name = key
    · rw [if_pos same]
      exact labelLoop_found taken same reads
    · have step := (labelStep_passed lenient taken reads same).mpr ⟨rfl, rfl⟩
      simp only [if_neg same, iterate_on step]
      exact ih insideToo (frame.1.trans lenient) others

/-- The search runs on a copy of the cursor that fails on no name, and the copy is thrown away. -/
theorem lookForLabel_ok {key : String} {c d : Cursor} {label : Option String} :
    lookForLabel key c = .ok label d ↔
      d = c ∧ ∃ m, findLabel key { c with failOnUnknown := false } = .ok label m := by
  unfold lookForLabel
  split <;> rename_i ran <;> simp [ran, and_comm, eq_comm]

/-- On a document that can be read, the search for a label looks among the members of an object. -/
theorem lookForLabel_iff {key : String} {document : Document} {c c' d : Cursor}
    {label : Option String} (reads : Reads document c c') : lookForLabel key c = .ok label d ↔
      d = c ∧ ∃ members, document = .object members ∧ labelOf? key members = some label := by
  have lenient : Reads document { c with failOnUnknown := false } _ :=
    runs_under false c.allowances reads
  rw [lookForLabel_ok]
  refine and_congr_right fun _ => ?_
  constructor
  · rintro ⟨e, ran⟩
    obtain ⟨_, f, begun, looped⟩ := bind_ok.mp ran
    have opened := beginObject_iff.mp begun
    obtain ⟨event, rest, g, shape, taken, runs⟩ := lenient.first
    obtain ⟨rfl, rfl⟩ := taken_unique opened taken
    cases document <;> cases shape
    obtain ⟨inside, -⟩ := inside_opened opened
    have flag := (runs_frame (runs_singleton.mpr opened)).1
    exact ⟨_, rfl, (labelLoop_iff inside flag runs).mp ⟨e, looped⟩⟩
  · rintro ⟨members, rfl, found⟩
    obtain ⟨f, opened, runs⟩ := lenient
    obtain ⟨inside, -⟩ := inside_opened opened
    have flag := (runs_frame (runs_singleton.mpr opened)).1
    obtain ⟨e, looped⟩ := (labelLoop_iff inside flag runs).mpr found
    exact ⟨e, bind_ok.mpr ⟨(), f, beginObject_iff.mpr opened, looped⟩⟩

end TaggedJson.Pull
