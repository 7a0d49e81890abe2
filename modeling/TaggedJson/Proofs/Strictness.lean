import TaggedJson.Message
import TaggedJson.Proofs.Fields
import TaggedJson.Proofs.Rejections
/-! What strict reading rejects. It accepts nothing that lenient reading does not, with no other
result, and what it refuses of the rest it refuses for one unknown name. Only a singleton and a
payload know which names are theirs, so only these refuse any. -/
namespace TaggedJson.Pull.Setting
open Json

theorem allows_iff {setting : Setting} {name : String} :
    setting.allows name = true ↔ name ∈ setting.keys.map Prod.fst := by
  obtain ⟨strict, keys⟩ := setting
  show (keys.lookup name).isSome = true ↔ name ∈ keys.map Prod.fst
  induction keys with
  | nil => simp
  | cons key rest ih =>
    obtain ⟨other, stripped⟩ := key
    by_cases here : name = other
    · simp [here]
    · have apart : (name == other) = false := by simpa using here
      simp [List.lookup_cons, apart, here, ih]

/-- The names let through that have come among the fields. -/
def Marked (setting : Setting) (fields : Fields) : Prop :=
  ∀ name, name ∈ fields.allowed ↔ name ∈ fields.values.map Prod.fst ∧ setting.allows name = true

theorem addField_marked {setting : Setting} {fields next : Fields} {member : String × Document}
    (marked : setting.Marked fields) (added : setting.addField fields member = some next) :
    setting.Marked next := by
  unfold addField at added
  by_cases stripped : setting.strips member.1 = true
  · rw [if_pos stripped] at added
    cases added
    exact marked
  · rw [if_neg stripped] at added
    obtain ⟨value, -, rfl⟩ := Option.map_eq_some_iff.mp added
    intro name
    show name ∈ (if setting.allows member.1 then member.1 :: fields.allowed else fields.allowed) ↔
      name ∈ (fields.values.put member.1 value).map Prod.fst ∧ setting.allows name = true
    rw [Members.mem_put_names]
    by_cases known : setting.allows member.1 = true
    · rw [if_pos known, List.mem_cons, marked name]
      constructor
      · rintro (rfl | ⟨before, through⟩)
        · exact ⟨.inl rfl, known⟩
        · exact ⟨.inr before, through⟩
      · rintro ⟨here | before, through⟩
        · exact .inl here
        · exact .inr ⟨before, through⟩
    · rw [if_neg known, marked name]
      constructor
      · rintro ⟨before, through⟩
        exact ⟨.inr before, through⟩
      · rintro ⟨rfl | before, through⟩
        · exact (known through).elim
        · exact ⟨before, through⟩

theorem fold_marked {setting : Setting} {members : List (String × Document)}
    {before fields : Fields} (marked : setting.Marked before)
    (taken : members.foldlM setting.addField before = some fields) : setting.Marked fields := by
  induction members generalizing before with
  | nil =>
    cases taken
    exact marked
  | cons member rest ih =>
    rw [List.foldlM_cons] at taken
    obtain ⟨next, added, others⟩ := Option.bind_eq_some_iff.mp taken
    exact ih (addField_marked marked added) others

theorem fields_marked {setting : Setting} {members : List (String × Document)} {fields : Fields}
    (taken : setting.fields? members = some fields) : setting.Marked fields := by
  apply fold_marked _ taken
  intro name
  simp

end TaggedJson.Pull.Setting

namespace TaggedJson.Hierarchy
open Json Pull
variable {α : Type}

/-! Objections to payloads. -/

theorem isNull_iff {value : Value} : value.isNull = true ↔ value = .null := by
  cases value <;> simp [Value.isNull]

theorem mem_checkedNames {fields : Fields} {name : String} : name ∈ checkedNames fields ↔
    ∃ field, (name, field) ∈ fields.values ∧ field ≠ .null ∧ name ∉ fields.allowed := by
  rw [checkedNames, List.mem_map]
  constructor
  · rintro ⟨⟨_, field⟩, kept, rfl⟩
    obtain ⟨present, filled, unknown⟩ := by
      simpa only [List.mem_filter, Bool.and_eq_true, Bool.not_eq_true', ← Bool.not_eq_true,
        isNull_iff, List.contains_iff_mem] using kept
    exact ⟨field, present, filled, unknown⟩
  · rintro ⟨field, present, filled, unknown⟩
    refine ⟨(name, field), ?_, rfl⟩
    simpa only [List.mem_filter, Bool.and_eq_true, Bool.not_eq_true', ← Bool.not_eq_true,
      isNull_iff, List.contains_iff_mem] using ⟨present, filled, unknown⟩

section Objections
variable {form : PayloadForm α} {fields : Fields}

theorem objection_unwritten (objects : form.objection? fields = some .unwritten) :
    form.rewritten? fields.values = none := by
  unfold PayloadForm.objection? at objects
  split at objects
  · cases objects
  · split at objects
    · assumption
    · obtain ⟨name, -, wrong⟩ := Option.map_eq_some_iff.mp objects
      cases wrong
    · cases objects

/-- The payload is written without the name. -/
theorem objection_unknown {name : String}
    (objects : form.objection? fields = some (.unknown name)) :
    name ∈ checkedNames fields ∧ ∃ written, form.rewritten? fields.values = some (.object written) ∧
      name ∉ written.map Prod.fst := by
  unfold PayloadForm.objection? at objects
  split at objects
  · cases objects
  · split at objects
    · cases objects
    · rename_i written rewritten
      obtain ⟨other, found, same⟩ := Option.map_eq_some_iff.mp objects
      cases same
      refine ⟨List.mem_of_find?_eq_some found, written, rewritten, ?_⟩
      rw [← has_iff]
      simpa using List.find?_some found
    · cases objects

/-- Without an objection no name is lost. -/
theorem objection_none (accepts : form.objection? fields = none) {name : String}
    (checked : name ∈ checkedNames fields) {written : Members}
    (rewritten : form.rewritten? fields.values = some (.object written)) :
    name ∈ written.map Prod.fst := by
  have some : (checkedNames fields).isEmpty = false := by
    cases names : checkedNames fields with
    | nil =>
      rw [names] at checked
      cases checked
    | cons => rfl
  rw [PayloadForm.objection?, if_neg (by simp [some]), rewritten] at accepts
  rw [← has_iff]
  simpa using List.find?_eq_none.mp (Option.map_eq_none_iff.mp accepts) name checked

end Objections

/-! What strict reading rejects. -/

/-- A payload that was read can be written. -/
def PayloadForm.Writes (form : PayloadForm α) : Prop :=
  ∀ fields value, form.ofFields? fields = some value → (form.rewritten? fields).isSome = true

/-- Adapters without any strictness of their own. -/
inductive Adapter.Lenient : Adapter α → Prop
  | record (form : RecordForm α) : Lenient (.record form)
  | payload {form : PayloadForm α} (writes : form.Writes) : Lenient (.payload form)
  | singleton (value : α) : Lenient (.singleton value)
  | tagged {table : Table α} (entries : ∀ entry ∈ table.members, Lenient entry.body.adapterOf)
    (fallback : ∀ name adapter, table.policy = .fallback name adapter → Lenient adapter) :
    Lenient (.tagged table false)

/-- The names that strict reading has against an object and its taker, with some keys let through.
For a singleton these are the names of all other members. For a payload they are the names of
fields that it was given, though not as null, and that it is written without. -/
inductive Rejects (keys : List (String × Bool)) (members : List (String × Document)) :
    Taker α → String → Prop
  | singleton {value : α} {name : String} (named : name ∈ members.map Prod.fst)
    (unknown : name ∉ keys.map Prod.fst) : Rejects keys members (.singleton value) name
  | payload {form : PayloadForm α} {fields : Fields} {name : String} {field : Value}
    {written : Members} (collected : (Setting.mk false keys).fields? members = some fields)
    (present : (name, field) ∈ fields.values) (filled : field ≠ .null)
    (unknown : name ∉ keys.map Prod.fst)
    (rewritten : form.rewritten? fields.values = some (.object written))
    (lost : name ∉ written.map Prod.fst) : Rejects keys members (.payload form) name

section Takers
variable {keys : List (String × Bool)} {members : List (String × Document)} {form : PayloadForm α}
  {fields : Fields} {value : α}

/-- Which fields are collected is no matter of strictness. -/
theorem fields_strict (strict : Bool) :
    (Setting.mk strict keys).fields? members = (Setting.mk false keys).fields? members := rfl

theorem unknown_iff (collected : (Setting.mk false keys).fields? members = some fields)
    {name : String} (present : name ∈ fields.values.map Prod.fst) :
    name ∉ fields.allowed ↔ name ∉ keys.map Prod.fst := by
  rw [Setting.fields_marked collected name, Setting.allows_iff]
  constructor
  · intro unmarked key
    exact unmarked ⟨present, key⟩
  · rintro unknown ⟨-, key⟩
    exact unknown key

theorem rejects_of_objection (collected : (Setting.mk false keys).fields? members = some fields)
    {name : String} (objects : form.objection? fields = some (.unknown name)) :
    Rejects keys members (.payload form) name := by
  obtain ⟨checked, written, rewritten, lost⟩ := objection_unknown objects
  obtain ⟨field, present, filled, unmarked⟩ := mem_checkedNames.mp checked
  have named : name ∈ fields.values.map Prod.fst := List.mem_map_of_mem present
  exact .payload collected present filled ((unknown_iff collected named).mp unmarked) rewritten lost

theorem accepts_of_objection (collected : (Setting.mk false keys).fields? members = some fields)
    (accepts : form.objection? fields = none) (name : String) :
    ¬Rejects keys members (.payload form) name := by
  intro rejects
  cases rejects with
  | payload again present filled unknown rewritten lost =>
    cases collected.symm.trans again
    have named : name ∈ fields.values.map Prod.fst := List.mem_map_of_mem present
    have checked := mem_checkedNames.mpr
      ⟨_, present, filled, (unknown_iff collected named).mpr unknown⟩
    exact lost (objection_none accepts checked rewritten)

/-- A payload that was read is objected to for one of its names if at all. -/
theorem objection_cases (writes : form.Writes)
    (made : form.ofFields? fields.values = some value) :
    form.objection? fields = none ∨ ∃ name, form.objection? fields = some (.unknown name) := by
  cases objects : form.objection? fields with
  | none => exact .inl rfl
  | some objection =>
    cases objection with
    | unwritten =>
      have written := writes _ _ made
      rw [objection_unwritten objects] at written
      cases written
    | unknown name => exact .inr ⟨name, rfl⟩

theorem payload_made (strict : Bool) : form.ofMembers? ⟨strict, keys⟩ members = some value ↔
    ∃ fields, (Setting.mk false keys).fields? members = some fields ∧
      form.ofFields? fields.values = some value ∧
      (strict = true → form.objection? fields = none) := by
  rw [PayloadForm.ofMembers?, fields_strict, Option.bind_eq_some_iff]
  refine exists_congr fun fields => and_congr_right fun _ => ?_
  cases form.ofFields? fields.values with
  | none => simp
  | some made => cases strict <;> cases form.objection? fields <;> simp

/-- What is read leniently is read strictly as well, or a name of it is rejected. -/
theorem strict_cases {taker : Taker α} (writes : ∀ form, taker = .payload form → form.Writes)
    (made : taker.ofMembers? ⟨false, keys⟩ members = some value) :
    (taker.ofMembers? ⟨true, keys⟩ members = some value ∧
      ∀ name, ¬Rejects keys members taker name) ∨ ∃ name, Rejects keys members taker name := by
  cases taker with
  | record form =>
    rw [Taker.ofMembers?, Adapter.ofMembers?] at made ⊢
    exact .inl ⟨made, nofun⟩
  | default result => exact .inl ⟨made, nofun⟩
  | payload form =>
    rw [Taker.ofMembers?, Adapter.ofMembers?] at made ⊢
    obtain ⟨fields, collected, whole, -⟩ := (payload_made false).mp made
    rcases objection_cases (writes form rfl) whole with accepts | ⟨name, objects⟩
    · have again := (payload_made true).mpr ⟨fields, collected, whole, fun _ => accepts⟩
      exact .inl ⟨again, accepts_of_objection collected accepts⟩
    · exact .inr ⟨name, rejects_of_objection collected objects⟩
  | singleton result =>
    rw [Taker.ofMembers?, Adapter.ofMembers?] at made ⊢
    by_cases unknown : ∃ name ∈ members.map Prod.fst, name ∉ keys.map Prod.fst
    · obtain ⟨name, named, unknown⟩ := unknown
      exact .inr ⟨name, .singleton named unknown⟩
    · have known (name : String) (named : name ∈ members.map Prod.fst) :
          name ∈ keys.map Prod.fst := by
        by_contra other
        exact unknown ⟨name, named, other⟩
      have skips : (Setting.mk true keys).skips members = true := by
        apply List.all_eq_true.mpr
        intro member here
        exact Setting.allows_iff.mpr (known _ (List.mem_map_of_mem here))
      refine .inl ⟨?_, ?_⟩
      · rw [if_pos skips]
        exact (Option.ite_none_right_eq_some.mp made).2
      · intro name rejects
        cases rejects with
        | singleton named other => exact other (known name named)

end Takers

/-! The way of an object. -/

section Ways
variable {members : List (String × Document)} {adapter : Adapter α}
  {keys all : List (String × Bool)} {taker : Taker α} {value : α}

/-- What a table makes of an object under one setting it makes of it under another, if the adapter
does that gets the object. -/
theorem Table.ofMembers?_again {table : Table α} {strict other : Bool} {setting again : Setting}
    {result : Option α} (delegates : ∀ label target adapter stripped value,
      table.resolve label = .ok target → target.delegate? = some (adapter, stripped) →
      adapter.ofMembers? ((setting.strictly strict).withKey table.key stripped) members =
        some value →
      adapter.ofMembers? ((again.strictly other).withKey table.key stripped) members = some value)
    (made : table.ofMembers? strict setting members = some result) :
    table.ofMembers? other again members = some result := by
  obtain ⟨label, target, labeled, resolved, produced⟩ := Table.ofMembers?_some.mp made
  rw [Table.ofMembers?_resolved labeled resolved]
  cases handed : target.delegate? with
  | none =>
    obtain ⟨kept, same⟩ := Target.ofMembers?_kept handed
    rw [same] at produced ⊢
    exact produced
  | some delegate =>
    obtain ⟨adapter, stripped⟩ := delegate
    rw [Target.ofMembers?_handed handed] at produced ⊢
    obtain ⟨value, there, rfl⟩ := Option.map_eq_some_iff.mp produced
    have here := delegates label target adapter stripped value resolved handed there
    exact Option.map_eq_some_iff.mpr ⟨value, here, rfl⟩

/-- Strict reading gives no result that lenient reading does not give. -/
theorem ofMembers_lenient (made : adapter.ofMembers? ⟨true, keys⟩ members = some value) :
    adapter.ofMembers? ⟨false, keys⟩ members = some value := by
  induction adapter using Adapter.handed_induction generalizing keys value with
  | record form =>
    rw [Adapter.ofMembers?] at made ⊢
    exact made
  | payload form =>
    rw [Adapter.ofMembers?] at made ⊢
    obtain ⟨fields, collected, whole, -⟩ := (payload_made true).mp made
    exact (payload_made false).mpr ⟨fields, collected, whole, nofun⟩
  | singleton result =>
    have skips : (Setting.mk false keys).skips members = true :=
      List.all_eq_true.mpr fun _ _ => rfl
    rw [Adapter.ofMembers?] at made ⊢
    rw [if_pos skips]
    exact (Option.ite_none_right_eq_some.mp made).2
  | failOnUnknown inner ih =>
    rw [Adapter.ofMembers?] at made ⊢
    exact made
  | tagged table strict ih =>
    rw [Adapter.ofMembers?, Option.join_eq_some_iff] at made ⊢
    refine Table.ofMembers?_again ?_ made
    intro label target adapter stripped value resolved handed there
    cases strict with
    | true => exact there
    | false => exact ih label target adapter stripped resolved handed there

theorem Adapter.Lenient.delegate {table : Table α} {strict stripped : Bool}
    {label : Option String} {target : Target α} (lenient : (Adapter.tagged table strict).Lenient)
    (resolved : table.resolve label = .ok target)
    (handed : target.delegate? = some (adapter, stripped)) : adapter.Lenient ∧ strict = false := by
  cases lenient with
  | tagged entries fallback =>
    rcases delegate_cases resolved handed with ⟨entry, member, rfl, -⟩ | ⟨name, policy, -⟩
    · exact ⟨entries entry member, rfl⟩
    · exact ⟨fallback name adapter policy, rfl⟩

/-- The label decides where a table hands an object on to. -/
theorem Table.target_unique {table : Table α} {label other : Option String}
    {first second : Target α} (labeled : labelOf? table.key members = some label)
    (resolved : table.resolve label = .ok first) (again : labelOf? table.key members = some other)
    (found : table.resolve other = .ok second) : first = second := by
  cases labeled.symm.trans again
  cases resolved.symm.trans found
  rfl

/-- An object goes one way. -/
theorem TakenBy.unique {other : Taker α} {others : List (String × Bool)}
    (first : TakenBy members adapter keys taker all)
    (second : TakenBy members adapter keys other others) : taker = other ∧ all = others := by
  induction first with
  | record form =>
    cases second
    exact ⟨rfl, rfl⟩
  | payload form =>
    cases second
    exact ⟨rfl, rfl⟩
  | singleton value =>
    cases second
    exact ⟨rfl, rfl⟩
  | null labeled resolved =>
    cases second with
    | null => exact ⟨rfl, rfl⟩
    | object again found => cases Table.target_unique labeled resolved again found
    | handed again found delegated =>
      cases Table.target_unique labeled resolved again found
      cases delegated
  | object labeled resolved =>
    cases second with
    | null again found => cases Table.target_unique labeled resolved again found
    | object again found =>
      cases Table.target_unique labeled resolved again found
      exact ⟨rfl, rfl⟩
    | handed again found delegated =>
      cases Table.target_unique labeled resolved again found
      cases delegated
  | handed labeled resolved delegated rest ih =>
    cases second with
    | null again found =>
      cases Table.target_unique labeled resolved again found
      cases delegated
    | object again found =>
      cases Table.target_unique labeled resolved again found
      cases delegated
    | handed again found delegatedToo others =>
      cases Table.target_unique labeled resolved again found
      cases delegated.symm.trans delegatedToo
      exact ih others

theorem TakenBy.writes (taken : TakenBy members adapter keys taker all) (lenient : adapter.Lenient)
    (form : PayloadForm α) (is : taker = .payload form) : form.Writes := by
  induction taken with
  | payload own =>
    cases is
    cases lenient with
    | payload writes => exact writes
  | handed labeled resolved delegated rest ih =>
    exact ih (lenient.delegate resolved delegated).1 is
  | record | singleton | null | object => cases is

/-- What an adapter makes of an object is what the taker makes of it. -/
theorem TakenBy.ofMembers (taken : TakenBy members adapter keys taker all)
    (lenient : adapter.Lenient) (strict : Bool) :
    adapter.ofMembers? ⟨strict, keys⟩ members = taker.ofMembers? ⟨strict, all⟩ members := by
  induction taken with
  | record | payload | singleton => rfl
  | null labeled resolved | object labeled resolved =>
    rw [Adapter.ofMembers?, Table.ofMembers?_resolved labeled resolved]
    rfl
  | handed labeled resolved delegated rest ih =>
    obtain ⟨within, rfl⟩ := lenient.delegate resolved delegated
    rw [Adapter.ofMembers?, Table.ofMembers?_resolved labeled resolved,
      Target.ofMembers?_handed delegated, join_map_some, Setting.strictly_false, ← ih within]
    rfl

/-- What has a result has a taker. -/
theorem taken_of_made (lenient : adapter.Lenient) {strict : Bool}
    (made : adapter.ofMembers? ⟨strict, keys⟩ members = some value) :
    ∃ taker all, TakenBy members adapter keys taker all := by
  induction adapter using Adapter.handed_induction generalizing keys value with
  | record form => exact ⟨_, _, .record form⟩
  | payload form => exact ⟨_, _, .payload form⟩
  | singleton result => exact ⟨_, _, .singleton result⟩
  | failOnUnknown inner ih => cases lenient
  | tagged table tableStrict ih =>
    rw [Adapter.ofMembers?, Option.join_eq_some_iff] at made
    obtain ⟨label, target, labeled, resolved, produced⟩ := Table.ofMembers?_some.mp made
    cases handed : target.delegate? with
    | none =>
      cases target with
      | null => exact ⟨_, _, .null labeled resolved⟩
      | object result => exact ⟨_, _, .object labeled resolved⟩
      | subtype entry => cases handed
      | fallback inner => cases handed
    | some delegate =>
      obtain ⟨adapter, stripped⟩ := delegate
      obtain ⟨within, rfl⟩ := lenient.delegate resolved handed
      rw [Target.ofMembers?_handed handed, Setting.strictly_false] at produced
      obtain ⟨_, there, -⟩ := Option.map_eq_some_iff.mp produced
      obtain ⟨taker, all, rest⟩ := ih label target adapter stripped resolved handed within there
      exact ⟨taker, all, .handed labeled resolved handed rest⟩

/-- The name is reported with the path that a member of the object would have. -/
def Refusal (keys : List (String × Bool)) (members : List (String × Document)) (taker : Taker α)
    (path : String) (e : DecodeError) : Prop :=
  ∃ name, Rejects keys members taker name ∧ e = .unexpectedName name (path ++ "." ++ name)

/-- Strict reading stops at a rejected name, if lenient reading would have gone on to the end. -/
theorem TakenBy.refused (taken : TakenBy members adapter keys taker all)
    (lenient : adapter.Lenient) (rejects : ∃ name, Rejects all members taker name)
    (made : taker.ofMembers? ⟨false, all⟩ members = some value) {c c' : Cursor}
    (reads : Reads (.object members) c c') (setting : c.setting = ⟨true, keys⟩) :
    ∃ e d, Refusal all members taker c.pathText e ∧ adapter.read c = .error e d := by
  induction taken generalizing c c' with
  | record form =>
    obtain ⟨name, none⟩ := rejects
    cases none
  | null labeled resolved =>
    obtain ⟨name, none⟩ := rejects
    cases none
  | object labeled resolved =>
    obtain ⟨name, none⟩ := rejects
    cases none
  | @payload keys form =>
    obtain ⟨name, rejected⟩ := rejects
    rw [Taker.ofMembers?, Adapter.ofMembers?] at made
    obtain ⟨fields, collected, whole, -⟩ := (payload_made false).mp made
    have writes : form.Writes := by
      cases lenient with
      | payload writes => exact writes
    have took : takeFields c = .ok fields c' := by
      apply takeFields_iff.mpr
      refine ⟨members, reads, ?_⟩
      rw [setting]
      exact collected
    have strict : c.failOnUnknown = true := congrArg Setting.strict setting
    rcases objection_cases writes whole with accepts | ⟨other, objects⟩
    · exact (accepts_of_objection collected accepts name rejected).elim
    · refine ⟨_, c', ⟨other, rejects_of_objection collected objects, rfl⟩, ?_⟩
      rw [Adapter.read]
      exact PayloadForm.read_refused took whole strict objects
  | @singleton keys result =>
    obtain ⟨name, rejected⟩ := rejects
    cases rejected with
    | singleton named unknown =>
      have strict : c.setting.strict = true := by rw [setting]
      have known (name : String) : c.setting.allows name = true ↔ name ∈ keys.map Prod.fst := by
        rw [setting, Setting.allows_iff]
      obtain ⟨member, here, rfl⟩ := List.mem_map.mp named
      have refused : c.setting.allows member.1 = false :=
        Bool.eq_false_iff.mpr fun through => unknown ((known _).mp through)
      obtain ⟨other, d, present, refused, failed⟩ :=
        skipMembers_refused reads strict ⟨member, here, refused⟩
      have unknown : other ∉ keys.map Prod.fst := by
        intro key
        rw [(known other).mpr key] at refused
        cases refused
      refine ⟨_, d, ⟨other, .singleton present unknown, rfl⟩, ?_⟩
      rw [Adapter.read]
      exact bind_of_error failed
  | @handed keys all table strict stripped label target adapter taker labeled resolved delegated
      rest ih =>
    obtain ⟨within, rfl⟩ := lenient.delegate resolved delegated
    have inside (i i' : Cursor) (again : Reads (.object members) i i')
        (inward : i.setting = (c.setting.strictly false).withKey table.key stripped)
        (path : i.pathText = c.pathText) :
        ∃ e d, Refusal all members taker c.pathText e ∧ adapter.read i = .error e d := by
      rw [setting] at inward
      rw [← path]
      exact ih within rejects made again inward
    obtain ⟨e, d, refusal, failed⟩ := Table.read_refused labeled resolved delegated reads inside
    refine ⟨e, d, refusal, ?_⟩
    rw [Adapter.read]
    exact bind_of_error failed

end Ways

/-! Texts. -/

/-- A name that strict reading has against what the document means to a table. -/
def Table.Rejects (table : Table α) (document : Document) (name : String) : Prop :=
  ∃ members taker keys, document = .object members ∧
    TakenBy members (.tagged table false) [] taker keys ∧ Hierarchy.Rejects keys members taker name

section Texts
variable {table : Table α} {text : String} {result : Option α}

theorem fromJson_lenient (read : table.fromJson true text = .ok result) :
    table.fromJson false text = .ok result := by
  obtain ⟨document, spells, shallow, made⟩ := Table.fromJson_ok.mp read
  apply Table.fromJson_ok.mpr
  refine ⟨document, spells, shallow, ?_⟩
  cases document with
  | object members =>
    rw [Table.ofDocument?] at made ⊢
    refine Table.ofMembers?_again ?_ made
    intro label target adapter stripped value resolved handed there
    exact ofMembers_lenient there
  | _ => exact made

/-- A default rejects nothing. -/
theorem rejects_nothing {members : List (String × Document)} {value : Option α}
    (taken : TakenBy members (.tagged table false) [] (.default value) []) (name : String) :
    ¬table.Rejects (.object members) name := by
  rintro ⟨_, taker, keys, ⟨⟩, other, rejects⟩
  obtain ⟨rfl, rfl⟩ := taken.unique other
  cases rejects

theorem fromJson_of_members {strict : Bool} {members : List (String × Document)}
    (spells : Spells text (.object members))
    (shallow : (Document.object members).depth ≤ depthLimit)
    (made : table.ofMembers? strict Setting.outermost members = some result) :
    table.fromJson strict text = .ok result :=
  Table.fromJson_ok.mpr ⟨_, spells, shallow, made⟩

/-- What an object is read as leniently is read strictly as well, or is refused. -/
theorem object_cases (lenient : (Adapter.tagged table false).Lenient)
    {members : List (String × Document)} (spells : Spells text (.object members))
    (shallow : (Document.object members).depth ≤ depthLimit)
    (made : table.ofMembers? false Setting.outermost members = some result) :
    (table.fromJson true text = .ok result ∧ ∀ name, ¬table.Rejects (.object members) name) ∨
      ∃ name, table.fromJson true text = .error (.unexpectedName name ("$." ++ name)) ∧
        table.Rejects (.object members) name := by
  obtain ⟨label, target, labeled, resolved, produced⟩ := Table.ofMembers?_some.mp made
  cases handed : target.delegate? with
  | none =>
    obtain ⟨kept, same⟩ := Target.ofMembers?_kept handed
    rw [same] at produced
    refine .inl ⟨fromJson_of_members spells shallow ?_, ?_⟩
    · rw [Table.ofMembers?_resolved labeled resolved, same, produced]
    · cases target with
      | null => exact rejects_nothing (.null labeled resolved)
      | object value => exact rejects_nothing (.object labeled resolved)
      | subtype entry => cases handed
      | fallback adapter => cases handed
  | some delegate =>
    obtain ⟨adapter, stripped⟩ := delegate
    have within := (lenient.delegate resolved handed).1
    rw [Target.ofMembers?_handed handed, Setting.strictly_false] at produced
    obtain ⟨value, there, rfl⟩ := Option.map_eq_some_iff.mp produced
    have there : adapter.ofMembers? ⟨false, [(table.key, stripped)]⟩ members = some value := there
    obtain ⟨taker, all, rest⟩ := taken_of_made within there
    have taken : TakenBy members (.tagged table false) [] taker all :=
      .handed labeled resolved handed rest
    rw [rest.ofMembers within] at there
    rcases strict_cases (rest.writes within) there with ⟨strictly, accepts⟩ | rejects
    · refine .inl ⟨fromJson_of_members spells shallow ?_, ?_⟩
      · rw [← rest.ofMembers within] at strictly
        rw [Table.ofMembers?_resolved labeled resolved, Target.ofMembers?_handed handed]
        exact congrArg (Option.map some) strictly
      · rintro name ⟨_, other, keys, ⟨⟩, way, rejects⟩
        obtain ⟨rfl, rfl⟩ := taken.unique way
        exact accepts name rejects
    · obtain ⟨c, reads, -⟩ := reads_text.mpr ⟨spells, shallow⟩
      have inside (i i' : Cursor) (again : Reads (.object members) i i')
          (inward : i.setting = ((Cursor.ofText text).setting.strictly true).withKey table.key
            stripped) (path : i.pathText = (Cursor.ofText text).pathText) :
          ∃ e d, Refusal all members taker "$" e ∧ adapter.read i = .error e d := by
        obtain ⟨e, d, refusal, failed⟩ := rest.refused within rejects there again inward
        rw [path] at refusal
        exact ⟨e, d, refusal, failed⟩
      obtain ⟨e, d, ⟨name, rejected, rfl⟩, failed⟩ :=
        Table.read_refused labeled resolved handed reads inside
      exact .inr ⟨name, decodeDocument_error failed, members, taker, all, rfl, taken, rejected⟩

end Texts

/-- Strict reading accepts only what lenient reading accepts, with the same result. Of that it
refuses an object exactly if the taker rejects one of its names, and then it reports such a name.
Records and defaults reject none. -/
theorem strict_rejects {table : Table α} (lenient : (Adapter.tagged table false).Lenient)
    (text : String) (result : Option α) :
    (table.fromJson true text = .ok result → table.fromJson false text = .ok result) ∧
    (table.fromJson false text = .ok result → ∃ document, Spells text document ∧
      ((table.fromJson true text = .ok result ∧ ∀ name, ¬table.Rejects document name) ∨
        ∃ name, table.fromJson true text = .error (.unexpectedName name ("$." ++ name)) ∧
          table.Rejects document name)) ∧
    ∀ members taker keys, Spells text (.object members) →
      TakenBy members (.tagged table false) [] taker keys →
      ((∃ form, taker = .record form) ∨ ∃ value, taker = .default value) →
        (table.fromJson true text = .ok result ↔ table.fromJson false text = .ok result) := by
  have cases_ (read : table.fromJson false text = .ok result) : ∃ document, Spells text document ∧
      ((table.fromJson true text = .ok result ∧ ∀ name, ¬table.Rejects document name) ∨
        ∃ name, table.fromJson true text = .error (.unexpectedName name ("$." ++ name)) ∧
          table.Rejects document name) := by
    obtain ⟨document, spells, shallow, made⟩ := Table.fromJson_ok.mp read
    refine ⟨document, spells, ?_⟩
    cases document with
    | object members => exact object_cases lenient spells shallow made
    | _ =>
      refine .inl ⟨Table.fromJson_ok.mpr ⟨_, spells, shallow, made⟩, ?_⟩
      rintro name ⟨_, _, _, ⟨⟩, _⟩
  refine ⟨fromJson_lenient, cases_, ?_⟩
  intro members taker keys spells taken free
  refine ⟨fromJson_lenient, fun read => ?_⟩
  obtain ⟨document, same, ⟨strictly, -⟩ | ⟨name, -, other, rejecting, all, rfl, way, rejects⟩⟩ :=
    cases_ read
  · exact strictly
  · cases spells_unique same spells
    obtain ⟨rfl, rfl⟩ := taken.unique way
    rcases free with ⟨form, rfl⟩ | ⟨value, rfl⟩ <;> cases rejects

/-! A payload with a name too many. A null is let through. -/

def successEntry : Entry Message :=
  ⟨"Success", "success", [], .adapter (.payload Message.successForm)⟩

def successTable : Table Message := ⟨"type", [successEntry], [], .none⟩

def overfull : Members :=
  [("type", .string "success"), ("value", .string "a"), ("note", .null), ("x", .bool true)]

theorem success_writes : Message.successForm.Writes := by
  intro fields value made
  obtain ⟨text, -, rfl⟩ := Option.map_eq_some_iff.mp made
  show (((Message.successForm.ofFields? fields).bind Message.successForm.toJson?).bind
    Except.toOption).isSome = true
  rw [made]
  rfl

theorem success_lenient : (Adapter.tagged successTable false).Lenient := by
  apply Adapter.Lenient.tagged
  · intro entry member
    obtain rfl := List.mem_singleton.mp member
    exact .payload success_writes
  · nofun

theorem success_taken : TakenBy (Value.memberDocuments overfull) (.tagged successTable false) []
    (.payload Message.successForm) [("type", true)] := by
  have resolved : successTable.resolve (some "success") = .ok (.subtype successEntry) := rfl
  exact .handed (by rfl) resolved rfl (.payload _)

theorem strict_rejects_success :
    successTable.fromJson false (Value.object overfull).text = .ok (some (.success "a")) ∧
      successTable.fromJson true (Value.object overfull).text =
        .error (.unexpectedName "x" "$.x") := by
  have spells := Value.text_spells (.object overfull)
  have resolved : successTable.resolve (some "success") = .ok (.subtype successEntry) := rfl
  have collected : (Setting.mk false [("type", true)]).fields? (Value.memberDocuments overfull) =
      some ⟨[("value", .string "a"), ("note", .null), ("x", .bool true)], []⟩ := rfl
  have rewritten : Message.successForm.rewritten? [("value", .string "a"), ("note", .null),
      ("x", .bool true)] = some (.object [("value", .string "a")]) := rfl
  have lenient : successTable.fromJson false (Value.object overfull).text =
      .ok (some (.success "a")) := by
    apply fromJson_of_members spells (by decide)
    rw [Table.ofMembers?_resolved (by rfl) resolved, Target.ofMembers?_handed rfl]
    show ((Adapter.payload Message.successForm).ofMembers? ⟨false, [("type", true)]⟩ _).map some = _
    rw [Adapter.ofMembers?, (payload_made false).mpr ⟨_, collected, rfl, nofun⟩]
    rfl
  refine ⟨lenient, ?_⟩
  obtain ⟨document, same, found⟩ := (strict_rejects success_lenient _ _).2.1 lenient
  obtain rfl := spells_unique same spells
  rcases found with ⟨-, accepts⟩ | ⟨name, failed, _, _, _, ⟨⟩, way, rejects⟩
  · have rejected : Rejects [("type", true)] (Value.memberDocuments overfull)
        (.payload Message.successForm) "x" := by
      have present : ("x", Value.bool true) ∈ ([("value", .string "a"), ("note", .null),
          ("x", .bool true)] : Members) := by simp
      exact .payload collected present nofun (by decide) rewritten (by decide)
    exact (accepts "x" ⟨_, _, _, rfl, success_taken, rejected⟩).elim
  · obtain ⟨rfl, rfl⟩ := success_taken.unique way
    cases rejects with
    | payload again present filled unknown wrote lost =>
      cases collected.symm.trans again
      cases rewritten.symm.trans wrote
      simp only [List.mem_cons, Prod.mk.injEq, List.not_mem_nil, or_false] at present
      rcases present with ⟨rfl, -⟩ | ⟨-, rfl⟩ | ⟨rfl, -⟩
      · exact (lost (by decide)).elim
      · exact (filled rfl).elim
      · exact failed

end TaggedJson.Hierarchy
