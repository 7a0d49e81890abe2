import TaggedJson.Proofs.Fallbacks
/-! Labels that hierarchies find are not always their own. One that looks for a key of a hierarchy
around it is shown the label of that one, which may lead elsewhere or nowhere. A member without
fields is read as it was exactly if the labels lead back to its entry all the same, or to a default
that makes the same value. -/
namespace TaggedJson
open Json Hierarchy Pull Emit

/-- The labels of an object lead to a table with no entry for it, through hierarchies with the given
keys, outermost first. -/
inductive Misses : Table Variant → List (String × Document) → List String → Table Variant → Prop
  | here {table : Table Variant} {members : List (String × Document)}
    (unclaimed : table.Unclaimed members) : Misses table members [] table
  | inside {table inner last : Table Variant} {members : List (String × Document)}
    {passed : List String} {label : String} {group : Hierarchy.Entry Variant} {strict : Bool}
    (labeled : labelOf? table.key members = some (some label))
    (found : table.lookup label = some group)
    (hierarchy : group.body = .adapter (.tagged inner strict))
    (rest : Misses inner members passed last) : Misses table members (table.key :: passed) last

/-- The default of a table is named so and makes a value without fields of an object. A fallback
does if all members are stripped by the hierarchies around; it keeps the key of its own table. -/
inductive Hierarchy.Table.DefaultsTo (table : Table Variant) (passed : List String)
    (members : List (String × Document)) (name : String) : Prop
  | object {value : Variant} (policy : table.policy = .object name value)
  | fallback {adapter : Adapter Variant} (policy : table.policy = .fallback name adapter)
    (bare : ∀ member ∈ members, member.1 ∈ passed ∧ member.1 ≠ table.key)

/-! Reading where labels lead. -/

section Reading
variable {table last : Table Variant} {members : List (String × Document)} {passed : List String}
  {entry : Hierarchy.Entry Variant} {outer : List String} {setting : Setting}

theorem ofMembers_strictly (table : Table Variant) (strict : Bool) (setting : Setting)
    (members : List (String × Document)) : table.ofMembers? strict setting members =
      table.ofMembers? false (setting.strictly strict) members := by
  rw [Table.ofMembers?_eq, Table.ofMembers?_eq]
  congr 1
  funext label
  congr 1
  funext target
  cases target <;> simp [Target.ofMembers?]

theorem Misses.unclaimed (misses : Misses table members passed last) : last.Unclaimed members := by
  induction misses with
  | here unclaimed => exact unclaimed
  | inside _ _ _ _ ih => exact ih

/-- The value is the one that the last table reads, with the keys on the way stripped. -/
theorem Misses.reads (misses : Misses table members passed last) (declared : Declared outer table)
    (strict : Bool) (setting : Setting) (variant : Variant) :
    table.ofMembers? strict setting members = some (some variant) ↔
      last.ofMembers? false (stripping passed (setting.strictly strict)) members =
        some (some variant) := by
  induction misses generalizing outer strict setting with
  | here => rw [ofMembers_strictly, stripping]
  | @inside table inner last members passed label group strictly labeled found hierarchy rest ih =>
    obtain ⟨rfl, within, inward⟩ :=
      declared.inner (List.mem_of_find?_eq_some found) hierarchy
    have step := ih inward false ((setting.strictly strict).withKey table.key true)
    rw [Setting.strictly_false] at step
    rw [stripping, ← step, Table.ofMembers?_eq, labeled, Option.bind_some, Table.resolve,
      Option.bind_some, found]
    show (group.body.ofMembers? _ members).map some = _ ↔ _
    rw [hierarchy, Body.ofMembers?, Adapter.ofMembers?]
    cases inner.ofMembers? false _ members with
    | none => simp
    | some value => cases value <;> simp

theorem Misses.declared (misses : Misses table members passed last)
    (declared : Declared outer table) : ∃ within, Declared within last := by
  induction misses generalizing outer with
  | here => exact ⟨outer, declared⟩
  | inside _ found hierarchy _ ih =>
    obtain ⟨-, within, inward⟩ := declared.inner (List.mem_of_find?_eq_some found) hierarchy
    exact ih inward

theorem Selects.declared (selects : Selects table members entry)
    (declared : Declared outer table) : ∃ within key, EntryDeclared within key entry := by
  induction selects generalizing outer with
  | here _ found => exact ⟨outer, _, declared.entries _ (List.mem_of_find?_eq_some found)⟩
  | inside _ found hierarchy _ ih =>
    obtain ⟨-, within, inward⟩ := declared.inner (List.mem_of_find?_eq_some found) hierarchy
    exact ih inward

/-- A plain entry reads values named for it. -/
theorem EntryDeclared.named {key : String} (declared : EntryDeclared outer key entry)
    (plain : entry.body.adapterOf.IsPlain) {variant : Variant}
    (read : entry.body.ofMembers? setting members = some variant) :
    variant.subtype = entry.subtype := by
  cases declared with
  | singleton =>
    rw [Body.ofMembers?] at read
    split at read <;> cases read
    rfl
  | record | fallback =>
    rw [Body.ofMembers?, Variant.record, Adapter.ofMembers?] at read
    obtain ⟨fields, -, rfl⟩ := Option.map_eq_some_iff.mp read
    rfl
  | hierarchy => exact plain.elim

mutual
/-- Labels lead to a plain entry or to a default. -/
theorem table_leads : ∀ {outer : List String} {table : Table Variant}, Declared outer table →
    ∀ {members : List (String × Document)}, (∀ key, ∃ label, labelOf? key members = some label) →
    (∃ entry, Selects table members entry ∧ entry.body.adapterOf.IsPlain) ∨
      ∃ passed last, Misses table members passed last
  | _, table, .table entries _ _, members, labels => by
    obtain ⟨label, labeled⟩ := labels table.key
    cases unknown : label.bind table.lookup with
    | none => exact .inr ⟨[], table, .here ⟨label, labeled, unknown⟩⟩
    | some group =>
      obtain ⟨text, rfl, found⟩ := Option.bind_eq_some_iff.mp unknown
      have member : group ∈ table.members := List.mem_of_find?_eq_some found
      rcases entry_leads (entries group member) labels with
        plain | ⟨inner, hierarchy, ⟨entry, rest, plain⟩ | ⟨passed, last, rest⟩⟩
      · exact .inl ⟨group, .here labeled found, plain⟩
      · exact .inl ⟨entry, .inside labeled found hierarchy rest, plain⟩
      · exact .inr ⟨_, last, .inside labeled found hierarchy rest⟩

theorem entry_leads : ∀ {outer : List String} {key : String} {entry : Hierarchy.Entry Variant},
    EntryDeclared outer key entry →
    ∀ {members : List (String × Document)}, (∀ key, ∃ label, labelOf? key members = some label) →
    entry.body.adapterOf.IsPlain ∨ ∃ inner, entry.body = .adapter (.tagged inner false) ∧
      ((∃ entry, Selects inner members entry ∧ entry.body.adapterOf.IsPlain) ∨
        ∃ passed last, Misses inner members passed last)
  | _, _, _, .singleton, _, _ => .inl trivial
  | _, _, _, .record, _, _ => .inl trivial
  | _, _, _, .fallback, _, _ => .inl trivial
  | _, _, _, .hierarchy declared _, _, labels => .inr ⟨_, rfl, table_leads declared labels⟩
end

/-! Defaults without fields. -/

theorem put_ne_nil (fields : Members) (name : String) (value : Value) :
    fields.put name value ≠ [] := by
  cases fields with
  | nil => exact List.cons_ne_nil _ _
  | cons field rest =>
    rw [Members.put]
    split <;> exact List.cons_ne_nil _ _

theorem kept_nil {stripped : List String} :
    keptFields stripped members = some [] ↔ ∀ member ∈ members, member.1 ∈ stripped := by
  have folded (fields : Members) : members.foldlM (fun kept member =>
      if member.1 ∈ stripped then some kept
      else member.2.value?.map fun value => kept.put member.1 value) fields = some [] ↔
        fields = [] ∧ ∀ member ∈ members, member.1 ∈ stripped := by
    induction members generalizing fields with
    | nil => simp [pure]
    | cons member rest ih =>
      rw [List.foldlM_cons]
      by_cases hidden : member.1 ∈ stripped
      · rw [if_pos hidden]
        exact (ih fields).trans (by simp [hidden])
      · -- A field that has been kept is never lost again.
        refine iff_of_false ?_ fun both => hidden (both.2 member List.mem_cons_self)
        rw [if_neg hidden]
        intro kept
        obtain ⟨after, put, more⟩ := Option.bind_eq_some_iff.mp kept
        obtain ⟨value, -, rfl⟩ := Option.map_eq_some_iff.mp put
        exact put_ne_nil fields member.1 value ((ih _).mp more).1
  exact (folded []).trans (and_iff_right rfl)

/-- The table reads an object it has no entry for as its default says. -/
theorem defaults_iff (unclaimed : table.Unclaimed members) (declared : Declared outer table)
    (bare : setting.keys = []) (name : String) :
    table.ofMembers? false (stripping passed setting) members = some (some (.unit name)) ↔
      table.DefaultsTo passed members name := by
  have same : ∀ name, (stripping passed setting).strips name = decide (name ∈ passed) :=
    fun name => (strips_key passed bare name).1
  have keeps := (strips_withKey table.key same).2
  rw [unclaimed_reads unclaimed, Setting.strictly_false]
  constructor
  · intro read
    cases policy : table.policy with
    | none =>
      rw [policy] at read
      cases read
    | null =>
      rw [policy] at read
      cases read
    | object own value =>
      rw [policy, declared.object policy] at read
      cases read
      exact .object policy
    | fallback own adapter =>
      rw [policy, declared.fallback policy] at read
      simp only [record_agrees own outer keeps, Option.map_map] at read
      obtain ⟨fields, kept, made⟩ := Option.map_eq_some_iff.mp read
      cases made
      refine .fallback policy fun member here => ?_
      simpa using kept_nil.mp kept member here
  · rintro (policy | ⟨policy, stripped⟩)
    · rw [policy, declared.object policy]
    · rw [policy, declared.fallback policy]
      have kept : keptFields (passed.filter (· ≠ table.key)) members = some [] :=
        kept_nil.mpr fun member here => by simpa using stripped member here
      simp only [record_agrees name outer keeps, kept]
      rfl

end Reading

/-! Members without fields. -/

theorem labelOf_tags (key : String) (tags : List (String × String)) :
    labelOf? key (tagDocuments tags) = some (tags.lookup key) := by
  induction tags with
  | nil => rfl
  | cons tag rest ih =>
    show labelOf? key ((tag.1, .string tag.2) :: tagDocuments rest) = _
    rw [labelOf?, List.lookup_cons]
    by_cases here : tag.1 = key
    · simp [here, labelText?]
    · rw [if_neg here, beq_false_of_ne (Ne.symm here), ih]

/-- A leaf writes nothing for a value without fields, and makes that value of nothing. -/
theorem EntryOf.unit {keys : List String} {found : Member} {entry : Hierarchy.Entry Variant}
    (is : EntryOf keys found entry) (leaf : found.subtypes = none) :
    entry.body.adapterOf.IsPlain ∧ entry.body.written (.unit found.name) = .ok [] ∧
      ∀ setting, entry.body.adapterOf.ofMembers? setting [] = some (.unit found.name) := by
  have nothing (name : String) (reserved : List String) :
      (Body.adapter (Variant.record name reserved)).written (.unit name) = .ok [] ∧
        ∀ setting, (Variant.record name reserved).ofMembers? setting [] = some (.unit name) := by
    constructor
    · rw [Body.written, Variant.record, Adapter.output]
      rfl
    · intro setting
      rw [Variant.record, Adapter.ofMembers?]
      rfl
  cases is with
  | singleton =>
    refine ⟨trivial, by rw [Body.written], fun setting => ?_⟩
    rw [Body.adapterOf, Adapter.ofMembers?]
    rfl
  | record | fallback => exact ⟨trivial, nothing ..⟩
  | hierarchy => cases leaf

/-- Labels under distinct keys lead back along the chain they come from. -/
theorem Chain.selects {table : Table Variant} {tags : List (String × String)}
    {leaf : Hierarchy.Entry Variant} (accepted : Accepted table) (chain : Chain table tags leaf)
    (distinct : (tags.map Prod.fst).Nodup) (before : List (String × Document))
    (fresh : ∀ key ∈ tags.map Prod.fst, key ∉ before.map Prod.fst) :
    Selects table (before ++ tagDocuments tags) leaf := by
  induction chain generalizing before with
  | @here table leaf member =>
    have found := lookup_of_mem accepted.labels member (List.mem_cons_self (a := leaf.label))
    exact .here (labelOf_tag (fresh _ List.mem_cons_self)) found
  | @inside table inner group leaf tags member hierarchy rest ih =>
    have found := lookup_of_mem accepted.labels member (List.mem_cons_self (a := group.label))
    rw [List.map_cons, List.nodup_cons] at distinct
    have others : ∀ key ∈ tags.map Prod.fst,
        key ∉ (before ++ [(table.key, Document.string group.label)]).map Prod.fst := by
      intro key later
      have apart : key ≠ table.key := fun same => distinct.1 (same ▸ later)
      simpa [apart] using fresh key (List.mem_cons_of_mem _ later)
    have inside := ih (Chain.inner_accepted accepted member hierarchy) distinct.2 _ others
    rw [List.append_assoc] at inside
    exact .inside (labelOf_tag (fresh _ List.mem_cons_self)) found hierarchy inside

section Tables
variable {table : Table Variant} {tags : List (String × String)} {entry : Hierarchy.Entry Variant}
  {outer : List String}

/-- The labels alone are read as the value without fields exactly if they lead to its entry or to
a default that makes it. -/
theorem tags_read_iff (accepted : Accepted table) (declared : Declared outer table)
    (chain : Chain table tags entry) (plain : entry.body.adapterOf.IsPlain)
    (unit : ∀ setting, entry.body.adapterOf.ofMembers? setting [] = some (.unit entry.subtype))
    (strict : Bool) : table.ofMembers? strict Setting.outermost (tagDocuments tags) =
      some (some (.unit entry.subtype)) ↔ Selects table (tagDocuments tags) entry ∨
        ∃ passed last, Misses table (tagDocuments tags) passed last ∧
          last.DefaultsTo passed (tagDocuments tags) entry.subtype := by
  constructor
  · intro read
    rcases table_leads declared fun key => ⟨_, labelOf_tags key tags⟩ with
      ⟨other, selects, ends⟩ | ⟨passed, last, misses⟩
    · -- What is selected reads values of its own name, so it is the entry.
      obtain ⟨others, branch, made⟩ := selects.ofMembers declared strict Setting.outermost
      obtain ⟨value, body, same⟩ := Option.map_eq_some_iff.mp (made.symm.trans read)
      cases same
      obtain ⟨within, key, is⟩ := selects.declared declared
      obtain ⟨-, rfl⟩ := Chain.unique accepted chain branch (is.named ends body)
      exact .inl selects
    · have missed := (misses.reads declared strict Setting.outermost _).mp read
      obtain ⟨within, inward⟩ := misses.declared declared
      exact .inr ⟨passed, last, misses, (defaults_iff misses.unclaimed inward rfl _).mp missed⟩
  · rintro (selects | ⟨passed, last, misses, default⟩)
    · obtain ⟨others, branch, made⟩ := selects.ofMembers declared strict Setting.outermost
      obtain ⟨rfl, -⟩ := Chain.unique accepted chain branch rfl
      have apart : ∀ key ∈ tags.map Prod.fst, key ∉ ([] : List (String × Document)).map Prod.fst :=
        fun _ _ => nofun
      have bare : (Setting.outermost.strictly strict).keys = [] := rfl
      have read := plain_tags plain bare apart
      rw [List.append_nil, unit] at read
      rw [made, ofMembers_adapterOf, read]
      rfl
    · obtain ⟨within, inward⟩ := misses.declared declared
      exact (misses.reads declared strict Setting.outermost _).mpr
        ((defaults_iff misses.unclaimed inward rfl _).mpr default)

end Tables

/-- What is written for a member without fields is its labels alone. It is read as it was exactly if
the labels lead to the entry of the member or to a default that makes the same value, and they do
lead to the entry if no key is one of a hierarchy around. -/
theorem unit_returns_iff {file : HierarchyFile} {table : Table Variant}
    (made : file.table = .ok table) {keys : List String} {found : Member} {label : String}
    (placed : (keys, found) ∈ file.places) (leaf : found.subtypes = none)
    (labeled : found.label = some label) :
    ∃ tags entry, Chain table tags entry ∧ entry.subtype = found.name ∧
      tags.map Prod.fst = keys ∧
      table.toJson (.unit found.name) = .ok (Value.object (tagMembers tags)).text ∧
      (keys.Nodup → Selects table (tagDocuments tags) entry) ∧
      ∀ strict, table.fromJson strict (Value.object (tagMembers tags)).text =
        .ok (some (.unit found.name)) ↔ Selects table (tagDocuments tags) entry ∨
          ∃ passed last, Misses table (tagDocuments tags) passed last ∧
            last.DefaultsTo passed (tagDocuments tags) found.name := by
  have accepted := accepted_of_file made
  obtain ⟨tags, entry, chain, rfl, is⟩ := file_lead made placed labeled
  obtain ⟨plain, nothing, unit⟩ := is.unit leaf
  have same := is.subtype
  rw [same] at nothing unit ⊢
  refine ⟨tags, entry, chain, rfl, rfl, ?_, fun distinct => ?_, fun strict => ?_⟩
  · rw [Table.toJson_eq, Chain.output accepted chain rfl, nothing]
    show Except.ok (Value.object (tagMembers tags ++ [])).text = _
    rw [List.append_nil]
  · exact Chain.selects accepted chain distinct [] nofun
  · rw [← tags_read_iff accepted (declared_of_file made) chain plain unit strict]
    have object : (Value.object (tagMembers tags)).document = .object (tagDocuments tags) := by
      rw [Value.document, memberDocuments_tags]
    have spells := Value.text_spells (.object (tagMembers tags))
    rw [object] at spells
    have shallow : (Document.object (tagDocuments tags)).depth ≤ depthLimit := by
      have depth := depth_tags tags []
      rw [List.append_nil] at depth
      rw [depth]
      decide
    rw [Table.fromJson_ok]
    constructor
    · rintro ⟨_, other, -, read⟩
      obtain rfl := spells_unique other spells
      exact read
    · exact fun read => ⟨_, spells, shallow, read⟩

/-- A hierarchy with the key of the one around it. -/
def sessions : HierarchyFile :=
  ⟨"type", false, [⟨"Session", some "session", [], false, false, some "type",
    some [⟨"Login", some "login", [], false, false, none, none⟩]⟩]⟩

def loginEntry : Hierarchy.Entry Variant :=
  ⟨"Login", "login", [], .adapter (Variant.record "Login" ["type", "type"])⟩

def loginsTable : Table Variant := ⟨"type", [loginEntry], [], .none⟩

def sessionEntry : Hierarchy.Entry Variant :=
  ⟨"Session", "session", [], .adapter (.tagged loginsTable false)⟩

def sessionsTable : Table Variant := ⟨"type", [sessionEntry], [], .none⟩

/-- The hierarchy inside is shown the label that led to it, and knows no such label. -/
theorem unit_returns_login : sessionsTable.toJson (.unit "Login") =
      .ok (Value.object [("type", .string "session"), ("type", .string "login")]).text ∧
    sessionsTable.fromJson false
      (Value.object [("type", .string "session"), ("type", .string "login")]).text ≠
        .ok (some (.unit "Login")) := by
  have made : sessions.table = .ok sessionsTable := rfl
  have group : sessionEntry ∈ sessionsTable.members := List.mem_cons_self
  have leaf : loginEntry ∈ loginsTable.members := List.mem_cons_self
  have path : Chain sessionsTable [("type", "session"), ("type", "login")] loginEntry :=
    .inside group rfl (.here leaf)
  have placed : (["type", "type"], ⟨"Login", some "login", [], false, false, none, none⟩) ∈
      sessions.places := List.mem_cons_of_mem _ List.mem_cons_self
  obtain ⟨tags, entry, chain, named, -, put, -, returns⟩ := unit_returns_iff made placed rfl rfl
  obtain ⟨rfl, rfl⟩ := Chain.unique (accepted_of_file made) path chain named.symm
  refine ⟨put, fun read => ?_⟩
  rcases (returns false).mp read with selects | ⟨passed, last, misses, default⟩
  · cases selects with
    | here labeled found =>
      cases labeled
      have same : sessionEntry = loginEntry := Option.some.inj found
      exact absurd (congrArg Hierarchy.Entry.subtype same) (by decide)
    | inside labeled found hierarchy rest =>
      cases labeled
      cases found
      cases hierarchy
      cases rest with
      | here labeled found =>
        cases labeled
        cases found
      | inside labeled found _ _ =>
        cases labeled
        cases found
  · -- Neither hierarchy has a default.
    cases misses with
    | here => rcases default with policy | policy <;> cases policy
    | inside labeled found hierarchy rest =>
      cases labeled
      cases found
      cases hierarchy
      cases rest with
      | here => rcases default with policy | policy <;> cases policy
      | inside labeled found _ _ =>
        cases labeled
        cases found

end TaggedJson
