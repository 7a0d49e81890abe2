import TaggedJson.Proofs.Declared
import TaggedJson.Proofs.Output
import TaggedJson.Proofs.Reference
/-! From a table down to one of its leaves. Every hierarchy on the way writes its key with a label
in front of what the leaf writes, and finds that label again however deep it lies. -/
namespace TaggedJson.Hierarchy
open Json Pull Emit
variable {α : Type}

/-- An entry at the end of hierarchies inside one another, with the key of each and the label that
leads on from it, outermost first. -/
inductive Chain : Table α → List (String × String) → Entry α → Prop
  | here {table : Table α} {leaf : Entry α} (member : leaf ∈ table.members) :
    Chain table [(table.key, leaf.label)] leaf
  | inside {table inner : Table α} {group leaf : Entry α} {tags : List (String × String)}
    (member : group ∈ table.members) (hierarchy : group.body = .adapter (.tagged inner false))
    (rest : Chain inner tags leaf) : Chain table ((table.key, group.label) :: tags) leaf

/-- The adapter of an entry. A singleton without one is any object. -/
def Body.adapterOf : Body α → Adapter α
  | .adapter inner => inner
  | .singleton value => .singleton value

/-- Adapters that read the object they are given and no further. -/
def Adapter.IsPlain : Adapter α → Prop
  | .record _ | .payload _ | .singleton _ => True
  | .failOnUnknown _ | .tagged _ _ => False

/-- The members that tags are written as. -/
def tagMembers (tags : List (String × String)) : Members :=
  tags.map fun tag => (tag.1, .string tag.2)

def tagDocuments (tags : List (String × String)) : List (String × Document) :=
  tags.map fun tag => (tag.1, .string tag.2)

theorem own_name (entry : Entry α) : entry.subtype ∈ entry.names := by
  cases entry
  exact List.mem_cons_self

theorem inner_names {group : Entry α} {inner : Table α}
    (hierarchy : group.body = .adapter (.tagged inner false)) :
    group.names = group.subtype :: inner.subtypeNames := by
  obtain ⟨subtype, label, alternates, body⟩ := group
  subst hierarchy
  rfl

/-- A hierarchy has the names of what lies in it. -/
theorem inner_name {group : Entry α} {inner : Table α} {name : String}
    (hierarchy : group.body = .adapter (.tagged inner false))
    (within : name ∈ inner.subtypeNames) : name ∈ group.names := by
  rw [inner_names hierarchy]
  exact List.mem_cons_of_mem _ within

theorem Chain.named {table : Table α} {tags : List (String × String)} {leaf : Entry α}
    (chain : Chain table tags leaf) : leaf.subtype ∈ table.subtypeNames := by
  induction chain with
  | @here table leaf member =>
    rw [← members_names]
    exact List.mem_flatMap.mpr ⟨leaf, member, own_name leaf⟩
  | @inside table inner group leaf tags member hierarchy rest ih =>
    rw [← members_names]
    exact List.mem_flatMap.mpr ⟨group, member, inner_name hierarchy ih⟩

theorem Chain.inner_accepted {table inner : Table α} {group : Entry α} (accepted : Accepted table)
    (member : group ∈ table.members) (hierarchy : group.body = .adapter (.tagged inner false)) :
    Accepted inner :=
  accepted.within group member _ hierarchy inner (List.mem_singleton.mpr rfl)

/-- An entry names nothing twice. -/
theorem Chain.names_nodup {table : Table α} {tags : List (String × String)} {leaf : Entry α}
    (chain : Chain table tags leaf) (accepted : Accepted table) : leaf.names.Nodup := by
  induction chain with
  | here member =>
    have distinct := accepted.names
    rw [← members_names] at distinct
    exact (List.nodup_flatMap.mp distinct).1 _ member
  | inside member hierarchy rest ih => exact ih (Chain.inner_accepted accepted member hierarchy)

theorem entry_unique {table : Table α} (accepted : Accepted table) {left right : Entry α}
    (first : left ∈ table.members) (second : right ∈ table.members) {name : String}
    (here : name ∈ left.names) (there : name ∈ right.names) : left = right :=
  Option.some.inj <| (entryFor_of_mem accepted.names first here).symm.trans
    (entryFor_of_mem accepted.names second there)

/-- No entry has the name of one that lies in a hierarchy of the same table. -/
theorem Chain.not_beside {table inner : Table α} {tags : List (String × String)}
    {leaf group other : Entry α} (accepted : Accepted table) (member : leaf ∈ table.members)
    (found : group ∈ table.members) (hierarchy : group.body = .adapter (.tagged inner false))
    (rest : Chain inner tags other) : leaf.subtype ≠ other.subtype := by
  intro same
  have within := inner_name hierarchy rest.named
  rw [← same] at within
  obtain rfl := entry_unique accepted member found (own_name leaf) within
  -- The entry would have its own name a second time, from inside it.
  have alone := (Chain.here member).names_nodup accepted
  rw [inner_names hierarchy, same] at alone
  exact (List.nodup_cons.mp alone).1 rest.named

/-- A name is that of one entry, and one chain leads there. -/
theorem Chain.unique {table : Table α} {tags others : List (String × String)}
    {leaf other : Entry α} (accepted : Accepted table) (first : Chain table tags leaf)
    (second : Chain table others other) (same : leaf.subtype = other.subtype) :
    tags = others ∧ leaf = other := by
  induction first generalizing others with
  | @here table leaf member =>
    cases second with
    | here found =>
      obtain rfl := entry_unique accepted member found (own_name leaf) (same ▸ own_name other)
      exact ⟨rfl, rfl⟩
    | inside found hierarchy rest =>
      exact (Chain.not_beside accepted member found hierarchy rest same).elim
  | @inside table inner group leaf tags member hierarchy rest ih =>
    cases second with
    | here found => exact (Chain.not_beside accepted found member hierarchy rest same.symm).elim
    | @inside _ inner' group' _ others found hierarchy' rest' =>
      have within := inner_name hierarchy rest.named
      have within' := inner_name hierarchy' rest'.named
      rw [← same] at within'
      obtain rfl := entry_unique accepted member found within within'
      cases hierarchy.symm.trans hierarchy'
      obtain ⟨rfl, rfl⟩ := ih (Chain.inner_accepted accepted member hierarchy) rest' same
      exact ⟨rfl, rfl⟩

/-! Writing. -/

theorem written_adapterOf [Root α] (body : Body α) (value : α) :
    body.written value = (body.adapterOf.output value).bind membersOf := by
  cases body with
  | adapter adapter => rw [Body.written, Body.adapterOf]
  | singleton instance_ =>
    rw [Body.written, Body.adapterOf, Adapter.output]
    rfl

theorem Chain.output [Root α] {table : Table α} {tags : List (String × String)} {leaf : Entry α}
    {value : α} (accepted : Accepted table) (chain : Chain table tags leaf)
    (named : Root.subtype value = leaf.subtype) :
    table.output value = (leaf.body.written value).map fun members =>
      .object (tagMembers tags ++ members) := by
  induction chain with
  | @here table leaf member =>
    have found := entryFor_of_mem accepted.names member (own_name leaf)
    rw [← named] at found
    exact Table.output_entry found
  | @inside table inner group leaf tags member hierarchy rest ih =>
    have found := entryFor_of_mem accepted.names member (inner_name hierarchy rest.named)
    rw [← named] at found
    -- What the hierarchy inside writes is an object, and its members are merged behind the label.
    rw [Table.output_entry found, hierarchy, Body.written, Adapter.output,
      ih (Chain.inner_accepted accepted member hierarchy) named]
    cases leaf.body.written value <;> rfl

/-! Reading. -/

/-- The setting once the keys of some hierarchies are stripped, the outermost first. -/
def stripping : List String → Setting → Setting
  | [], setting => setting
  | key :: rest, setting => stripping rest (setting.withKey key true)

theorem stripping_strict (keys : List String) (setting : Setting) :
    (stripping keys setting).strict = setting.strict := by
  induction keys generalizing setting with
  | nil => rfl
  | cons key rest ih => exact ih _

theorem stripping_lookup (keys : List String) (setting : Setting) (name : String) :
    (stripping keys setting).keys.lookup name =
      if name ∈ keys then some true else setting.keys.lookup name := by
  induction keys generalizing setting with
  | nil => rfl
  | cons key rest ih =>
    rw [stripping, ih]
    rw [Setting.withKey_lookup]
    by_cases later : name ∈ rest
    · simp [later]
    · by_cases here : name = key
      · simp [here]
      · simp [later, here]

theorem labelOf_tag {key label : String} {before after : List (String × Document)}
    (fresh : key ∉ before.map Prod.fst) :
    labelOf? key (before ++ (key, .string label) :: after) = some (some label) := by
  induction before with
  | nil => simp [labelOf?, labelText?]
  | cons member rest ih =>
    rw [List.map_cons, List.mem_cons, not_or] at fresh
    rw [List.cons_append, labelOf?, if_neg (Ne.symm fresh.1)]
    exact ih fresh.2

theorem resolve_of_mem {table : Table α} (accepted : Accepted table) {entry : Entry α}
    (member : entry ∈ table.members) :
    table.resolve (some entry.label) = .ok (.subtype entry) := by
  have found := lookup_of_mem accepted.labels member (List.mem_cons_self (a := entry.label))
  simp only [Table.resolve, Option.bind_some, found]

/-- The label is the same wherever the hierarchies around have put theirs. -/
theorem ofMembers_tag {table : Table α} (accepted : Accepted table) {entry : Entry α}
    (member : entry ∈ table.members) (strict : Bool) (setting : Setting)
    {before : List (String × Document)} (after : List (String × Document))
    (fresh : table.key ∉ before.map Prod.fst) :
    table.ofMembers? strict setting (before ++ (table.key, .string entry.label) :: after) =
      (entry.body.ofMembers? ((setting.strictly strict).withKey table.key true)
        (before ++ (table.key, .string entry.label) :: after)).map some := by
  rw [Table.ofMembers?_eq, labelOf_tag fresh, Option.bind_some, resolve_of_mem accepted member]
  rfl

theorem join_map_some {β : Type} (made : Option β) : (made.map some).join = made := by
  cases made <;> rfl

theorem Chain.ofMembers {table : Table α} {tags : List (String × String)} {leaf : Entry α}
    (accepted : Accepted table) (chain : Chain table tags leaf)
    (distinct : (tags.map Prod.fst).Nodup) (strict : Bool) (setting : Setting)
    (before after : List (String × Document))
    (fresh : ∀ key ∈ tags.map Prod.fst, key ∉ before.map Prod.fst) :
    table.ofMembers? strict setting (before ++ (tagDocuments tags ++ after)) =
      (leaf.body.ofMembers? (stripping (tags.map Prod.fst) (setting.strictly strict))
        (before ++ (tagDocuments tags ++ after))).map some := by
  induction chain generalizing strict setting before with
  | @here table leaf member =>
    exact ofMembers_tag accepted member strict setting after (fresh _ List.mem_cons_self)
  | @inside table inner group leaf tags member hierarchy rest ih =>
    have first := ofMembers_tag accepted member strict setting
      (tagDocuments tags ++ after) (fresh _ List.mem_cons_self)
    -- The hierarchy inside sees this tag before its own, and its key is another one.
    have joined : before ++ (tagDocuments ((table.key, group.label) :: tags) ++ after) =
        (before ++ [(table.key, .string group.label)]) ++ (tagDocuments tags ++ after) := by
      simp [tagDocuments]
    rw [List.map_cons, List.nodup_cons] at distinct
    have others : ∀ key ∈ tags.map Prod.fst,
        key ∉ (before ++ [(table.key, Document.string group.label)]).map Prod.fst := by
      intro key later
      have apart : key ≠ table.key := fun same => distinct.1 (same ▸ later)
      simpa [apart] using fresh key (List.mem_cons_of_mem _ later)
    have inside := ih (Chain.inner_accepted accepted member hierarchy) distinct.2 false
      ((setting.strictly strict).withKey table.key true) _ others
    rw [Setting.strictly_false] at inside
    rw [joined, List.append_assoc, List.singleton_append, first, hierarchy, Body.ofMembers?,
      Adapter.ofMembers?]
    rw [List.append_assoc, List.singleton_append] at inside
    rw [inside, join_map_some]
    rfl

/-! The leaf. -/

section Leaf
variable {setting : Setting} {keys : List String} {tags : List (String × String)}
  {members : List (String × Document)}

theorem strips_key (keys : List String) (bare : setting.keys = []) (name : String) :
    (stripping keys setting).strips name = decide (name ∈ keys) ∧
      (stripping keys setting).allows name = decide (name ∈ keys) := by
  unfold Setting.strips Setting.allows
  rw [stripping_lookup, bare]
  by_cases member : name ∈ keys <;> simp [member]

theorem addField_bare (bare : setting.keys = []) {member : String × Document}
    (apart : member.1 ∉ keys) (fields : Fields) :
    (stripping keys setting).addField fields member = setting.addField fields member := by
  obtain ⟨strips, allows⟩ := strips_key keys bare member.1
  rw [Setting.addField, Setting.addField, strips, allows, Setting.bare_strips bare,
    Setting.bare_allows bare, decide_eq_false apart]

theorem addField_tag (bare : setting.keys = []) {member : String × Document}
    (tag : member.1 ∈ keys) (fields : Fields) :
    (stripping keys setting).addField fields member = some fields := by
  rw [Setting.addField, (strips_key _ bare member.1).1, decide_eq_true tag, if_pos rfl]

/-- The tags are no fields, and let nothing through. -/
theorem fields_tags (bare : setting.keys = [])
    (apart : ∀ key ∈ tags.map Prod.fst, key ∉ members.map Prod.fst) :
    (stripping (tags.map Prod.fst) setting).fields? (tagDocuments tags ++ members) =
      setting.fields? members := by
  have passed (some : List (String × String)) (within : ∀ tag ∈ some, tag ∈ tags)
      (fields : Fields) : (tagDocuments some).foldlM
        (stripping (tags.map Prod.fst) setting).addField fields = Option.some fields := by
    induction some with
    | nil => rfl
    | cons tag rest ih =>
      have named : tag.1 ∈ tags.map Prod.fst :=
        List.mem_map.mpr ⟨tag, within tag List.mem_cons_self, rfl⟩
      rw [tagDocuments, List.map_cons, List.foldlM_cons, addField_tag bare named]
      exact ih fun tag member => within tag (List.mem_cons_of_mem _ member)
  have kept (fields : Fields) : members.foldlM
      (stripping (tags.map Prod.fst) setting).addField fields =
        members.foldlM setting.addField fields := by
    induction members generalizing fields with
    | nil => rfl
    | cons member rest ih =>
      have other : member.1 ∉ tags.map Prod.fst := fun tag =>
        apart _ tag (List.mem_map.mpr ⟨member, List.mem_cons_self, rfl⟩)
      have later : ∀ key ∈ tags.map Prod.fst, key ∉ rest.map Prod.fst := fun key tag member =>
        apart key tag (List.mem_cons_of_mem _ member)
      rw [List.foldlM_cons, List.foldlM_cons, addField_bare bare other]
      congr 1
      funext fields
      exact ih later fields
  rw [Setting.fields?, List.foldlM_append, passed tags fun _ => id]
  exact kept _

theorem skips_tags (bare : setting.keys = [])
    (apart : ∀ key ∈ tags.map Prod.fst, key ∉ members.map Prod.fst) :
    (stripping (tags.map Prod.fst) setting).skips (tagDocuments tags ++ members) =
      setting.skips members := by
  have passed : (tagDocuments tags).all (fun member =>
      !(stripping (tags.map Prod.fst) setting).strict ||
        (stripping (tags.map Prod.fst) setting).allows member.1) = true := by
    refine List.all_eq_true.mpr fun member named => ?_
    obtain ⟨tag, here, rfl⟩ := List.mem_map.mp named
    have key : tag.1 ∈ tags.map Prod.fst := List.mem_map.mpr ⟨tag, here, rfl⟩
    rw [(strips_key _ bare tag.1).2, decide_eq_true key, Bool.or_true]
  rw [Setting.skips, List.all_append, passed, Bool.true_and, stripping_strict, Setting.skips,
    Bool.eq_iff_iff, List.all_eq_true, List.all_eq_true]
  refine forall₂_congr fun member here => ?_
  have other : member.1 ∉ tags.map Prod.fst := fun tag =>
    apart _ tag (List.mem_map.mpr ⟨member, here, rfl⟩)
  rw [(strips_key _ bare member.1).2, decide_eq_false other, Setting.bare_allows bare]

theorem plain_tags {adapter : Adapter α} (plain : adapter.IsPlain) (bare : setting.keys = [])
    (apart : ∀ key ∈ tags.map Prod.fst, key ∉ members.map Prod.fst) :
    adapter.ofMembers? (stripping (tags.map Prod.fst) setting) (tagDocuments tags ++ members) =
      adapter.ofMembers? setting members := by
  cases adapter with
  | record form => rw [Adapter.ofMembers?, Adapter.ofMembers?, fields_tags bare apart]
  | payload form =>
    rw [Adapter.ofMembers?, Adapter.ofMembers?, PayloadForm.ofMembers?, PayloadForm.ofMembers?,
      fields_tags bare apart, stripping_strict]
  | singleton value => rw [Adapter.ofMembers?, Adapter.ofMembers?, skips_tags bare apart]
  | failOnUnknown _ => exact plain.elim
  | tagged _ _ => exact plain.elim

end Leaf

theorem ofMembers_adapterOf (body : Body α) (setting : Setting)
    (members : List (String × Document)) :
    body.ofMembers? setting members = body.adapterOf.ofMembers? setting members := by
  cases body with
  | adapter adapter => rw [Body.ofMembers?, Body.adapterOf]
  | singleton value => rw [Body.ofMembers?, Body.adapterOf, Adapter.ofMembers?]

/-! Texts. -/

theorem memberDocuments_append (left right : Members) : Value.memberDocuments (left ++ right) =
    Value.memberDocuments left ++ Value.memberDocuments right := by
  induction left with
  | nil => rfl
  | cons member rest ih => rw [List.cons_append, Value.memberDocuments, ih]; rfl

theorem memberDocuments_tags (tags : List (String × String)) :
    Value.memberDocuments (tagMembers tags) = tagDocuments tags := by
  induction tags with
  | nil => rfl
  | cons tag rest ih =>
    show _ :: Value.memberDocuments (tagMembers rest) = _ :: tagDocuments rest
    rw [ih]
    rfl

theorem depth_tags (tags : List (String × String)) (members : List (String × Document)) :
    (Document.object (tagDocuments tags ++ members)).depth = (Document.object members).depth := by
  rw [Document.depth, Document.depth]
  congr 1
  induction tags with
  | nil => rfl
  | cons tag rest ih =>
    show max 0 (Document.depthMembers (tagDocuments rest ++ members)) = _
    rw [Nat.zero_max]
    exact ih

/-- What is written on its own as an object is an object of the same members. -/
theorem output_object {value : Value} {members : List (String × Document)}
    (spells : Spells value.text (.object members)) :
    ∃ written, value = .object written ∧ Value.memberDocuments written = members := by
  have same := spells_unique (Value.text_spells value) spells
  cases value <;> cases same
  exact ⟨_, rfl, rfl⟩

/-- Members that the leaf reads behind the tags of the hierarchies around it. -/
theorem Chain.fromJson {table : Table α} {tags : List (String × String)} {leaf : Entry α}
    (accepted : Accepted table) (chain : Chain table tags leaf)
    (distinct : (tags.map Prod.fst).Nodup) (plain : leaf.body.adapterOf.IsPlain)
    {written : Members} {value : α} {strict : Bool}
    (apart : ∀ key ∈ tags.map Prod.fst, key ∉ (Value.memberDocuments written).map Prod.fst)
    (shallow : (Document.object (Value.memberDocuments written)).depth ≤ depthLimit)
    (read : leaf.body.adapterOf.ofMembers? (Setting.outermost.strictly strict)
      (Value.memberDocuments written) = some value) :
    table.fromJson strict (Value.object (tagMembers tags ++ written)).text = .ok (some value) := by
  have shape : (Value.object (tagMembers tags ++ written)).document =
      .object (tagDocuments tags ++ Value.memberDocuments written) := by
    rw [Value.document, memberDocuments_append, memberDocuments_tags]
  apply Table.fromJson_ok.mpr
  refine ⟨_, Value.text_spells _, ?_, ?_⟩
  · rw [shape, depth_tags]
    exact shallow
  · have whole := Chain.ofMembers accepted chain distinct strict Setting.outermost []
      (Value.memberDocuments written) nofun
    rw [shape]
    show table.ofMembers? strict Setting.outermost (tagDocuments tags ++ _) = _
    rw [List.nil_append] at whole
    rw [whole, ofMembers_adapterOf, plain_tags plain rfl apart, read]
    rfl

/-- What a leaf writes and reads back on its own is read back behind the tags of the hierarchies
around it, and strictly if the leaf alone is read back strictly. -/
theorem chain_roundtrip [Root α] {table : Table α} {tags : List (String × String)}
    {leaf : Entry α} (accepted : Accepted table) (chain : Chain table tags leaf)
    (distinct : (tags.map Prod.fst).Nodup) (plain : leaf.body.adapterOf.IsPlain) {value : α}
    (named : Root.subtype value = leaf.subtype) {own : String}
    {members : List (String × Document)} (written : leaf.body.adapterOf.toJson value = .ok own)
    (object : Spells own (.object members))
    (apart : ∀ key ∈ tags.map Prod.fst, key ∉ members.map Prod.fst)
    (read : leaf.body.adapterOf.fromJson own = .ok value) :
    ∃ text, table.toJson value = .ok text ∧ table.fromJson false text = .ok (some value) ∧
      ((Adapter.failOnUnknown leaf.body.adapterOf).fromJson own = .ok value →
        table.fromJson true text = .ok (some value)) := by
  obtain ⟨output, put, rfl⟩ := Adapter.toJson_ok.mp written
  obtain ⟨fields, rfl, rfl⟩ := output_object object
  have unique {others : List (String × Document)}
      (spells : Spells (Value.object fields).text (.object others)) :
      others = Value.memberDocuments fields := by
    injection spells_unique spells object
  -- Both readings are of the one document that the text spells.
  obtain ⟨_, spells, shallow, lenient⟩ := Adapter.fromJson_ok.mp read
  obtain rfl := unique spells
  refine ⟨(Value.object (tagMembers tags ++ fields)).text, ?_, ?_, ?_⟩
  · rw [Table.toJson_eq, Chain.output accepted chain named, written_adapterOf, put]
    rfl
  · exact Chain.fromJson accepted chain distinct plain apart shallow lenient
  · intro strictly
    obtain ⟨_, spells, _, strict⟩ := Adapter.fromJson_ok.mp strictly
    obtain rfl := unique spells
    rw [Adapter.ofMembers?] at strict
    exact Chain.fromJson accepted chain distinct plain apart shallow strict

theorem circle_chain :
    Chain figuresTable [("type", "figure"), ("shape", "circle")] circleEntry := by
  have group : figureEntry ∈ figuresTable.members := List.mem_cons_self
  have leaf : circleEntry ∈ shapesTable.members := List.mem_cons_self
  exact .inside group rfl (.here leaf)

theorem chain_roundtrip_circle : ∃ text,
    figuresTable.toJson ⟨"Circle", [("r", .null)]⟩ = .ok text ∧
      figuresTable.fromJson false text = .ok (some ⟨"Circle", [("r", .null)]⟩) ∧
      figuresTable.fromJson true text = .ok (some ⟨"Circle", [("r", .null)]⟩) := by
  have spells := Value.text_spells (.object [("r", .null)])
  have written : (Variant.record "Circle" ["type", "shape"]).toJson ⟨"Circle", [("r", .null)]⟩ =
      .ok (Value.object [("r", .null)]).text := by
    rw [Adapter.toJson_eq, Variant.record, Adapter.output]
    rfl
  have read (strict : Bool) : (Variant.record "Circle" ["type", "shape"]).ofMembers?
      (Setting.outermost.strictly strict) [("r", .null)] = some ⟨"Circle", [("r", .null)]⟩ := by
    rw [Variant.record, Adapter.ofMembers?]
    rfl
  have lenient := Adapter.fromJson_ok.mpr ⟨_, spells, by decide, read false⟩
  obtain ⟨text, put, got, gotStrictly⟩ := chain_roundtrip (accepted_of_file figures_built)
    circle_chain (by decide) trivial rfl written spells (by decide) lenient
  refine ⟨text, put, got, gotStrictly (Adapter.fromJson_ok.mpr ⟨_, spells, by decide, ?_⟩)⟩
  rw [Adapter.ofMembers?]
  exact read true

end TaggedJson.Hierarchy
