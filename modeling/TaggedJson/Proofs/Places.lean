import TaggedJson.Proofs.Chain
/-! Where the members of a file come to stand: under which keys, and as which entries. -/
namespace TaggedJson
open Hierarchy

mutual
/-- The members that can have entries, each with the keys of the hierarchies around it, outermost
first. A group has none of its own. -/
def Member.places (keys : List String) : Member → List (List String × Member)
  | ⟨name, label, alternates, singleton, isDefault, own, none⟩ =>
    [(keys, ⟨name, label, alternates, singleton, isDefault, own, none⟩)]
  | ⟨_, _, _, _, _, none, some subtypes⟩ => memberPlaces keys subtypes
  | ⟨name, label, alternates, singleton, isDefault, some own, some subtypes⟩ =>
    (keys, ⟨name, label, alternates, singleton, isDefault, some own, some subtypes⟩) ::
      memberPlaces (keys ++ [own]) subtypes

def memberPlaces (keys : List String) : List Member → List (List String × Member)
  | [] => []
  | member :: rest => member.places keys ++ memberPlaces keys rest
end

theorem memberPlaces_eq (keys : List String) (members : List Member) :
    memberPlaces keys members = members.flatMap (Member.places keys) := by
  induction members with
  | nil => rfl
  | cons member rest ih => rw [memberPlaces, ih, List.flatMap_cons]

def HierarchyFile.places (file : HierarchyFile) : List (List String × Member) :=
  memberPlaces [file.key] file.subtypes

/-- The entry of a labeled member. A record that is a default leaves the innermost key to its
fields, as a fallback that writes no key does. -/
inductive EntryOf : List String → Member → Hierarchy.Entry Variant → Prop
  | singleton {keys alternates : List String} {name label : String} {isDefault : Bool}
    {own : Option String} : EntryOf keys
      ⟨name, some label, alternates, true, isDefault, own, none⟩
      ⟨name, label, alternates, .singleton (.unit name)⟩
  | record {keys alternates : List String} {name label : String} {own : Option String} :
    EntryOf keys ⟨name, some label, alternates, false, false, own, none⟩
      ⟨name, label, alternates, .adapter (Variant.record name keys)⟩
  | fallback {outer alternates : List String} {key name label : String} {own : Option String} :
    EntryOf (outer ++ [key]) ⟨name, some label, alternates, false, true, own, none⟩
      ⟨name, label, alternates, .adapter (Variant.record name outer)⟩
  | hierarchy {keys alternates : List String} {name label own : String}
    {singleton isDefault : Bool} {subtypes : List Member} {inner : Table Variant}
    (declared : Declared keys inner) : EntryOf keys
      ⟨name, some label, alternates, singleton, isDefault, some own, some subtypes⟩
      ⟨name, label, alternates, .adapter (.tagged inner false)⟩

theorem EntryOf.subtype {keys : List String} {member : Member} {entry : Hierarchy.Entry Variant}
    (is : EntryOf keys member entry) : member.name = entry.subtype := by
  cases is <;> rfl

/-- The entry is the one that the member declares where it stands. -/
def DeclaresEntry (keys : List String) (member : Member) (entry : Hierarchy.Entry Variant) : Prop :=
  ∃ outer key declaration, outer ++ [key] = keys ∧
    member.declaration key outer = .ok declaration ∧ declaration.entry? = some entry

theorem DeclaresEntry.entryOf {keys : List String} {member : Member}
    {entry : Hierarchy.Entry Variant} (declares : DeclaresEntry keys member entry) :
    EntryOf keys member entry := by
  obtain ⟨outer, key, declaration, rfl, declared, made⟩ := declares
  obtain ⟨name, label, alternates, singleton, isDefault, own, subtypes⟩ := member
  cases subtypes with
  | none =>
    obtain rfl := leaf_declared declared
    cases label with
    | none => cases singleton <;> cases isDefault <;> cases made
    | some label =>
      cases singleton <;> cases isDefault <;> cases made
      · exact .record
      · exact .fallback
      · exact .singleton
      · exact .singleton
  | some subtypes =>
    rcases group_declared declared with ⟨inner, table, rfl, inside, built, rfl⟩ |
      ⟨inner, table, within, text, rfl, rfl, inside, built, rfl⟩
    · cases label <;> cases made
    · cases made
      exact .hierarchy (declared_of_members inside built)

/-- A declaration leads to an entry, which is its own or lies in a table of it. -/
inductive Leads (key : String) :
    Declaration Variant → List (String × String) → Hierarchy.Entry Variant → Prop
  | entry {declaration : Declaration Variant} {entry : Hierarchy.Entry Variant}
    (made : declaration.entry? = some entry) : Leads key declaration [(key, entry.label)] entry
  | group {declaration : Declaration Variant} {group : String × Table Variant}
    {tags : List (String × String)} {entry : Hierarchy.Entry Variant}
    (made : declaration.group? = some group) (chain : Chain group.2 tags entry) :
    Leads key declaration tags entry
  | hierarchy {declaration : Declaration Variant} {group entry : Hierarchy.Entry Variant}
    {inner : Table Variant} {tags : List (String × String)}
    (made : declaration.entry? = some group)
    (hierarchy : group.body = .adapter (.tagged inner false)) (chain : Chain inner tags entry) :
    Leads key declaration ((key, group.label) :: tags) entry

theorem chain_of_build {key : String} {declarations : List (Declaration Variant)}
    {table : Table Variant} (built : Table.build key declarations = .ok table)
    {declaration : Declaration Variant} (declared : declaration ∈ declarations)
    {tags : List (String × String)} {entry : Hierarchy.Entry Variant}
    (leads : Leads key declaration tags entry) : Chain table tags entry := by
  have builds := build_ok built
  have own {entry : Hierarchy.Entry Variant} (made : declaration.entry? = some entry) :
      entry ∈ table.members := builds.mem_members.mpr ⟨declaration, declared, .inl made⟩
  cases leads with
  | entry made =>
    rw [← builds.key_eq]
    exact .here (own made)
  | hierarchy made hierarchy chain =>
    rw [← builds.key_eq]
    exact .inside (own made) hierarchy chain
  | @group group _ _ made chain =>
    -- The table of a group has the same key, so a chain that starts there may start here.
    have inherited {entry : Hierarchy.Entry Variant} (member : entry ∈ group.2.members) :
        entry ∈ table.members :=
      builds.mem_members.mpr ⟨declaration, declared, .inr ⟨group, made, member⟩⟩
    have same : group.2.key = table.key := (builds.group_key declared made).trans builds.key_eq.symm
    cases chain with
    | here member =>
      rw [same]
      exact .here (inherited member)
    | inside member hierarchy chain =>
      rw [same]
      exact .inside (inherited member) hierarchy chain

/-- Every labeled member that a member places has an entry, and its declaration leads there. -/
def PlacesLead (key : String) (outer : List String) (member : Member)
    (declaration : Declaration Variant) : Prop :=
  ∀ keys found label, (keys, found) ∈ member.places (outer ++ [key]) → found.label = some label →
    ∃ tags entry, Leads key declaration tags entry ∧ outer ++ tags.map Prod.fst = keys ∧
      DeclaresEntry keys found entry

theorem placed_leads {key label : String} {outer keys : List String} {members : List Member}
    {declarations : List (Declaration Variant)} {found : Member}
    (each : List.Forall₂ (PlacesLead key outer) members declarations)
    (placed : (keys, found) ∈ memberPlaces (outer ++ [key]) members)
    (labeled : found.label = some label) :
    ∃ declaration ∈ declarations, ∃ tags entry, Leads key declaration tags entry ∧
      outer ++ tags.map Prod.fst = keys ∧ DeclaresEntry keys found entry := by
  rw [memberPlaces_eq] at placed
  obtain ⟨member, listed, here⟩ := List.mem_flatMap.mp placed
  obtain ⟨declaration, declared, leads⟩ := exists_of_mem_left each listed
  exact ⟨declaration, declared, leads keys found label here labeled⟩

theorem leads_hereditary : Hereditary PlacesLead := by
  constructor
  · intro key outer name own_label alternates singleton isDefault own made keys found label placed
      labeled
    obtain ⟨rfl, rfl⟩ := Prod.mk.inj (List.mem_singleton.mp placed)
    have labeled : own_label = some label := labeled
    subst labeled
    have own : ∃ entry, Declaration.entry? ⟨name, some label, alternates,
        leafKind key outer name singleton isDefault⟩ = some entry := by
      cases singleton <;> cases isDefault <;> exact ⟨_, rfl⟩
    obtain ⟨entry, own⟩ := own
    exact ⟨_, entry, .entry own, rfl, outer, key, _, rfl, made, own⟩
  · -- The members of a group have the keys of the group itself.
    intro key outer name _ alternates subtypes inner table _ built each keys found label placed
      labeled
    obtain ⟨one, member, tags, entry, leads, same, is⟩ := placed_leads each placed labeled
    exact ⟨tags, entry, .group rfl (chain_of_build built member leads), same, is⟩
  · intro key outer name text alternates within subtypes inner table declared built each keys found
      label placed labeled
    rcases List.mem_cons.mp placed with self | deeper
    · obtain ⟨rfl, rfl⟩ := Prod.mk.inj self
      exact ⟨_, _, .entry rfl, rfl, outer, key, _, rfl, hierarchy_made declared built, rfl⟩
    · -- Inside the hierarchy its key is one more to come first, as its tag is in the chain.
      obtain ⟨one, member, tags, entry, leads, same, is⟩ := placed_leads each deeper labeled
      refine ⟨_, entry, .hierarchy rfl rfl (chain_of_build built member leads), ?_, is⟩
      rw [← same, List.append_assoc]
      rfl

theorem file_entry {file : HierarchyFile} {table : Table Variant} (made : file.table = .ok table)
    {keys : List String} {found : Member} {label : String} (placed : (keys, found) ∈ file.places)
    (labeled : found.label = some label) : ∃ tags entry, Chain table tags entry ∧
      tags.map Prod.fst = keys ∧ DeclaresEntry keys found entry := by
  obtain ⟨declarations, declared, built⟩ := file_built made
  obtain ⟨declaration, member, tags, entry, leads, same, is⟩ :=
    placed_leads (leads_hereditary.members file.subtypes declared) placed labeled
  have chain := chain_of_build built (mem_file_declarations.mpr (.inr member)) leads
  exact ⟨tags, entry, chain, same, is⟩

theorem file_lead {file : HierarchyFile} {table : Table Variant} (made : file.table = .ok table)
    {keys : List String} {found : Member} {label : String} (placed : (keys, found) ∈ file.places)
    (labeled : found.label = some label) : ∃ tags entry, Chain table tags entry ∧
      tags.map Prod.fst = keys ∧ EntryOf keys found entry := by
  obtain ⟨tags, entry, chain, same, declares⟩ := file_entry made placed labeled
  exact ⟨tags, entry, chain, same, declares.entryOf⟩

/-! Every name that can be written is that of a labeled member. -/

/-- The names a declaration adds. -/
def Hierarchy.Declaration.names (declaration : Declaration Variant) : List String :=
  (declaration.entry?.toList.flatMap Hierarchy.Entry.names) ++
    (declaration.group?.toList.flatMap fun group => group.2.subtypeNames)

theorem names_of_build {key : String} {declarations : List (Declaration Variant)}
    {table : Table Variant} (built : Table.build key declarations = .ok table) {name : String}
    (written : name ∈ table.subtypeNames) :
    ∃ declaration ∈ declarations, name ∈ declaration.names := by
  rw [← members_names] at written
  obtain ⟨entry, member, named⟩ := List.mem_flatMap.mp written
  obtain ⟨declaration, declared, made | ⟨group, made, member⟩⟩ :=
    (build_ok built).mem_members.mp member
  · have own : entry ∈ declaration.entry?.toList := Option.mem_toList.mpr made
    exact ⟨declaration, declared, List.mem_append_left _ (List.mem_flatMap.mpr ⟨entry, own, named⟩)⟩
  · have own : group ∈ declaration.group?.toList := Option.mem_toList.mpr made
    have inside : name ∈ group.2.subtypeNames := by
      rw [← members_names]
      exact List.mem_flatMap.mpr ⟨entry, member, named⟩
    refine ⟨declaration, declared, List.mem_append_right _ ?_⟩
    exact List.mem_flatMap.mpr ⟨group, own, inside⟩

/-- What a declaration adds is named as a labeled member that its own places. -/
def NamesPlaced (member : Member) (declaration : Declaration Variant) : Prop :=
  ∀ keys, ∀ name ∈ declaration.names,
    ∃ placed ∈ member.places keys, placed.2.label.isSome = true ∧ placed.2.name = name

theorem names_placed {members : List Member} {declarations : List (Declaration Variant)}
    (each : List.Forall₂ NamesPlaced members declarations) (keys : List String)
    {declaration : Declaration Variant} (declared : declaration ∈ declarations) {name : String}
    (written : name ∈ declaration.names) :
    ∃ placed ∈ memberPlaces keys members,
      placed.2.label.isSome = true ∧ placed.2.name = name := by
  obtain ⟨member, listed, places⟩ := exists_of_mem_right each declared
  obtain ⟨placed, here, same⟩ := places keys name written
  rw [memberPlaces_eq]
  exact ⟨placed, List.mem_flatMap.mpr ⟨member, listed, here⟩, same⟩

theorem names_hereditary : Hereditary fun _ _ => NamesPlaced := by
  constructor
  · intro key outer own_name label alternates singleton isDefault own _ keys name written
    refine ⟨_, List.mem_singleton.mpr rfl, ?_⟩
    cases label with
    | none => cases singleton <;> cases isDefault <;> cases written
    | some label =>
      refine ⟨rfl, ?_⟩
      cases singleton <;> cases isDefault <;> exact (List.mem_singleton.mp written).symm
  · intro key outer own_name label alternates subtypes inner table _ built each keys name written
    have inside : name ∈ table.subtypeNames := by
      simpa [Declaration.names, Declaration.entry?, Declaration.body?, Declaration.group?]
        using written
    obtain ⟨one, member, named⟩ := names_of_build built inside
    exact names_placed each keys member named
  · intro key outer own_name text alternates within subtypes inner table _ built each keys name
      written
    have either : name = own_name ∨ name ∈ table.subtypeNames := by
      simpa [Declaration.names, Declaration.entry?, Declaration.body?, Declaration.group?,
        Hierarchy.Entry.names, Body.encodable, Adapter.encodable] using written
    rcases either with rfl | inside
    · exact ⟨_, List.mem_cons_self, rfl, rfl⟩
    · obtain ⟨one, member, named⟩ := names_of_build built inside
      obtain ⟨placed, there, same⟩ := names_placed each (keys ++ [within]) member named
      exact ⟨placed, List.mem_cons_of_mem _ there, same⟩

theorem file_names {file : HierarchyFile} {table : Table Variant} (made : file.table = .ok table)
    {name : String} (written : name ∈ table.subtypeNames) :
    ∃ keys found label, (keys, found) ∈ file.places ∧ found.label = some label ∧
      found.name = name := by
  obtain ⟨declarations, declared, built⟩ := file_built made
  obtain ⟨declaration, member, named⟩ := names_of_build built written
  have own : declaration ∈ declarations := by
    rcases mem_file_declarations.mp member with ⟨-, rfl⟩ | own
    · cases named
    · exact own
  obtain ⟨⟨keys, found⟩, placed, labeled, same⟩ :=
    names_placed (names_hereditary.members file.subtypes declared) [file.key] own named
  obtain ⟨label, labeled⟩ := Option.isSome_iff_exists.mp labeled
  exact ⟨keys, found, label, placed, labeled, same⟩

end TaggedJson
