import TaggedJson.Proofs.Delegates
import TaggedJson.Proofs.Resolution
/-! Where the label of an object stands, and which of the labels of its entry it is. Behind the
table that the label is for, the member that holds it is passed everywhere, so neither makes a
difference. -/
namespace TaggedJson.Hierarchy
open Json Pull
variable {α : Type}

/-- The tables an object may be handed on to, those of the adapter itself first. -/
inductive Adapter.Uses : Adapter α → Table α → Prop
  | own {adapter : Adapter α} {table : Table α} (direct : table ∈ adapter.tables) :
    Uses adapter table
  | entry {adapter : Adapter α} {table inner : Table α} {entry : Entry α}
    (direct : table ∈ adapter.tables) (member : entry ∈ table.members)
    (uses : Uses entry.body.adapterOf inner) : Uses adapter inner
  | fallback {adapter within : Adapter α} {table inner : Table α} {name : String}
    (direct : table ∈ adapter.tables) (policy : table.policy = .fallback name within)
    (uses : Uses within inner) : Uses adapter inner

theorem Adapter.Uses.failOnUnknown {adapter : Adapter α} {table : Table α}
    (uses : adapter.Uses table) : (Adapter.failOnUnknown adapter).Uses table := by
  cases uses with
  | own direct => exact .own direct
  | entry direct member uses => exact .entry direct member uses
  | fallback direct policy uses => exact .fallback direct policy uses

theorem Adapter.Uses.handed {table inner : Table α} {strict stripped : Bool}
    {label : Option String} {target : Target α} {adapter : Adapter α}
    (resolved : table.resolve label = .ok target)
    (handed : target.delegate? = some (adapter, stripped)) (uses : adapter.Uses inner) :
    (Adapter.tagged table strict).Uses inner := by
  have direct : table ∈ (Adapter.tagged table strict).tables := List.mem_singleton.mpr rfl
  rcases delegate_cases resolved handed with ⟨entry, member, rfl, -⟩ | ⟨name, policy, -⟩
  · exact .entry direct member uses
  · exact .fallback direct policy uses

/-! A member whose name is stripped. -/

/-- The members that do not have the name. -/
def without (key : String) (members : List (String × Document)) : List (String × Document) :=
  members.filter fun member => member.1 != key

theorem without_key (key : String) (tag : Document) (members : List (String × Document)) :
    without key ((key, tag) :: members) = without key members := by
  simp [without]

theorem without_other {key : String} {member : String × Document} (other : member.1 ≠ key)
    (members : List (String × Document)) :
    without key (member :: members) = member :: without key members := by
  simp [without, other]

section Stripped
variable {key : String} {setting : Setting}

theorem fields_without (strips : setting.strips key = true)
    (members : List (String × Document)) :
    setting.fields? members = setting.fields? (without key members) := by
  unfold Setting.fields?
  generalize (⟨[], []⟩ : Fields) = fields
  induction members generalizing fields with
  | nil => rfl
  | cons member rest ih =>
    by_cases here : member.1 = key
    · obtain ⟨name, tag⟩ := member
      subst here
      have passed : setting.addField fields (name, tag) = some fields := if_pos strips
      rw [without_key, List.foldlM_cons, passed]
      exact ih fields
    · rw [without_other here, List.foldlM_cons, List.foldlM_cons]
      congr 1
      funext fields
      exact ih fields

theorem skips_without (strips : setting.strips key = true)
    (members : List (String × Document)) :
    setting.skips members = setting.skips (without key members) := by
  have passed : (!setting.strict || setting.allows key) = true := by
    rw [Setting.allows_of_strips strips, Bool.or_true]
  unfold Setting.skips
  induction members with
  | nil => rfl
  | cons member rest ih =>
    by_cases here : member.1 = key
    · obtain ⟨name, tag⟩ := member
      subst here
      rw [without_key, List.all_cons, passed, Bool.true_and, ih]
    · rw [without_other here, List.all_cons, List.all_cons, ih]

theorem labelOf_without {other : String} (apart : other ≠ key)
    (members : List (String × Document)) :
    labelOf? other members = labelOf? other (without key members) := by
  induction members with
  | nil => rfl
  | cons member rest ih =>
    obtain ⟨name, tag⟩ := member
    by_cases here : name = key
    · subst here
      rw [without_key, labelOf?, if_neg apart.symm, ih]
    · rw [without_other here, labelOf?, labelOf?, ih]

/-- An adapter that uses no table with the key sees nothing of the member that has it. -/
theorem ofMembers_without {adapter : Adapter α} (strips : setting.strips key = true)
    (apart : ∀ table, adapter.Uses table → table.key ≠ key)
    (members : List (String × Document)) :
    adapter.ofMembers? setting members = adapter.ofMembers? setting (without key members) := by
  induction adapter using Adapter.handed_induction generalizing setting with
  | record form =>
    rw [Adapter.ofMembers?, Adapter.ofMembers?, fields_without strips]
  | payload form =>
    rw [Adapter.ofMembers?, Adapter.ofMembers?, PayloadForm.ofMembers?, PayloadForm.ofMembers?,
      fields_without strips]
  | singleton value =>
    rw [Adapter.ofMembers?, Adapter.ofMembers?, skips_without strips]
  | failOnUnknown inner ih =>
    have within (table : Table α) (uses : inner.Uses table) : table.key ≠ key :=
      apart table uses.failOnUnknown
    have strips : (setting.strictly true).strips key = true := strips
    rw [Adapter.ofMembers?, Adapter.ofMembers?]
    exact ih strips within
  | tagged table strict ih =>
    have other : table.key ≠ key := apart table (.own (List.mem_singleton.mpr rfl))
    rw [Adapter.ofMembers?, Adapter.ofMembers?, Table.ofMembers?_eq, Table.ofMembers?_eq,
      labelOf_without other]
    congr 1
    apply Option.bind_congr
    intro label labeled
    apply Option.bind_congr
    intro target found
    have resolved := toOption_some.mp found
    cases handed : target.delegate? with
    | none =>
      obtain ⟨result, taken⟩ := Target.ofMembers?_kept handed
      rw [taken, taken]
    | some delegate =>
      obtain ⟨adapter, stripped⟩ := delegate
      have strips : ((setting.strictly strict).withKey table.key stripped).strips key = true := by
        rw [Setting.strips_withKey, if_neg other.symm]
        exact strips
      have within (inner : Table α) (uses : adapter.Uses inner) : inner.key ≠ key :=
        apart inner (.handed resolved handed uses)
      rw [Target.ofMembers?_handed handed, Target.ofMembers?_handed handed]
      congr 1
      exact ih label target adapter stripped resolved handed strips within

end Stripped

/-! Tagged members. -/

/-- The members are the others with one more among them, which has the key and one of the labels. -/
def Tagged (key : String) (labels : List String) (others members : List (String × Document)) :
    Prop :=
  ∃ before after tag label, members = before ++ (key, tag) :: after ∧ others = before ++ after ∧
    labelText? tag = some label ∧ label ∈ labels

section Tagged
variable {key : String} {labels : List String} {others members : List (String × Document)}

theorem without_fresh (fresh : key ∉ others.map Prod.fst) : without key others = others := by
  apply List.filter_eq_self.mpr
  intro member here
  have named : member.1 ∈ others.map Prod.fst := List.mem_map_of_mem here
  simpa using fun same : member.1 = key => fresh (same ▸ named)

theorem Tagged.without (tagged : Tagged key labels others members)
    (fresh : key ∉ others.map Prod.fst) : Hierarchy.without key members = others := by
  obtain ⟨before, after, tag, label, rfl, rfl, -, -⟩ := tagged
  rw [← without_fresh fresh]
  simp [Hierarchy.without]

theorem Tagged.label (tagged : Tagged key labels others members)
    (fresh : key ∉ others.map Prod.fst) :
    ∃ label ∈ labels, labelOf? key members = some (some label) := by
  obtain ⟨before, after, tag, label, rfl, rfl, text, known⟩ := tagged
  refine ⟨label, known, ?_⟩
  rw [List.map_append] at fresh
  have first : key ∉ before.map Prod.fst := fun here => fresh (List.mem_append_left _ here)
  clear fresh
  induction before with
  | nil => rw [List.nil_append, labelOf?, if_pos rfl, text, Option.map_some]
  | cons member rest ih =>
    rw [List.map_cons, List.mem_cons, not_or] at first
    rw [List.cons_append, labelOf?, if_neg (Ne.symm first.1)]
    exact ih first.2

/-- A label has no parts, so it makes no object deeper. -/
theorem Tagged.depth (tagged : Tagged key labels others members) :
    (Document.object members).depth = (Document.object others).depth := by
  obtain ⟨before, after, tag, label, rfl, rfl, text, -⟩ := tagged
  have flat : tag.depth = 0 := by cases tag <;> first | rfl | cases text
  rw [Document.depth, Document.depth]
  congr 1
  induction before with
  | nil => rw [List.nil_append, List.nil_append, Document.depthMembers, flat, Nat.zero_max]
  | cons member rest ih =>
    rw [List.cons_append, List.cons_append, Document.depthMembers, Document.depthMembers, ih]

/-- What a table makes of tagged members depends on the others alone. -/
theorem Tagged.ofMembers (tagged : Tagged key labels others members)
    (fresh : key ∉ others.map Prod.fst) {table : Table α} (named : table.key = key)
    (distinct : table.labels.Nodup) {entry : Entry α} (member : entry ∈ table.members)
    (own : entry.labels = labels)
    (apart : ∀ inner, entry.body.adapterOf.Uses inner → inner.key ≠ key) (strict : Bool)
    (setting : Setting) : table.ofMembers? strict setting members =
      (entry.body.adapterOf.ofMembers? ((setting.strictly strict).withKey key true) others).map
        some := by
  subst named
  subst own
  obtain ⟨label, known, labeled⟩ := tagged.label fresh
  have resolved := resolve_of_lookup (lookup_of_mem distinct member known)
  have strips : ((setting.strictly strict).withKey table.key true).strips table.key = true := by
    rw [Setting.strips_withKey, if_pos rfl]
  rw [Table.ofMembers?_resolved labeled resolved, Target.ofMembers?_handed rfl,
    ofMembers_without strips apart, tagged.without fresh]

/-- So does what it reads from a text. -/
theorem Tagged.fromJson (tagged : Tagged key labels others members)
    (fresh : key ∉ others.map Prod.fst) {table : Table α} (named : table.key = key)
    (distinct : table.labels.Nodup) {entry : Entry α} (member : entry ∈ table.members)
    (own : entry.labels = labels)
    (apart : ∀ inner, entry.body.adapterOf.Uses inner → inner.key ≠ key) {text : String}
    (spells : Spells text (.object members)) (strict : Bool) (result : Option α) :
    table.fromJson strict text = .ok result ↔ (Document.object others).depth ≤ depthLimit ∧
      (entry.body.adapterOf.ofMembers? ((Setting.outermost.strictly strict).withKey key true)
        others).map some = some result := by
  rw [Table.fromJson_ok, ← tagged.depth,
    ← tagged.ofMembers fresh named distinct member own apart strict Setting.outermost]
  constructor
  · rintro ⟨document, other, shallow, made⟩
    obtain rfl := spells_unique other spells
    exact ⟨shallow, made⟩
  · rintro ⟨shallow, made⟩
    exact ⟨.object members, spells, shallow, made⟩

end Tagged

/-- If no table inside an entry has the key of the table around it, an object that has the key once,
with a label of the entry, is read the same wherever that member stands and whichever of the labels
it is. -/
theorem label_place_free {key : String} {declarations : List (Declaration α)} {table : Table α}
    (built : Table.build key declarations = .ok table) {entry : Entry α}
    (member : entry ∈ table.members)
    (apart : ∀ inner, entry.body.adapterOf.Uses inner → inner.key ≠ key)
    {others left right : List (String × Document)} (once : key ∉ others.map Prod.fst)
    (first : Tagged key entry.labels others left) (second : Tagged key entry.labels others right)
    {text again : String} (spells : Spells text (.object left))
    (respells : Spells again (.object right)) (strict : Bool) (result : Option α) :
    table.fromJson strict text = .ok result ↔ table.fromJson strict again = .ok result := by
  have builds := build_ok built
  rw [first.fromJson once builds.key_eq builds.labels member rfl apart spells,
    second.fromJson once builds.key_eq builds.labels member rfl apart respells]

/-- An entry with two labels, and a hierarchy under another key in it. -/
def drawingEntry : Entry Variant :=
  ⟨"Drawing", "drawing", ["picture"], .adapter (.tagged shapesTable false)⟩

def drawingsTable : Table Variant := ⟨"type", [drawingEntry], [], .none⟩

theorem drawing_uses {inner : Table Variant} (uses : drawingEntry.body.adapterOf.Uses inner) :
    inner = shapesTable := by
  cases uses with
  | own direct => exact List.mem_singleton.mp direct
  | @entry _ table _ entry direct member uses =>
    -- The one member of the inner hierarchy is a record, which uses no table.
    obtain rfl := List.mem_singleton.mp direct
    obtain rfl := List.mem_singleton.mp member
    cases uses with
    | own direct => cases direct
    | entry direct => cases direct
    | fallback direct => cases direct
  | fallback direct policy =>
    obtain rfl := List.mem_singleton.mp direct
    cases policy

theorem label_place_free_drawing : ∃ result,
    drawingsTable.fromJson true (Value.object [("type", .string "drawing"), ("r", .null),
      ("shape", .string "round")]).text = .ok (some result) ∧
    drawingsTable.fromJson true (Value.object [("r", .null), ("shape", .string "round"),
      ("type", .string "picture")]).text = .ok (some result) := by
  have built : Table.build "type" [⟨"Drawing", some "drawing", ["picture"],
      .adapter (.tagged shapesTable false)⟩] = .ok drawingsTable := rfl
  have apart (inner : Table Variant) (uses : drawingEntry.body.adapterOf.Uses inner) :
      inner.key ≠ "type" := by
    rw [drawing_uses uses]
    decide
  have read : drawingsTable.fromJson true (Value.object [("type", .string "drawing"),
      ("r", .null), ("shape", .string "round")]).text = .ok (some ⟨"Circle", [("r", .null)]⟩) := by
    have outer : drawingsTable.resolve (some "drawing") = .ok (.subtype drawingEntry) := rfl
    have inner : shapesTable.resolve (some "round") = .ok (.subtype circleEntry) := rfl
    have leads : drawingEntry.body.adapterOf = .tagged shapesTable false := rfl
    have leaf : circleEntry.body.adapterOf = Variant.record "Circle" ["type", "shape"] := rfl
    apply Table.fromJson_ok.mpr
    refine ⟨_, Value.text_spells _, by decide, ?_⟩
    show drawingsTable.ofMembers? true Setting.outermost _ = _
    rw [Table.ofMembers?_resolved (by rfl) outer, Target.ofMembers?_handed rfl, leads,
      Adapter.ofMembers?, Table.ofMembers?_resolved (by rfl) inner, Target.ofMembers?_handed rfl,
      leaf, Variant.record, Adapter.ofMembers?]
    rfl
  have first : Tagged "type" drawingEntry.labels [("r", .null), ("shape", .string "round")]
      [("type", .string "drawing"), ("r", .null), ("shape", .string "round")] :=
    ⟨[], _, .string "drawing", "drawing", rfl, rfl, rfl, by decide⟩
  have second : Tagged "type" drawingEntry.labels [("r", .null), ("shape", .string "round")]
      [("r", .null), ("shape", .string "round"), ("type", .string "picture")] :=
    ⟨[("r", .null), ("shape", .string "round")], [], .string "picture", "picture", rfl, rfl, rfl,
      by decide⟩
  refine ⟨_, read, ?_⟩
  exact (label_place_free built List.mem_cons_self apart (by decide) first second
    (Value.text_spells _) (Value.text_spells _) true _).mp read

end TaggedJson.Hierarchy
