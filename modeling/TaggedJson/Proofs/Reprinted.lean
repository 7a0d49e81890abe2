import TaggedJson.HierarchyFile.Parser
import TaggedJson.HierarchyFile.Printer
import TaggedJson.Proofs.Trees
/-! Hierarchy files written again. What is left out on writing is what reading puts in, and nothing
is written that nests deeper than what was read, so a file that was read is read again as it was. -/
namespace TaggedJson
open Json

namespace Json

/-! Records as they are written. -/

/-- The members of a record, of which each field has a value or is left out. -/
def present : List String → List (Option Value) → Members
  | name :: names, some value :: values => (name, value) :: present names values
  | _ :: names, none :: values => present names values
  | _, _ => []

theorem present_names (names : List String) (values : List (Option Value)) :
    ((present names values).map Prod.fst).Sublist names := by
  fun_induction present names values with
  | case1 name names value values ih => exact ih.cons_cons name
  | case2 name names values ih => exact ih.cons name
  | case3 => exact List.nil_sublist _

theorem present_values {names : List String} {values : List (Option Value)}
    {member : String × Value} (here : member ∈ present names values) :
    some member.2 ∈ values := by
  fun_induction present names values with
  | case1 name names value values ih =>
    rcases List.mem_cons.mp here with rfl | later
    · exact List.mem_cons_self
    · exact List.mem_cons_of_mem _ (ih later)
  | case2 name names values ih => exact List.mem_cons_of_mem _ (ih here)
  | case3 => cases here

theorem present_of_value {names : List String} {values : List (Option Value)}
    (same : names.length = values.length) {value : Value} (here : some value ∈ values) :
    ∃ name, (name, value) ∈ present names values := by
  induction names generalizing values with
  | nil =>
    rw [List.length_eq_zero_iff.mp same.symm] at here
    cases here
  | cons name names ih =>
    cases values with
    | nil => cases same
    | cons first values =>
      rcases List.mem_cons.mp here with rfl | later
      · exact ⟨name, List.mem_cons_self⟩
      · obtain ⟨other, inside⟩ := ih (Nat.succ.inj same) later
        cases first with
        | none => exact ⟨other, inside⟩
        | some _ => exact ⟨other, List.mem_cons_of_mem _ inside⟩

theorem present_lookup {names : List String} {values : List (Option Value)}
    (distinct : names.Nodup) (same : names.length = values.length) :
    names.map (fun name => (present names values).lookup name) = values := by
  induction names generalizing values with
  | nil => exact (List.length_eq_zero_iff.mp same.symm).symm
  | cons name names ih =>
    obtain ⟨fresh, others⟩ := List.nodup_cons.mp distinct
    cases values with
    | nil => cases same
    | cons value values =>
      have inner := ih others (Nat.succ.inj same)
      cases value with
      | none =>
        have absent : (present names values).lookup name = none := by
          rw [List.lookup_eq_none_iff]
          intro member here
          have other : member.1 ∈ names :=
            (present_names names values).subset (List.mem_map_of_mem here)
          simpa using fun equal : name = member.1 => fresh (equal ▸ other)
        rw [List.map_cons, present, absent, inner]
      | some value =>
        have behind : names.map (fun other =>
            (present (name :: names) (some value :: values)).lookup other) =
              names.map fun other => (present names values).lookup other := by
          refine List.map_congr_left fun other here => ?_
          have differs : (other == name) = false := by
            simpa using fun equal : other = name => fresh (equal ▸ here)
          rw [present, List.lookup_cons, differs]
        rw [List.map_cons, behind, inner, present, List.lookup_cons_self]

theorem lookup_trees (members : Members) (name : String) :
    (members.map fun (name, value) => (name, value.tree)).lookup name =
      (members.lookup name).map Value.tree := by
  induction members with
  | nil => rfl
  | cons member rest ih =>
    rw [List.map_cons, List.lookup_cons, List.lookup_cons, ih]
    split <;> rfl

/-- The fields of a written record are found in its tree. -/
theorem slots_present {names : List String} {values : List (Option Value)} (distinct : names.Nodup)
    (same : names.length = values.length) (closed : Bool) :
    (Value.object (present names values)).tree.slots? names closed =
      some (values.map (Option.map Value.tree)) := by
  have found : names.map (fun name =>
      ((present names values).map fun (name, value) => (name, value.tree)).lookup name) =
        values.map (Option.map Value.tree) := by
    simp only [lookup_trees]
    conv_rhs => rw [← present_lookup distinct same, List.map_map]
    rfl
  have listed : (((present names values).map fun (name, value) => (name, value.tree)).map
      Prod.fst).Sublist names := by
    rw [List.map_map]
    exact present_names names values
  rw [Value.tree, Tree.slots?, Value.memberTrees_named]
  generalize (present names values).map (fun (name, value) => (name, value.tree)) = trees
    at found listed
  have known : ∀ member ∈ trees, member.1 ∈ names := fun member here =>
    listed.subset (List.mem_map_of_mem here)
  have all : trees.partition (fun member => names.contains member.1) = (trees, []) := by
    rw [List.partition_eq_filter_filter, List.filter_eq_self.mpr, List.filter_eq_nil_iff.mpr]
    all_goals simpa using known
  simp only [Option.bind_eq_bind, Option.bind_some, all, listed.nodup distinct, decide_true,
    List.isEmpty_nil, Bool.true_or, Bool.and_true, if_true, found]

/-! Contents of fields, written and read. -/

theorem mem_mapM {β γ : Type} {read? : β → Option γ} {parts : List β} {items : List γ}
    (read : parts.mapM read? = some items) {item : γ} (here : item ∈ items) :
    ∃ part ∈ parts, read? part = some item := by
  induction parts generalizing items with
  | nil =>
    cases read
    cases here
  | cons part rest ih =>
    rw [List.mapM_cons] at read
    obtain ⟨first, one, read⟩ := Option.bind_eq_some_iff.mp read
    obtain ⟨others, later, read⟩ := Option.bind_eq_some_iff.mp read
    cases read
    rcases List.mem_cons.mp here with rfl | behind
    · exact ⟨part, List.mem_cons_self, one⟩
    · obtain ⟨found, within, same⟩ := ih later behind
      exact ⟨found, List.mem_cons_of_mem _ within, same⟩

namespace Slot

theorem text_written (text : String) : text? (Value.string text).tree = some text :=
  textOf_written text

theorem list_written {β : Type} {item? : Tree → Option β} {write : β → Value} {items : List β}
    (reads : ∀ item ∈ items, item? (write item).tree = some item) :
    list? item? (Value.array (items.map write)).tree = some items := by
  show (Value.itemTrees (items.map write)).mapM item? = some items
  induction items with
  | nil => rfl
  | cons item rest ih =>
    obtain ⟨first, others⟩ := List.forall_mem_cons.mp reads
    rw [List.map_cons, Value.itemTrees, List.mapM_cons, first, ih others]
    rfl

/-- What is left out is missing, and what is written is not null. -/
theorem nullable_written {β : Type} {read? : Tree → Option β} {write : β → Value} {field : Option β}
    (reads : ∀ item ∈ field, read? (write item).tree = some item)
    (solid : ∀ item, (write item).tree ≠ .null) :
    nullable? read? ((field.map write).map Value.tree) = some field := by
  cases field with
  | none => rfl
  | some item =>
    rw [Option.map_some, Option.map_some, nullable?.eq_3 _ _ (solid item), reads item rfl]
    rfl

/-- What is not the default has been read. -/
theorem read_of_withDefault {β : Type} {default item : β} {read? : Tree → Option β}
    {slot : Option Tree} (read : withDefault? default read? slot = some item)
    (other : item ≠ default) : ∃ tree, slot = some tree ∧ read? tree = some item := by
  cases slot with
  | none => exact (other (Option.some.inj read).symm).elim
  | some tree => exact ⟨tree, rfl, read⟩

theorem read_of_nullable {β : Type} {item : β} {read? : Tree → Option β} {slot : Option Tree}
    (read : nullable? read? slot = some (some item)) :
    ∃ tree, slot = some tree ∧ read? tree = some item := by
  unfold nullable? at read
  split at read
  · cases read
  · cases read
  · obtain ⟨_, found, ⟨⟩⟩ := Option.map_eq_some_iff.mp read
    exact ⟨_, rfl, found⟩

end Slot

/-! Depths. -/

theorem itemsDepth_le_iff {items : List Value} {depth : Nat} :
    Value.depthItems items ≤ depth ↔ ∀ item ∈ items, item.depth ≤ depth :=
  deepest_le_iff Value.depth rfl fun _ _ => rfl

theorem item_depth {items : List Tree} {item : Tree} (here : item ∈ items) :
    item.depth ≤ Tree.depthItems items := le_deepest Tree.depth rfl (fun _ _ => rfl) here

theorem member_depth {members : List (List Piece × Tree)} {member : List Piece × Tree}
    (here : member ∈ members) : member.2.depth ≤ Tree.depthMembers members :=
  le_deepest (fun member : List Piece × Tree => member.2.depth) rfl (fun _ _ => rfl) here

/-- A written record nests no deeper than so, if no field of it does. -/
theorem present_depth {names : List String} {values : List (Option Value)} {depth : Nat}
    (shallow : ∀ value, some value ∈ values → value.depth ≤ depth) :
    (Value.object (present names values)).depth ≤ depth + 1 :=
  Nat.succ_le_succ (depthMembers_le_iff.mpr fun _ here => shallow _ (present_values here))

/-- What a tree says of a field is a part of it. -/
theorem slot_depth {tree : Tree} {names : List String} {closed : Bool}
    {slots : List (Option Tree)} (found : tree.slots? names closed = some slots) {slot : Tree}
    (here : some slot ∈ slots) : slot.depth < tree.depth := by
  cases tree with
  | array items =>
    simp only [Tree.slots?, Option.ite_none_right_eq_some, Option.some.injEq] at found
    obtain ⟨-, rfl⟩ := found
    rcases List.mem_append.mp here with inside | missing
    · obtain ⟨_, item, ⟨⟩⟩ := List.mem_map.mp inside
      exact Nat.lt_succ_of_le (item_depth item)
    · cases List.eq_of_mem_replicate missing
  | object members =>
    obtain ⟨named, decoded, found⟩ := Option.bind_eq_some_iff.mp found
    simp only [Option.ite_none_right_eq_some, Option.some.injEq] at found
    obtain ⟨-, rfl⟩ := found
    obtain ⟨name, -, looked⟩ := List.mem_map.mp here
    obtain ⟨before, after, split, -⟩ := List.lookup_eq_some_iff.mp looked
    have known : (name, slot) ∈ named := by
      rw [List.partition_eq_filter_filter] at split
      exact List.mem_of_mem_filter (split ▸ List.mem_append_right _ List.mem_cons_self)
    obtain ⟨⟨pieces, inner⟩, member, same⟩ := mem_mapM decoded known
    obtain ⟨_, -, ⟨⟩⟩ := Option.map_eq_some_iff.mp same
    exact Nat.lt_succ_of_le (member_depth member)
  | null | bool | number | string => cases found

/-- A list is written no deeper than it was read, if its items are not. -/
theorem list_depth {β : Type} {item? : Tree → Option β} {write : β → Value} {tree : Tree}
    {items : List β} (read : Slot.list? item? tree = some items)
    (each : ∀ part item, item? part = some item → (write item).depth ≤ part.depth) :
    (Value.array (items.map write)).depth ≤ tree.depth := by
  cases tree with
  | array parts =>
    refine Nat.succ_le_succ (itemsDepth_le_iff.mpr fun value here => ?_)
    obtain ⟨item, among, rfl⟩ := List.mem_map.mp here
    obtain ⟨part, inside, same⟩ := mem_mapM read among
    exact Nat.le_trans (each part item same) (item_depth inside)
  | null | bool | number | string | object => cases read

end Json

/-! Members. -/

namespace Member

/-- What is written of each field. -/
def written (member : Member) : List (Option Value) :=
  [some (.string member.name), member.label.map .string,
    if member.alternates.isEmpty then none else some (.array (member.alternates.map .string)),
    some (.bool member.singleton), some (.bool member.isDefault), member.key.map .string,
    member.subtypes.map fun subtypes => .array (subtypes.map toValue)]

theorem memberValues_eq (members : List Member) : memberValues members = members.map toValue := by
  induction members with
  | nil => rfl
  | cons member rest ih => rw [memberValues, ih, List.map_cons]

theorem toValue_eq (member : Member) :
    member.toValue = .object (present fields member.written) := by
  obtain ⟨name, label, alternates, singleton, isDefault, key, subtypes⟩ := member
  cases subtypes with
  | none => cases label <;> cases alternates <;> cases key <;> rfl
  | some subtypes =>
    rw [toValue, memberValues_eq]
    cases label <;> cases alternates <;> cases key <;> rfl

theorem written_slots (member : Member) :
    member.toValue.tree.slots? fields true = some (member.written.map (Option.map Value.tree)) := by
  rw [toValue_eq]
  exact slots_present (by decide) rfl true

theorem alternates_written (labels : List String) :
    Slot.withDefault? [] (Slot.list? Slot.text?) ((if labels.isEmpty then none
      else some (Value.array (labels.map .string))).map Value.tree) = some labels := by
  cases labels with
  | nil => rfl
  | cons label rest => exact Slot.list_written fun text _ => Slot.text_written text

theorem written_depth {member : Member} {value : Value} (field : some value ∈ member.written) :
    value.depth < member.toValue.depth := by
  obtain ⟨name, here⟩ : ∃ name, (name, value) ∈ present fields member.written :=
    present_of_value rfl field
  rw [toValue_eq]
  exact Nat.lt_succ_of_le (depthMembers_le_iff.mp (Nat.le_refl _) _ here)

/-- A written member is read again, with the parts it is made of. -/
theorem ofTree_written (levels : Nat) (member : Member) (shallow : member.toValue.depth ≤ levels) :
    ofTree? levels member.toValue.tree = some member := by
  induction levels generalizing member with
  | zero =>
    rw [toValue_eq] at shallow
    cases shallow
  | succ levels ih =>
    have inner : ∀ subtypes ∈ member.subtypes, ∀ other ∈ subtypes,
        ofTree? levels other.toValue.tree = some other := by
      intro subtypes has other here
      have field : some (.array (subtypes.map toValue)) ∈ member.written := by
        simp [written, Option.mem_def.mp has]
      have below := Nat.lt_of_lt_of_le (written_depth field) shallow
      have deep : other.toValue.depth ≤ Value.depthItems (subtypes.map toValue) :=
        itemsDepth_le_iff.mp (Nat.le_refl _) _ (List.mem_map_of_mem here)
      rw [Value.depth] at below
      exact ih other (by omega)
    obtain ⟨name, label, alternates, singleton, isDefault, key, subtypes⟩ := member
    rw [ofTree?, written_slots]
    simp only [written, List.map_cons, List.map_nil, Option.bind_eq_bind, Option.bind_some,
      Option.map_some, Slot.text_written, alternates_written]
    rw [Slot.nullable_written (fun text _ => Slot.text_written text) fun _ => nofun,
      Slot.nullable_written (fun text _ => Slot.text_written text) fun _ => nofun,
      Slot.nullable_written (fun subtypes has => Slot.list_written (inner subtypes has))
        fun _ => nofun]
    rfl

/-! What was read is written no deeper. -/

/-- A member that has been read, by what was read from the slots of its fields. -/
theorem ofTree_slots {levels : Nat} {tree : Tree} {member : Member}
    (read : ofTree? levels tree = some member) :
    ∃ fewer name label alternates singleton isDefault key subtypes, levels = fewer + 1 ∧
      tree.slots? fields true =
        some [some name, label, alternates, singleton, isDefault, key, subtypes] ∧
      Slot.withDefault? [] (Slot.list? Slot.text?) alternates = some member.alternates ∧
      Slot.nullable? (Slot.list? (ofTree? fewer)) subtypes = some member.subtypes := by
  cases levels with
  | zero => cases read
  | succ fewer =>
    obtain ⟨slots, found, read⟩ := Option.bind_eq_some_iff.mp read
    split at read
    · rename_i name label alternates singleton isDefault key subtypes
      obtain ⟨_, -, read⟩ := Option.bind_eq_some_iff.mp read
      obtain ⟨_, -, read⟩ := Option.bind_eq_some_iff.mp read
      obtain ⟨_, labels, read⟩ := Option.bind_eq_some_iff.mp read
      obtain ⟨_, -, read⟩ := Option.bind_eq_some_iff.mp read
      obtain ⟨_, -, read⟩ := Option.bind_eq_some_iff.mp read
      obtain ⟨_, -, read⟩ := Option.bind_eq_some_iff.mp read
      obtain ⟨_, inner, read⟩ := Option.bind_eq_some_iff.mp read
      cases read
      exact ⟨fewer, name, label, alternates, singleton, isDefault, key, subtypes, rfl, found,
        labels, inner⟩
    · cases read

/-- Only lists nest in a written member. -/
theorem written_nests {member : Member} {value : Value} (field : some value ∈ member.written) :
    value.depth = 0 ∨
      (member.alternates ≠ [] ∧ value = .array (member.alternates.map .string)) ∨
      ∃ subtypes, member.subtypes = some subtypes ∧ value = .array (subtypes.map toValue) := by
  simp only [written, List.mem_cons, List.not_mem_nil, or_false, Option.some.injEq,
    eq_comm (a := some value), Option.map_eq_some_iff, Option.ite_none_left_eq_some] at field
  rcases field with rfl | ⟨label, -, rfl⟩ | ⟨nonempty, rfl⟩ | rfl | rfl | ⟨key, -, rfl⟩ |
    ⟨subtypes, has, rfl⟩
  · exact .inl rfl
  · exact .inl rfl
  · exact .inr (.inl ⟨fun empty => nonempty (by rw [empty]; rfl), rfl⟩)
  · exact .inl rfl
  · exact .inl rfl
  · exact .inl rfl
  · exact .inr (.inr ⟨subtypes, has, rfl⟩)

theorem written_le {levels : Nat} {tree : Tree} {member : Member}
    (read : ofTree? levels tree = some member) : member.toValue.depth ≤ tree.depth := by
  induction levels generalizing tree member with
  | zero => cases read
  | succ levels ih =>
    obtain ⟨_, name, label, alternates, singleton, isDefault, key, subtypes, ⟨⟩, found, labels,
      inner⟩ := ofTree_slots read
    have named : name.depth < tree.depth := slot_depth found List.mem_cons_self
    obtain ⟨depth, above⟩ := Nat.exists_eq_succ_of_ne_zero (Nat.ne_zero_of_lt named)
    have slots {slot : Tree} (here : some slot ∈
        [some name, label, alternates, singleton, isDefault, key, subtypes]) :
        slot.depth ≤ depth := Nat.le_of_lt_succ (above ▸ slot_depth found here)
    rw [above, toValue_eq]
    apply present_depth
    intro value field
    -- Each list has been read from one in a slot of its own.
    rcases written_nests field with flat | ⟨nonempty, rfl⟩ | ⟨members, has, rfl⟩
    · rw [flat]
      exact Nat.zero_le _
    · obtain ⟨part, rfl, listed⟩ := Slot.read_of_withDefault labels nonempty
      have flat (inner : Tree) (text : String) (_ : Slot.text? inner = some text) :
          (Value.string text).depth ≤ inner.depth := Nat.zero_le _
      exact Nat.le_trans (list_depth listed flat) (slots (by simp))
    · obtain ⟨part, rfl, listed⟩ := Slot.read_of_nullable (has ▸ inner)
      exact Nat.le_trans (list_depth listed fun _ _ => ih) (slots (by simp))

end Member

namespace HierarchyFile

def written (file : HierarchyFile) : List (Option Value) :=
  [some (.string file.key), some (.bool file.defaultNull),
    some (.array (file.subtypes.map Member.toValue))]

theorem toValue_eq (file : HierarchyFile) :
    file.toValue = .object (present fields file.written) := by
  rw [toValue, Member.memberValues_eq]
  rfl

theorem ofTree_written (file : HierarchyFile) : ofTree? file.toValue.tree = some file := by
  have slots : file.toValue.tree.slots? fields true =
      some (file.written.map (Option.map Value.tree)) := by
    rw [toValue_eq]
    exact slots_present (by decide) rfl true
  have inner : ∀ member ∈ file.subtypes,
      Member.ofTree? file.toValue.tree.depth member.toValue.tree = some member := by
    intro member here
    apply Member.ofTree_written
    have deep : member.toValue.depth ≤ Value.depthItems (file.subtypes.map Member.toValue) :=
      itemsDepth_le_iff.mp (Nat.le_refl _) _ (List.mem_map_of_mem here)
    rw [Value.tree_depth]
    simp only [toValue, Member.memberValues_eq, Value.depth, Value.depthMembers]
    omega
  rw [ofTree?, slots]
  simp only [written, List.map_cons, List.map_nil, Option.bind_eq_bind, Option.bind_some,
    Option.map_some, Slot.list_written inner]
  show (Slot.text? (Value.string file.key).tree).bind _ = _
  rw [Slot.text_written]
  rfl

theorem written_le {tree : Tree} {file : HierarchyFile} (read : ofTree? tree = some file) :
    file.toValue.depth ≤ tree.depth := by
  obtain ⟨slots, found, read⟩ := Option.bind_eq_some_iff.mp read
  split at read
  · rename_i key defaultNull subtypes
    obtain ⟨_, -, read⟩ := Option.bind_eq_some_iff.mp read
    obtain ⟨_, -, read⟩ := Option.bind_eq_some_iff.mp read
    obtain ⟨_, listed, read⟩ := Option.bind_eq_some_iff.mp read
    cases read
    have inner := list_depth listed fun _ _ => Member.written_le
    have slot : subtypes.depth < tree.depth := slot_depth found (by simp)
    simp only [toValue, Member.memberValues_eq, Value.depth, Value.depthMembers] at inner ⊢
    omega
  · cases read

theorem parse_ok {text : String} {file : HierarchyFile} : parse text = .ok file ↔
    ∃ tree, Tree.parse text.toList = some tree ∧ tree.depth ≤ wholeDepthLimit ∧
      ofTree? tree = some file := by
  have bound : (Tree.parse text.toList).bind (fun tree =>
      if tree.depth ≤ wholeDepthLimit then ofTree? tree else none) = some file ↔
      ∃ tree, Tree.parse text.toList = some tree ∧ tree.depth ≤ wholeDepthLimit ∧
        ofTree? tree = some file := by
    simp only [Option.bind_eq_some_iff, Option.ite_none_right_eq_some]
  rw [← bound, parse]
  generalize (Tree.parse text.toList).bind _ = found
  cases found <;> simp

/-- A file is read from what it is written as, unless that nests too deep. -/
theorem parse_text_iff (file : HierarchyFile) :
    parse file.text = .ok file ↔ file.toValue.depth ≤ wholeDepthLimit := by
  rw [parse_ok, text, Tree.parse_text]
  constructor
  · rintro ⟨_, ⟨⟩, shallow, -⟩
    rwa [Value.tree_depth] at shallow
  · intro shallow
    exact ⟨_, rfl, by rwa [Value.tree_depth], ofTree_written file⟩

/-- A hierarchy file that has been read is read again from what it is written as. -/
theorem parse_reprinted (text : String) (file : HierarchyFile) (read : parse text = .ok file) :
    parse file.text = .ok file := by
  obtain ⟨tree, -, shallow, found⟩ := parse_ok.mp read
  exact (parse_text_iff file).mpr (Nat.le_trans (written_le found) shallow)

/-- A file and a member given as arrays, and fields left out, null and empty. -/
def arrays : Value :=
  .array [.string "kind", .bool true, .array [
    .object [("subtypes", .array []), ("label", .null), ("name", .string "A")],
    .array [.string "B", .string "b", .array []]]]

def mixed : HierarchyFile :=
  ⟨"kind", true, [⟨"A", none, [], false, false, none, some []⟩,
    ⟨"B", some "b", [], false, false, none, none⟩]⟩

theorem parse_reprinted_mixed : parse arrays.text = .ok mixed ∧ parse mixed.text = .ok mixed := by
  have read : parse arrays.text = .ok mixed :=
    parse_ok.mpr ⟨arrays.tree, Tree.parse_text arrays, by decide, rfl⟩
  exact ⟨read, parse_reprinted arrays.text mixed read⟩

end HierarchyFile
end TaggedJson
