import Mathlib.Data.List.Nodup
import TaggedJson.Proofs.Objects
import TaggedJson.Proofs.Printed
/-! Fields of objects. Those that are read have distinct names and hold values of documents, and
fields that are written are read as they were. -/
namespace TaggedJson.Json

/-! Values of documents. -/

mutual
theorem value_sound : ∀ (document : Document) {value : Value}, document.value? = some value →
    value.Distinct ∧ value.depth = document.depth
  | .null, _, rfl | .bool _, _, rfl | .string _, _, rfl => ⟨trivial, rfl⟩
  | .number literal, value, made => by
    obtain ⟨n, -, rfl⟩ := Option.map_eq_some_iff.mp made
    exact ⟨trivial, rfl⟩
  | .array items, value, made => by
    obtain ⟨values, inner, rfl⟩ := Option.map_eq_some_iff.mp made
    obtain ⟨distinct, depth⟩ := itemValues_sound items inner
    exact ⟨distinct, congrArg (· + 1) depth⟩
  | .object members, value, made => by
    obtain ⟨values, inner, checked⟩ := Option.bind_eq_some_iff.mp made
    obtain ⟨distinct, depth⟩ := memberValues_sound members inner
    split at checked
    · rename_i names
      cases checked
      exact ⟨⟨names, distinct⟩, congrArg (· + 1) depth⟩
    · cases checked

theorem itemValues_sound : ∀ (items : List Document) {values : List Value},
    Document.itemValues? items = some values →
    Value.ItemsDistinct values ∧ Value.depthItems values = Document.depthItems items
  | [], _, rfl => ⟨trivial, rfl⟩
  | item :: rest, values, made => by
    obtain ⟨first, one, others⟩ := Option.bind_eq_some_iff.mp made
    obtain ⟨more, inner, rfl⟩ := Option.map_eq_some_iff.mp others
    obtain ⟨distinct, depth⟩ := value_sound item one
    obtain ⟨later, deeper⟩ := itemValues_sound rest inner
    exact ⟨⟨distinct, later⟩, congrArg₂ max depth deeper⟩

theorem memberValues_sound : ∀ (members : List (String × Document)) {values : Members},
    Document.memberValues? members = some values →
    Value.MembersDistinct values ∧ Value.depthMembers values = Document.depthMembers members
  | [], _, rfl => ⟨trivial, rfl⟩
  | (name, document) :: rest, values, made => by
    obtain ⟨first, one, others⟩ := Option.bind_eq_some_iff.mp made
    obtain ⟨more, inner, rfl⟩ := Option.map_eq_some_iff.mp others
    obtain ⟨distinct, depth⟩ := value_sound document one
    obtain ⟨later, deeper⟩ := memberValues_sound rest inner
    exact ⟨⟨distinct, later⟩, congrArg₂ max depth deeper⟩
end

theorem membersDistinct_iff {members : Members} :
    Value.MembersDistinct members ↔ ∀ member ∈ members, member.2.Distinct := by
  induction members with
  | nil => exact ⟨fun _ => nofun, fun _ => trivial⟩
  | cons member rest ih =>
    rw [List.forall_mem_cons, ← ih]
    rfl

section Deepest
variable {β : Type} (depth : β → Nat) {deepest : List β → Nat} (none : deepest [] = 0)
  (more : ∀ part rest, deepest (part :: rest) = max (depth part) (deepest rest)) {parts : List β}
include none more

/-- The parts of a container are no deeper than so if none of them is. -/
theorem deepest_le_iff {bound : Nat} :
    deepest parts ≤ bound ↔ ∀ part ∈ parts, depth part ≤ bound := by
  induction parts with
  | nil => exact ⟨fun _ => nofun, fun _ => none ▸ Nat.zero_le bound⟩
  | cons part rest ih => rw [more, Nat.max_le, ih, List.forall_mem_cons]

theorem le_deepest {part : β} (here : part ∈ parts) : depth part ≤ deepest parts :=
  (deepest_le_iff depth none more).mp (Nat.le_refl _) part here

end Deepest

theorem depthMembers_le_iff {members : Members} {depth : Nat} :
    Value.depthMembers members ≤ depth ↔ ∀ member ∈ members, member.2.depth ≤ depth :=
  deepest_le_iff (fun member : String × Value => member.2.depth) rfl fun _ _ => rfl

theorem depth_member {members : List (String × Document)} {member : String × Document}
    (here : member ∈ members) : member.2.depth ≤ Document.depthMembers members :=
  le_deepest (fun member : String × Document => member.2.depth) rfl (fun _ _ => rfl) here

namespace Members

theorem put_fresh {members : Members} {name : String} (fresh : name ∉ members.map Prod.fst)
    (value : Value) : members.put name value = members ++ [(name, value)] := by
  induction members with
  | nil => rfl
  | cons member rest ih =>
    rw [List.map_cons, List.mem_cons, not_or] at fresh
    rw [put, if_neg (Ne.symm fresh.1), ih fresh.2]
    rfl

theorem put_names {members : Members} {name : String} (present : name ∈ members.map Prod.fst)
    (value : Value) : (members.put name value).map Prod.fst = members.map Prod.fst := by
  induction members with
  | nil => cases present
  | cons member rest ih =>
    rw [put]
    split
    · rename_i same
      rw [List.map_cons, List.map_cons, same]
    · rename_i other
      rcases List.mem_cons.mp present with here | later
      · exact (other here.symm).elim
      · rw [List.map_cons, List.map_cons, ih later]

theorem mem_put_names {members : Members} {name other : String} {value : Value} :
    name ∈ (members.put other value).map Prod.fst ↔ name = other ∨ name ∈ members.map Prod.fst := by
  by_cases present : other ∈ members.map Prod.fst
  · rw [put_names present]
    constructor
    · exact .inr
    · rintro (rfl | before)
      · exact present
      · exact before
  · rw [put_fresh present, List.map_append, List.mem_append, or_comm]
    simp

theorem put_nodup {members : Members} (distinct : (members.map Prod.fst).Nodup) (name : String)
    (value : Value) : ((members.put name value).map Prod.fst).Nodup := by
  by_cases present : name ∈ members.map Prod.fst
  · rwa [put_names present]
  · rw [put_fresh present, List.map_append, List.map_singleton, ← List.concat_eq_append]
    exact distinct.concat present

theorem mem_put {members : Members} {name : String} {value : Value} {member : String × Value}
    (here : member ∈ members.put name value) : member = (name, value) ∨ member ∈ members := by
  induction members with
  | nil => exact .inl (List.mem_singleton.mp here)
  | cons first rest ih =>
    rw [put] at here
    split at here
    · rcases List.mem_cons.mp here with same | later
      · exact .inl same
      · exact .inr (List.mem_cons_of_mem _ later)
    · rcases List.mem_cons.mp here with rfl | later
      · exact .inr List.mem_cons_self
      · exact (ih later).imp_right (List.mem_cons_of_mem _)

end Members
end TaggedJson.Json

namespace TaggedJson.Pull.Setting
open Json

/-- Fields that some members of an object can leave. -/
structure Sound (setting : Setting) (members : List (String × Document)) (fields : Members) :
    Prop where
  names : (fields.map Prod.fst).Nodup
  distinct : ∀ field ∈ fields, field.2.Distinct
  shallow : ∀ field ∈ fields, field.2.depth ≤ Document.depthMembers members
  kept : ∀ field ∈ fields, setting.strips field.1 = false

theorem addField_sound {setting : Setting} {members : List (String × Document)}
    {member : String × Document} {fields next : Fields} (here : member ∈ members)
    (added : setting.addField fields member = some next)
    (sound : setting.Sound members fields.values) : setting.Sound members next.values := by
  unfold addField at added
  split at added
  · cases added
    exact sound
  · rename_i keeps
    obtain ⟨value, made, rfl⟩ := Option.map_eq_some_iff.mp added
    obtain ⟨distinct, depth⟩ := value_sound _ made
    refine ⟨Members.put_nodup sound.names _ _, fun field put => ?_, fun field put => ?_,
      fun field put => ?_⟩ <;> rcases Members.mem_put put with rfl | before
    · exact distinct
    · exact sound.distinct field before
    · exact Nat.le_trans (Nat.le_of_eq depth) (depth_member here)
    · exact sound.shallow field before
    · simpa using keeps
    · exact sound.kept field before

theorem fields_sound {setting : Setting} {members : List (String × Document)} {fields : Fields}
    (taken : setting.fields? members = some fields) : setting.Sound members fields.values := by
  -- All members bound the depth of each field, so the induction is on those still to be added.
  have folded (some : List (String × Document)) (within : ∀ member ∈ some, member ∈ members)
      (before : Fields) (sound : setting.Sound members before.values)
      (taken : some.foldlM setting.addField before = .some fields) :
      setting.Sound members fields.values := by
    induction some generalizing before with
    | nil =>
      cases taken
      exact sound
    | cons member rest ih =>
      rw [List.foldlM_cons] at taken
      obtain ⟨next, added, others⟩ := Option.bind_eq_some_iff.mp taken
      refine ih (fun later there => within later (List.mem_cons_of_mem _ there)) next ?_ others
      exact addField_sound (within member List.mem_cons_self) added sound
  exact folded members (fun _ => id) ⟨[], []⟩ ⟨List.nodup_nil, nofun, nofun, nofun⟩ taken

/-- Without keys around, written fields are read as they were. -/
theorem fields_written {setting : Setting} (bare : setting.keys = []) {fields : Members}
    (distinct : (Value.object fields).Distinct) :
    setting.fields? (Value.memberDocuments fields) = some ⟨fields, []⟩ := by
  obtain ⟨names, values⟩ := distinct
  -- What is there already stays in front, and every name that comes is new.
  have folded (before rest : Members) (apart : ((before ++ rest).map Prod.fst).Nodup)
      (values : Value.MembersDistinct rest) :
      (Value.memberDocuments rest).foldlM setting.addField ⟨before, []⟩ =
        some ⟨before ++ rest, []⟩ := by
    induction rest generalizing before with
    | nil => rw [List.append_nil]; rfl
    | cons member rest ih =>
      obtain ⟨name, value⟩ := member
      have fresh : name ∉ before.map Prod.fst := by
        rw [List.map_append, List.nodup_append] at apart
        exact fun here => apart.2.2 name here name List.mem_cons_self rfl
      have added : setting.addField ⟨before, []⟩ (name, value.document) =
          some ⟨before ++ [(name, value)], []⟩ := by
        rw [addField, bare_strips bare, bare_allows bare, Value.document_value value values.1]
        simp [Members.put_fresh fresh]
      rw [Value.memberDocuments, List.foldlM_cons, added]
      have later := ih (before ++ [(name, value)]) (by simpa using apart) values.2
      rwa [List.append_assoc] at later
  exact folded [] fields names values

end TaggedJson.Pull.Setting
