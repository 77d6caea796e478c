import Mathlib.Data.List.Nodup
import ReactorCausality.Decode
import ReactorCausality.Proofs.Json.Outline
import ReactorCausality.Proofs.Outcome
import ReactorCausality.Proofs.Time.Literal

/-!
Reading values out of documents that have been written for them. A reader recovers a value if it reads
it from its document, unless the document nests too deep for it, and then refuses the document
(`Recovers`). Lists, alternatives and records recover what they are made of if readers of their parts
do.
-/
namespace ReactorCausality

namespace Json

mutual

/-- How deep arrays and objects nest. -/
def nesting : Json → Nat
  | array elements => nestingAll elements + 1
  | object members => nestingMembers members + 1
  | _ => 0

def nestingAll : List Json → Nat
  | [] => 0
  | element :: rest => max (nesting element) (nestingAll rest)

def nestingMembers : List (String × Json) → Nat
  | [] => 0
  | (_, value) :: rest => max (nesting value) (nestingMembers rest)

end

variable {depth : Nat}

theorem nestingAll_le_iff {elements : List Json} :
    nestingAll elements ≤ depth ↔ ∀ element ∈ elements, element.nesting ≤ depth := by
  induction elements with
  | nil => simp [nestingAll]
  | cons element rest ih => rw [nestingAll, Nat.max_le, ih, List.forall_mem_cons]

theorem nestingMembers_le_iff {members : List (String × Json)} :
    nestingMembers members ≤ depth ↔ ∀ member ∈ members, member.2.nesting ≤ depth := by
  induction members with
  | nil => simp [nestingMembers]
  | cons member rest ih => rw [nestingMembers, Nat.max_le, ih, List.forall_mem_cons]

end Json

namespace Decoder

variable {α β : Type}

/-- The reader gets the value from the document, unless it nests deeper than it may. -/
def Recovers (decoder : Decoder α) (depth : Nat) (json : Json) (value : α) : Prop :=
  decoder json.outline = if json.nesting ≤ depth then .ok value else .error .shape

section Parts

variable {decoder : Decoder α} {depth : Nat} {json : Json} {value : α}

theorem Recovers.map (recovers : Recovers decoder depth json value) (f : α → β) :
    Recovers (fun outline => (decoder outline).map f) depth json (f value) := by
  rw [Recovers, recovers]
  split <;> rfl

theorem recovers_word (word : UInt32) : Recovers .word depth (.nat word.toNat) word := by
  simp [Recovers, Json.outline, Json.nesting, Decoder.word, word.toNat_lt_size]

theorem recovers_bool (flag : Bool) : Recovers .bool depth (.bool flag) flag :=
  (if_pos (Nat.zero_le _)).symm

theorem recovers_string (text : String) : Recovers .string depth (.string text) text :=
  (if_pos (Nat.zero_le _)).symm

theorem recovers_time (time : TimeValue) : Recovers .time depth (.string time.literal) time := by
  have read := time.parse_literal
  simp [Recovers, Json.outline, Json.nesting, Decoder.time, read, Except.mapError]

theorem recovers_optional {encode : α → Json}
    (recovers : ∀ value, Recovers decoder depth (encode value) value)
    (visible : ∀ value, (encode value).outline ≠ .null) (value? : Option α) :
    Recovers (optional decoder) depth (.ofOption encode value?) value? := by
  cases value? with
  | none => exact (if_pos (Nat.zero_le _)).symm
  | some value =>
    have same : optional decoder (encode value).outline =
        (decoder (encode value).outline).map some := by
      have notNull := visible value
      unfold optional
      split <;> simp_all
    exact same.trans ((recovers value).map some)

end Parts

theorem ite_bind {p : Prop} [Decidable p] (value : α) (f : α → Except DecodeFault β) :
    ((if p then .ok value else .error .shape : Except DecodeFault α) >>= f) =
      if p then f value else .error .shape := by
  split <;> rfl

theorem mapM_eq_of_recovers {decoder : Decoder α} {encode : α → Json} {depth : Nat}
    {values : List α} (recovers : ∀ value ∈ values, Recovers decoder depth (encode value) value) :
    ((values.map encode).map Json.outline).mapM decoder =
      if ∀ json ∈ values.map encode, json.nesting ≤ depth then .ok values else .error .shape := by
  induction values with
  | nil => simp [pure, Except.pure]
  | cons value values ih =>
    obtain ⟨here, later⟩ := List.forall_mem_cons.mp recovers
    rw [List.map_cons, List.map_cons, List.mapM_cons, here, ite_bind, ih later, ite_bind, ← ite_and]
    simp only [List.forall_mem_cons]
    rfl

/-- A list nests one deeper than its elements may. -/
theorem recovers_list_succ {element : Nat → Decoder α} {encode : α → Json} {values : List α}
    {depth : Nat} (recovers : ∀ value ∈ values, Recovers (element depth) depth (encode value) value) :
    Recovers (list element (depth + 1)) (depth + 1) (.ofList encode values) values := by
  simp only [Recovers, Json.ofList, Json.outline, Json.nesting, Json.outlines_eq_map, list,
    mapM_eq_of_recovers recovers, Nat.add_le_add_iff_right, Json.nestingAll_le_iff]

theorem recovers_list {element : Nat → Decoder α} {encode : α → Json}
    (recovers : ∀ value depth, Recovers (element depth) depth (encode value) value)
    (values : List α) : ∀ depth, Recovers (list element depth) depth (.ofList encode values) values
  | 0 => by simp [Recovers, Json.ofList, Json.nesting, list]
  | depth + 1 => recovers_list_succ fun value _ => recovers value depth

/-! ### Alternatives -/

section Choice

variable {plain : List (String × α)} {carrying : List (String × (Nat → Decoder α))} {name : String}
  {value : α}

theorem recovers_plain (listed : plain.lookup name = some value) {depth : Nat} :
    Recovers (choice plain carrying depth) depth (.string name) value := by
  simp [Recovers, Json.outline, Json.nesting, choice, listed]

/-- An alternative with content nests one deeper than its content may. -/
theorem recovers_carrying {decoder : Nat → Decoder α} {json : Json}
    (unlisted : plain.lookup name = none) (listed : carrying.lookup name = some decoder)
    (recovers : ∀ depth, Recovers (decoder depth) depth json value) :
    ∀ depth, Recovers (choice plain carrying depth) depth (.object [(name, json)]) value
  | 0 => by
    simp [Recovers, Json.nesting, Json.outline, Json.memberOutlines, choice]
  | depth + 1 => by
    have read := recovers depth
    rw [Recovers] at read
    simp only [Recovers, Json.outline, Json.memberOutlines, Json.nesting, Json.nestingMembers,
      Nat.add_le_add_iff_right, Nat.max_zero, choice, unlisted, listed, read, ite_bind]
    rfl

end Choice

/-! ### Records -/

/-- From documents for the fields of a record, in order, a record becomes another one. -/
inductive Refills (depth : Nat) : α → List (Field α) → List Json → α → Prop where
  | nil (record : α) : Refills depth record [] [] record
  | cons {record next result : α} {field : Field α} {fields : List (Field α)} {json : Json}
      {documents : List Json} (fills : Recovers (field.fill record) depth json next)
      (rest : Refills depth next fields documents result) :
      Refills depth record (field :: fields) (json :: documents) result

theorem Refills.fillInOrder_eq {depth : Nat} {record result : α} {fields : List (Field α)}
    {documents : List Json} (refills : Refills depth record fields documents result) :
    fillInOrder record fields (documents.map Json.outline) =
      if ∀ json ∈ documents, json.nesting ≤ depth then .ok result else .error .shape := by
  induction refills with
  | nil record => simp [fillInOrder]
  | @cons record next result field fields json documents fills rest ih =>
    rw [List.map_cons, fillInOrder, fills, ite_bind, ih, ← ite_and]
    simp only [List.forall_mem_cons]

theorem Refills.length_eq {depth : Nat} {record result : α} {fields : List (Field α)}
    {documents : List Json} (refills : Refills depth record fields documents result) :
    fields.length = documents.length := by
  induction refills with
  | nil => rfl
  | cons _ _ ih => rw [List.length_cons, List.length_cons, ih]

/-- An object that gives the fields of a record in their order is read like an array that does. -/
theorem fillByName_eq_fillInOrder {fields before later : List (Field α)} {record : α}
    {documents : List Json} (whole : fields = before ++ later)
    (distinct : (fields.map Field.name).Nodup) (same : later.length = documents.length) :
    fillByName fields record (before.map Field.name).reverse
        (Json.memberOutlines ((later.map Field.name).zip documents)) =
      fillInOrder record later (documents.map Json.outline) := by
  induction later generalizing before record documents with
  | nil =>
    obtain rfl := List.length_eq_zero_iff.mp same.symm
    rw [List.append_nil] at whole
    simp only [List.map_nil, List.zip_nil_left, Json.memberOutlines, fillByName, fillInOrder]
    simpa using fun field member _ => ⟨field, whole ▸ member, rfl⟩
  | cons field later ih =>
    cases documents with
    | nil => contradiction
    | cons json documents =>
      have new : field.name ∉ before.map Field.name := by
        rw [whole, List.map_append, List.map_cons] at distinct
        exact fun member => List.disjoint_of_nodup_append distinct member List.mem_cons_self
      have found : fields.find? (fun other => other.name == field.name) = some field := by
        refine List.find?_eq_some_iff_append.mpr ⟨beq_self_eq_true _, before, later, whole, ?_⟩
        intro other member
        have differ : other.name ≠ field.name :=
          fun same => new (same ▸ List.mem_map_of_mem member)
        simpa using differ
      rw [List.map_cons, List.zip_cons_cons, Json.memberOutlines, fillByName, found, List.map_cons,
        fillInOrder]
      simp only [List.contains_iff_mem, List.mem_reverse, new, if_false]
      refine congrArg _ (funext fun next => ?_)
      have goesOn := @ih (before ++ [field]) next documents (by simpa using whole)
        (Nat.succ_inj.mp same)
      simpa using goesOn

section Record

variable {blank value : α} {fields : Nat → List (Field α)} {documents : List Json}
  {members : List (String × Json)}

/-- A record nests one deeper than its fields may. -/
theorem recovers_record_succ {depth : Nat}
    (members_eq : members = ((fields depth).map Field.name).zip documents)
    (distinct : ((fields depth).map Field.name).Nodup)
    (refills : Refills depth blank (fields depth) documents value) :
    Recovers (record blank fields (depth + 1)) (depth + 1) (.object members) value := by
  have inOrder := @fillByName_eq_fillInOrder _ (fields depth) [] (fields depth) blank documents rfl
    distinct refills.length_eq
  have deep : (∀ member ∈ members, member.2.nesting ≤ depth) ↔
      ∀ json ∈ documents, json.nesting ≤ depth := by
    have documents_eq : members.map Prod.snd = documents := by
      rw [members_eq]
      exact List.map_snd_zip (by rw [List.length_map, refills.length_eq])
    rw [← documents_eq, List.forall_mem_map]
  rw [← members_eq] at inOrder
  simp only [Recovers, Json.outline, record, Json.nesting, Nat.add_le_add_iff_right,
    Json.nestingMembers_le_iff, deep]
  exact inOrder.trans refills.fillInOrder_eq

theorem recovers_record (names : List String)
    (fieldNames : ∀ depth, (fields depth).map Field.name = names)
    (members_eq : members = names.zip documents) (distinct : names.Nodup)
    (refills : ∀ depth, Refills depth blank (fields depth) documents value) :
    ∀ depth, Recovers (record blank fields depth) depth (.object members) value
  | 0 => by simp [Recovers, Json.nesting, record]
  | depth + 1 => by
    rw [← fieldNames depth] at members_eq distinct
    exact recovers_record_succ members_eq distinct (refills depth)

end Record

end Decoder

end ReactorCausality
