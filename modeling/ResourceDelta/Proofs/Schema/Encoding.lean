import Mathlib
import ResourceDelta.Proofs.Data.Fields
import ResourceDelta.Schema.Decode
import ResourceDelta.Schema.Encode

/-!
# Definitions as data

What is written of a definition as a typed value is read back from its node.

* `decodeField_scalar`, `decodeField_struct` and so on — what is read of a field once its variant is
  known; nothing later opens the readers.
* `decodeStruct_encodeStruct` — the members of a struct are read back if each of them is.
* `FieldDefinition.IsWrittenAs` — the entries that stand beside a field's name, by which the field
  is read, both as a node and as a typed value.
* `ResourceDefinition.decode_encode` — a definition is read back.
* `ResourceDefinition.normalize_reads_back` — hence a value that is read and written again is read
  as the same definition, and is written the same way ever after.
-/

set_option autoImplicit false

namespace ResourceDelta

/-! ## Reading by variant -/

section

variable {name : String} {rest body : Value}

theorem decodeField_scalar {kind : ScalarKind}
    (h : rest.tagged fieldTags = some (.scalar kind, body)) (hunit : body.isUnit = true) :
    decodeField name rest = some (.leaf name (.scalar kind)) := by
  rw [decodeField]
  split <;> rename_i heq <;> rw [h] at heq <;> cases heq
  rw [if_pos hunit]

theorem decodeField_bytes (h : rest.tagged fieldTags = some (.bytes, body))
    (hunit : body.isUnit = true) : decodeField name rest = some (.leaf name .bytes) := by
  rw [decodeField]
  split <;> rename_i heq <;> rw [h] at heq <;> cases heq
  rw [if_pos hunit]

theorem decodeField_struct (h : rest.tagged fieldTags = some (.struct, body)) :
    decodeField name rest = (decodeStruct body).map fun r => .nested name .struct r.1 r.2 := by
  rw [decodeField]
  split <;> rename_i heq <;> rw [h] at heq <;> cases heq
  cases decodeStruct body <;> rfl

theorem decodeField_list {element : Value} (h : rest.tagged fieldTags = some (.list, body))
    (helement : body.record ["element"] = some [some element]) :
    decodeField name rest = decodeElement name element := by
  rw [decodeField]
  split <;> rename_i heq <;> rw [h] at heq <;> cases heq
  split
  · rename_i hrecord
    rw [helement] at hrecord
    cases hrecord
    rfl
  · rename_i hother
    exact absurd helement (hother element)

theorem decodeField_map {value : Value} (h : rest.tagged fieldTags = some (.map, body))
    (hvalue : body.record ["value"] = some [some value]) :
    decodeField name rest = decodeMapValue name value := by
  rw [decodeField]
  split <;> rename_i heq <;> rw [h] at heq <;> cases heq
  split
  · rename_i hrecord
    rw [hvalue] at hrecord
    cases hrecord
    rfl
  · rename_i hother
    exact absurd hvalue (hother value)

theorem decodeElement_scalar {kind : ScalarKind}
    (h : rest.tagged elementTags = some (.scalar kind, body)) (hunit : body.isUnit = true) :
    decodeElement name rest = some (.leaf name (.scalarList kind)) := by
  rw [decodeElement]
  split <;> rename_i heq <;> rw [h] at heq <;> cases heq
  rw [if_pos hunit]

theorem decodeElement_struct (h : rest.tagged elementTags = some (.struct, body)) :
    decodeElement name rest = (decodeStruct body).map fun r => .nested name .list r.1 r.2 := by
  rw [decodeElement]
  split <;> rename_i heq <;> rw [h] at heq <;> cases heq
  cases decodeStruct body <;> rfl

theorem decodeMapValue_string (h : rest.tagged mapValueTags = some (.string, body))
    (hunit : body.isUnit = true) : decodeMapValue name rest = some (.leaf name .stringMap) := by
  rw [decodeMapValue]
  split <;> rename_i heq <;> rw [h] at heq <;> cases heq
  rw [if_pos hunit]

theorem decodeMapValue_struct (h : rest.tagged mapValueTags = some (.struct, body)) :
    decodeMapValue name rest = (decodeStruct body).map fun r => .nested name .map r.1 r.2 := by
  rw [decodeMapValue]
  split <;> rename_i heq <;> rw [h] at heq <;> cases heq
  cases decodeStruct body <;> rfl

theorem decodeStruct_none {shape : Option Value}
    (h : body.record structFields = some [none, shape]) :
    decodeStruct body = (decodeShape shape).map fun s => ([], s) := by
  rw [decodeStruct]
  split
  · rename_i hrecord
    rw [h] at hrecord
    cases hrecord
    cases decodeShape shape <;> rfl
  · rename_i hrecord
    rw [h] at hrecord
    cases hrecord
  · rename_i hother _
    exact absurd h (hother shape)

theorem decodeStruct_some {members : List Value} {shape : Option Value}
    (h : body.record structFields = some [some (.list members), shape]) :
    decodeStruct body =
      (decodeShape shape).bind fun s => (decodeMembers members).map fun ms => (ms, s) := by
  rw [decodeStruct]
  split
  · rename_i hrecord
    rw [h] at hrecord
    cases hrecord
  · rename_i hrecord
    rw [h] at hrecord
    cases hrecord
    cases decodeShape shape
    · rfl
    · cases decodeMembers members <;> rfl
  · rename_i hother
    exact absurd h (hother members shape)

end

/-! ## The members of a struct -/

section

variable {members : List FieldDefinition} {shape : Option String}

theorem encodeStruct_eq (members : List FieldDefinition) (shape : Option String) :
    encodeStruct members shape =
      (if members = [] then [] else [("members", .list (encodeMembers members))]) ++
        (shape.map fun s => ("shape", Value.text s)).toList := by
  cases members <;> cases shape <;> simp [encodeStruct, encodeMembers]

theorem encodeStruct_keys (members : List FieldDefinition) (shape : Option String) :
    ((encodeStruct members shape).map Prod.fst).Nodup ∧
      "type" ∉ (encodeStruct members shape).map Prod.fst ∧
      "name" ∉ (encodeStruct members shape).map Prod.fst := by
  rw [encodeStruct_eq]
  cases shape <;> split <;> simp

theorem lookup_members_encodeStruct :
    Table.lookup "members" (encodeStruct members shape) =
      if members = [] then none else some (.list (encodeMembers members)) := by
  rw [encodeStruct_eq]
  cases shape <;> split <;> simp [Table.lookup]

theorem decodeShape_encodeStruct :
    decodeShape (Table.lookup "shape" (encodeStruct members shape)) = some shape := by
  rw [encodeStruct_eq]
  cases shape <;> split <;> simp [Table.lookup, decodeShape]

/-- **The members of a struct and its shape are read back**, if the members are. -/
theorem decodeStruct_encodeStruct (h : decodeMembers (encodeMembers members) = some members) :
    decodeStruct (.ofFields (encodeStruct members shape)) = some (members, shape) := by
  have hrecord := Value.record_ofFields structFields (encodeStruct_keys members shape).1
  by_cases hnil : members = []
  · have hnone : Table.lookup "members" (encodeStruct members shape) = none := by
      rw [lookup_members_encodeStruct, if_pos hnil]
    rw [structFields, List.map_cons, List.map_cons, List.map_nil, hnone] at hrecord
    rw [decodeStruct_none hrecord, decodeShape_encodeStruct, hnil]
    rfl
  · have hsome : Table.lookup "members" (encodeStruct members shape) =
        some (.list (encodeMembers members)) := by
      rw [lookup_members_encodeStruct, if_neg hnil]
    rw [structFields, List.map_cons, List.map_cons, List.map_nil, hsome] at hrecord
    rw [decodeStruct_some hrecord, decodeShape_encodeStruct, h]
    rfl

/-- A struct is tagged as one, for every reader that knows the variant. -/
theorem tagged_encodeStruct {α : Type} {variants : List (String × α)} {tag : α}
    (h : (Value.text "struct").variant? variants = some tag) :
    (Value.ofFields (typeEntry "struct" :: encodeStruct members shape)).tagged variants =
      some (tag, .ofFields (encodeStruct members shape)) :=
  Value.tagged_ofFields (encodeStruct_keys members shape).1 (encodeStruct_keys members shape).2.1 h

end

/-- What has a variant and nothing else is read as that. -/
theorem tagged_typeEntry {α : Type} {variants : List (String × α)} {type : String} {tag : α}
    (h : (Value.text type).variant? variants = some tag) :
    (Value.ofFields [typeEntry type]).tagged variants = some (tag, .ofFields []) :=
  Value.tagged_ofFields List.nodup_nil List.not_mem_nil h

/-- A variant with one field is read as that. -/
theorem tagged_typeEntry_field {α : Type} {variants : List (String × α)} {type : String} {tag : α}
    (h : (Value.text type).variant? variants = some tag) {key : String} (hkey : key ≠ "type")
    (value : Value) :
    (Value.ofFields [typeEntry type, (key, value)]).tagged variants =
      some (tag, .ofFields [(key, value)]) :=
  Value.tagged_ofFields (List.nodup_singleton key)
    (fun hmem => hkey (List.mem_singleton.1 hmem).symm) h

theorem record_singleton (key : String) (value : Value) :
    (Value.ofFields [(key, value)]).record [key] = some [some value] := by
  have hkeys : ([(key, value)].map Prod.fst).Nodup := List.nodup_singleton key
  rw [Value.record_ofFields [key] hkeys]
  simp [Table.lookup]

theorem decodeField_list_ofFields (name : String) (element : Value) :
    decodeField name (.ofFields [typeEntry "list", ("element", element)]) =
      decodeElement name element := by
  have hvariant : (Value.text "list").variant? fieldTags = some .list := rfl
  exact decodeField_list (tagged_typeEntry_field hvariant (by simp) element)
    (record_singleton "element" element)

theorem decodeField_map_ofFields (name : String) (value : Value) :
    decodeField name (.ofFields [typeEntry "map", ("value", value)]) =
      decodeMapValue name value := by
  have hvariant : (Value.text "map").variant? fieldTags = some .map := rfl
  exact decodeField_map (tagged_typeEntry_field hvariant (by simp) value)
    (record_singleton "value" value)

/-! ## Fields -/

/-- A field is written as its name and some further entries, and read by these entries. -/
structure FieldDefinition.IsWrittenAs (d : FieldDefinition) (fields : List (String × Value)) :
    Prop where
  encode_eq : d.encode = .ofFields (("name", .text d.name) :: fields)
  nodup : (fields.map Prod.fst).Nodup
  unnamed : "name" ∉ fields.map Prod.fst
  decode_eq : decodeField d.name (.ofFields fields) = some d

namespace FieldDefinition.IsWrittenAs

variable {d : FieldDefinition} {fields : List (String × Value)}

theorem nodup_cons (h : d.IsWrittenAs fields) :
    ((("name", Value.text d.name) :: fields).map Prod.fst).Nodup :=
  List.nodup_cons.2 ⟨h.unnamed, h.nodup⟩

theorem filter_eq (h : d.IsWrittenAs fields) :
    (("name", Value.text d.name) :: fields).filter (fun e => e.1 ≠ "name") = fields := by
  rw [List.filter_cons_of_neg (by simp)]
  refine List.filter_eq_self.2 fun e he => decide_eq_true fun heq => h.unnamed ?_
  rw [← heq]
  exact List.mem_map_of_mem he

/-- A field is read back from its typed value. -/
theorem decodeMember_encode (h : d.IsWrittenAs fields) : decodeMember d.encode = some d := by
  have hname := Value.only?_namedEntries (p := Value.isText "name") "name" (fun key => rfl)
    h.nodup_cons
  rw [h.encode_eq, Value.ofFields_eq, decodeMember]
  rw [if_pos (Value.all_isFieldKey _), hname,
    Value.without_namedEntries "name" fun key => rfl, h.filter_eq]
  exact h.decode_eq

/-- A field is read back from its node. -/
theorem decode_encode (h : d.IsWrittenAs fields) : decode (Node.ofValue d.encode) = some d := by
  have hname : Node.only? "name" (Node.namedNodes (("name", Value.text d.name) :: fields)) =
      some (some (Node.ofValue (.text d.name))) := by
    rw [Node.only?_namedNodes "name" h.nodup_cons]
    rfl
  have hrest : (Node.namedNodes (("name", Value.text d.name) :: fields)).filter
      (fun e => e.1 ≠ "name") = Node.namedNodes fields := by
    rw [Node.namedNodes, List.filter_map]
    exact congrArg (List.map _) h.filter_eq
  have hvalues := Node.mapM_value?_namedNodes fields
  unfold decode
  rw [h.encode_eq, Node.textEntries?_ofFields]
  simp only [Option.bind_eq_bind] at hvalues ⊢
  simp only [Option.bind_some, hname, hrest, hvalues]
  exact h.decode_eq

end FieldDefinition.IsWrittenAs

theorem variant?_kind (kind : ScalarKind) :
    (Value.text kind.name).variant? fieldTags = some (.scalar kind) ∧
      (Value.text kind.name).variant? elementTags = some (.scalar kind) := by
  cases kind <;> exact ⟨rfl, rfl⟩

/-- A leaf is written as its type, with that of its elements or values. -/
theorem exists_isWrittenAs_leaf (name : String) (type : LeafType) :
    ∃ fields, (FieldDefinition.leaf name type).IsWrittenAs fields := by
  cases type with
  | scalar kind =>
    refine ⟨[typeEntry kind.name], ⟨by simp [FieldDefinition.encode, FieldDefinition.name],
      by simp, by simp [typeEntry], ?_⟩⟩
    exact decodeField_scalar (tagged_typeEntry (variant?_kind kind).1) rfl
  | bytes =>
    refine ⟨[typeEntry "bytes"], ⟨by simp [FieldDefinition.encode, FieldDefinition.name],
      by simp, by simp [typeEntry], ?_⟩⟩
    exact decodeField_bytes (tagged_typeEntry rfl) rfl
  | scalarList kind =>
    refine ⟨[typeEntry "list", ("element", .ofFields [typeEntry kind.name])],
      ⟨by simp [FieldDefinition.encode, FieldDefinition.name], by simp [typeEntry],
        by simp [typeEntry], ?_⟩⟩
    refine (decodeField_list_ofFields _ _).trans ?_
    exact decodeElement_scalar (tagged_typeEntry (variant?_kind kind).2) rfl
  | stringMap =>
    refine ⟨[typeEntry "map", ("value", .ofFields [typeEntry "string"])],
      ⟨by simp [FieldDefinition.encode, FieldDefinition.name], by simp [typeEntry],
        by simp [typeEntry], ?_⟩⟩
    refine (decodeField_map_ofFields _ _).trans ?_
    exact decodeMapValue_string (tagged_typeEntry rfl) rfl

/-- A nested field is written as the struct that it is, or that its elements or values are. -/
theorem exists_isWrittenAs_nested {name : String} {nesting : Nesting}
    {members : List FieldDefinition} {shape : Option String}
    (h : decodeMembers (encodeMembers members) = some members) :
    ∃ fields, (FieldDefinition.nested name nesting members shape).IsWrittenAs fields := by
  have hstruct : decodeStruct (.ofFields (encodeStruct members shape)) = some (members, shape) :=
    decodeStruct_encodeStruct h
  obtain ⟨hnodup, htype, hname⟩ := encodeStruct_keys members shape
  cases nesting with
  | struct =>
    refine ⟨typeEntry "struct" :: encodeStruct members shape,
      ⟨by simp [FieldDefinition.encode, FieldDefinition.name], List.nodup_cons.2 ⟨htype, hnodup⟩,
        by simpa [typeEntry] using hname, ?_⟩⟩
    rw [decodeField_struct (tagged_encodeStruct rfl), hstruct]
    rfl
  | list =>
    let element : Value := .ofFields (typeEntry "struct" :: encodeStruct members shape)
    refine ⟨[typeEntry "list", ("element", element)],
      ⟨by simp [FieldDefinition.encode, FieldDefinition.name, element], by simp [typeEntry],
        by simp [typeEntry], ?_⟩⟩
    rw [decodeField_list_ofFields, decodeElement_struct (tagged_encodeStruct rfl), hstruct]
    rfl
  | map =>
    let value : Value := .ofFields (typeEntry "struct" :: encodeStruct members shape)
    refine ⟨[typeEntry "map", ("value", value)],
      ⟨by simp [FieldDefinition.encode, FieldDefinition.name, value], by simp [typeEntry],
        by simp [typeEntry], ?_⟩⟩
    rw [decodeField_map_ofFields, decodeMapValue_struct (tagged_encodeStruct rfl), hstruct]
    rfl

mutual

/-- **Every field is written as some entries by which it is read.** -/
theorem exists_isWrittenAs : ∀ d : FieldDefinition, ∃ fields, d.IsWrittenAs fields
  | .leaf name type => exists_isWrittenAs_leaf name type
  | .nested _ _ members _ => exists_isWrittenAs_nested (decodeMembers_encodeMembers members)

/-- Members are read back from their typed values. -/
theorem decodeMembers_encodeMembers : ∀ members : List FieldDefinition,
    decodeMembers (encodeMembers members) = some members
  | [] => by rw [encodeMembers, decodeMembers]
  | member :: members => by
    obtain ⟨fields, h⟩ := exists_isWrittenAs member
    have hrest := decodeMembers_encodeMembers members
    rw [encodeMembers, decodeMembers, h.decodeMember_encode, hrest]
    rfl

end

/-! ## Definitions -/

theorem encodeMembers_eq_map (ds : List FieldDefinition) :
    encodeMembers ds = ds.map FieldDefinition.encode := by
  induction ds with
  | nil => rw [encodeMembers, List.map_nil]
  | cons d ds ih => rw [encodeMembers, ih, List.map_cons]

/-- A list of fields is read back from its node. -/
theorem decodeList_encodeMembers (ds : List FieldDefinition) :
    FieldDefinition.decodeList (Node.ofValue (.list (encodeMembers ds))) = some ds := by
  have hread : ∀ d ∈ ds, FieldDefinition.decode (Node.ofValue d.encode) = some (id d) := by
    intro d _
    obtain ⟨fields, h⟩ := exists_isWrittenAs d
    exact h.decode_encode
  show (Node.ofValues (encodeMembers ds)).mapM FieldDefinition.decode = some ds
  rw [Node.ofValues_eq_map, encodeMembers_eq_map, List.map_map]
  refine (mapM_map_eq_some hread).trans ?_
  rw [List.map_id]

/-- A table of shapes is read back from its node. -/
theorem ShapeTable.decode_encode (shapes : ShapeTable) :
    ShapeTable.decode (some (Node.ofValue (ShapeTable.encode shapes))) = some shapes := by
  have hentries : Node.textEntriesOrNone (some (Node.ofValue (ShapeTable.encode shapes))) =
      some (Node.namedNodes (shapes.entries.map fun e => (e.1, .list (encodeMembers e.2)))) :=
    Node.textEntries?_ofFields _
  unfold ShapeTable.decode
  rw [hentries]
  show (List.mapM _ _ >>= fun shapes => some (Table.ofList shapes)) = _
  rw [Node.mapM_namedNodes decodeList_encodeMembers]
  show some (Table.ofList (shapes.entries.map id)) = some shapes
  rw [List.map_id, Table.ofList_entries]

namespace ResourceDefinition

/-- **A definition is read back from its node.** -/
theorem decode_encode (d : ResourceDefinition) : decode (Node.ofValue d.encode) = some d := by
  have hfields : (Node.ofValue d.encode).fields definitionFields =
      some [some (Node.ofValue (.text d.name)), some (Node.ofValue (.list (encodeMembers d.spec))),
        some (Node.ofValue (.list (encodeMembers d.status))),
        some (Node.ofValue (ShapeTable.encode d.shapes))] := by
    rw [encode, Node.fields_ofFields definitionFields (by simp)]
    rfl
  have hlist : ∀ ds, FieldDefinition.decodeListOrNone
      (some (Node.ofValue (.list (encodeMembers ds)))) = some ds := decodeList_encodeMembers
  unfold decode
  rw [hfields]
  simp only [Option.bind_eq_bind, Option.bind_some, hlist, ShapeTable.decode_encode]
  rfl

/-- A value read as a definition, which is written as a value again. -/
def normalize (v : Value) : Option Value :=
  (decode (Node.ofValue v)).map encode

/-- **Every definition is read back from what is written of it.**  Hence a value that is read as a
definition is normalized to one that is read as the same definition, and normalizing this once more
changes nothing. -/
theorem normalize_reads_back (d : ResourceDefinition) :
    decode (Node.ofValue d.encode) = some d ∧
      ∀ v : Value, decode (Node.ofValue v) = some d →
        normalize v = some d.encode ∧ normalize d.encode = some d.encode := by
  refine ⟨d.decode_encode, fun v h => ?_⟩
  have hnormal : ∀ w, decode (Node.ofValue w) = some d → normalize w = some d.encode := by
    intro w hw
    rw [normalize, hw]
    rfl
  exact ⟨hnormal v h, hnormal d.encode d.decode_encode⟩

/-- Queues, with fields that are written in unusual ways: variants by their numbers, tagged values
as lists, `null` for an empty list and for an absent shape, and keys that mean nothing. -/
def queueValue : Value :=
  .ofFields
    [("comment", .real "0.5"), ("status", .null), ("name", .text "Queue"),
      ("spec", .list
        [.ofFields [("type", .int 3), ("name", .text "")],
          .ofFields [("name", .text "dead..letter"), ("element", .list
              [.text "struct", .list [.ofFields [("type", .text "bytes"), ("name", .text "arn")]],
                .text "Target"]),
            ("type", .text "list")],
          .ofFields [("name", .text "policy"), ("shape", .null), ("type", .int 6),
            ("unit", .null)]]),
      ("shapes", .ofFields [("Target", .null)])]

/-- What is meant: a truth value without name, a list whose elements have members and a shape, and a
struct that has neither. -/
def queueDefinition : ResourceDefinition where
  name := "Queue"
  spec := [.scalar "" .boolean, .nested "dead..letter" .list [.bytes "arn"] (some "Target"),
    .nested "policy" .struct [] none]
  status := []
  shapes := .ofList [("Target", [])]

theorem normalize_reads_back_queue :
    decode (Node.ofValue queueValue) = some queueDefinition ∧
      normalize queueValue = some queueDefinition.encode ∧
      normalize queueDefinition.encode = some queueDefinition.encode := by
  have h : decode (Node.ofValue queueValue) = some queueDefinition := by cbv
  exact ⟨h, (normalize_reads_back queueDefinition).2 queueValue h⟩

end ResourceDefinition

end ResourceDelta
