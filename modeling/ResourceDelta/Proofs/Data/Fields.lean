import Mathlib.Data.List.Nodup
import ResourceDelta.Data.Node
import ResourceDelta.Proofs.Data.Computation
import ResourceDelta.Table

/-!
# Maps from names to values

`Value.ofFields` writes some named fields as a map.  If no name occurs twice, whoever reads the map
finds each field under its name: as a record, as a tagged value, or entry by entry.

* `filter_key_eq` — the entries with a name are the one that a lookup finds.
* `Node.value?_ofValue` — a typed value is read back from its node.
* `Value.record_ofFields`, `Node.fields_ofFields` — the map read as a record.
* `Value.tagged_ofFields` — the map read as a tagged value.
-/

set_option autoImplicit false

namespace ResourceDelta

/-! ## Entries by name -/

section

variable {α : Type} {name : String} {entries : List (String × α)}

theorem lookup_eq_none (h : name ∉ entries.map Prod.fst) : Table.lookup name entries = none := by
  induction entries with
  | nil => rfl
  | cons e es ih =>
    have ⟨hne, hes⟩ : name ≠ e.1 ∧ name ∉ es.map Prod.fst := by simpa using h
    show (if e.1 = name then some e.2 else Table.lookup name es) = none
    rw [if_neg (Ne.symm hne), ih hes]

/-- The entries with a name are the one that a lookup finds, if no name occurs twice. -/
theorem filter_key_eq (h : (entries.map Prod.fst).Nodup) :
    entries.filter (fun e => e.1 = name) =
      ((Table.lookup name entries).map fun v => (name, v)).toList := by
  induction entries with
  | nil => rfl
  | cons e es ih =>
    obtain ⟨k, v⟩ := e
    have ⟨hk, hes⟩ : k ∉ es.map Prod.fst ∧ (es.map Prod.fst).Nodup := List.nodup_cons.1 h
    by_cases hkn : k = name
    · subst hkn
      simp only [List.filter_cons_of_pos, decide_true, ih hes, lookup_eq_none hk, Table.lookup,
        if_true]
      rfl
    · simp [Table.lookup, hkn, ih hes]

end

/-! ## Typed values -/

namespace Value

variable {fields : List (String × Value)} {p : Value → Bool}

/-- The entries of a map from names to values. -/
def namedEntries (fields : List (String × Value)) : List (Value × Value) :=
  fields.map fun (name, value) => (.text name, value)

theorem ofFields_eq (fields : List (String × Value)) :
    ofFields fields = .map (namedEntries fields) :=
  rfl

theorem all_isFieldKey (fields : List (String × Value)) :
    ((namedEntries fields).all fun e => e.1.isFieldKey) = true := by
  simp [namedEntries, isFieldKey]

/-- A test of keys that is passed by one name finds what a lookup of this name finds. -/
theorem only?_namedEntries (name : String) (hp : ∀ key, p (.text key) = decide (key = name))
    (h : (fields.map Prod.fst).Nodup) :
    only? p (namedEntries fields) = some (Table.lookup name fields) := by
  have hfilter : (namedEntries fields).filter (fun e => p e.1) =
      namedEntries (fields.filter fun e => e.1 = name) := by
    simp only [namedEntries, List.filter_map, Function.comp_def, hp]
  unfold only?
  rw [hfilter, filter_key_eq h]
  cases Table.lookup name fields <;> rfl

theorem without_namedEntries (name : String) (hp : ∀ key, p (.text key) = decide (key = name)) :
    without p (namedEntries fields) = namedEntries (fields.filter fun e => e.1 ≠ name) := by
  simp only [without, namedEntries, List.filter_map, Function.comp_def, hp, decide_not]

/-- **Read as a record, a map from names gives each field what stands under its name.** -/
theorem record_ofFields (names : List String) (h : (fields.map Prod.fst).Nodup) :
    (ofFields fields).record names = some (names.map (Table.lookup · fields)) := by
  have hkeys := all_isFieldKey fields
  have hmap : names.map (Table.lookup · fields) =
      names.zipIdx.map ((Table.lookup · fields) ∘ Prod.fst) := by
    rw [← List.map_map, List.zipIdx_map_fst]
  rw [ofFields_eq]
  simp only [record, hkeys, if_true, hmap]
  exact mapM_eq_some fun e _ => only?_namedEntries e.1 (fun key => rfl) h

/-- **Read as a tagged value, a map names its variant under `type`**, and the other fields belong to
the variant. -/
theorem tagged_ofFields {α : Type} {variants : List (String × α)} {type : String} {a : α}
    (hkeys : (fields.map Prod.fst).Nodup) (htype : "type" ∉ fields.map Prod.fst)
    (ha : (text type).variant? variants = some a) :
    (ofFields (("type", .text type) :: fields)).tagged variants = some (a, ofFields fields) := by
  have hall : ((("type", .text type) :: fields).map Prod.fst).Nodup := by
    exact List.nodup_cons.2 ⟨htype, hkeys⟩
  have hfind : only? (isText "type") (namedEntries (("type", .text type) :: fields)) =
      some (some (.text type)) := by
    rw [only?_namedEntries "type" (fun key => rfl) hall]
    rfl
  have hrest : without (isText "type") (namedEntries (("type", .text type) :: fields)) =
      namedEntries fields := by
    have hkept : fields.filter (fun e => e.1 ≠ "type") = fields := by
      refine List.filter_eq_self.2 fun e he => decide_eq_true fun heq => htype ?_
      rw [← heq]
      exact List.mem_map_of_mem he
    rw [without_namedEntries "type" fun key => rfl, List.filter_cons_of_neg (by simp),
      hkept]
  rw [ofFields_eq]
  simp only [tagged, hfind, hrest, ha, Option.bind_eq_bind, Option.bind_some]
  rfl

end Value

/-! ## Nodes -/

namespace Node

variable {fields : List (String × Value)}

theorem ofValues_eq_map : ∀ vs : List Value, ofValues vs = vs.map ofValue
  | [] => rfl
  | v :: vs => by rw [ofValues, ofValues_eq_map vs, List.map_cons]

theorem ofEntries_eq_map : ∀ es : List (Value × Value),
    ofEntries es = es.map fun e => (ofValue e.1, ofValue e.2)
  | [] => rfl
  | e :: es => by rw [ofEntries, ofEntries_eq_map es, List.map_cons]

mutual

/-- A typed value is read back from its node. -/
theorem value?_ofValue : ∀ v : Value, (ofValue v).value? = some v
  | .null => rfl
  | .bool _ => rfl
  | .int _ => rfl
  | .real _ => rfl
  | .text _ => rfl
  | .list items => by simp [ofValue, value?, values?_ofValues items]
  | .map entries => by simp [ofValue, value?, entryValues?_ofEntries entries]

theorem values?_ofValues : ∀ vs : List Value, values? (ofValues vs) = some vs
  | [] => rfl
  | v :: vs => by simp [ofValues, values?, value?_ofValue v, values?_ofValues vs]

theorem entryValues?_ofEntries : ∀ es : List (Value × Value), entryValues? (ofEntries es) = some es
  | [] => rfl
  | (k, v) :: es => by
    simp [ofEntries, entryValues?, value?_ofValue k, value?_ofValue v, entryValues?_ofEntries es]

end

/-- The fields of a map, as nodes. -/
def namedNodes (fields : List (String × Value)) : List (String × Node) :=
  fields.map fun (name, value) => (name, ofValue value)

theorem textEntries?_ofFields (fields : List (String × Value)) :
    (ofValue (.ofFields fields)).textEntries? = some (namedNodes fields) := by
  show (ofEntries (Value.namedEntries fields)).mapM _ = _
  rw [ofEntries_eq_map, Value.namedEntries, List.map_map]
  exact mapM_map_eq_some fun _ _ => rfl

theorem map_fst_namedNodes (fields : List (String × Value)) :
    (namedNodes fields).map Prod.fst = fields.map Prod.fst := by
  simp [namedNodes, Function.comp_def]

theorem lookup_namedNodes (name : String) : ∀ fields : List (String × Value),
    Table.lookup name (namedNodes fields) = (Table.lookup name fields).map ofValue
  | [] => rfl
  | (k, v) :: fields => by
    have ih := lookup_namedNodes name fields
    simp only [namedNodes, List.map_cons, Table.lookup] at ih ⊢
    split
    · rfl
    · exact ih

theorem only?_namedNodes (name : String) (h : (fields.map Prod.fst).Nodup) :
    only? name (namedNodes fields) = some ((Table.lookup name fields).map ofValue) := by
  have hkeys : ((namedNodes fields).map Prod.fst).Nodup := by rwa [map_fst_namedNodes]
  unfold only?
  rw [filter_key_eq hkeys, lookup_namedNodes]
  cases Table.lookup name fields <;> rfl

/-- The nodes of fields are read back as typed values. -/
theorem mapM_value?_namedNodes (fields : List (String × Value)) :
    (namedNodes fields).mapM (fun (key, value) => do
      let value ← value.value?
      return (Value.text key, value)) = some (Value.namedEntries fields) := by
  refine mapM_map_eq_some fun e _ => ?_
  simp only [value?_ofValue]
  rfl

/-- Fields that are written alike are read alike. -/
theorem mapM_namedNodes {α β : Type} {write : α → Value} {read : Node → Option β} {g : α → β}
    (h : ∀ a, read (ofValue (write a)) = some (g a)) (entries : List (String × α)) :
    (namedNodes (entries.map fun e => (e.1, write e.2))).mapM (fun (name, node) => do
      let b ← read node
      return (name, b)) = some (entries.map fun e => (e.1, g e.2)) := by
  rw [namedNodes, List.map_map]
  refine mapM_map_eq_some fun e _ => ?_
  simp only [Function.comp_apply, h]
  rfl

/-- **A node of a map from names gives each field the node of what stands under its name.** -/
theorem fields_ofFields (names : List String) (h : (fields.map Prod.fst).Nodup) :
    (ofValue (.ofFields fields)).fields names =
      some (names.map fun name => (Table.lookup name fields).map ofValue) := by
  simp only [Node.fields, textEntries?_ofFields, Option.bind_eq_bind, Option.bind_some]
  exact mapM_eq_some fun name _ => only?_namedNodes name h

end Node

end ResourceDelta
