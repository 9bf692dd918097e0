/-!
# Typed values

`Value` is structured data whose scalars have a type.  A *record* is a value that gives some named
fields, a *tagged value* one that names a variant and gives what belongs to it.  Both have a long
form, a map, and a short one, a list of the fields in their order, the variant first; and a field or
variant may be given by its number instead of its name.

* `Value.record` takes a record apart, `Value.tagged` a tagged value.
* Both yield smaller values, so that reading data this way ends.
-/

set_option autoImplicit false

namespace ResourceDelta

/-- Structured data with typed scalars. -/
inductive Value where
  | null
  | bool (b : Bool)
  | int (n : Int)
  /-- A number that is written as no integer. -/
  | real (written : String)
  | text (s : String)
  | list (items : List Value)
  | map (entries : List (Value × Value))
  deriving Repr, Inhabited

namespace Value

/-- A map whose keys are texts. -/
def ofFields (fields : List (String × Value)) : Value :=
  .map (fields.map fun (name, value) => (.text name, value))

/-- The text that a value is. -/
def text? : Value → Option String
  | .text s => some s
  | _ => none

/-- The truth value that a value is. -/
def bool? : Value → Option Bool
  | .bool b => some b
  | _ => none

/-- Whether a value is the given text. -/
def isText (s : String) : Value → Bool
  | .text t => t = s
  | _ => false

/-- Whether a value can be the key of a field: a name or a number. -/
def isFieldKey : Value → Bool
  | .text _ => true
  | .int n => 0 ≤ n
  | _ => false

/-- Whether a key denotes the field with a name and a number. -/
def denotes (key : Value) (name : String) (number : Nat) : Bool :=
  match key with
  | .text s => s = name
  | .int n => n = number
  | _ => false

/-- The value of the only entry with a key that satisfies `p`; `none` if several do. -/
def only? (p : Value → Bool) (entries : List (Value × Value)) : Option (Option Value) :=
  match entries.filter fun e => p e.1 with
  | [] => some none
  | [(_, v)] => some (some v)
  | _ => none

/-- The entries with a key that does not satisfy `p`. -/
def without (p : Value → Bool) (entries : List (Value × Value)) : List (Value × Value) :=
  entries.filter fun e => !p e.1

/-- The values that a record gives for named fields, `none` for a field that it leaves out. -/
def record (names : List String) : Value → Option (List (Option Value))
  | .list items =>
    if items.length ≤ names.length then some ((List.range names.length).map fun i => items[i]?)
    else none
  | .map entries =>
    if entries.all fun e => e.1.isFieldKey then
      names.zipIdx.mapM fun (name, i) => only? (denotes · name i) entries
    else none
  | _ => none

/-- The variant that a value denotes, by its name or its number. -/
def variant? {α : Type} (variants : List (String × α)) : Value → Option α
  | .text s => (variants.find? fun v => v.1 = s).map Prod.snd
  | .int n => if 0 ≤ n then variants[n.toNat]?.map Prod.snd else none
  | _ => none

/-- The variant that a tagged value names, and what belongs to it. -/
def tagged {α : Type} (variants : List (String × α)) : Value → Option (α × Value)
  | .list (tag :: items) => do
    let variant ← tag.variant? variants
    return (variant, .list items)
  | .map entries => do
    let tag ← ← only? (isText "type") entries
    let variant ← tag.variant? variants
    return (variant, .map (without (isText "type") entries))
  | _ => none

/-- Whether what belongs to a variant can belong to one without fields. -/
def isUnit : Value → Bool
  | .list [] => true
  | .map _ => true
  | _ => false

theorem sizeOf_filter_le {α : Type} [SizeOf α] (p : α → Bool) :
    ∀ l : List α, sizeOf (l.filter p) ≤ sizeOf l
  | [] => by simp
  | a :: l => by
    have := sizeOf_filter_le p l
    simp only [List.filter_cons]
    split <;> simp <;> omega

theorem sizeOf_lt_of_mem_entries {k v : Value} {entries : List (Value × Value)}
    (h : (k, v) ∈ entries) : sizeOf v < sizeOf entries := by
  have := List.sizeOf_lt_of_mem h
  simp at this
  omega

theorem sizeOf_lt_of_only? {p : Value → Bool} {entries : List (Value × Value)} {v : Value}
    (h : only? p entries = some (some v)) : sizeOf v < sizeOf entries := by
  unfold only? at h
  split at h
  · simp at h
  · next k w hf =>
    cases h
    have hm : (k, v) ∈ entries := by
      have : (k, v) ∈ entries.filter fun e => p e.1 := by simp [hf]
      exact (List.mem_filter.1 this).1
    exact sizeOf_lt_of_mem_entries hm
  · simp at h

theorem mem_of_mapM_some {α β : Type} {f : α → Option β} :
    ∀ {l : List α} {r : List β}, l.mapM f = some r → ∀ b ∈ r, ∃ a ∈ l, f a = some b
  | [], r, h, b, hb => by
    simp at h
    simp [h] at hb
  | a :: l, r, h, b, hb => by
    simp only [List.mapM_cons, Option.bind_eq_bind, Option.bind_eq_some_iff, Option.pure_def,
      Option.some.injEq] at h
    obtain ⟨c, hc, cs, hcs, rfl⟩ := h
    rcases List.mem_cons.1 hb with rfl | hb
    · exact ⟨a, List.mem_cons_self, hc⟩
    · obtain ⟨x, hx, hfx⟩ := mem_of_mapM_some hcs b hb
      exact ⟨x, List.mem_cons_of_mem _ hx, hfx⟩

/-- The fields of a record are smaller than the record. -/
theorem sizeOf_lt_of_record {names : List String} {v w : Value} {fields : List (Option Value)}
    (h : v.record names = some fields) (hw : some w ∈ fields) : sizeOf w < sizeOf v := by
  cases v with
  | list items =>
    simp only [record] at h
    split at h
    · cases h
      simp only [List.mem_map] at hw
      obtain ⟨i, -, hi⟩ := hw
      have := List.sizeOf_lt_of_mem (List.mem_of_getElem? hi)
      simp
      omega
    · simp at h
  | map entries =>
    simp only [record] at h
    split at h
    · obtain ⟨a, -, ha⟩ := mem_of_mapM_some h _ hw
      have := sizeOf_lt_of_only? ha
      simp
      omega
    · simp at h
  | _ => simp [record] at h

/-- What belongs to a variant is no larger than the tagged value. -/
theorem sizeOf_le_of_tagged {α : Type} {variants : List (String × α)} {v w : Value} {a : α}
    (h : v.tagged variants = some (a, w)) : sizeOf w ≤ sizeOf v := by
  unfold tagged at h
  split at h
  · simp only [Option.bind_eq_bind, Option.bind_eq_some_iff, Option.pure_def, Option.some.injEq,
      Prod.mk.injEq] at h
    obtain ⟨-, -, -, rfl⟩ := h
    simp
  · next entries =>
    simp only [Option.bind_eq_bind, Option.bind_eq_some_iff, Option.pure_def, Option.some.injEq,
      Prod.mk.injEq] at h
    obtain ⟨-, -, -, -, -, -, -, rfl⟩ := h
    have := sizeOf_filter_le (fun e => !isText "type" e.1) entries
    simp [without]
    omega
  · simp at h

end Value

end ResourceDelta
