/-!
# Tables

A table maps texts to values.  Its entries stand in ascending order of their keys, each key once, so
two tables with the same content are equal.

* `Table.ofList` builds a table entry by entry; of two entries with one key the later one counts.
* `Table.find?_insert` says what an insertion changes.
* `Table.ofList_entries` rebuilds a table from its entries.
-/

set_option autoImplicit false

namespace ResourceDelta

/-- A mapping from texts to values. -/
structure Table (α : Type) where
  entries : List (String × α)
  ascending : entries.Pairwise fun a b => a.1 < b.1

namespace Table

variable {α : Type}

/-- The table without entries. -/
def empty : Table α := ⟨[], .nil⟩

instance : Inhabited (Table α) := ⟨empty⟩

/-- The keys in ascending order. -/
def keys (t : Table α) : List String :=
  t.entries.map Prod.fst

/-- The value of a key among entries. -/
def lookup (key : String) : List (String × α) → Option α
  | [] => none
  | (k, v) :: es => if k = key then some v else lookup key es

/-- The value of a key. -/
def find? (t : Table α) (key : String) : Option α :=
  lookup key t.entries

/-- Puts a value at its place among ascending entries, instead of any value with that key. -/
def put (key : String) (value : α) : List (String × α) → List (String × α)
  | [] => [(key, value)]
  | (k, v) :: es =>
    if key < k then (key, value) :: (k, v) :: es
    else if k = key then (key, value) :: es
    else (k, v) :: put key value es

theorem mem_put {key : String} {value : α} {e : String × α} :
    ∀ {es : List (String × α)}, e ∈ put key value es → e = (key, value) ∨ e ∈ es
  | [], h => by simpa [put] using h
  | (k, v) :: es, h => by
    simp only [put] at h
    split at h
    · simpa using h
    · split at h
      · rcases List.mem_cons.1 h with h | h
        · exact .inl h
        · exact .inr (List.mem_cons_of_mem _ h)
      · rcases List.mem_cons.1 h with h | h
        · exact .inr (h ▸ List.mem_cons_self)
        · exact (mem_put h).imp_right (List.mem_cons_of_mem _)

theorem ascending_put {key : String} {value : α} :
    ∀ {es : List (String × α)}, es.Pairwise (fun a b => a.1 < b.1) →
      (put key value es).Pairwise fun a b => a.1 < b.1
  | [], _ => by simp [put]
  | (k, v) :: es, h => by
    have ⟨hk, hes⟩ := List.pairwise_cons.1 h
    simp only [put]
    split
    · next hlt =>
      refine List.pairwise_cons.2 ⟨fun e he => ?_, h⟩
      rcases List.mem_cons.1 he with rfl | he
      · exact hlt
      · exact String.lt_trans hlt (hk e he)
    · next hlt =>
      split
      · next heq =>
        subst heq
        exact List.pairwise_cons.2 ⟨hk, hes⟩
      · next hne =>
        refine List.pairwise_cons.2 ⟨fun e he => ?_, ascending_put hes⟩
        rcases mem_put he with rfl | he
        · exact Std.lt_of_le_of_ne (Std.not_lt.1 hlt) hne
        · exact hk e he

/-- The table with a value for one key, instead of any value it had. -/
def insert (t : Table α) (key : String) (value : α) : Table α :=
  ⟨put key value t.entries, ascending_put t.ascending⟩

/-- The table of some entries; of two entries with one key the later one counts. -/
def ofList (entries : List (String × α)) : Table α :=
  entries.foldl (fun t e => t.insert e.1 e.2) empty

theorem lookup_put (key : String) (value : α) (other : String) :
    ∀ es : List (String × α),
      lookup other (put key value es) = if other = key then some value else lookup other es
  | [] => by simp [put, lookup, eq_comm]
  | (k, v) :: es => by
    simp only [put]
    split
    · simp [lookup, eq_comm]
    · split
      · next heq =>
        subst heq
        by_cases h : other = k
        · simp [lookup, h]
        · simp [lookup, h, Ne.symm h]
      · next hne =>
        simp only [lookup, lookup_put key value other es]
        by_cases h : k = other
        · subst h
          simp [hne]
        · simp [h]

@[simp] theorem find?_insert (t : Table α) (key : String) (value : α) (other : String) :
    (t.insert key value).find? other = if other = key then some value else t.find? other :=
  lookup_put key value other t.entries

theorem put_eq_append {key : String} {value : α} :
    ∀ {es : List (String × α)}, (∀ e ∈ es, e.1 < key) → put key value es = es ++ [(key, value)]
  | [], _ => rfl
  | (k, v) :: es, h => by
    have hk : k < key := h _ List.mem_cons_self
    have ih : put key value es = es ++ [(key, value)] :=
      put_eq_append fun e he => h e (List.mem_cons_of_mem _ he)
    have hlt : ¬ key < k := fun h => String.lt_irrefl k (String.lt_trans hk h)
    have hne : k ≠ key := by
      rintro rfl
      exact String.lt_irrefl k hk
    simp only [put, if_neg hlt, if_neg hne, ih, List.cons_append]

/-- Inserting ascending entries one by one appends them. -/
theorem entries_foldl_insert (es : List (String × α)) (t : Table α)
    (h : (t.entries ++ es).Pairwise fun a b => a.1 < b.1) :
    (es.foldl (fun t e => t.insert e.1 e.2) t).entries = t.entries ++ es := by
  induction es generalizing t with
  | nil => simp
  | cons e es ih =>
    have hlt : ∀ e' ∈ t.entries, e'.1 < e.1 := by
      intro e' he'
      exact (List.pairwise_append.1 h).2.2 e' he' e List.mem_cons_self
    have hentries : (t.insert e.1 e.2).entries = t.entries ++ [e] := put_eq_append hlt
    rw [List.foldl_cons, ih, hentries, List.append_assoc, List.singleton_append]
    rw [hentries, List.append_assoc, List.singleton_append]
    exact h

theorem ext_entries {s t : Table α} (h : s.entries = t.entries) : s = t := by
  cases s
  cases t
  cases h
  rfl

/-- A table is rebuilt from its entries. -/
theorem ofList_entries (t : Table α) : ofList t.entries = t :=
  ext_entries (entries_foldl_insert t.entries empty t.ascending)

theorem mem_of_lookup {key : String} {value : α} :
    ∀ {es : List (String × α)}, lookup key es = some value → (key, value) ∈ es
  | (k, v) :: es, h => by
    simp only [lookup] at h
    split at h
    · next heq =>
      cases h
      exact heq ▸ List.mem_cons_self
    · exact List.mem_cons_of_mem _ (mem_of_lookup h)

theorem mem_keys_of_find? {t : Table α} {key : String} {value : α} (h : t.find? key = some value) :
    key ∈ t.keys :=
  List.mem_map.2 ⟨(key, value), mem_of_lookup h, rfl⟩

end Table

end ResourceDelta
