import ResourceDelta.Comparison.Program
import ResourceDelta.Proofs.FieldTree.Indexed

/-!
# What comparison programs do

A comparison program is run on the values of two Specs.  A struct, a single value or a map of
strings may be nil; to access a member of nil, or to compare nil with a value, is a fault.  What the
functions that it calls find is left open.

* `SpecValue.access` — the value that a path leads to.
* `SpecValue.Conforms` — every field of a value has the form that its kind asks for.
* `Library.Decides` — what is asked of the functions that are called, kind by kind.
* `runProgram` — the paths that a program records, in the order of recording, or a fault.
* `SpecValue.access_member_iff` — a member has a value if the struct around it is present.
-/

set_option autoImplicit false

namespace ResourceDelta

/-! ## Values -/

/-- The value of a field. -/
inductive Datum (α : Type) where
  /-- The field is absent. -/
  | nil
  /-- A value that is compared as a whole. -/
  | content (a : α)
  /-- A struct that is present. -/
  | struct (members : FieldName → Datum α)

/-- The top-level fields of a Spec. -/
abbrev SpecValue (α : Type) := FieldName → Datum α

/-- Why a program cannot go on. -/
inductive Fault where
  /-- A member of nil was accessed. -/
  | nilAccess
  /-- Nil was compared as if it led to a value. -/
  | nilDereference
  /-- A value did not have the form that was asked for. -/
  | mistyped
  deriving DecidableEq, Repr

section

variable {α : Type}

def Datum.isNil : Datum α → Bool
  | .nil => true
  | .content _ => false
  | .struct _ => false

/-- One step down from a value; elements are not accessed by name. -/
def Datum.step : Datum α → Step → Except Fault (Datum α)
  | .struct members, .member name => .ok (members name)
  | .nil, .member _ => .error .nilAccess
  | _, _ => .error .mistyped

/-- What is compared if a value is compared as a whole. -/
def Datum.target : Datum α → Except Fault α
  | .content a => .ok a
  | .nil => .error .nilDereference
  | .struct _ => .error .mistyped

/-- The value that a path leads to. -/
def SpecValue.access (x : SpecValue α) (path : FieldPath) : Except Fault (Datum α) :=
  path.steps.foldlM Datum.step (x path.root)

/-- There is a struct at a path, and it is present. -/
def SpecValue.HasStruct (x : SpecValue α) (path : FieldPath) : Prop :=
  ∃ members, x.access path = .ok (.struct members)

/-- The kinds of fields that may be nil. -/
inductive MayBeNil : TypeKind → Prop
  | scalar (kind : ScalarKind) : MayBeNil (.optionalScalar kind)
  | struct : MayBeNil .nestedStruct
  | strings : MayBeNil .mapStringToString

theorem mayBeNil_iff {kind : TypeKind} : MayBeNil kind ↔ kind.isNilable = true := by
  constructor
  · rintro (kind | _ | _) <;> rfl
  · intro h
    cases kind with
    | optionalScalar kind => exact .scalar kind
    | nestedStruct => exact .struct
    | mapStringToString => exact .strings
    | listOfScalar kind => cases h
    | listOfStruct => cases h
    | mapOfStruct => cases h
    | byteSequence => cases h

instance (kind : TypeKind) : Decidable (MayBeNil kind) :=
  decidable_of_iff _ mayBeNil_iff.symm

/-- A value has the form that a kind asks for. -/
def Datum.Fits (kind : TypeKind) : Datum α → Prop
  | .nil => MayBeNil kind
  | .content _ => kind ≠ .nestedStruct
  | .struct _ => kind = .nestedStruct

/-- Every field that a path of the tree leads to has the form that its kind asks for. -/
def SpecValue.Conforms (x : SpecValue α) (t : FieldTree) : Prop :=
  ∀ f ∈ t.fields, ∀ d, x.access f.path = .ok d → d.Fits f.kind

instance (kind : TypeKind) : ∀ d : Datum α, Decidable (d.Fits kind)
  | .nil => inferInstanceAs (Decidable (MayBeNil kind))
  | .content _ => inferInstanceAs (Decidable (kind ≠ .nestedStruct))
  | .struct _ => inferInstanceAs (Decidable (kind = .nestedStruct))

instance (x : SpecValue α) (t : FieldTree) : Decidable (x.Conforms t) :=
  decidable_of_iff (∀ f ∈ t.fields.toList, ∀ d ∈ (x.access f.path).toOption, d.Fits f.kind) (by
    have hsome : ∀ {r : Except Fault (Datum α)} {d : Datum α}, d ∈ r.toOption ↔ r = .ok d := by
      intro r d
      cases r <;> simp [Except.toOption]
    unfold SpecValue.Conforms
    simp only [Array.mem_toList_iff, hsome])

/-! ## Running a program -/

/-- The functions that a program calls, on values that are compared as a whole. -/
structure Library (α : Type) where
  /-- Whether two values are unequal by a check. -/
  unequal : Check → α → α → Bool
  /-- Whether there is a difference in that a value is nil. -/
  nilDifference : Datum α → Datum α → Bool

/-- The functions find what they are there for: for each kind, a check of values of that kind finds
those that differ. -/
structure Library.Decides (library : Library α) (differ : TypeKind → α → α → Bool) : Prop where
  /-- There is a difference if one value is nil and the other is not. -/
  nilDifference_eq : ∀ d e, library.nilDifference d e = (d.isNil != e.isNil)
  targets_eq : ∀ kind, kind ≠ .timestamp → library.unequal .targets = differ (.optionalScalar kind)
  times_eq : library.unequal .times = differ (.optionalScalar .timestamp)
  stringLists_eq : library.unequal .stringLists = differ (.listOfScalar .string)
  scalarLists_eq : ∀ kind, kind ≠ .string → library.unequal .deep = differ (.listOfScalar kind)
  structLists_eq : library.unequal .deep = differ .listOfStruct
  stringMaps_eq : library.unequal .stringMaps = differ .mapStringToString
  structMaps_eq : library.unequal .deep = differ .mapOfStruct
  bytes_eq : library.unequal .bytes = differ .byteSequence

mutual

/-- The paths that a statement records. -/
def Statement.run (library : Library α) (x y : SpecValue α) :
    Statement → Except Fault (List FieldPath)
  | .record path => do
    let _ ← x.access path
    let _ ← y.access path
    return [path]
  | .ifUnequal check path body => do
    let a ← (← x.access path).target
    let b ← (← y.access path).target
    if library.unequal check a b then runProgram library x y body else return []
  | .ifOneNil path mismatch present => do
    let d ← x.access path
    let e ← y.access path
    if library.nilDifference d e then runProgram library x y mismatch
    else if !d.isNil && !e.isNil then runProgram library x y present
    else return []

/-- The paths that some statements record, one after the other. -/
def runProgram (library : Library α) (x y : SpecValue α) :
    List Statement → Except Fault (List FieldPath)
  | [] => return []
  | statement :: program => do
    let recorded ← statement.run library x y
    let more ← runProgram library x y program
    return recorded ++ more

end

variable {library : Library α} {x y : SpecValue α}

theorem runProgram_append {p q : List Statement} {ps qs : List FieldPath}
    (hp : runProgram library x y p = .ok ps) (hq : runProgram library x y q = .ok qs) :
    runProgram library x y (p ++ q) = .ok (ps ++ qs) := by
  induction p generalizing ps with
  | nil =>
    cases hp
    exact hq
  | cons s p ih =>
    rw [runProgram] at hp
    obtain ⟨rs, hs, hp⟩ := bind_eq_ok.1 hp
    obtain ⟨more, hmore, hp⟩ := bind_eq_ok.1 hp
    cases hp
    rw [List.cons_append, runProgram, hs, ih hmore, List.append_assoc]
    rfl

theorem runProgram_singleton (s : Statement) :
    runProgram library x y [s] = s.run library x y := by
  rw [runProgram, runProgram]
  cases s.run library x y with
  | error fault => rfl
  | ok recorded =>
    show Except.ok (recorded ++ []) = _
    rw [List.append_nil]

/-! ## Access -/

theorem SpecValue.access_extend (p : FieldPath) (s : Step) :
    x.access (p.extend s) = x.access p >>= fun d => d.step s := by
  unfold access FieldPath.extend
  rw [List.foldlM_append]
  simp only [List.foldlM_cons, List.foldlM_nil, bind_pure]

/-- The members of a scope can be accessed. -/
def Scope.Entered (x : SpecValue α) : Scope → Prop
  | .top => True
  | .struct path => x.HasStruct path
  | .elements _ => False

/-- A member has a value if its scope is entered. -/
theorem SpecValue.access_member_iff {scope : Scope} {n : FieldName} :
    (∃ d, x.access (scope.extend n) = .ok d) ↔ scope.Entered x := by
  cases scope with
  | top => exact ⟨fun _ => trivial, fun _ => ⟨_, rfl⟩⟩
  | struct path =>
    show (∃ d, x.access (path.extend (.member n)) = .ok d) ↔ x.HasStruct path
    rw [access_extend]
    constructor
    · rintro ⟨d, h⟩
      obtain ⟨e, he, hd⟩ := bind_eq_ok.1 h
      cases e with
      | nil => cases hd
      | content a => cases hd
      | struct members => exact ⟨members, he⟩
    · rintro ⟨members, h⟩
      rw [h]
      exact ⟨members n, rfl⟩
  | elements path =>
    show (∃ d, x.access (path.extend (.elementMember n)) = .ok d) ↔ False
    rw [access_extend]
    simp only [iff_false]
    rintro ⟨d, h⟩
    obtain ⟨e, -, hd⟩ := bind_eq_ok.1 h
    cases e <;> cases hd

/-- If a path has a value, the structs around it are present. -/
theorem SpecValue.hasStruct_of_access {p : FieldPath} : ∀ {d : Datum α}, x.access p = .ok d →
    ∀ q ∈ p.ancestors, x.HasStruct q := by
  induction p using FieldPath.extend_induction with
  | root n =>
    intro d _ q hq
    rw [FieldPath.ancestors_root] at hq
    cases hq
  | extend p s ih =>
    intro d h q hq
    rw [access_extend] at h
    obtain ⟨e, he, hd⟩ := bind_eq_ok.1 h
    rw [FieldPath.ancestors_extend] at hq
    rcases List.mem_cons.1 hq with rfl | hq
    · cases e with
      | nil => cases s <;> cases hd
      | content a => cases s <;> cases hd
      | struct members => exact ⟨members, he⟩
    · exact ih he q hq

end

end ResourceDelta
