import ResourceDelta.FieldTree.Basic
import ResourceDelta.FieldTree.Defect

/-!
# Attaching overrides

`FieldTree.attachOverride` adds flags to the field with a given path.  Flags only accumulate, and no
field may become both ignored and secret.  A call that is rejected leaves a tree behind as well.
-/

set_option autoImplicit false

namespace ResourceDelta

namespace FieldTree

/-- The tree with other flags at the field with a given path. -/
def setFlags (t : FieldTree) (path : FieldPath) (flags : FieldFlags) : FieldTree :=
  { t with
    fields := t.fields.map fun f => if f.path = path then { f with flags := some flags } else f }

/-- Adds flags to those of the field with a given path.  The call is accepted or rejected with a
defect, and leaves a tree behind in either case. -/
def attachOverride (t : FieldTree) (path : FieldPath) (flags : FieldFlags) :
    Except Defect Unit × FieldTree :=
  match t.resolve path with
  | none => (.error (.danglingOverride path), t)
  | some field =>
    let merged := (field.flags.getD .none).union flags
    if merged.isConflict then (.error (.conflictingOverride path), t)
    else (.ok (), t.setFlags path merged)

/-- The tree after an override that must be accepted. -/
def attach (t : FieldTree) (path : FieldPath) (flags : FieldFlags) : Except Defect FieldTree :=
  match t.attachOverride path flags with
  | (.error e, _) => .error e
  | (.ok (), t) => .ok t

end FieldTree

end ResourceDelta
