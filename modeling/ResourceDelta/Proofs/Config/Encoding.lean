import ResourceDelta.Config.Decode
import ResourceDelta.Proofs.Data.Fields

/-!
# Configurations as data

What is written of a configuration as typed values is read back from their nodes.

* `decodeTexts_ofValue` — a list of paths, as texts.
* `WrittenOverrides.decode_encode` — the overrides of one resource, as texts.
-/

set_option autoImplicit false

namespace ResourceDelta

/-- A list of paths is read as their texts. -/
theorem decodeTexts_ofValue (ps : List FieldPath) :
    decodeTexts (some (Node.ofValue (.list (ps.map fun p => .text p.text)))) =
      some (ps.map FieldPath.text) := by
  have hread : ∀ p ∈ ps, (Node.ofValue (.text p.text)).text? = some p.text := fun _ _ => rfl
  show (Node.ofValues (ps.map fun p => .text p.text)).mapM Node.text? = some (ps.map FieldPath.text)
  rw [Node.ofValues_eq_map, List.map_map]
  exact mapM_map_eq_some hread

/-- The overrides of a resource are read as the written forms of their paths. -/
theorem WrittenOverrides.decode_encode (o : Overrides) :
    WrittenOverrides.decode (Node.ofValue o.encode) =
      some ⟨o.ignore.map FieldPath.text, o.secret.map FieldPath.text⟩ := by
  have hfields : (Node.ofValue o.encode).fields overridesFields =
      some [some (Node.ofValue (.list (o.ignore.map fun p => .text p.text))),
        some (Node.ofValue (.list (o.secret.map fun p => .text p.text)))] := by
    rfl
  unfold WrittenOverrides.decode
  rw [hfields]
  show (decodeTexts _ >>= fun ignore => decodeTexts _ >>= fun secret =>
    some (WrittenOverrides.mk ignore secret)) = _
  rw [decodeTexts_ofValue, decodeTexts_ofValue]
  rfl

end ResourceDelta
