import Mathlib
import ResourceDelta.Proofs.FieldPath.FirstDefect

/-!
# Configurations are read back

What is written of a configuration is read as the same configuration: the choice of a flavor keeps
its form, and every list of paths keeps its paths, their order and their repetitions.

* `FlavorChoice.decode_encode` — no flavor is mistaken for the name of one.
* `WrittenConfig.decode_encode`, `WrittenConfig.parse_text` — a configuration is read as the texts
  of its paths, and these are read as the paths.
* `WrittenConfig.exists_parse_iff` — a written configuration stands for one if its texts are paths.
* `GeneratorConfig.decode_reads_back` — both together.
-/

set_option autoImplicit false

namespace ResourceDelta

/-! ## Flavors -/

theorem FlavorName.decode_encode (name : FlavorName) :
    FlavorName.decode (.text name.text) = some name := by
  cases name <;> rfl

/-- A flavor is written with more than one entry, so it is not read as a name. -/
theorem FlavorName.decode_flavor (f : Flavor) : FlavorName.decode f.encode = none :=
  rfl

theorem Flavor.decode_encode (f : Flavor) : Flavor.decode f.encode = some f := by
  have hroots : (Value.ofFields
      [("spec_field", .text f.specRoot), ("status_field", .text f.statusRoot)]).record
      ["spec_field", "status_field"] =
      some [some (.text f.specRoot), some (.text f.statusRoot)] := by
    rw [Value.record_ofFields _ (by simp)]
    rfl
  have hfields : f.encode.record
      ["prefix", "include_ack_metadata", "set_many_output_not_found_err_return"] =
      some [some (.ofFields
          [("spec_field", .text f.specRoot), ("status_field", .text f.statusRoot)]),
        some (.bool f.includesMetadata), some (.text f.notFoundReturn)] := by
    rw [encode, Value.record_ofFields _ (by simp)]
    rfl
  unfold decode
  rw [hfields]
  simp only [Option.bind_eq_bind, Option.bind_some, hroots]
  rfl

/-- **The choice of a flavor keeps its form**, whatever the flavor. -/
theorem FlavorChoice.decode_encode (choice : FlavorChoice) :
    FlavorChoice.decode choice.encode = some choice := by
  cases choice with
  | named name =>
    unfold FlavorChoice.decode
    rw [encode, FlavorName.decode_encode]
  | custom flavor =>
    unfold FlavorChoice.decode
    rw [encode, FlavorName.decode_flavor]
    simp only [Flavor.decode_encode]
    rfl

/-! ## Configurations as texts -/

/-- The overrides of one resource with their paths as texts. -/
def Overrides.written (o : Overrides) : WrittenOverrides :=
  ⟨o.ignore.map FieldPath.text, o.secret.map FieldPath.text⟩

/-- A configuration with its paths as texts. -/
def GeneratorConfig.written (c : GeneratorConfig) : WrittenConfig :=
  ⟨c.choice, c.resources.entries.map fun e => (e.1, e.2.written)⟩

/-- A configuration is read as one with the texts of its paths. -/
theorem WrittenConfig.decode_encode (c : GeneratorConfig) :
    WrittenConfig.decode (Node.ofValue c.encode) = some c.written := by
  have hfields : (Node.ofValue c.encode).fields ["flavor", "resources"] =
      some [some (Node.ofValue c.choice.encode), some (Node.ofValue (.ofFields
        (c.resources.entries.map fun e => (e.1, e.2.encode))))] := by
    rw [GeneratorConfig.encode, Node.fields_ofFields _ (by simp)]
    rfl
  have hchoice : FlavorChoice.decodeOrStandard (some (Node.ofValue c.choice.encode)) =
      some c.choice := by
    show (Node.ofValue c.choice.encode).value?.bind FlavorChoice.decode = _
    rw [Node.value?_ofValue]
    exact FlavorChoice.decode_encode c.choice
  have hentries : Node.textEntriesOrNone (some (Node.ofValue (.ofFields
      (c.resources.entries.map fun e => (e.1, e.2.encode))))) =
      some (Node.namedNodes (c.resources.entries.map fun e => (e.1, e.2.encode))) :=
    Node.textEntries?_ofFields _
  have hresources := Node.mapM_namedNodes WrittenOverrides.decode_encode c.resources.entries
  unfold WrittenConfig.decode
  rw [hfields]
  simp only [Option.bind_eq_bind, Option.bind_some, hchoice, hentries] at hresources ⊢
  rw [hresources]
  rfl

/-- The texts of a configuration's paths are read as these paths. -/
theorem WrittenConfig.parse_text (c : GeneratorConfig) : c.written.parse = .ok c := by
  have hread : ∀ e ∈ c.resources.entries, (do
      let overrides ← e.2.written.parse
      return (e.1, overrides) : Except PathError (String × Overrides)) = .ok (id e) := by
    intro e _
    have hparse : e.2.written.parse = .ok e.2 := WrittenOverrides.parse_text e.2
    rw [hparse]
    rfl
  have hresources := mapM_eq_ok hread
  rw [List.map_id] at hresources
  have htable : Table.ofList c.resources.entries = c.resources := Table.ofList_entries _
  unfold WrittenConfig.parse GeneratorConfig.written
  rw [List.mapM_map]
  refine bind_eq_ok.2 ⟨c.resources.entries, hresources, ?_⟩
  rw [htable]
  rfl

/-! ## Which texts matter -/

theorem WrittenOverrides.exists_parse_iff {o : WrittenOverrides} :
    (∃ overrides, o.parse = .ok overrides) ↔
      ∀ s ∈ o.ignore ++ o.secret, ∃ p, FieldPath.parse s = .ok p := by
  rw [List.forall_mem_append, ← exists_mapM_ok_iff, ← exists_mapM_ok_iff]
  constructor
  · rintro ⟨overrides, h⟩
    obtain ⟨ignore, hignore, h⟩ := bind_eq_ok.1 h
    obtain ⟨secret, hsecret, -⟩ := bind_eq_ok.1 h
    exact ⟨⟨ignore, hignore⟩, secret, hsecret⟩
  · rintro ⟨⟨ignore, hignore⟩, secret, hsecret⟩
    exact ⟨⟨ignore, secret⟩, bind_eq_ok.2 ⟨ignore, hignore, bind_eq_ok.2 ⟨secret, hsecret, rfl⟩⟩⟩

/-- A written configuration stands for one exactly if each of its texts is a path. -/
theorem WrittenConfig.exists_parse_iff {w : WrittenConfig} :
    (∃ c, w.parse = .ok c) ↔
      ∀ e ∈ w.resources, ∀ s ∈ e.2.ignore ++ e.2.secret, ∃ p, FieldPath.parse s = .ok p := by
  have hentry : ∀ e : String × WrittenOverrides,
      (∃ r, (do
        let overrides ← e.2.parse
        return (e.1, overrides) : Except PathError (String × Overrides)) = .ok r) ↔
        ∀ s ∈ e.2.ignore ++ e.2.secret, ∃ p, FieldPath.parse s = .ok p := by
    intro e
    rw [← WrittenOverrides.exists_parse_iff]
    constructor
    · rintro ⟨r, h⟩
      obtain ⟨overrides, h, -⟩ := bind_eq_ok.1 h
      exact ⟨overrides, h⟩
    · rintro ⟨overrides, h⟩
      exact ⟨(e.1, overrides), bind_eq_ok.2 ⟨overrides, h, rfl⟩⟩
  simp only [← hentry]
  rw [← exists_mapM_ok_iff]
  constructor
  · rintro ⟨c, h⟩
    obtain ⟨resources, h, -⟩ := bind_eq_ok.1 h
    exact ⟨resources, h⟩
  · rintro ⟨resources, h⟩
    exact ⟨⟨w.choice, .ofList resources⟩, bind_eq_ok.2 ⟨resources, h, rfl⟩⟩

/-- A configuration that is read as texts is rejected exactly if one of these is no path. -/
theorem GeneratorConfig.decode_eq_none_iff {n : Node} {w : WrittenConfig}
    (h : WrittenConfig.decode n = some w) :
    GeneratorConfig.decode n = none ↔
      ∃ e ∈ w.resources, ∃ s ∈ e.2.ignore ++ e.2.secret, ∀ p, FieldPath.parse s ≠ .ok p := by
  have hdecode : GeneratorConfig.decode n = w.parse.toOption := by
    unfold GeneratorConfig.decode
    rw [h]
    rfl
  have hnone : w.parse.toOption = none ↔ ¬ ∃ c, w.parse = .ok c := by
    cases w.parse <;> simp [Except.toOption]
  rw [hdecode, hnone, WrittenConfig.exists_parse_iff]
  simp only [not_forall, not_exists, exists_prop]

namespace GeneratorConfig

/-- A configuration is read back from its node. -/
theorem decode_encode (c : GeneratorConfig) : decode (Node.ofValue c.encode) = some c := by
  unfold decode
  rw [WrittenConfig.decode_encode]
  show c.written.parse.toOption = some c
  rw [WrittenConfig.parse_text]
  rfl

/-- **Every configuration is read back from what is written of it**, and what has the right form is
rejected only if some overrides list a text that is no path. -/
theorem decode_reads_back :
    (∀ c : GeneratorConfig, decode (Node.ofValue c.encode) = some c) ∧
    ∀ (n : Node) (w : WrittenConfig), WrittenConfig.decode n = some w →
      (decode n = none ↔
        ∃ e ∈ w.resources, ∃ s ∈ e.2.ignore ++ e.2.secret, ∀ p, FieldPath.parse s ≠ .ok p) :=
  ⟨decode_encode, fun _ _ h => decode_eq_none_iff h⟩

/-- A flavor that equals a built-in one but is not chosen by its name, and a repeated path through
the elements of a list. -/
def brokerConfig : GeneratorConfig :=
  let password : FieldPath :=
    ⟨⟨"users", by decide⟩, [.elementMember ⟨"password", by decide⟩]⟩
  ⟨.custom .ack, .ofList [("Broker", ⟨[], [password, password]⟩), ("", .none)]⟩

/-- A choice by name, and a path that ends in the elements of a list. -/
def unfinishedValue : Value :=
  .ofFields
    [("flavor", .ofFields [("crossplane", .null)]),
      ("resources", .ofFields
        [("Broker", .ofFields [("secret", .list [.text "users..password", .text "users."])]),
          ("Queue", .null)])]

theorem decode_reads_back_broker :
    decode (Node.ofValue brokerConfig.encode) = some brokerConfig ∧
      WrittenConfig.decode (Node.ofValue unfinishedValue) =
        some ⟨.named .crossplane,
          [("Broker", ⟨[], ["users..password", "users."]⟩), ("Queue", ⟨[], []⟩)]⟩ ∧
      decode (Node.ofValue unfinishedValue) = none := by
  have h : WrittenConfig.decode (Node.ofValue unfinishedValue) =
      some ⟨.named .crossplane,
        [("Broker", ⟨[], ["users..password", "users."]⟩), ("Queue", ⟨[], []⟩)]⟩ := by cbv
  have hparse : FieldPath.parse "users." = .error .trailingWildcard := by cbv
  refine ⟨decode_reads_back.1 brokerConfig, h, (decode_reads_back.2 _ _ h).2 ?_⟩
  refine ⟨_, List.mem_cons_self, "users.", by simp, fun p hp => ?_⟩
  rw [hparse] at hp
  cases hp

end GeneratorConfig

end ResourceDelta
