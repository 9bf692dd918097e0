import ResourceDelta.Proofs.Comparison.Records

/-!
# Fragments as filled templates

The layout of a resource's program is one template for all flavors and operands.  Of a flavor only
the way to the Spec is filled in, before the fields of both sides and, without the dots before it,
before the paths that are recorded.

* `recordRoot_dots` — what precedes a recorded path, for a way to the Spec with any number of dots.
* `exists_record_of_delta` — the collector of differences occurs only where it is called.
* `fill_template_record` — what a line that records a path is filled to.
* `fill_template_record_of_plain` — under a plain way to the Spec, it records the path it reads.
* `compareResource_fills_template` — the fragments for a resource are fillings of one template.
-/

set_option autoImplicit false

namespace ResourceDelta

/-! ## What precedes a recorded path -/

/-- The way to the Spec is none, or one dot and a text that does not start with one. -/
def IsPlainRoot (specRoot : String) : Prop :=
  specRoot = "" ∨ ∃ rest, specRoot = "." ++ rest ∧ rest ≠ "" ∧ rest.toList.head? ≠ some '.'

theorem dropLeadingDots_dots {rest : String} (h : rest.toList.head? ≠ some '.') (n : Nat) :
    dropLeadingDots (String.ofList (List.replicate n '.') ++ rest) = rest := by
  have hdots : ∀ c ∈ List.replicate n '.', decide (c = '.') = true := by
    intro c hc
    rw [List.eq_of_mem_replicate hc]
    rfl
  have hrest : rest.toList.dropWhile (· = '.') = rest.toList := by
    cases hs : rest.toList with
    | nil => rfl
    | cons c cs =>
      rw [hs, List.head?_cons] at h
      have hc : c ≠ '.' := fun hc => h (congrArg some hc)
      simp [hc]
  unfold dropLeadingDots
  rw [String.toList_append, String.toList_ofList, List.dropWhile_append_of_pos hdots, hrest,
    String.ofList_toList]

/-- All dots before the way to the Spec are dropped, and one stands after what is left of it. -/
theorem recordRoot_dots {rest : String} (h : rest.toList.head? ≠ some '.') (n : Nat) :
    recordRoot (String.ofList (List.replicate n '.') ++ rest) =
      if rest = "" then "" else rest ++ "." := by
  unfold recordRoot
  rw [dropLeadingDots_dots h]

/-- Below a plain way to the Spec, a field is read by the path that is recorded for it. -/
theorem IsPlainRoot.append_dot {specRoot : String} (h : IsPlainRoot specRoot) (path : String) :
    specRoot ++ ("." ++ path) = "." ++ (recordRoot specRoot ++ path) := by
  rcases h with rfl | ⟨rest, rfl, hne, hdot⟩
  · have hroot : recordRoot "" = "" := rfl
    rw [hroot, String.empty_append, String.empty_append]
  · have hroot : recordRoot ("." ++ rest) = if rest = "" then "" else rest ++ "." :=
      recordRoot_dots hdot 1
    rw [hroot, if_neg hne]
    simp only [String.append_assoc]

/-! ## Lines that record -/

/-- Conditions do not mention the collector of differences. -/
theorem delta_not_mem_condition (check : Check) (path : FieldPath) :
    .hole .delta ∉ check.condition path := by
  cases check <;> simp [Check.condition, operand]

/-- The collector of differences occurs only in what records a path. -/
theorem Code.exists_record_of_delta {c : Code} (h : .hole .delta ∈ c.template) :
    ∃ path, c = .said .record path := by
  cases c with
  | closing => simp [template, closingLine] at h
  | said phrase path =>
    cases phrase with
    | record => exact ⟨path, rfl⟩
    | unequal check => simp [template, unequalLine, delta_not_mem_condition] at h
    | oneNil => simp [template, oneNilLine, operand] at h
    | present => simp [template, presentLine, operand] at h

/-- A line in which the collector of differences occurs records a path of the program. -/
theorem exists_record_of_delta {level : Nat} {line : Line} {program : List Statement}
    (h : line ∈ programLines level program) (hdelta : .hole .delta ∈ line.code) :
    ∃ path ∈ programRecords program, line.code = recordLine path := by
  obtain ⟨codes, hlines, hrecords⟩ := exists_codes level program
  rw [hlines] at h
  obtain ⟨⟨level, code⟩, hcode, rfl⟩ := List.mem_map.1 h
  obtain ⟨path, rfl⟩ := Code.exists_record_of_delta hdelta
  rw [← hrecords]
  exact ⟨path, List.mem_filterMap.2 ⟨_, hcode, rfl⟩, rfl⟩

/-- Every path of the program is recorded by a line. -/
theorem exists_line_of_record {level : Nat} {path : FieldPath} {program : List Statement}
    (h : path ∈ programRecords program) :
    ∃ line ∈ programLines level program, line.code = recordLine path := by
  obtain ⟨codes, hlines, hrecords⟩ := exists_codes level program
  rw [← hrecords] at h
  obtain ⟨⟨level, code⟩, hcode, hpath⟩ := List.mem_filterMap.1 h
  obtain rfl := Code.recorded?_eq_some_iff.1 hpath
  rw [hlines]
  exact ⟨_, List.mem_map_of_mem hcode, rfl⟩

/-! ## Filling -/

/-- The text of a call that records a path, with the two values that were compared. -/
def recordText (delta path left right : String) : String :=
  delta ++ ".Add(\"" ++ path ++ "\", " ++ left ++ ", " ++ right ++ ")"

/-- A line that records a path is filled to a call that does. -/
theorem fill_template_record (names : Names) {line : Line} {path : FieldPath}
    (h : line.code = recordLine path) :
    Template.fill line.template names =
      tabs line.level ++ recordText names.delta (names.root ++ path.text)
        (names.left ++ "." ++ path.text) (names.right ++ "." ++ path.text) ++ "\n" := by
  rw [Line.fill_template, Line.text, h]
  simp [Template.fill, recordLine, operand, Piece.fill, Names.of, String.join, recordText,
    String.append_assoc]

/-- **A line records the path that it reads**, under a plain way to the Spec. -/
theorem fill_template_record_of_plain {specRoot : String} (hroot : IsPlainRoot specRoot)
    (o : Operands) {line : Line} {path : FieldPath} (h : line.code = recordLine path) :
    Template.fill line.template
        ⟨o.left ++ specRoot, o.right ++ specRoot, recordRoot specRoot, o.delta⟩ =
      tabs line.level ++ recordText o.delta (recordRoot specRoot ++ path.text)
        (o.left ++ "." ++ (recordRoot specRoot ++ path.text))
        (o.right ++ "." ++ (recordRoot specRoot ++ path.text)) ++ "\n" := by
  have hside : ∀ side : String, side ++ specRoot ++ "." ++ path.text =
      side ++ "." ++ (recordRoot specRoot ++ path.text) := by
    intro side
    rw [String.append_assoc, String.append_assoc, hroot.append_dot, String.append_assoc]
  rw [fill_template_record _ h, hside, hside]

/-! ## The main result -/

/-- What a program of a tree records are the fields that are compared. -/
theorem FieldTree.Outlines.mem_records_iff {t : FieldTree} {os : Outline} (h : t.Outlines os)
    {p : FieldPath} :
    p ∈ programRecords (os.read .statements t.ignores .top) ↔
      ∃ f ∈ t.fields, f.path = p ∧ t.IsCompared f := by
  rw [Outline.records_eq.1, mem_repeatedPaths]
  simp only [h.mem_picks_iff]
  constructor
  · rintro ⟨_, f, hf, hpath, -, hcompared⟩
    exact ⟨f, hf, hpath, hcompared⟩
  · rintro ⟨f, hf, hpath, hcompared⟩
    exact ⟨f.kind, f, hf, hpath, rfl, hcompared⟩

/-- The fragments for a resource at one indentation are fillings of the template that is made of
some lines. -/
structure FillsTemplate (resource : Resource) (indent : Nat) (lines : List Line) : Prop where
  /-- The lines are filled with the operands, the way to the Spec behind those of both sides; the
  flavor of the resource itself has no effect. -/
  fragment : ∀ (target stored : Flavor) (operands : Operands),
    compareResource target { resource with flavor := stored } operands indent =
      .ok (Template.fill (.text "\n" :: lines.flatMap Line.template)
        ⟨operands.left ++ target.specRoot, operands.right ++ target.specRoot,
          recordRoot target.specRoot, operands.delta⟩)
  /-- Nothing of a flavor but the way to the Spec has an effect. -/
  fragment_congr : ∀ (target target' : Flavor) (operands : Operands),
    target.specRoot = target'.specRoot →
      compareResource target resource operands indent =
        compareResource target' resource operands indent
  /-- A line in which the collector of differences occurs is filled to a call that records a field
  that is compared, under a plain way to the Spec by the path at which it reads the two values. -/
  record : ∀ line ∈ lines, .hole .delta ∈ line.code →
    ∃ f ∈ resource.spec.fields, resource.spec.IsCompared f ∧
      ∀ (target : Flavor) (operands : Operands), IsPlainRoot target.specRoot →
        Template.fill line.template
            ⟨operands.left ++ target.specRoot, operands.right ++ target.specRoot,
              recordRoot target.specRoot, operands.delta⟩ =
          tabs line.level ++ recordText operands.delta (recordRoot target.specRoot ++ f.path.text)
            (operands.left ++ "." ++ (recordRoot target.specRoot ++ f.path.text))
            (operands.right ++ "." ++ (recordRoot target.specRoot ++ f.path.text)) ++ "\n"
  /-- Every field that is compared has a line that is filled to a call that records it. -/
  recorded : ∀ f ∈ resource.spec.fields, resource.spec.IsCompared f →
    ∃ line ∈ lines, line.code = recordLine f.path ∧
      ∀ (target : Flavor) (operands : Operands),
        Template.fill line.template
            ⟨operands.left ++ target.specRoot, operands.right ++ target.specRoot,
              recordRoot target.specRoot, operands.delta⟩ =
          tabs line.level ++ recordText operands.delta (recordRoot target.specRoot ++ f.path.text)
            (operands.left ++ target.specRoot ++ "." ++ f.path.text)
            (operands.right ++ target.specRoot ++ "." ++ f.path.text) ++ "\n"

/-- **The fragments for a resource are fillings of one template**, whatever the flavor and the
operands. -/
theorem compareResource_fills_template {definition : ResourceDefinition} {overrides : Overrides}
    {flavor : Flavor} {resource : Resource}
    (h : Resource.build definition overrides flavor = .ok resource) (indent : Nat) :
    ∃ lines : List Line, FillsTemplate resource indent lines := by
  obtain ⟨⟨os, -, hos⟩, -⟩ := Resource.build_outlines h
  refine ⟨programLines indent (os.read .statements resource.spec.ignores .top), ?_, ?_, ?_, ?_⟩
  · intro target stored operands
    have hstored : { resource with flavor := stored : Resource }.spec.Outlines os := hos
    exact compareResource_eq hstored target operands indent
  · intro target target' operands hroot
    rw [compareResource_eq hos, compareResource_eq hos, Operands.names, Operands.names, hroot]
  · intro line hline hdelta
    obtain ⟨path, hpath, hcode⟩ := exists_record_of_delta hline hdelta
    obtain ⟨f, hf, rfl, hcompared⟩ := hos.mem_records_iff.1 hpath
    exact ⟨f, hf, hcompared, fun target operands hplain =>
      fill_template_record_of_plain hplain operands hcode⟩
  · intro f hf hcompared
    obtain ⟨line, hline, hcode⟩ :=
      exists_line_of_record (hos.mem_records_iff.2 ⟨f, hf, rfl, hcompared⟩)
    exact ⟨line, hline, hcode, fun target operands => fill_template_record _ hcode⟩

theorem isPlainRoot_crossplane : IsPlainRoot Flavor.crossplane.specRoot :=
  .inr ⟨"Spec.ForProvider", rfl, by decide, by decide⟩

/-- Both built-in flavors fill one template for the sample. -/
theorem compareResource_fills_template_store : ∃ (resource : Resource) (lines : List Line),
    Resource.build storeDefinition storeOverrides .ack = .ok resource ∧
    compareResource .ack resource .standard 1 =
      .ok (Template.fill (.text "\n" :: lines.flatMap Line.template)
        ⟨"a.ko.Spec", "b.ko.Spec", "Spec.", "delta"⟩) ∧
    compareResource .crossplane resource .standard 1 =
      .ok (Template.fill (.text "\n" :: lines.flatMap Line.template)
        ⟨"a.ko.Spec.ForProvider", "b.ko.Spec.ForProvider", "Spec.ForProvider.", "delta"⟩) ∧
    ∀ line ∈ lines, .hole .delta ∈ line.code → ∃ f ∈ resource.spec.fields,
      Template.fill line.template
          ⟨"a.ko.Spec.ForProvider", "b.ko.Spec.ForProvider", "Spec.ForProvider.", "delta"⟩ =
        tabs line.level ++ recordText "delta" ("Spec.ForProvider." ++ f.path.text)
          ("a.ko." ++ ("Spec.ForProvider." ++ f.path.text))
          ("b.ko." ++ ("Spec.ForProvider." ++ f.path.text)) ++ "\n" := by
  obtain ⟨resource, h⟩ := build_store
  obtain ⟨lines, hlines⟩ := compareResource_fills_template h 1
  refine ⟨resource, lines, h, hlines.fragment .ack resource.flavor .standard,
    hlines.fragment .crossplane resource.flavor .standard, fun line hline hdelta => ?_⟩
  obtain ⟨f, hf, -, hfilled⟩ := hlines.record line hline hdelta
  exact ⟨f, hf, hfilled .crossplane .standard isPlainRoot_crossplane⟩

end ResourceDelta
