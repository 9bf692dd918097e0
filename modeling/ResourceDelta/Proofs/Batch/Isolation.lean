import Mathlib
import ResourceDelta.Batch
import ResourceDelta.Proofs.FieldPath.Parsing

/-!
# Batches isolate failures

A batch goes through its definition files one by one, and goes on where one fails.  What it does
with a file is told here by the file alone, in terms of resources and their fragments.  How texts
are read as definitions and configurations is left open throughout.

* `Batch.Yields` — what a definition file comes to under a configuration.
* `Batch.generate_yields` — a batch builds and compares as resources of a configuration are.
* `Batch.run_goThrough` — what is written and skipped in a run, file by file.
* `Batch.run_isolates_failures` — where all that a batch writes can be written, its outcome is put
  together from what its files yield.
* `Batch.outcome_of_unwritten` — a fragment that cannot be written ends the batch.
-/

set_option autoImplicit false

namespace ResourceDelta

/-- A configuration with another flavor, if one is named. -/
def GeneratorConfig.withFlavor (config : GeneratorConfig) : Option FlavorName → GeneratorConfig
  | none => config
  | some name => { config with choice := .named name }

namespace Batch

variable {b : Batch} {readers : Readers} {files files' : Files} {config : GeneratorConfig}
  {flavor : Flavor} {file : String}

/-- The batch with other definition files. -/
def withDefinitions (b : Batch) (definitions : List String) : Batch :=
  { b with definitions := definitions }

/-! ## Configurations -/

/-- There is a configuration file, and it cannot be read or decoded. -/
inductive LacksConfig (b : Batch) (readers : Readers) (files : Files) : ConfigError → Prop
  | unreadable {file : String} (given : b.config = some file) (unread : files file = none) :
      LacksConfig b readers files (.unreadableFile file)
  | unparsable {file text : String} (given : b.config = some file) (read : files file = some text)
      (undecoded : readers.config text = none) :
      LacksConfig b readers files (.unparsableFile file)

/-- The configuration is that in the configuration file, or the standard one if there is none. -/
inductive HasConfig (b : Batch) (readers : Readers) (files : Files) : GeneratorConfig → Prop
  | standard (absent : b.config = none) : HasConfig b readers files .standard
  | file {file text : String} {config : GeneratorConfig} (given : b.config = some file)
      (read : files file = some text) (decoded : readers.config text = some config) :
      HasConfig b readers files config

theorem LacksConfig.loadConfig_eq {error : ConfigError} (h : b.LacksConfig readers files error) :
    b.loadConfig readers files = .error error := by
  cases h with
  | unreadable given unread => simp only [loadConfig, given, Readers.configInFile, unread]
  | unparsable given read undecoded =>
    simp only [loadConfig, given, Readers.configInFile, read, Readers.configInText, undecoded]
    rfl

theorem HasConfig.loadConfig_eq (h : b.HasConfig readers files config) :
    b.loadConfig readers files = .ok config := by
  cases h with
  | standard absent => simp only [loadConfig, absent]
  | file given read decoded =>
    simp only [loadConfig, given, Readers.configInFile, read, Readers.configInText, decoded]
    rfl

/-- A configuration that can be had is there. -/
theorem exists_hasConfig (h : ∀ error, ¬ b.LacksConfig readers files error) :
    ∃ config, b.HasConfig readers files config := by
  cases hgiven : b.config with
  | none => exact ⟨.standard, .standard hgiven⟩
  | some file =>
    cases hread : files file with
    | none => exact absurd (.unreadable hgiven hread) (h _)
    | some text =>
      cases hdecoded : readers.config text with
      | none => exact absurd (.unparsable hgiven hread hdecoded) (h _)
      | some config => exact ⟨config, .file hgiven hread hdecoded⟩

theorem loadConfig_congr (h : ∀ c, b.config = some c → files' c = files c) :
    b.loadConfig readers files' = b.loadConfig readers files := by
  unfold loadConfig
  cases hgiven : b.config with
  | none => rfl
  | some c => simp only [Readers.configInFile, h c hgiven]

/-! ## Single files -/

/-- What a definition file comes to under a configuration: the fragment of the resource that it
defines, or the first error on the way there. -/
inductive Yields (b : Batch) (readers : Readers) (files : Files) (config : GeneratorConfig)
    (file : String) : Except DefinitionFileError String → Prop
  | unreadable (unread : files file = none) :
      Yields b readers files config file (.error (.unreadable file))
  | unparsable {text : String} (read : files file = some text)
      (undecoded : readers.definition text = none) :
      Yields b readers files config file (.error (.unparsable file))
  | unbuildable {text : String} {definition : ResourceDefinition} {error : BuildError}
      (read : files file = some text) (decoded : readers.definition text = some definition)
      (unbuilt : Resource.ofConfig definition config = .error error) :
      Yields b readers files config file (.error (.unbuildable error))
  | ungenerable {text : String} {definition : ResourceDefinition} {resource : Resource}
      {error : GenerationError} (read : files file = some text)
      (decoded : readers.definition text = some definition)
      (built : Resource.ofConfig definition config = .ok resource)
      (uncompared : compareResource resource.flavor resource b.operands b.indent = .error error) :
      Yields b readers files config file (.error (.ungenerable error))
  | fragment {text fragment : String} {definition : ResourceDefinition} {resource : Resource}
      (read : files file = some text) (decoded : readers.definition text = some definition)
      (built : Resource.ofConfig definition config = .ok resource)
      (compared : compareResource resource.flavor resource b.operands b.indent = .ok fragment) :
      Yields b readers files config file (.ok fragment)

theorem flavor_of_build {definition : ResourceDefinition} {overrides : Overrides}
    {resource : Resource} (h : Resource.build definition overrides flavor = .ok resource) :
    resource.flavor = flavor := by
  obtain ⟨trees, -, hresource⟩ := bind_eq_ok.1 h
  cases hresource
  rfl

/-- The resource that a batch builds is that of the configuration with the flavor it asks for. -/
theorem ofConfig_withFlavor (b : Batch) (definition : ResourceDefinition)
    (config : GeneratorConfig) :
    Resource.ofConfig definition (config.withFlavor b.flavor) =
      Resource.build definition (config.overridesOf definition.name) (b.flavorUnder config) := by
  unfold flavorUnder
  cases b.flavor <;> rfl

/-- **A batch builds and compares as resources of a configuration are.** -/
theorem generate_yields (b : Batch) (readers : Readers) (files : Files)
    (config : GeneratorConfig) (file : String) :
    b.Yields readers files (config.withFlavor b.flavor) file
      (b.generate readers files config (b.flavorUnder config) file) := by
  cases hread : files file with
  | none =>
    simp only [generate, hread]
    exact .unreadable hread
  | some text =>
    cases hdecoded : readers.definition text with
    | none =>
      simp only [generate, hread, hdecoded]
      exact .unparsable hread hdecoded
    | some definition =>
      have hbuild := ofConfig_withFlavor b definition config
      simp only [generate, hread, hdecoded, ← hbuild]
      cases hbuilt : Resource.ofConfig definition (config.withFlavor b.flavor) with
      | error error => exact .unbuildable hread hdecoded hbuilt
      | ok resource =>
        have hflavor : resource.flavor = b.flavorUnder config :=
          flavor_of_build (hbuild.symm.trans hbuilt)
        rw [← hflavor]
        show b.Yields readers files _ file ((compareResource resource.flavor resource b.operands
          b.indent).mapError .ungenerable)
        cases hcompared : compareResource resource.flavor resource b.operands b.indent with
        | error error => exact .ungenerable hread hdecoded hbuilt hcompared
        | ok fragment => exact .fragment hread hdecoded hbuilt hcompared

/-- What a file comes to depends on no other file. -/
theorem generate_congr (h : files' file = files file) :
    b.generate readers files' config flavor file = b.generate readers files config flavor file := by
  simp only [generate, h]

end Batch

/-! ## Results of several files -/

/-- The fragments of the files that have one, joined. -/
def joinFragments (results : List (Except DefinitionFileError String)) : String :=
  String.join (results.filterMap Except.toOption)

/-- The errors of the files that have no fragment. -/
def errorsOf (results : List (Except DefinitionFileError String)) : List DefinitionFileError :=
  results.filterMap fun
    | .ok _ => none
    | .error error => some error

@[simp] theorem joinFragments_ok (fragment : String)
    (results : List (Except DefinitionFileError String)) :
    joinFragments (.ok fragment :: results) = fragment ++ joinFragments results :=
  String.join_cons

@[simp] theorem joinFragments_error (error : DefinitionFileError)
    (results : List (Except DefinitionFileError String)) :
    joinFragments (.error error :: results) = joinFragments results :=
  rfl

@[simp] theorem errorsOf_ok (fragment : String)
    (results : List (Except DefinitionFileError String)) :
    errorsOf (.ok fragment :: results) = errorsOf results :=
  rfl

@[simp] theorem errorsOf_error (error : DefinitionFileError)
    (results : List (Except DefinitionFileError String)) :
    errorsOf (.error error :: results) = error :: errorsOf results :=
  rfl

theorem joinFragments_append (results results' : List (Except DefinitionFileError String)) :
    joinFragments (results ++ results') = joinFragments results ++ joinFragments results' := by
  unfold joinFragments
  rw [List.filterMap_append, String.join_append]

theorem errorsOf_append (results results' : List (Except DefinitionFileError String)) :
    errorsOf (results ++ results') = errorsOf results ++ errorsOf results' :=
  List.filterMap_append

/-- The outcome of a run over some files, given what each of them comes to. -/
structure Outcome.Collects (o : Outcome) (definitions : List String)
    (results : List (Except DefinitionFileError String)) : Prop where
  /-- The fragments are written in the order of their files, and nothing else is. -/
  output_eq : o.output = joinFragments results
  /-- The errors of the other files are kept, in the order of these. -/
  skipped_eq : o.skipped = errorsOf results
  exitCode_eq : o.exitCode = if o.skipped = [] then 0 else 1
  report_eq : o.error.map BatchError.report = if o.skipped = [] then none else
    some ["Error: failed to generate comparison fragments",
      "1: " ++ toString o.skipped.length ++ " of " ++ toString definitions.length ++
        " resources failed"]

namespace Batch

variable {b : Batch} {readers : Readers} {files files' : Files} {config : GeneratorConfig}
  {flavor : Flavor} {file : String} {write : String → StateM String Bool}

/-! ## Runs -/

/-- Whatever is to be written, all of it is written behind what has been. -/
def TakesAll (write : String → StateM String Bool) : Prop :=
  ∀ text written, (write text).run written = (true, written ++ text)

theorem takesAll_writeBehind : TakesAll writeBehind := fun _ _ => rfl

/-- **A run writes and skips file by file.** -/
theorem run_goThrough (hwrite : TakesAll write) (definitions : List String) (written : String) :
    (b.goThrough readers files write config flavor definitions).run written =
      ((errorsOf (definitions.map (b.generate readers files config flavor)), true),
        written ++ joinFragments (definitions.map (b.generate readers files config flavor))) := by
  induction definitions generalizing written with
  | nil => exact congrArg (Prod.mk ([], true)) String.append_empty.symm
  | cons file definitions ih =>
    rw [goThrough, List.map_cons]
    cases hresult : b.generate readers files config flavor file with
    | ok fragment =>
      simp only [StateT.run_bind, hwrite fragment written, errorsOf_ok, joinFragments_ok]
      exact (ih (written ++ fragment)).trans (by rw [String.append_assoc])
    | error error =>
      simp only [StateT.run_bind, ih written, errorsOf_error, joinFragments_error]
      rfl

/-- A run over some files and then others is one over these and, unless it ended there, one over the
others. -/
theorem goThrough_append {m : Type → Type} [Monad m] [LawfulMonad m] (write : String → m Bool)
    (ds ds' : List String) :
    b.goThrough readers files write config flavor (ds ++ ds') = do
      let done ← b.goThrough readers files write config flavor ds
      if done.2 then
        (fun more => (done.1 ++ more.1, more.2)) <$>
          b.goThrough readers files write config flavor ds'
      else return done := by
  induction ds with
  | nil => simp [goThrough]
  | cons file ds ih =>
    rw [List.cons_append, goThrough, goThrough]
    cases hresult : b.generate readers files config flavor file with
    | ok fragment =>
      simp only [bind_assoc, ih]
      refine bind_congr fun complete => ?_
      cases complete <;> simp
    | error error =>
      simp only [ih, bind_assoc, pure_bind]
      refine bind_congr fun done => ?_
      obtain ⟨skipped, complete⟩ := done
      cases complete <;> simp

/-- Which files a batch names does not matter where it goes through given ones. -/
theorem goThrough_withDefinitions (definitions ds : List String) :
    (b.withDefinitions definitions).goThrough readers files write config flavor ds =
      b.goThrough readers files write config flavor ds := by
  induction ds with
  | nil => rfl
  | cons file ds ih =>
    rw [goThrough, goThrough, ih]
    rfl

/-- Without a configuration, a batch does nothing. -/
theorem outcome_of_error {error : ConfigError} (h : b.loadConfig readers files = .error error)
    (write : String → StateM String Bool) (definitions : List String) :
    (b.withDefinitions definitions).outcome readers files write =
      ⟨⟨[], some (.config error)⟩, ""⟩ := by
  have hload : (b.withDefinitions definitions).loadConfig readers files = .error error := h
  unfold outcome runWith
  rw [hload]
  rfl

/-- With a configuration, a batch does what is done by going through its files. -/
theorem outcome_eq (h : b.loadConfig readers files = .ok config)
    (write : String → StateM String Bool) (definitions : List String) :
    (b.withDefinitions definitions).outcome readers files write =
      let done := (b.goThrough readers files write config (b.flavorUnder config) definitions).run ""
      ⟨.finish definitions.length done.1, done.2⟩ := by
  have hload : (b.withDefinitions definitions).loadConfig readers files = .ok config := h
  unfold outcome runWith
  rw [hload]
  simp only [goThrough_withDefinitions, StateT.run_map]
  rfl

/-- With a configuration, the outcome is put together from what the files come to. -/
theorem outcome_of_hasConfig (h : b.HasConfig readers files config) (hwrite : TakesAll write)
    (definitions : List String) :
    ((b.withDefinitions definitions).outcome readers files write).Collects definitions
      (definitions.map (b.generate readers files config (b.flavorUnder config))) := by
  rw [outcome_eq h.loadConfig_eq, run_goThrough hwrite, String.empty_append]
  generalize definitions.map (b.generate readers files config (b.flavorUnder config)) = results
  cases herrors : errorsOf results with
  | nil => exact ⟨rfl, herrors.symm, rfl, rfl⟩
  | cons error errors => exact ⟨rfl, herrors.symm, rfl, rfl⟩

/-- A run over one file depends on no other definition file. -/
theorem outcome_congr (write : String → StateM String Bool)
    (hconfig : ∀ c, b.config = some c → files' c = files c) (hfile : files' file = files file) :
    (b.withDefinitions [file]).outcome readers files' write =
      (b.withDefinitions [file]).outcome readers files write := by
  have hload : b.loadConfig readers files' = b.loadConfig readers files := loadConfig_congr hconfig
  cases hconfigured : b.loadConfig readers files with
  | error error =>
    rw [outcome_of_error (hload.trans hconfigured), outcome_of_error hconfigured]
  | ok config =>
    rw [outcome_eq (hload.trans hconfigured), outcome_eq hconfigured]
    simp only [goThrough, generate_congr hfile]

/-- What is written and skipped for some files and then others is what is for each. -/
theorem outcome_append (b : Batch) (readers : Readers) (files : Files) (hwrite : TakesAll write)
    (ds ds' : List String) :
    let run := fun definitions => (b.withDefinitions definitions).outcome readers files write
    (run (ds ++ ds')).output = (run ds).output ++ (run ds').output ∧
      (run (ds ++ ds')).skipped = (run ds).skipped ++ (run ds').skipped := by
  by_cases h : ∃ error, b.LacksConfig readers files error
  · obtain ⟨error, h⟩ := h
    simp only [outcome_of_error h.loadConfig_eq]
    exact ⟨rfl, rfl⟩
  · obtain ⟨config, h⟩ := exists_hasConfig (not_exists.1 h)
    have hall := outcome_of_hasConfig h hwrite
    simp only [(hall _).output_eq, (hall _).skipped_eq, List.map_append, joinFragments_append,
      errorsOf_append, and_self]

/-- **A fragment that cannot be written ends the batch**: it fails with a report of its own, and the
files after that one do not matter. -/
theorem outcome_of_unwritten {ds : List String}
    (h : ((b.withDefinitions ds).outcome readers files write).error = some .unwritten) :
    ((b.withDefinitions ds).outcome readers files write).exitCode = 1 ∧
      ((b.withDefinitions ds).outcome readers files write).error.map BatchError.report =
        some ["Error: failed to generate comparison fragments",
          "1: failed to write fragment to stdout"] ∧
      ∀ ds', (b.withDefinitions (ds ++ ds')).outcome readers files write =
        (b.withDefinitions ds).outcome readers files write := by
  refine ⟨?_, ?_, fun ds' => ?_⟩
  · rw [Report.exitCode, h]
    rfl
  · rw [h]
    rfl
  cases hconfigured : b.loadConfig readers files with
  | error error => rw [outcome_of_error hconfigured, outcome_of_error hconfigured]
  | ok config =>
    rw [outcome_eq hconfigured] at h ⊢
    rw [outcome_eq hconfigured, goThrough_append, StateT.run_bind]
    generalize (b.goThrough readers files write config (b.flavorUnder config) ds).run "" =
      done at h ⊢
    obtain ⟨⟨skipped, complete⟩, output⟩ := done
    cases complete with
    | false => rfl
    | true =>
      simp only [Report.finish] at h
      split at h <;> simp at h

/-- **A batch isolates failures.**  Without a configuration it does nothing; otherwise it writes and
skips what its files yield one by one.  What is done for some files does not depend on the files
before and after them, and what is done for one not on the others. -/
theorem run_isolates_failures (b : Batch) (readers : Readers) (files : Files)
    (write : String → StateM String Bool) (hwrite : TakesAll write) :
    let run := fun definitions => (b.withDefinitions definitions).outcome readers files write
    (∀ error, b.LacksConfig readers files error → ∀ ds,
      run ds = ⟨⟨[], some (.config error)⟩, ""⟩ ∧ (run ds).exitCode = 1) ∧
    ((∀ error, ¬ b.LacksConfig readers files error) →
      ∃ config, b.HasConfig readers files config ∧ ∀ ds, ∃ results,
        List.Forall₂ (b.Yields readers files (config.withFlavor b.flavor)) ds results ∧
          (run ds).Collects ds results) ∧
    (∀ ds ds', (run (ds ++ ds')).output = (run ds).output ++ (run ds').output ∧
      (run (ds ++ ds')).skipped = (run ds).skipped ++ (run ds').skipped) ∧
    ∀ (files' : Files) (file : String), (∀ c, b.config = some c → files' c = files c) →
      files' file = files file →
        (b.withDefinitions [file]).outcome readers files' write = run [file] := by
  refine ⟨fun error h ds => ?_, fun h => ?_, outcome_append b readers files hwrite,
    fun files' file => outcome_congr write⟩
  · have hrun := outcome_of_error h.loadConfig_eq write ds
    exact ⟨hrun, congrArg (fun o => o.exitCode) hrun⟩
  · obtain ⟨config, h⟩ := exists_hasConfig h
    refine ⟨config, h, fun ds => ⟨_, ?_, outcome_of_hasConfig h hwrite ds⟩⟩
    rw [List.forall₂_map_right_iff, List.forall₂_same]
    exact fun file _ => generate_yields b readers files config file

/-- A text with a queue. -/
def queueText : String :=
  "name: Queue\nspec:\n- name: Depth\n  type: bytes\n"

/-- Reads the text with a queue, and no other. -/
def queueReaders : Readers where
  definition text :=
    if text = queueText then some ⟨"Queue", [.bytes "Depth"], [], .empty⟩ else none
  config _ := none

/-- There is one file, which holds the text with a queue. -/
def queueFiles : Files :=
  fun file => if file = "queue.yaml" then some queueText else none

/-- A batch without configuration file. -/
def queueBatch : Batch :=
  ⟨none, none, .standard, 1, []⟩

def queueFragment : String :=
  "\n\tif !bytes.Equal(a.ko.Spec.Depth, b.ko.Spec.Depth) \x7b\n" ++
    "\t\tdelta.Add(\"Spec.Depth\", a.ko.Spec.Depth, b.ko.Spec.Depth)\n\t\x7d\n"

/-- Of two files one is not there, and the fragment of the other is written all the same. -/
theorem run_isolates_failures_queue :
    let run := fun definitions =>
      (queueBatch.withDefinitions definitions).outcome queueReaders queueFiles writeBehind
    TakesAll writeBehind ∧
      run ["missing.yaml", "queue.yaml"] =
        ⟨⟨[.unreadable "missing.yaml"], some (.skipped 1 2)⟩, queueFragment⟩ ∧
      (∃ results, List.Forall₂ (queueBatch.Yields queueReaders queueFiles .standard)
          ["missing.yaml", "queue.yaml"] results ∧
        (run ["missing.yaml", "queue.yaml"]).Collects ["missing.yaml", "queue.yaml"] results) ∧
      (run ["missing.yaml", "queue.yaml"]).output =
        (run ["missing.yaml"]).output ++ (run ["queue.yaml"]).output := by
  obtain ⟨-, hresults, happend, -⟩ :=
    run_isolates_failures queueBatch queueReaders queueFiles writeBehind takesAll_writeBehind
  have hlacks : ∀ error, ¬ queueBatch.LacksConfig queueReaders queueFiles error := by
    rintro error (⟨⟨⟩, -⟩ | ⟨⟨⟩, -, -⟩)
  obtain ⟨config, hconfig, hall⟩ := hresults hlacks
  obtain rfl : config = .standard := by
    cases hconfig with
    | standard => rfl
    | file given => cases given
  exact ⟨takesAll_writeBehind, by cbv, hall _, (happend ["missing.yaml"] ["queue.yaml"]).1⟩

end Batch

end ResourceDelta
