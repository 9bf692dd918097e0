import ResourceDelta.Comparison.Fragment
import ResourceDelta.Source

/-!
# Batches

A batch generates the comparison fragments of several definition files under one configuration.  The
fragments are written in the order of the files.  A file that fails is skipped and leaves no trace
in the output; a configuration that cannot be had stops the batch before the first definition, and a
fragment that cannot be written stops it there.

`Batch.runWith` runs a batch, given how texts are read, the content of the files and how a fragment
is written.  `Batch.outcome` is what comes of it where the output is a text.
-/

set_option autoImplicit false

namespace ResourceDelta

/-! ## Errors -/

/-- Why a definition file is skipped. -/
inductive DefinitionFileError where
  | unreadable (file : String)
  | unparsable (file : String)
  | unbuildable (error : BuildError)
  | ungenerable (error : GenerationError)
  deriving DecidableEq, Repr

namespace DefinitionFileError

/-- The wording of a definition file's error. -/
def message : DefinitionFileError → String
  | .unreadable file => "failed to read resource definition from " ++ file
  | .unparsable file => "failed to parse resource definition from " ++ file
  | .unbuildable error => "failed to build resource model of " ++ Text.quoted error.resource
  | .ungenerable error => "failed to generate comparison of " ++ Text.quoted error.resource

/-- The wording of the errors that led to this one, the nearest first. -/
def causes : DefinitionFileError → List String
  | .unreadable _ => []
  | .unparsable _ => []
  | .unbuildable error => error.message :: (error.cause?.map PathError.message).toList
  | .ungenerable error => [error.message]

end DefinitionFileError

/-- Why a batch fails. -/
inductive BatchError where
  | config (error : ConfigError)
  | unwritten
  | skipped (failed total : Nat)
  deriving DecidableEq, Repr

/-- The report of a failed batch: what failed and why, the nearest cause first. -/
def BatchError.report (e : BatchError) : List String :=
  "Error: failed to generate comparison fragments" ::
    match e with
    | .config error => ["1: failed to load generator config", "2: " ++ error.message]
    | .unwritten => ["1: failed to write fragment to stdout"]
    | .skipped failed total =>
      ["1: " ++ toString failed ++ " of " ++ toString total ++ " resources failed"]

/-! ## Runs -/

/-- What a batch is to do. -/
structure Batch where
  /-- The configuration file, if there is one. -/
  config : Option String
  /-- The flavor to use instead of the configuration's. -/
  flavor : Option FlavorName
  operands : Operands
  indent : Nat
  /-- The definition files. -/
  definitions : List String
  deriving DecidableEq, Repr

/-- What a batch tells about itself. -/
structure Report where
  /-- Why files were skipped, in their order. -/
  skipped : List DefinitionFileError
  error : Option BatchError
  deriving DecidableEq, Repr

/-- The report when files have been gone through, `total` being asked for.  It is told which were
skipped, and whether all fragments could be written. -/
def Report.finish (total : Nat) : List DefinitionFileError × Bool → Report
  | (skipped, false) => ⟨skipped, some .unwritten⟩
  | (skipped, true) =>
    ⟨skipped, if skipped.isEmpty then none else some (.skipped skipped.length total)⟩

/-- The exit code that tells whether a batch succeeded. -/
def Report.exitCode (r : Report) : Nat :=
  if r.error.isNone then 0 else 1

/-- What a batch has done. -/
structure Outcome extends Report where
  output : String
  deriving DecidableEq, Repr

namespace Batch

/-- The configuration of a batch. -/
def loadConfig (b : Batch) (readers : Readers) (files : Files) :
    Except ConfigError GeneratorConfig :=
  match b.config with
  | none => .ok .standard
  | some file => readers.configInFile files file

/-- The flavor of a batch: the one that it asks for, or else that of its configuration. -/
def flavorUnder (b : Batch) (config : GeneratorConfig) : Flavor :=
  match b.flavor with
  | none => config.flavor
  | some name => .named name

/-- The fragment of a definition file. -/
def generate (b : Batch) (readers : Readers) (files : Files) (config : GeneratorConfig)
    (flavor : Flavor) (file : String) : Except DefinitionFileError String :=
  match files file with
  | none => .error (.unreadable file)
  | some text =>
    match readers.definition text with
    | none => .error (.unparsable file)
    | some definition => do
      let overrides := config.overridesOf definition.name
      let resource ← (Resource.build definition overrides flavor).mapError .unbuildable
      (compareResource flavor resource b.operands b.indent).mapError .ungenerable

section

variable {m : Type → Type} [Monad m]

/-- Goes through definition files, and tells which were skipped and whether all fragments could be
written.  `write` writes a text, and tells whether all of it could be written. -/
def goThrough (b : Batch) (readers : Readers) (files : Files) (write : String → m Bool)
    (config : GeneratorConfig) (flavor : Flavor) :
    List String → m (List DefinitionFileError × Bool)
  | [] => return ([], true)
  | file :: rest =>
    match b.generate readers files config flavor file with
    | .ok fragment => do
      if ← write fragment then b.goThrough readers files write config flavor rest
      else return ([], false)
    | .error error => do
      let (skipped, complete) ← b.goThrough readers files write config flavor rest
      return (error :: skipped, complete)

/-- Runs a batch. -/
def runWith (b : Batch) (readers : Readers) (files : Files) (write : String → m Bool) :
    m Report :=
  match b.loadConfig readers files with
  | .error error => return ⟨[], some (.config error)⟩
  | .ok config =>
    .finish b.definitions.length <$>
      b.goThrough readers files write config (b.flavorUnder config) b.definitions

end

/-- The outcome of a batch, where what has been written is a text. -/
def outcome (b : Batch) (readers : Readers) (files : Files)
    (write : String → StateM String Bool) : Outcome :=
  let (report, output) := (b.runWith readers files write).run ""
  { report with output }

end Batch

/-- Writes a text behind what has been written, which always succeeds. -/
def writeBehind (text : String) : StateM String Bool := do
  modify (· ++ text)
  return true

end ResourceDelta
