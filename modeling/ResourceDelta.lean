import ResourceDelta.Main
import ResourceDelta.Schema.Encode
import ResourceDelta.Yaml.QuotedScalar
import ResourceDelta.Proofs.Data.Computation
import ResourceDelta.Proofs.Data.Fields
import ResourceDelta.Proofs.Config.Encoding
import ResourceDelta.Proofs.FieldPath.Covering
import ResourceDelta.Proofs.FieldPath.Grammar
import ResourceDelta.Proofs.FieldPath.Parsing
import ResourceDelta.Proofs.FieldPath.FirstDefect
import ResourceDelta.Proofs.FieldPath.Ordering
import ResourceDelta.Proofs.FieldPath.Segmentwise
import ResourceDelta.Proofs.FieldPath.Construction
import ResourceDelta.Proofs.FieldPath.Ancestry
import ResourceDelta.Proofs.FieldPath.Sorting
import ResourceDelta.Proofs.Schema.Outline
import ResourceDelta.Proofs.FieldTree.Indexed
import ResourceDelta.Proofs.FieldTree.Acceptance
import ResourceDelta.Proofs.Resource.Outlined
import ResourceDelta.Proofs.Comparison.Walk
import ResourceDelta.Proofs.Comparison.Selection
import ResourceDelta.Proofs.Comparison.Records
import ResourceDelta.Proofs.Comparison.Correctness
import ResourceDelta.Proofs.FieldTree.Attaching
import ResourceDelta.Proofs.FieldTree.Following
import ResourceDelta.Proofs.FieldTree.Preorder
import ResourceDelta.Proofs.FieldTree.Representation
import ResourceDelta.Proofs.Resource.Agreement
import ResourceDelta.Proofs.FieldTree.Pruning
import ResourceDelta.Proofs.FieldTree.Lookup
import ResourceDelta.Proofs.Comparison.Deletion
import ResourceDelta.Proofs.Comparison.Noninterference
import ResourceDelta.Proofs.Comparison.Template
import ResourceDelta.Proofs.Comparison.Rearrangement
import ResourceDelta.Proofs.Comparison.Indentation
import ResourceDelta.Proofs.Comparison.Insertion
import ResourceDelta.Proofs.Schema.Insertion
import ResourceDelta.Proofs.FieldTree.Abbreviation
import ResourceDelta.Proofs.Batch.Isolation
import ResourceDelta.Proofs.Schema.Encoding
import ResourceDelta.Proofs.Config.Roundtrip
import ResourceDelta.Proofs.FieldTree.Accumulation
import ResourceDelta.Proofs.FieldTree.FirstDefect
import ResourceDelta.Proofs.FieldTree.Loading
import ResourceDelta.Proofs.FieldTree.ReferenceStack
