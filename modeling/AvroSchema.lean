import AvroSchema.Arrow.Export
import AvroSchema.RowChange
import AvroSchema.Tree
import AvroSchema.Proofs.Types.Equality
import AvroSchema.Proofs.Types.Admissible
import AvroSchema.Proofs.Wire.Marks
import AvroSchema.Proofs.Wire.References
import AvroSchema.Proofs.Wire.Readings
import AvroSchema.Proofs.Wire.RecordReadings
import AvroSchema.Proofs.Wire.Standing
import AvroSchema.Proofs.Wire.Reload
import AvroSchema.Proofs.Wire.Reconstruction
import AvroSchema.Proofs.Wire.RoundTrip
import AvroSchema.Proofs.Wire.BuiltInNames
import AvroSchema.Proofs.Wire.Documents
import AvroSchema.Proofs.Wire.Nodes
import AvroSchema.Proofs.Wire.Outlines
import AvroSchema.Proofs.Wire.NullBranches
import AvroSchema.Proofs.Wire.FlatUnions
import AvroSchema.Proofs.Json.DecimalText
import AvroSchema.Proofs.Json.DoubleText
import AvroSchema.Proofs.Json.Floats
import AvroSchema.Proofs.Json.CompactText
import AvroSchema.Proofs.Wire.Fingerprints
import AvroSchema.Proofs.Wire.ChangedDefaults
import AvroSchema.Proofs.Wire.EqualSchemas
import AvroSchema.Proofs.Wire.DroppedDefaults
import AvroSchema.Proofs.Text.EscapedNames
import AvroSchema.Proofs.Keys.Derivation
import AvroSchema.Proofs.Wire.Provenance
import AvroSchema.Proofs.Wire.Admission
import AvroSchema.Proofs.Wire.NestingLimit
import AvroSchema.Proofs.Wire.NestingBound
import AvroSchema.Proofs.Keys.Finalization
import AvroSchema.Proofs.Keys.Selection
import AvroSchema.Proofs.Wire.Transcripts
import AvroSchema.Proofs.Wire.VerbatimNames
import AvroSchema.Proofs.Governance.StoredMetadata
import AvroSchema.Proofs.Schemas.Edits
import AvroSchema.Proofs.Types.Built
import AvroSchema.Proofs.Types.IndexedRecords
import AvroSchema.Proofs.Arrow.Exports
import AvroSchema.Proofs.Arrow.Shapes
import AvroSchema.Proofs.Arrow.KeyColumns
import AvroSchema.Proofs.Text.ForeignNames
import AvroSchema.Proofs.Toml.QuotedStrings
import AvroSchema.Proofs.Toml.KeyValueLines
import AvroSchema.Proofs.Config.SavedSettings
import AvroSchema.Proofs.Wire.Walks
import AvroSchema.Proofs.Wire.DefinitionSites
import AvroSchema.Proofs.Wire.WalkFrame
