import SchemaShaper.Main
import SchemaShaper.Files.Tree
import SchemaShaper.Proofs.Glob.Cutting
import SchemaShaper.Proofs.Session.Runs
import SchemaShaper.Proofs.Edit.Pruning
import SchemaShaper.Proofs.Edit.KeyNames
import SchemaShaper.Proofs.Glob.Language
import SchemaShaper.Proofs.Index.RoundTrip
import SchemaShaper.Proofs.Index.Walks
import SchemaShaper.Proofs.Edit.Additions
import SchemaShaper.Proofs.Edit.Reordering
import SchemaShaper.Proofs.Index.Grammar
import SchemaShaper.Proofs.Edit.StatementLines
import SchemaShaper.Proofs.Edit.StatementTexts
import SchemaShaper.Proofs.Edit.KeySpecTexts
import SchemaShaper.Proofs.Document.Comparison
import SchemaShaper.Proofs.Pipeline.EntryFiles
import SchemaShaper.Proofs.Pipeline.OneRun
import SchemaShaper.Proofs.Value.Records
import SchemaShaper.Proofs.Document.Views
import SchemaShaper.Proofs.Diagram.Redaction
import SchemaShaper.Proofs.Index.Positions
import SchemaShaper.Proofs.Edit.Removals
import SchemaShaper.Proofs.Document.RoundTrip
import SchemaShaper.Proofs.Session.Changes
import SchemaShaper.Proofs.Value.RepeatedOmission
import SchemaShaper.Proofs.Document.Violations
import SchemaShaper.Proofs.Edit.KeyFindings
import SchemaShaper.Proofs.Edit.Undoing
import SchemaShaper.Proofs.Value.Paths
import SchemaShaper.Proofs.Session.Unedited
import SchemaShaper.Proofs.Diagram.TypeTokens
import SchemaShaper.Proofs.Diagram.Lines
import SchemaShaper.Proofs.CommandLine.Tables
import SchemaShaper.Proofs.Edit.Parts
import SchemaShaper.Proofs.Session.Registration
import SchemaShaper.Proofs.Index.Loops
import SchemaShaper.Proofs.Config.Rooting
import SchemaShaper.Proofs.Config.RoundTrip
