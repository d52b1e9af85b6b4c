import MavenUpgrade.Text.Blank
import MavenUpgrade.Text.Lines
import MavenUpgrade.Text.Lowercase
import MavenUpgrade.Version.Basic
import MavenUpgrade.Collection.Distinct
import MavenUpgrade.Collection.OrderedMap
import MavenUpgrade.Collection.SortedMap
import MavenUpgrade.Specifier
import MavenUpgrade.Template.Matching
import MavenUpgrade.Origin
import MavenUpgrade.Json.Reader
import MavenUpgrade.Json.Printer
import MavenUpgrade.Xml.Piece
import MavenUpgrade.Xml.Reference
import MavenUpgrade.Xml.Document
import MavenUpgrade.Manifest.Basic
import MavenUpgrade.Pom.Edit
import MavenUpgrade.Suggest.Arbitration
import MavenUpgrade.Lookup.Table
import MavenUpgrade.Lookup.Batch
import MavenUpgrade.Lookup.Search
import MavenUpgrade.Exchange.Decode
import MavenUpgrade.Report.Render
import MavenUpgrade.Settings.Arguments
import MavenUpgrade.Toml.Token
import MavenUpgrade.Settings.Basic
import MavenUpgrade.Files.Tree
import MavenUpgrade.Run.Basic
import MavenUpgrade.Main
import MavenUpgrade.Version.Sort
import MavenUpgrade.Proofs.Suggest.Convergence
import MavenUpgrade.Proofs.Suggest.LookupFailure
import MavenUpgrade.Proofs.Suggest.Kept
import MavenUpgrade.Proofs.Suggest.Updated
import MavenUpgrade.Proofs.Pom.Editing
import MavenUpgrade.Proofs.Suggest.Targets
import MavenUpgrade.Proofs.Pom.Distinct
import MavenUpgrade.Proofs.Pom.Patched
import MavenUpgrade.Proofs.Lookup.History
import MavenUpgrade.Proofs.Origin
import MavenUpgrade.Proofs.Version.Order
import MavenUpgrade.Proofs.Suggest.Rejudging
import MavenUpgrade.Proofs.Suggest.Stability
import MavenUpgrade.Proofs.Suggest.Overrides
import MavenUpgrade.Proofs.Template.Preference
import MavenUpgrade.Proofs.Suggest.Majority
import MavenUpgrade.Proofs.Exchange
import MavenUpgrade.Proofs.Json.Layout
import MavenUpgrade.Proofs.Manifest.Graph
import MavenUpgrade.Proofs.Manifest.Visibility
import MavenUpgrade.Proofs.Suggest.Footprint
import MavenUpgrade.Proofs.Range.Notation
import MavenUpgrade.Proofs.Version.Reading
import MavenUpgrade.Proofs.Version.Numeric
import MavenUpgrade.Proofs.Version.Qualified
import MavenUpgrade.Proofs.Version.Nesting
import MavenUpgrade.Proofs.Version.Runs
import MavenUpgrade.Proofs.Version.Trailing
import MavenUpgrade.Proofs.Version.Prerelease
import MavenUpgrade.Proofs.Version.Major
import MavenUpgrade.Proofs.Report.Replay
import MavenUpgrade.Proofs.Template.Cutting
import MavenUpgrade.Proofs.Manifest.Properties
