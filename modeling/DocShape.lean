import DocShape.Text.Numeral
import DocShape.Document.Project
import DocShape.Link.Tag
import DocShape.Shape.FixedArray
import DocShape.Shape.Draft
import DocShape.Conversion.Converter
import DocShape.Config.Settings
import DocShape.Yaml.Block
import DocShape.Main
import DocShape.Proofs.Document.Address
import DocShape.Proofs.Document.Creation
import DocShape.Proofs.Document.Filling
import DocShape.Proofs.Document.Filled
import DocShape.Proofs.Command.Output
import DocShape.Proofs.Conversion.Built
import DocShape.Proofs.Conversion.Violations
import DocShape.Proofs.Conversion.WellFormed
import DocShape.Proofs.Document.Passes
import DocShape.Proofs.Json.Literals
import DocShape.Proofs.Json.RoundTrip
import DocShape.Proofs.Conversion.Tuples
import DocShape.Proofs.Command.Selection
import DocShape.Command.Disk
import DocShape.Proofs.Command.Writing
import DocShape.Proofs.Conversion.Renaming
import DocShape.Proofs.Document.FileModules
import DocShape.Proofs.Document.Order
import DocShape.Proofs.Document.Ids
import DocShape.Proofs.Document.Formats
import DocShape.Proofs.Link.Anchors
import DocShape.Proofs.Conversion.Renderings
import DocShape.Proofs.Conversion.Events
import DocShape.Proofs.Conversion.Literals
import DocShape.Proofs.Conversion.Bounds
import DocShape.Proofs.Document.Origins
import DocShape.Proofs.Conversion.Unions
import DocShape.Proofs.Config.Paths
import DocShape.Proofs.Number.Line
import DocShape.Proofs.Config.Additive
import DocShape.Proofs.Config.Layers
import DocShape.Proofs.Config.Again
import DocShape.Proofs.Command.Failures
import DocShape.Proofs.Yaml.Keys
import DocShape.Proofs.Command.Settings
import DocShape.Proofs.Document.Strays
import DocShape.Proofs.Conversion.Detected
import DocShape.Proofs.Conversion.Descent
import DocShape.Proofs.Conversion.Warnings
import DocShape.Proofs.Link.Tags
import DocShape.Proofs.Shape.Intersections
import DocShape.Proofs.Conversion.Functions
import DocShape.Proofs.Link.Scopes
import DocShape.Proofs.Conversion.Contexts
import DocShape.Proofs.Conversion.InPlace
import DocShape.Proofs.Conversion.FixedLength
import DocShape.Proofs.Document.Documented
import DocShape.Proofs.Link.Namespaces
import DocShape.Proofs.Document.Scan
import DocShape.Proofs.Link.Comments
