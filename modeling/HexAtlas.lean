import HexAtlas.Blocks
import HexAtlas.Chart
import HexAtlas.Command.Invocation
import HexAtlas.Main
import HexAtlas.Project.Discovery
import HexAtlas.Report
import HexAtlas.Scene
import HexAtlas.Theme
import HexAtlas.Proofs.Line.PathLayout
import HexAtlas.Proofs.Line.Shapes
import HexAtlas.Proofs.Markup.Marking
import HexAtlas.Proofs.Scene.Disjoint
import HexAtlas.Proofs.Chart.Tidy
import HexAtlas.Proofs.Chart.Content
import HexAtlas.Proofs.Line.RegionLayout
import HexAtlas.Proofs.Text.Pieces
import HexAtlas.Proofs.Project.FileSystem
import HexAtlas.Proofs.Command.Render
import HexAtlas.Proofs.Yaml.Scalar
import HexAtlas.Proofs.Yaml.Token
import HexAtlas.Proofs.Yaml.Mapping
import HexAtlas.Proofs.Project.Manifest
import HexAtlas.Proofs.Chart.SortedSet
import HexAtlas.Proofs.Project.Discovery
import HexAtlas.Proofs.Command.Init
import HexAtlas.Proofs.Chart.Themed
import HexAtlas.Proofs.Markup.TagText
import HexAtlas.Proofs.Markup.Unambiguous
import HexAtlas.Proofs.Markup.WellFormed
import HexAtlas.Proofs.Markup.CleanNames
import HexAtlas.Proofs.Scene.WellFormed
import HexAtlas.Proofs.Scene.Layout
import HexAtlas.Proofs.Scene.OwnNames
import HexAtlas.Proofs.Scene.Symbols
import HexAtlas.Proofs.Markup.Descendants
import HexAtlas.Proofs.Scene.PathLabels
import HexAtlas.Proofs.Scene.UniqueIds
import HexAtlas.Proofs.Markup.Anonymous
import HexAtlas.Proofs.Scene.SameButNames
import HexAtlas.Proofs.Chart.Collected
import HexAtlas.Proofs.Blocks
import HexAtlas.Proofs.Command.Changes
import HexAtlas.Proofs.Grid.Neighbor
import HexAtlas.Proofs.Attributes
import HexAtlas.Proofs.Grid.Walk
import HexAtlas.Proofs.Line.Styles
import HexAtlas.Proofs.Project.Starter
import HexAtlas.Proofs.Options
import HexAtlas.Proofs.Scene.Rearranged
import HexAtlas.Proofs.Project.Routes
import HexAtlas.Proofs.Command.Replaced
import HexAtlas.Proofs.Command.InstanceToken
import HexAtlas.Proofs.Options.Centre
import HexAtlas.Proofs.Scene.Cascade
import HexAtlas.Proofs.Table.History
import HexAtlas.Proofs.Options.Template
import HexAtlas.Proofs.Markup.Escape
import HexAtlas.Proofs.Markup.TagGaps
import HexAtlas.Proofs.Markup.DocumentOrder
import HexAtlas.Proofs.Project.Exclusion
import HexAtlas.Proofs.Markup.ByteScan
import HexAtlas.Proofs.Line.Labels
import HexAtlas.Proofs.Scene.Curve
import HexAtlas.Proofs.Line.Segments
