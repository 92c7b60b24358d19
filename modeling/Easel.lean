import Easel.Canvas.Clip
import Easel.Canvas.Image
import Easel.Canvas.Path
import Easel.Canvas.Picture
import Easel.Canvas.Raster
import Easel.Canvas.Surface
import Easel.Colour.Basic
import Easel.Colour.Blend
import Easel.Colour.Hex
import Easel.Colour.Lighten
import Easel.Command.Arguments
import Easel.Command.Check
import Easel.Command.Diagnostics
import Easel.Command.Host
import Easel.Command.Inspect
import Easel.Command.Render
import Easel.Command.Run
import Easel.Command.Sources
import Easel.Command.Usage
import Easel.Decimal.Notation
import Easel.Decimal.Read
import Easel.Decimal.Shortest
import Easel.Error
import Easel.Files.Path
import Easel.Files.Store
import Easel.Geometry.Circle
import Easel.Geometry.Complex
import Easel.Geometry.Gasket
import Easel.Geometry.Hexagons
import Easel.Geometry.Labelled
import Easel.Geometry.Point
import Easel.Geometry.Sierpinski
import Easel.Geometry.Triangle
import Easel.Json.Basic
import Easel.Json.Read
import Easel.Main
import Easel.Natives.Basic
import Easel.Natives.Diagram
import Easel.Natives.Generators
import Easel.Natives.Registry
import Easel.Number.Binary
import Easel.Number.Scalar
import Easel.Number.Word
import Easel.Png.Checksum
import Easel.Png.Encode
import Easel.Proofs.Natives.Confinement
import Easel.Proofs.Natives.Deeds
import Easel.Proofs.Script.Action
import Easel.Proofs.Script.Atomicity
import Easel.Proofs.Script.Checkpoints
import Easel.Proofs.Script.Calls
import Easel.Proofs.Script.Heaps
import Easel.Proofs.Script.References
import Easel.Proofs.Script.Renaming
import Easel.Proofs.Script.Resolution
import Easel.Script.Native
import Easel.Script.Object
import Easel.Script.Overloads
import Easel.Script.Session
import Easel.Script.Signature
import Easel.Script.Value
import Easel.Script.ValueType
import Easel.Sketch.Basic
import Easel.Sketch.Check
import Easel.Sketch.Rasterise
import Easel.Sketch.Read
import Easel.Sketch.Report
import Easel.Sketch.Run
import Easel.Text.Blank
import Easel.Text.Bytes
import Easel.Text.Case
import Easel.Text.Digit
import Easel.Text.Lines
import Easel.Text.Printable
import Easel.Text.Quoted
import Easel.Yaml.Atom
import Easel.Yaml.Cursor
import Easel.Yaml.Datum
import Easel.Yaml.Event
import Easel.Yaml.Node
import Easel.Yaml.Reader
import Easel.Yaml.Token.Basic
import Easel.Yaml.Token.Scalar
import Easel.Yaml.Token.Scan
import Easel.Proofs.Natives.Calls
import Easel.Proofs.Sketch.Canvases
import Easel.Proofs.Sketch.Progress
import Easel.Proofs.Sketch.Steps
import Easel.Proofs.Sketch.Findings
import Easel.Proofs.Sketch.Suggestions
import Easel.Proofs.Sketch.Typing
import Easel.Proofs.Sketch.Simulation
import Easel.Proofs.Sketch.Prediction
import Easel.Proofs.Natives.Oblivious
import Easel.Proofs.Sketch.Ownership
import Easel.Proofs.Sketch.Course
import Easel.Proofs.Sketch.Accounts
import Easel.Proofs.Sketch.Unseen
import Easel.Proofs.Sketch.Snapshots
import Easel.Proofs.Sketch.Truncation
import Easel.Proofs.Sketch.Exchange
import Easel.Proofs.Sketch.Repetition
import Easel.Proofs.Sketch.Depths
import Easel.Proofs.Sketch.Generations
import Easel.Proofs.Sketch.Lifetimes
import Easel.Proofs.Sketch.Reseeding
import Easel.Proofs.Number.Rounding
import Easel.Proofs.Number.Packing
import Easel.Proofs.Number.Operations
import Easel.Proofs.Number.Order
import Easel.Proofs.Number.Parts
import Easel.Proofs.Number.Single
import Easel.Proofs.Number.Double
import Easel.Proofs.Colour.Opacity
import Easel.Proofs.Canvas.Marks
import Easel.Proofs.Canvas.Clipping
import Easel.Proofs.Canvas.Pens
import Easel.Proofs.Canvas.Spans
import Easel.Proofs.Canvas.EvenOdd
import Easel.Proofs.Canvas.Overlaps
import Easel.Proofs.Number.Monotone
import Easel.Proofs.Canvas.Opacity
import Easel.Proofs.Geometry.Subdivision
import Easel.Proofs.Number.Exact
import Easel.Proofs.Geometry.Descartes
import Easel.Proofs.Geometry.Inscribed
import Easel.Proofs.Geometry.Similarity
import Easel.Proofs.Geometry.Packing
import Easel.Proofs.Geometry.Growth
import Easel.Proofs.Script.Invocation
import Easel.Proofs.Geometry.Hexagons
import Easel.Proofs.Sketch.Objects
import Easel.Proofs.Canvas.Figures
import Easel.Proofs.Files.Places
import Easel.Proofs.Files.Changes
import Easel.Proofs.Command.Hosts
import Easel.Proofs.Command.Albums
import Easel.Proofs.Command.Rendering
import Easel.Proofs.Command.Output
import Easel.Proofs.Geometry.Corners
import Easel.Proofs.Geometry.Tangency
import Easel.Proofs.Geometry.Filling
import Easel.Proofs.Geometry.Altitudes
import Easel.Proofs.Geometry.Tiling
import Easel.Proofs.Geometry.Crossings
import Easel.Proofs.Number.Signs
import Easel.Proofs.Sketch.Circles
import Easel.Proofs.Sketch.Rasterising
import Easel.Proofs.Canvas.Translations
import Easel.Proofs.Colour.Hexadecimal
import Easel.Proofs.Colour.Printing
import Easel.Proofs.Number.Rational
import Easel.Proofs.Colour.Compositing
import Easel.Proofs.Colour.Lightness
import Easel.Proofs.Command.Rejection
