import Stencil.Bindings
import Stencil.CommandLine.Arguments
import Stencil.CommandLine.Run
import Stencil.Css.Escape
import Stencil.Css.Forbidden
import Stencil.Css.Normal
import Stencil.Css.Sanitize
import Stencil.Fixture.Case
import Stencil.Fixture.Report
import Stencil.Html.Builder
import Stencil.Html.Element
import Stencil.Html.Escape
import Stencil.Html.Event
import Stencil.Html.Fragment
import Stencil.Html.Lexeme
import Stencil.Html.Reference
import Stencil.Html.Sample
import Stencil.Html.Scanner
import Stencil.Html.Scope
import Stencil.Html.Serializer
import Stencil.Html.Tag
import Stencil.Html.Token
import Stencil.Html.Trace
import Stencil.Html.Vocabulary
import Stencil.Main
import Stencil.Modules
import Stencil.Notice
import Stencil.Proofs.Bindings.Entries
import Stencil.Proofs.Bindings.History
import Stencil.Proofs.Bytes.CloseTag
import Stencil.Proofs.Bytes.Fragment
import Stencil.Proofs.Bytes.Lexeme
import Stencil.Proofs.Bytes.Loops
import Stencil.Proofs.Bytes.Nesting
import Stencil.Proofs.Bytes.Position
import Stencil.Proofs.Bytes.Reference
import Stencil.Proofs.Bytes.Render
import Stencil.Proofs.Bytes.Search
import Stencil.Proofs.Bytes.Tag
import Stencil.Proofs.Bytes.Template
import Stencil.Proofs.Css.Decoding
import Stencil.Proofs.Css.Respelling
import Stencil.Proofs.Css.Values
import Stencil.Proofs.Html.AutoClosing
import Stencil.Proofs.Html.Body
import Stencil.Proofs.Html.Calls
import Stencil.Proofs.Html.Construction
import Stencil.Proofs.Html.Decoding
import Stencil.Proofs.Html.Draining
import Stencil.Proofs.Html.Escape
import Stencil.Proofs.Html.Fits
import Stencil.Proofs.Html.Forest
import Stencil.Proofs.Html.Isolation
import Stencil.Proofs.Html.Markup
import Stencil.Proofs.Html.Printing
import Stencil.Proofs.Html.Readback
import Stencil.Proofs.Html.Rewrite
import Stencil.Proofs.Html.Settled
import Stencil.Proofs.Html.Shapes
import Stencil.Proofs.Html.Stable
import Stencil.Proofs.Html.Steps
import Stencil.Proofs.Html.Stream
import Stencil.Proofs.Html.Trail
import Stencil.Proofs.Html.Turns
import Stencil.Proofs.Html.Vocabularies
import Stencil.Proofs.Html.Walk
import Stencil.Proofs.Html.WellFormed
import Stencil.Proofs.Render.Acts
import Stencil.Proofs.Render.Attributes
import Stencil.Proofs.Render.Caching
import Stencil.Proofs.Render.Content
import Stencil.Proofs.Render.Fidelity
import Stencil.Proofs.Render.Filling
import Stencil.Proofs.Render.Frames
import Stencil.Proofs.Render.Places
import Stencil.Proofs.Render.Requests
import Stencil.Proofs.Render.Runs
import Stencil.Proofs.Render.Scripts
import Stencil.Proofs.Render.Sequential
import Stencil.Proofs.Render.Structure
import Stencil.Proofs.Render.Styles
import Stencil.Proofs.Render.Texts
import Stencil.Proofs.Render.Untouched
import Stencil.Proofs.Script.Reading
import Stencil.Proofs.Settings.Names
import Stencil.Proofs.Stash.Markers
import Stencil.Proofs.Stash.Nesting
import Stencil.Proofs.Template.Extent
import Stencil.Proofs.Template.Marks
import Stencil.Proofs.Template.Nesting
import Stencil.Proofs.Template.Patches
import Stencil.Proofs.Template.Source
import Stencil.Proofs.Template.Spelling
import Stencil.Proofs.Template.Writing
import Stencil.Proofs.Text.Case
import Stencil.Proofs.Text.Digits
import Stencil.Proofs.Text.Forms
import Stencil.Proofs.Text.Search
import Stencil.Render.Acts
import Stencil.Render.Frame
import Stencil.Render.Place
import Stencil.Render.Renderer
import Stencil.Render.Service
import Stencil.Script.Literal
import Stencil.Settings
import Stencil.Settings.Document
import Stencil.Stash
import Stencil.Template.Basic
import Stencil.Template.Parse
import Stencil.Text.Ascii
import Stencil.Text.Basic
import Stencil.Text.Lines
import Stencil.Text.Printable
import Stencil.Text.Quoted
import Stencil.Text.Search
import Stencil.Text.Space
import Stencil.Toml.Document
import Stencil.Toml.Number
import Stencil.Toml.Quoted
import Stencil.Toml.Statement
import Stencil.Toml.Table
import Stencil.Toml.Value
import Stencil.Url
