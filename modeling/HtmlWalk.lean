import HtmlWalk.Html.Reader
import HtmlWalk.Node.Equality
import HtmlWalk.Options.Json
import HtmlWalk.Proofs.Node.Attributes
import HtmlWalk.Proofs.Walk.Conservation
import HtmlWalk.Proofs.Walk.Context
import HtmlWalk.Proofs.Walk.Faults
import HtmlWalk.Proofs.Walk.Framing
import HtmlWalk.Proofs.Walk.InPlace
import HtmlWalk.Proofs.Walk.ParentView
import HtmlWalk.Proofs.Walk.Passes
import HtmlWalk.Proofs.Walk.Route
import HtmlWalk.Proofs.Walk.SweepChain
import HtmlWalk.Script.Report
import HtmlWalk.Proofs.Visitor.Registration
import HtmlWalk.Proofs.Html.Edits
import HtmlWalk.Proofs.Html.Tracking
import HtmlWalk.Proofs.Html.Coverage
import HtmlWalk.Proofs.Html.Erasure
import HtmlWalk.Proofs.Html.LineTable
import HtmlWalk.Proofs.Html.Notes
import HtmlWalk.Proofs.Html.SessionLines
import HtmlWalk.Proofs.Html.ShownLines
import HtmlWalk.Proofs.Html.Depth
import HtmlWalk.Proofs.Html.Doctypes
import HtmlWalk.Proofs.Html.Echo
import HtmlWalk.Proofs.Html.ExactErrors
import HtmlWalk.Proofs.Html.ParsedTrees
import HtmlWalk.Proofs.Html.Reading
import HtmlWalk.Proofs.Html.CommentLines
import HtmlWalk.Proofs.Options.Objects
