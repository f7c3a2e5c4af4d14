import SpanReview.Main
import SpanReview.Source.Memory
import SpanReview.Proofs.CommandLine.Check
import SpanReview.Proofs.CommandLine.Toggles
import SpanReview.Proofs.CommandLine.Words
import SpanReview.Proofs.Engine.Accept
import SpanReview.Proofs.Engine.Failure
import SpanReview.Proofs.Engine.Fruitless
import SpanReview.Proofs.Engine.Pointer
import SpanReview.Proofs.Engine.Proposal
import SpanReview.Proofs.Engine.Saved
import SpanReview.Proofs.Engine.Turns
import SpanReview.Proofs.Engine.Unmoved
import SpanReview.Proofs.Fixture.Atomic
import SpanReview.Proofs.Fixture.Components
import SpanReview.Proofs.Fixture.Grammar
import SpanReview.Proofs.Node.PreOrder
import SpanReview.Proofs.Repository.Remote
import SpanReview.Proofs.Screen.Highlight
import SpanReview.Proofs.Session.Command
import SpanReview.Proofs.Settings.Members
import SpanReview.Proofs.Span.Fit
import SpanReview.Proofs.Span.Lines
import SpanReview.Proofs.Span.Offset
import SpanReview.Proofs.Suggest.Ranking
