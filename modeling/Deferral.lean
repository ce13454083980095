import Deferral.Algebra.Semigroup
import Deferral.Codec.Primitive
import Deferral.Outcome.Validation
import Deferral.Proofs.AtOnce.Agreement
import Deferral.Proofs.OneShot.Script
import Deferral.Proofs.Run.Limit
import Deferral.Proofs.Run.Recursion
import Deferral.Stored.Report
import Deferral.Teardown.Release
import Deferral.Typed.AsyncDeferred
import Deferral.Proofs.Run.Above
import Deferral.Proofs.Run.Parts
import Deferral.Proofs.Run.Associativity
import Deferral.Proofs.Run.Forever
import Deferral.Proofs.Concurrent.Blind
import Deferral.Proofs.Concurrent.Schedule
import Deferral.Proofs.Concurrent.Alone
import Deferral.Proofs.Concurrent.Answers
import Deferral.Proofs.Concurrent.Undisturbed
import Deferral.Proofs.Run.Chain
import Deferral.Proofs.Run.Pairing
import Deferral.Proofs.Teardown.Released
import Deferral.Proofs.Nested.Interpretations
import Deferral.Proofs.Teardown.Nesting
import Deferral.Proofs.PollByPoll.MonadLaws
import Deferral.Proofs.Validation.Calls
import Deferral.Proofs.Validation.Tuple
import Deferral.Proofs.Validation.Splitting
import Deferral.Proofs.Future.Steps
import Deferral.Proofs.Endless.Forever
import Deferral.Proofs.Repeated.Repeated
import Deferral.Proofs.Time.Slept
import Deferral.Proofs.Typed.Fusion
import Deferral.Proofs.Lifted.Morphism
import Deferral.Proofs.Captured.Captured
import Deferral.Proofs.Aligned.Downcasts
import Deferral.Proofs.Codec.Dates
import Deferral.Proofs.Json.Grammar
import Deferral.Proofs.Json.Items
import Deferral.Proofs.Json.Skipped
import Deferral.Proofs.Stored.Fields
import Deferral.Proofs.Stored.Kept
import Deferral.Proofs.Stored.ReadBack
import Deferral.Proofs.Validation.Joined
import Deferral.Proofs.Codec.Numbers
import Deferral.Proofs.Run.Places
import Deferral.Proofs.Algebra.Combined
