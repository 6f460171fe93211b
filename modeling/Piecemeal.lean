import Piecemeal.Size
import Piecemeal.Literal.Unprintable
import Piecemeal.Literal.Combining
import Piecemeal.Literal.Quote
import Piecemeal.Fault
import Piecemeal.More
import Piecemeal.Pos
import Piecemeal.Failure
import Piecemeal.Event
import Piecemeal.Chunk.Window
import Piecemeal.Chunk.Segment
import Piecemeal.Chunk.Basic
import Piecemeal.Chunk.Bytes
import Piecemeal.Chunk.Cell
import Piecemeal.Chunk.Text.Basic
import Piecemeal.Chunk.Text.Lemmas
import Piecemeal.Chunk.Machine
import Piecemeal.Chunk.Shared
import Piecemeal.Outcome.Basic
import Piecemeal.Outcome.Status
import Piecemeal.Outcome.Dialogue
import Piecemeal.State
import Piecemeal.Verdict
import Piecemeal.Parser.Basic
import Piecemeal.Parser.Waiting
import Piecemeal.Parser.Repetition
import Piecemeal.Parser.Run
import Piecemeal.Parser.Naturality
import Piecemeal.Script.Value
import Piecemeal.Script.Transform
import Piecemeal.Script.Probe
import Piecemeal.Script.Grammar
import Piecemeal.Script.Session
import Piecemeal.Proofs.Chunk.Elements
import Piecemeal.Proofs.Chunk.Checked
import Piecemeal.Proofs.Chunk.Preconditions
import Piecemeal.Proofs.Chunk.Sharing
import Piecemeal.Proofs.Chunk.Sequences
import Piecemeal.Proofs.Chunk.Counting
import Piecemeal.Proofs.Chunk.Growth
import Piecemeal.Proofs.State
import Piecemeal.Proofs.Outcome.Feeding
import Piecemeal.Proofs.Outcome.Tracking
import Piecemeal.Proofs.Outcome.Logging
import Piecemeal.Proofs.Outcome.Lockstep
import Piecemeal.Proofs.Outcome.Dialogue
import Piecemeal.Proofs.Parser.Verdict
import Piecemeal.Proofs.Parser.Primitives
import Piecemeal.Proofs.Parser.Heeding
import Piecemeal.Proofs.Parser.Continuation
import Piecemeal.Proofs.Parser.FailurePath
import Piecemeal.Proofs.Parser.Repetition
import Piecemeal.Proofs.Parser.Threading
import Piecemeal.Proofs.Parser.Course
import Piecemeal.Proofs.Parser.Consumption
import Piecemeal.Proofs.Parser.Safety
import Piecemeal.Proofs.Parser.Ending
import Piecemeal.Proofs.Parser.Logging
import Piecemeal.Proofs.Parser.Reading
import Piecemeal.Proofs.Parser.Splitting
import Piecemeal.Proofs.Parser.Backtracking
import Piecemeal.Proofs.Parser.Exhaustion
import Piecemeal.Proofs.Parser.Lockstep
import Piecemeal.Proofs.Parser.Representation
import Piecemeal.Proofs.Parser.Lookbehind
import Piecemeal.Proofs.Parser.Mapping
import Piecemeal.Proofs.Parser.Request
import Piecemeal.Proofs.Parser.Lookahead
