import LosslessUtf8.Main
import LosslessUtf8.Piecewise
import LosslessUtf8.Position
import LosslessUtf8.Workspace
import LosslessUtf8.Chunked.Course
import LosslessUtf8.Addressed
import LosslessUtf8.TwoPass
import LosslessUtf8.Bits
import LosslessUtf8.Lookahead
import LosslessUtf8.Loop
import LosslessUtf8.Proofs.StandardForm
import LosslessUtf8.Proofs.Scanning
import LosslessUtf8.Proofs.Segmentation
import LosslessUtf8.Proofs.SequenceTable
import LosslessUtf8.Proofs.Packing
import LosslessUtf8.Proofs.Spans
import LosslessUtf8.Proofs.TwoPass
import LosslessUtf8.Proofs.Lossless
import LosslessUtf8.Proofs.MaximalSubpart
import LosslessUtf8.Proofs.Feeding
import LosslessUtf8.Proofs.Fusion
import LosslessUtf8.Proofs.AmpleRoom
import LosslessUtf8.Proofs.Sessions
import LosslessUtf8.Proofs.Decoders
import LosslessUtf8.Proofs.Placement
import LosslessUtf8.Proofs.ExactEncoding
import LosslessUtf8.Proofs.WellFormedness
import LosslessUtf8.Proofs.Locality
import LosslessUtf8.Substitution.Rounds
import LosslessUtf8.Proofs.Substitution
import LosslessUtf8.Proofs.Rules
import LosslessUtf8.Proofs.Pieces
import LosslessUtf8.Proofs.Reports
import LosslessUtf8.Proofs.Delimiters
import LosslessUtf8.Proofs.Addressed
import LosslessUtf8.Proofs.SpanDecoding
import LosslessUtf8.Proofs.SpanEncoding
import LosslessUtf8.Proofs.Validation
import LosslessUtf8.Proofs.Counting
import LosslessUtf8.Proofs.Resuming
import LosslessUtf8.Proofs.Unfinished
import LosslessUtf8.Proofs.Completion
import LosslessUtf8.Proofs.Storing
import LosslessUtf8.Proofs.Inverse
import LosslessUtf8.Proofs.Stability
import LosslessUtf8.Proofs.Lookahead
import LosslessUtf8.Proofs.Loop
import LosslessUtf8.Proofs.Termination
