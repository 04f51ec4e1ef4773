import SatWalk.Main
import SatWalk.Walk.Challenge
import SatWalk.Proofs.Formula.Truth
import SatWalk.Proofs.Tracker.Counting
import SatWalk.Proofs.Tracker.Faithful
import SatWalk.Proofs.Tracker.History
import SatWalk.Proofs.Selector.Tally
import SatWalk.Proofs.Random.Acceptance
import SatWalk.Proofs.Random.Draws
import SatWalk.Proofs.Selector.Choice
import SatWalk.Proofs.Selector.Calls
import SatWalk.Proofs.Search.Step
import SatWalk.Proofs.Search.Start
import SatWalk.Proofs.Search.Agreement
import SatWalk.Proofs.Search.Outcome
import SatWalk.Proofs.Search.Solution
import SatWalk.Proofs.Binary64.Order
import SatWalk.Proofs.Search.Accounting
import SatWalk.Proofs.Random.Script
import SatWalk.Proofs.Search.Reach
import SatWalk.Proofs.Text.Lines
import SatWalk.Proofs.Text.Words
import SatWalk.Proofs.Text.Numerals
import SatWalk.Proofs.Dimacs.Format
import SatWalk.Proofs.Dimacs.FaultLines
import SatWalk.Proofs.Json.Decoding
import SatWalk.Proofs.Search.Settings
import SatWalk.Proofs.Dimacs.RoundTrip
import SatWalk.Proofs.Binary64.Magnitude
import SatWalk.Proofs.Binary64.Rounding
import SatWalk.Proofs.Binary64.Parts
import SatWalk.Proofs.Binary64.Arithmetic
import SatWalk.Proofs.Binary64.Monotone
import SatWalk.Proofs.Binary64.Naturals
import SatWalk.Proofs.Binary64.Nearness
import SatWalk.Proofs.Experiment.Grid
import SatWalk.Proofs.Experiment.Runs
import SatWalk.Proofs.Experiment.Summary
import SatWalk.Proofs.Decimal.Shortest
import SatWalk.Proofs.Decimal.Layout
import SatWalk.Proofs.Json.Tokens
import SatWalk.Proofs.Json.Printer
import SatWalk.Proofs.Json.Canonical
import SatWalk.Proofs.Json.Numbers
import SatWalk.Proofs.Json.Restore
import SatWalk.Proofs.Json.Steady
import SatWalk.Proofs.Experiment.SeedKey
import SatWalk.Proofs.Formula.Generation
import SatWalk.Proofs.Formula.Planted
import SatWalk.Proofs.Dimacs.Preamble
import SatWalk.Proofs.Files.Disk
import SatWalk.Proofs.Files.World
import SatWalk.Proofs.Files.Directory
import SatWalk.Proofs.Formula.SavedModel
import SatWalk.Proofs.Formula.BitVectors
import SatWalk.Proofs.CommandLine.Generated
import SatWalk.Proofs.Formula.Batch
import SatWalk.Proofs.Formula.BatchOrder
import SatWalk.Proofs.Json.Record
import SatWalk.Proofs.Zlib.Stored
import SatWalk.Proofs.Experiment.Archive
import SatWalk.Proofs.Gate.Adjust
import SatWalk.Proofs.Search.Probability
import SatWalk.Proofs.Search.Effect
import SatWalk.Proofs.Search.Finished
import SatWalk.Proofs.Experiment.Sweep
import SatWalk.Proofs.Formula.Shape
import SatWalk.Proofs.Formula.Refusal
import SatWalk.Proofs.Formula.Validation
import SatWalk.Proofs.Text.ByteOrder
import SatWalk.Proofs.Json.MemberOrder
