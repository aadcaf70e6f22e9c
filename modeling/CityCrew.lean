import CityCrew.Board.Pathfinding
import CityCrew.Plan.TokenStream
import CityCrew.Plan.Parser
import CityCrew.Plan.Printer
import CityCrew.Plan.Rehearsal
import CityCrew.Settings.Load
import CityCrew.Game.Turn
import CityCrew.Game.Setup
import CityCrew.Game.Audit
import CityCrew.Decimal.Fixed
import CityCrew.Report.Tournament
import CityCrew.Main
import CityCrew.Proofs.Board
import CityCrew.Proofs.HexMetric
import CityCrew.Proofs.Lines
import CityCrew.Proofs.Sight
import CityCrew.Proofs.Length
import CityCrew.Proofs.Pathfinding
import CityCrew.Proofs.Distance
import CityCrew.Proofs.RelatedRuns
import CityCrew.Proofs.Calls
import CityCrew.Proofs.Effects
import CityCrew.Proofs.SoundBoard
import CityCrew.Proofs.SoundGame
import CityCrew.Proofs.SoundTurn
import CityCrew.Proofs.Validation
import CityCrew.Proofs.SoundSetup
import CityCrew.Proofs.Reachable
import CityCrew.Proofs.Wealth
import CityCrew.Proofs.MatchRun
import CityCrew.Proofs.Contenders
import CityCrew.Proofs.MatchTurns
import CityCrew.Proofs.MatchReport
import CityCrew.Proofs.Placement
import CityCrew.Proofs.Aggregation
import CityCrew.Proofs.MatchWealth
import CityCrew.Proofs.Opponents
import CityCrew.Proofs.Ended
import CityCrew.Proofs.Survival
import CityCrew.Proofs.Images
import CityCrew.Proofs.Veil
import CityCrew.Proofs.Privacy
import CityCrew.Proofs.Chance
import CityCrew.Proofs.Elimination
import CityCrew.Proofs.Schedule
import CityCrew.Proofs.Grammar
import CityCrew.Proofs.Phrases
import CityCrew.Proofs.Unambiguity
import CityCrew.Proofs.Yields
import CityCrew.Proofs.Parsing
import CityCrew.Proofs.Layout
import CityCrew.Proofs.Lexing
import CityCrew.Proofs.Concatenation
import CityCrew.Proofs.Fragments
import CityCrew.Proofs.Productions
import CityCrew.Proofs.Fails
import CityCrew.Proofs.Diagnosis
import CityCrew.Proofs.Queries
import CityCrew.Proofs.FailFast
import CityCrew.Proofs.Nesting
import CityCrew.Proofs.Counting
import CityCrew.Proofs.Loading
import CityCrew.Proofs.Powers
import CityCrew.Proofs.Founding
import CityCrew.Proofs.Shots
import CityCrew.Proofs.Totals
import CityCrew.Proofs.LastRound
import CityCrew.Proofs.Quotations
import CityCrew.Proofs.Evaluation
import CityCrew.Proofs.Relocation
import CityCrew.Proofs.Refunds
import CityCrew.Proofs.Passive
import CityCrew.Proofs.Lattice
import CityCrew.Proofs.Grid
