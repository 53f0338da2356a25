import SharedStream.Offset
import SharedStream.Error
import SharedStream.Store.Basic
import SharedStream.Store.Panel
import SharedStream.Store.Script
import SharedStream.Store.Stock
import SharedStream.Store.Trial
import SharedStream.Block
import SharedStream.Dispatch
import SharedStream.Event
import SharedStream.Pool
import SharedStream.Ledger
import SharedStream.Retirement
import SharedStream.Gathering
import SharedStream.Hints
import SharedStream.Cursor.Making
import SharedStream.Cursor.Moving
import SharedStream.Cursor.Reading
import SharedStream.Cursor.Draining
import SharedStream.Toml.Library
import SharedStream.Settings
import SharedStream.Toml.Scan
import SharedStream.Toml.Lexeme
import SharedStream.Toml.Tree
import SharedStream.Toml.Document
import SharedStream.Description
import SharedStream.World
import SharedStream.Session.Step
import SharedStream.Session.State
import SharedStream.Session.Transcript
import SharedStream.Proofs.Balance
import SharedStream.Proofs.Geometry
import SharedStream.Proofs.Recounting
import SharedStream.Proofs.Journal
import SharedStream.Proofs.Endings
import SharedStream.Proofs.Recursion
import SharedStream.Proofs.Keeping
import SharedStream.Proofs.Pieces
import SharedStream.Proofs.Operations
import SharedStream.Proofs.Upkeep
import SharedStream.Proofs.Worlds
import SharedStream.Proofs.Accounting
import SharedStream.Proofs.Replaying
import SharedStream.Proofs.Lifetimes
import SharedStream.Proofs.Flattening
import SharedStream.Proofs.Content
import SharedStream.Proofs.Plain
import SharedStream.Proofs.Simulation
import SharedStream.Proofs.Refinement
import SharedStream.Proofs.Reads
import SharedStream.Proofs.Advice
import SharedStream.Proofs.Releases
import SharedStream.Proofs.Unreachable
import SharedStream.Proofs.Refusals
import SharedStream.Proofs.Descent
import SharedStream.Proofs.Faithful
import SharedStream.Proofs.Resuming
import SharedStream.Proofs.Layout
import SharedStream.Proofs.Requests
import SharedStream.Proofs.Judging
import SharedStream.Proofs.Words
import SharedStream.Proofs.Wordwise
import SharedStream.Proofs.Renumbering
import SharedStream.Proofs.Confinement
import SharedStream.Proofs.Locality
import SharedStream.Proofs.Commuting
import SharedStream.Proofs.Rejoining
import SharedStream.Proofs.Seats
import SharedStream.Proofs.Teardown
import SharedStream.Proofs.Verdicts
import SharedStream.Proofs.Retiring
import SharedStream.Proofs.FlatTeardown
import SharedStream.Proofs.Loops
import SharedStream.Proofs.Documents
import SharedStream.Proofs.Decoding
import SharedStream.Proofs.Probes
import SharedStream.Proofs.Faults
import SharedStream.Proofs.StandIns
