import CompileLog.Analysis.Lookup
import CompileLog.Analysis.Ranking
import CompileLog.Analysis.Remedy
import CompileLog.Analysis.Removal
import CompileLog.Analysis.Resolve
import CompileLog.Analysis.Summary
import CompileLog.Collect.Collector
import CompileLog.Collect.Compiling
import CompileLog.Collect.Dictionary
import CompileLog.Collect.Item
import CompileLog.Config
import CompileLog.Console.Arguments
import CompileLog.Console.Failure
import CompileLog.Console.Inlining
import CompileLog.Console.Listing
import CompileLog.Console.Overview
import CompileLog.Console.Page
import CompileLog.Console.Program
import CompileLog.Console.Ranked
import CompileLog.Console.Timeline
import CompileLog.Console.Usage
import CompileLog.Console.Wording
import CompileLog.Correlation.Basic
import CompileLog.Correlation.Walk
import CompileLog.Event.Basic
import CompileLog.Event.Decode
import CompileLog.Event.Value
import CompileLog.Files
import CompileLog.Files.Folder
import CompileLog.History.Archive
import CompileLog.History.Basic
import CompileLog.History.Index
import CompileLog.InlineTree
import CompileLog.Json.Parser
import CompileLog.Json.Printer
import CompileLog.Json.Stored
import CompileLog.Json.Token
import CompileLog.Json.Value
import CompileLog.KeyMap
import CompileLog.Listing.Anchors
import CompileLog.Listing.Basic
import CompileLog.Listing.Parser
import CompileLog.Listing.Scope
import CompileLog.Listing.Split
import CompileLog.Main
import CompileLog.Markup.Attribute
import CompileLog.Markup.Fragment
import CompileLog.Markup.Piece
import CompileLog.Markup.Reading
import CompileLog.Markup.Reference
import CompileLog.Method
import CompileLog.Proofs.Analysis.CallSites
import CompileLog.Proofs.Analysis.Failures
import CompileLog.Proofs.Analysis.Ranking
import CompileLog.Proofs.Analysis.Resolve
import CompileLog.Proofs.Analysis.Sharing
import CompileLog.Proofs.Collect.Accounts
import CompileLog.Proofs.Collect.Apart
import CompileLog.Proofs.Collect.Bodies
import CompileLog.Proofs.Collect.Causes
import CompileLog.Proofs.Collect.Course
import CompileLog.Proofs.Collect.Custody
import CompileLog.Proofs.Collect.Cut
import CompileLog.Proofs.Collect.Decisions
import CompileLog.Proofs.Collect.Desk
import CompileLog.Proofs.Collect.Duplicates
import CompileLog.Proofs.Collect.Enclosed
import CompileLog.Proofs.Collect.Endings
import CompileLog.Proofs.Collect.Handover
import CompileLog.Proofs.Collect.Heard
import CompileLog.Proofs.Collect.Holding
import CompileLog.Proofs.Collect.Links
import CompileLog.Proofs.Collect.Listings
import CompileLog.Proofs.Collect.Merging
import CompileLog.Proofs.Collect.Misplaced
import CompileLog.Proofs.Collect.Moves
import CompileLog.Proofs.Collect.Named
import CompileLog.Proofs.Collect.Outline
import CompileLog.Proofs.Collect.Oversized
import CompileLog.Proofs.Collect.Parse
import CompileLog.Proofs.Collect.PhaseElements
import CompileLog.Proofs.Collect.Phases
import CompileLog.Proofs.Collect.Reconstruction
import CompileLog.Proofs.Collect.Removals
import CompileLog.Proofs.Collect.Repeats
import CompileLog.Proofs.Collect.Scopes
import CompileLog.Proofs.Collect.Signatures
import CompileLog.Proofs.Collect.Standing
import CompileLog.Proofs.Collect.Tally
import CompileLog.Proofs.Collect.Transcript
import CompileLog.Proofs.Collect.TrapFrames
import CompileLog.Proofs.Collect.Traps
import CompileLog.Proofs.Collect.UnknownTags
import CompileLog.Proofs.Collect.Waiting
import CompileLog.Proofs.Console.Timeline
import CompileLog.Proofs.Correlation.Anchored
import CompileLog.Proofs.Correlation.Anomalies
import CompileLog.Proofs.Correlation.Coverage
import CompileLog.Proofs.Correlation.Groups
import CompileLog.Proofs.Correlation.Lookup
import CompileLog.Proofs.Correlation.Nearest
import CompileLog.Proofs.Correlation.Order
import CompileLog.Proofs.Correlation.Stretches
import CompileLog.Proofs.Correlation.Unbroken
import CompileLog.Proofs.Event.Attributes
import CompileLog.Proofs.History.Alike
import CompileLog.Proofs.History.Arising
import CompileLog.Proofs.History.Arrival
import CompileLog.Proofs.History.Conservation
import CompileLog.Proofs.History.Crowding
import CompileLog.Proofs.History.Current
import CompileLog.Proofs.History.Earlier
import CompileLog.Proofs.History.Filing
import CompileLog.Proofs.History.InService
import CompileLog.Proofs.History.Interleaving
import CompileLog.Proofs.History.Inversions
import CompileLog.Proofs.History.Joining
import CompileLog.Proofs.History.Late
import CompileLog.Proofs.History.LateListings
import CompileLog.Proofs.History.Ledger
import CompileLog.Proofs.History.Listings
import CompileLog.Proofs.History.Numbers
import CompileLog.Proofs.History.Owners
import CompileLog.Proofs.History.Pending
import CompileLog.Proofs.History.Provenance
import CompileLog.Proofs.History.Queue
import CompileLog.Proofs.History.Reload
import CompileLog.Proofs.History.Rest
import CompileLog.Proofs.History.Reuse
import CompileLog.Proofs.History.Run
import CompileLog.Proofs.History.States
import CompileLog.Proofs.History.Tasks
import CompileLog.Proofs.History.Timeline
import CompileLog.Proofs.History.Unclaimed
import CompileLog.Proofs.InlineTree
import CompileLog.Proofs.InlineTree.Circles
import CompileLog.Proofs.InlineTree.Links
import CompileLog.Proofs.InlineTree.Walk
import CompileLog.Proofs.Json.Parser
import CompileLog.Proofs.Json.Stored
import CompileLog.Proofs.Json.Token
import CompileLog.Proofs.KeyMap
import CompileLog.Proofs.KeyMap.Gathering
import CompileLog.Proofs.Listing.Addresses
import CompileLog.Proofs.Listing.Anchors
import CompileLog.Proofs.Listing.Annotated
import CompileLog.Proofs.Listing.Boundaries
import CompileLog.Proofs.Listing.Code
import CompileLog.Proofs.Listing.Scope
import CompileLog.Proofs.Listing.Split
import CompileLog.Proofs.Markup.Cut
import CompileLog.Proofs.Markup.EndTags
import CompileLog.Proofs.Markup.Nesting
import CompileLog.Proofs.Markup.Stopped
import CompileLog.Proofs.Search
import CompileLog.Proofs.Session.Acts
import CompileLog.Proofs.Session.Late
import CompileLog.Proofs.Session.Listings
import CompileLog.Proofs.Session.LoadedTrees
import CompileLog.Proofs.Session.Lookup
import CompileLog.Proofs.Session.Passes
import CompileLog.Proofs.Session.Provenance
import CompileLog.Proofs.Session.Resumption
import CompileLog.Proofs.Session.Snapshots
import CompileLog.Proofs.Snapshot.Archive
import CompileLog.Proofs.Snapshot.Code
import CompileLog.Proofs.Snapshot.Read
import CompileLog.Proofs.Snapshot.Task
import CompileLog.Proofs.Sorting
import CompileLog.Proofs.Stamp
import CompileLog.Proofs.Task.Native
import CompileLog.Proofs.Text.Lines
import CompileLog.Proofs.Text.Numeral
import CompileLog.Proofs.Text.Utf8
import CompileLog.Proofs.Text.Words
import CompileLog.Proofs.Vocabulary.Layers
import CompileLog.Proofs.Vocabulary.Overlay
import CompileLog.Proofs.Vocabulary.Roles
import CompileLog.Search
import CompileLog.Session
import CompileLog.Snapshot.Archive
import CompileLog.Snapshot.Code
import CompileLog.Snapshot.Task
import CompileLog.Stamp
import CompileLog.Task.Basic
import CompileLog.Task.Native
import CompileLog.Text.Blank
import CompileLog.Text.DecimalDigit
import CompileLog.Text.Numeral
import CompileLog.Text.Quoted
import CompileLog.Text.Shown
import CompileLog.Text.Unassigned
import CompileLog.Text.Utf8
import CompileLog.Toml.Document
import CompileLog.Toml.Scalar
import CompileLog.Toml.Table
import CompileLog.Toml.Text
import CompileLog.Vocabulary.Role
import CompileLog.Vocabulary.Table
