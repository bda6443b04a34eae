import RangeCache.Backend
import RangeCache.Backoff
import RangeCache.Block
import RangeCache.Bytes
import RangeCache.Cache.Basic
import RangeCache.Cache.Read
import RangeCache.Config.Basic
import RangeCache.Config.Check
import RangeCache.Config.Json
import RangeCache.Fault
import RangeCache.Fetch.Job
import RangeCache.Fetch.Queue
import RangeCache.Footer.Compact
import RangeCache.Footer.File
import RangeCache.Footer.Layout
import RangeCache.Footer.Schema
import RangeCache.Footer.Trailer
import RangeCache.History
import RangeCache.Json.Basic
import RangeCache.Json.Reader
import RangeCache.Json.Record
import RangeCache.Json.Writer
import RangeCache.Plan
import RangeCache.Planner
import RangeCache.RecentColumns
import RangeCache.Registry
import RangeCache.Session.Errand
import RangeCache.Session.Flow
import RangeCache.Session.State
import RangeCache.Session.Step
import RangeCache.Session.Stream
import RangeCache.Simulation.Client
import RangeCache.Simulation.Run
import RangeCache.Span
import RangeCache.Store.Basic
import RangeCache.Store.Cover
import RangeCache.Store.Evict
import RangeCache.Store.Stats
import RangeCache.Text.Quoted
import RangeCache.Text.Unprintable
import RangeCache.Transfer
import RangeCache.Proofs.Store.Cutting
import RangeCache.Proofs.Store.Order
import RangeCache.Proofs.Store.Runs
import RangeCache.Proofs.Store.Updates
import RangeCache.Proofs.Store.Edits
import RangeCache.Proofs.Fetch.Accounts
import RangeCache.Proofs.Cache.Moves
import RangeCache.Proofs.Cache.Ledger
import RangeCache.Proofs.Cache.Actions
import RangeCache.Proofs.Cache.Fetched
import RangeCache.Proofs.Cache.Reads
import RangeCache.Proofs.Session.Sound
import RangeCache.Proofs.Session.Hearing
import RangeCache.Proofs.Session.Aside
import RangeCache.Proofs.Session.Flow
import RangeCache.Proofs.Session.Opening
import RangeCache.Proofs.Session.Tasks
import RangeCache.Proofs.Session.Events
import RangeCache.Proofs.Session.Progress
import RangeCache.Proofs.Session.Streams
import RangeCache.Proofs.Footer.Layout
import RangeCache.Proofs.Footer.Trailer
import RangeCache.Proofs.Cache.Shape
import RangeCache.Proofs.Session.Blocks
import RangeCache.Proofs.Store.Pins
import RangeCache.Proofs.Cache.Pins
import RangeCache.Proofs.Cache.Grants
import RangeCache.Proofs.Cache.Claimable
import RangeCache.Proofs.Session.Calm
import RangeCache.Proofs.Session.Course
import RangeCache.Proofs.Session.Advance
import RangeCache.Proofs.Session.Smooth
import RangeCache.Proofs.Session.Toll
import RangeCache.Proofs.Session.Success
import RangeCache.Proofs.Session.Footers
import RangeCache.Proofs.Fetch.Order
import RangeCache.Proofs.Fetch.Requests
import RangeCache.Proofs.Fetch.Turns
import RangeCache.Proofs.Cache.Queue
import RangeCache.Proofs.Fetch.Urgent
import RangeCache.Proofs.Cache.Promised
import RangeCache.Proofs.Store.Resident
import RangeCache.Proofs.Cache.Resident
import RangeCache.Proofs.Keyed
import RangeCache.Proofs.Store.Quiet
import RangeCache.Proofs.Cache.Quiet
import RangeCache.Proofs.Store.Readers
import RangeCache.Proofs.Cache.Faults
import RangeCache.Proofs.Cache.Desk
import RangeCache.Proofs.Store.Budget
import RangeCache.Proofs.Cache.Budget
import RangeCache.Proofs.Cache.Exact
import RangeCache.Proofs.Registry
import RangeCache.Proofs.Session.Roll
import RangeCache.Proofs.Session.Leases
import RangeCache.Proofs.Json.Grammar
import RangeCache.Proofs.Json.Complete
import RangeCache.Proofs.Json.Records
import RangeCache.Proofs.Config.Texts
import RangeCache.Proofs.Store.Counts
import RangeCache.Proofs.Fetch.Left
import RangeCache.Proofs.Cache.Deeds
import RangeCache.Proofs.Cache.Plans
import RangeCache.Proofs.Session.Replan
import RangeCache.Proofs.Session.Works
import RangeCache.Proofs.Session.Doings
import RangeCache.Proofs.Session.Plans
import RangeCache.Proofs.Cache.Books
import RangeCache.Proofs.Session.Books
import RangeCache.Proofs.Session.Cells
import RangeCache.Proofs.Cache.Victims
import RangeCache.Proofs.Store.Partition
import RangeCache.Proofs.Cache.Coalesced
import RangeCache.Proofs.Store.Vacancies
import RangeCache.Proofs.Cache.Widened
import RangeCache.Proofs.Session.Faults
import RangeCache.Proofs.Cache.Backlog
import RangeCache.Proofs.Cache.Hits
import RangeCache.Proofs.Session.Refusals
import RangeCache.Proofs.Footer.Overlap
import RangeCache.Proofs.Footer.Lookup
import RangeCache.Proofs.Footer.Tiling
import RangeCache.Proofs.Planner.Runs
import RangeCache.Proofs.Planner.Columns
import RangeCache.Proofs.Backoff
import RangeCache.Proofs.Planner.Readahead
import RangeCache.Proofs.Planner.Scans
import RangeCache.Proofs.Footer.Columns
import RangeCache.Proofs.Planner.Unknown
import RangeCache.Proofs.Block
import RangeCache.Proofs.Footer.PageIndex
import RangeCache.Proofs.Planner.Predictions
