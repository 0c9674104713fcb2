import AsOf.Action
import AsOf.Collection.Basic
import AsOf.CommandLine.Arguments
import AsOf.CommandLine.Run
import AsOf.Document.Basic
import AsOf.History.Basic
import AsOf.HistoryFile.Replay
import AsOf.Journal.Observed
import AsOf.Journal.Record
import AsOf.Json.Basic
import AsOf.Lookup.Snapshot
import AsOf.Main
import AsOf.Session.Run
import AsOf.Session.Command
import AsOf.Settings.Basic
import AsOf.Store.Database
import AsOf.Store.Resource
import AsOf.Text.Basic
import AsOf.Text.Quoted
import AsOf.Time.Instant
import AsOf.Time.Text
import AsOf.Tree.Basic
import AsOf.Tree.KeySet
import AsOf.Proofs.History.Search
import AsOf.Proofs.History.Floor
import AsOf.Proofs.Resource.Step
import AsOf.Proofs.Journal.Effect
import AsOf.Proofs.Journal.Ensure
import AsOf.Proofs.Resource.Run
import AsOf.Proofs.Lookup.Reader
import AsOf.Proofs.Lookup.Writer
import AsOf.Proofs.Lookup.Repeat
import AsOf.Proofs.Journal.InStep
import AsOf.Proofs.Tree.Arising
import AsOf.Proofs.Resource.Lineage
import AsOf.Proofs.Resource.Sealing
import AsOf.Proofs.Resource.Account
import AsOf.Proofs.Resource.Writers
import AsOf.Proofs.Resource.Keys
import AsOf.Proofs.Resource.Planted
import AsOf.Proofs.Resource.Leeway
import AsOf.Proofs.Lookup.Policy
import AsOf.Proofs.Store.Event
import AsOf.Proofs.Store.Listing
import AsOf.Proofs.Store.Identity
import AsOf.Proofs.Store.Keep
import AsOf.Proofs.Session.Shutdown
import AsOf.Proofs.Store.Script
import AsOf.Proofs.Store.Account
import AsOf.Proofs.Session.Agreement
import AsOf.Proofs.Collection.Keep
import AsOf.Proofs.Collection.Add
import AsOf.Proofs.Collection.Names
import AsOf.Proofs.Collection.Ingestion
import AsOf.Proofs.Session.Cursor
import AsOf.Proofs.Session.Follow
import AsOf.Proofs.Session.Growth
import AsOf.Proofs.Session.Account
import AsOf.Proofs.Session.Footing
import AsOf.Proofs.Session.Writers
import AsOf.Proofs.Session.Identity
import AsOf.Proofs.Session.Items
import AsOf.Proofs.Session.Policy
import AsOf.Proofs.HistoryFile.Contents
import AsOf.Proofs.HistoryFile.Replay
import AsOf.Proofs.HistoryFile.Numbering
import AsOf.Proofs.Lookup.Idle
import AsOf.Proofs.Document.Draining
import AsOf.Proofs.CommandLine.Opening
import AsOf.Proofs.CommandLine.Resolve
import AsOf.Proofs.CommandLine.Scan
import AsOf.Proofs.Text.Basic
import AsOf.Proofs.Time.RoundTrip
import AsOf.Proofs.CommandLine.Printed
import AsOf.Proofs.Document.Trace
import AsOf.Proofs.Document.Passing
import AsOf.Proofs.Lookup.Leeway
import AsOf.Proofs.Store.Leeway
import AsOf.Proofs.Collection.Leeway
import AsOf.Proofs.Session.Leeway
import AsOf.Proofs.Session.Threshold
import AsOf.Proofs.Session.Reading
import AsOf.Proofs.Journal.Line
import AsOf.Proofs.Journal.Law
import AsOf.Proofs.Lookup.Told
import AsOf.Proofs.Collection.Told
import AsOf.Proofs.Collection.Inquiry
import AsOf.Proofs.Session.Tally
import AsOf.Proofs.Session.Enumeration
import AsOf.Proofs.Collection.Enumeration
import AsOf.Proofs.Session.Aside
import AsOf.Proofs.History.Lookups
import AsOf.Proofs.Tree.Walk
import AsOf.Proofs.Session.Trees
import AsOf.Proofs.CommandLine.Group
