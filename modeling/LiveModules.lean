import LiveModules.Action
import LiveModules.Command
import LiveModules.Config
import LiveModules.Decimal.Digits
import LiveModules.Decimal.Layout
import LiveModules.Error
import LiveModules.Event
import LiveModules.Files.Name
import LiveModules.Files.Time
import LiveModules.Files.Tree
import LiveModules.Game.Basic
import LiveModules.Game.Item
import LiveModules.Json.Decode
import LiveModules.Json.Draft
import LiveModules.Json.Fault
import LiveModules.Json.Scan
import LiveModules.Json.Skip
import LiveModules.Json.Value
import LiveModules.Json.Writer
import LiveModules.Main
import LiveModules.ModuleName
import LiveModules.Notice
import LiveModules.Options
import LiveModules.Proofs.ArtifactFiles
import LiveModules.Proofs.Asking
import LiveModules.Proofs.Backing
import LiveModules.Proofs.Brackets
import LiveModules.Proofs.ByteOrder
import LiveModules.Proofs.Deliveries
import LiveModules.Proofs.Disks
import LiveModules.Proofs.Drives
import LiveModules.Proofs.Ending
import LiveModules.Proofs.ErrorFiles
import LiveModules.Proofs.FailOnce
import LiveModules.Proofs.FanOut
import LiveModules.Proofs.Firing
import LiveModules.Proofs.Flags
import LiveModules.Proofs.Forms
import LiveModules.Proofs.Licence
import LiveModules.Proofs.Moves
import LiveModules.Proofs.Ownership
import LiveModules.Proofs.Perform
import LiveModules.Proofs.Places
import LiveModules.Proofs.Records
import LiveModules.Proofs.Reloads
import LiveModules.Proofs.Rescans
import LiveModules.Proofs.Roster
import LiveModules.Proofs.Runs
import LiveModules.Proofs.Sightings
import LiveModules.Proofs.Spans
import LiveModules.Proofs.Strides
import LiveModules.Proofs.Surfaces
import LiveModules.Proofs.Table
import LiveModules.Proofs.Timers
import LiveModules.Proofs.Turns
import LiveModules.Proofs.Walks
import LiveModules.Proofs.Wiring
import LiveModules.Roster
import LiveModules.Script.Arguments
import LiveModules.Script.Bytes
import LiveModules.Script.Capability
import LiveModules.Script.Counter
import LiveModules.Script.Engine
import LiveModules.Script.Exchange
import LiveModules.Script.Grammar
import LiveModules.Script.Lexeme
import LiveModules.Script.Library.All
import LiveModules.Script.Library.Arithmetic
import LiveModules.Script.Library.Base
import LiveModules.Script.Library.Format
import LiveModules.Script.Library.Lists
import LiveModules.Script.Library.Text
import LiveModules.Script.Machine.Basic
import LiveModules.Script.Machine.Calls
import LiveModules.Script.Machine.Evaluation
import LiveModules.Script.Machine.Step
import LiveModules.Script.Number
import LiveModules.Script.Operators
import LiveModules.Script.Sandbox
import LiveModules.Script.Syntax
import LiveModules.Script.Value
import LiveModules.Script.Watchdog
import LiveModules.Site.Artifacts
import LiveModules.Site.Loop
import LiveModules.Site.Scan
import LiveModules.Spawns
import LiveModules.Table
import LiveModules.Text.Blank
import LiveModules.Text.Quoted
import LiveModules.Text.Utf8
import LiveModules.Timers
import LiveModules.World.Basic
import LiveModules.World.Parts
import LiveModules.World.Perform
import LiveModules.World.Registry
import LiveModules.Proofs.Loads
import LiveModules.Proofs.Leaves
import LiveModules.Proofs.Fresh
import LiveModules.Proofs.Isolation
import LiveModules.Proofs.Renumbering
import LiveModules.Proofs.Overwrites
import LiveModules.Proofs.Repetition
import LiveModules.Proofs.Independence
import LiveModules.Proofs.Faults
import LiveModules.Proofs.Lockstep
import LiveModules.Proofs.Confinement
import LiveModules.Proofs.Schedule
import LiveModules.Proofs.Noninterference
import LiveModules.Proofs.Restocking
import LiveModules.Proofs.Updates
import LiveModules.Proofs.RuleHistory
import LiveModules.Proofs.Cadence
import LiveModules.Proofs.Tidiness
import LiveModules.Proofs.Relisting
import LiveModules.Proofs.Depth
import LiveModules.Proofs.Dispatches
import LiveModules.Proofs.Channels
import LiveModules.Proofs.Emissions
import LiveModules.Proofs.Tellings
import LiveModules.Proofs.CommandLines
import LiveModules.Proofs.Findings
import LiveModules.Proofs.Absences
import LiveModules.Proofs.Exits
import LiveModules.Proofs.Encoding
import LiveModules.Proofs.Frames
import LiveModules.Proofs.Globals
import LiveModules.Proofs.Capabilities
import LiveModules.Proofs.Grants
import LiveModules.Proofs.Silence
import LiveModules.Proofs.LogFiles
import LiveModules.Proofs.SpawnChecks
import LiveModules.Proofs.Merging
import LiveModules.Proofs.Readings
import LiveModules.Proofs.Scalars
import LiveModules.Proofs.Rereading
import LiveModules.Proofs.Drafts
import LiveModules.Proofs.WrittenForms
import LiveModules.Proofs.Durations
import LiveModules.Proofs.Eligibility
import LiveModules.Proofs.Inboxes
import LiveModules.Proofs.Guards
