import KeyedSchema.Main
import KeyedSchema.Schema.Run
import KeyedSchema.Script.Document
import KeyedSchema.Workspace
import KeyedSchema.Proofs.Outcome
import KeyedSchema.Proofs.Roster
import KeyedSchema.Proofs.Views
import KeyedSchema.Proofs.Integrity
import KeyedSchema.Proofs.Cycle
import KeyedSchema.Proofs.KeyOrder
import KeyedSchema.Proofs.Lookups
import KeyedSchema.Proofs.Cut
import KeyedSchema.Proofs.Worklist
import KeyedSchema.Proofs.Pruning
import KeyedSchema.Proofs.Accounting
import KeyedSchema.Proofs.Withering
import KeyedSchema.Proofs.Loss
import KeyedSchema.Proofs.Graft
import KeyedSchema.Proofs.Mirror
import KeyedSchema.Proofs.Growing
import KeyedSchema.Proofs.Upkeep
import KeyedSchema.Proofs.Atomicity
import KeyedSchema.Proofs.Edits.Attributes
import KeyedSchema.Proofs.Edits.Columns
import KeyedSchema.Proofs.Registration
import KeyedSchema.Proofs.Edits.Relationships
import KeyedSchema.Proofs.Edits.Tables
import KeyedSchema.Proofs.Edits.CatchUp
import KeyedSchema.Proofs.Edits.Attach
import KeyedSchema.Proofs.Step
import KeyedSchema.Proofs.Refusal
import KeyedSchema.Proofs.Orphans
import KeyedSchema.Proofs.Interruption
import KeyedSchema.Proofs.Acyclicity
import KeyedSchema.Proofs.Spreading
import KeyedSchema.Proofs.Lagging
import KeyedSchema.Proofs.Tending
import KeyedSchema.Proofs.Locking
import KeyedSchema.Proofs.Agreement
import KeyedSchema.Proofs.Bounds
import KeyedSchema.Proofs.Descent
import KeyedSchema.Proofs.Completion
import KeyedSchema.Proofs.Rounds
import KeyedSchema.Proofs.Termination
import KeyedSchema.Proofs.Changes
import KeyedSchema.Proofs.Passing
import KeyedSchema.Proofs.Identity
import KeyedSchema.Proofs.Persistence
import KeyedSchema.Proofs.Replica
import KeyedSchema.Proofs.Effects
import KeyedSchema.Proofs.Backlog
import KeyedSchema.Proofs.Tracking
import KeyedSchema.Session
import KeyedSchema.Proofs.Delivery
import KeyedSchema.Proofs.Shedding
import KeyedSchema.Proofs.Commuting
import KeyedSchema.Bus.Roll
import KeyedSchema.Proofs.Routing
import KeyedSchema.Proofs.Ordering
import KeyedSchema.Proofs.Chaining
import KeyedSchema.Proofs.Nesting
import KeyedSchema.Proofs.Confinement
import KeyedSchema.Proofs.Covering
import KeyedSchema.Proofs.Enclosure
import KeyedSchema.Proofs.Anchoring
import KeyedSchema.Proofs.KeyMembership
import KeyedSchema.Proofs.Switches
import KeyedSchema.Proofs.Restoring
import KeyedSchema.Proofs.Demotion
import KeyedSchema.Proofs.Toggling
import KeyedSchema.Proofs.Attaching
import KeyedSchema.Proofs.Placement
import KeyedSchema.Proofs.Closure
import KeyedSchema.Proofs.Resuming
import KeyedSchema.Proofs.Scripting
import KeyedSchema.Proofs.Sparing
import KeyedSchema.Proofs.Introducing
import KeyedSchema.Proofs.Listing
import KeyedSchema.Proofs.Following
import KeyedSchema.Proofs.Renaming
import KeyedSchema.Proofs.Retyping
import KeyedSchema.Proofs.Normalizing
import KeyedSchema.Proofs.Depiction
import KeyedSchema.Proofs.Searching
import KeyedSchema.Proofs.Synchronizing
import KeyedSchema.Proofs.Foreseeing
import KeyedSchema.Proofs.Connecting
