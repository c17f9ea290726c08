import ProbeWindow.Group.Packed
import ProbeWindow.Key
import ProbeWindow.Map.Entry
import ProbeWindow.Set.Algebra
import ProbeWindow.Table.Description
import ProbeWindow.Table.Iteration
import ProbeWindow.Table.Retention
import ProbeWindow.Table.Statistics
import ProbeWindow.Proofs.SlotArray.Cells
import ProbeWindow.Proofs.SlotArray.Lanes
import ProbeWindow.Proofs.SlotArray.Order
import ProbeWindow.Proofs.SlotArray.Placement
import ProbeWindow.Proofs.SlotArray.Closing
import ProbeWindow.Proofs.SlotArray.Search
import ProbeWindow.Proofs.SlotArray.Walk
import ProbeWindow.Proofs.Contents
import ProbeWindow.Proofs.Table.Soundness
import ProbeWindow.Proofs.Table.Growth
import ProbeWindow.Proofs.Table.Reservation
import ProbeWindow.Proofs.Table.Service
import ProbeWindow.Proofs.Table.Insertion
import ProbeWindow.Proofs.Table.Retention
import ProbeWindow.Proofs.Table.Iteration
import ProbeWindow.Proofs.Table.Copy
import ProbeWindow.Proofs.Table.Upkeep
import ProbeWindow.Proofs.Table.Calls
import ProbeWindow.Proofs.Table.Bank
import ProbeWindow.Proofs.Map.Calls
import ProbeWindow.Proofs.Map.Service
import ProbeWindow.Proofs.Map.Refinement
import ProbeWindow.Proofs.Set.Calls
import ProbeWindow.Proofs.Table.Meaning
import ProbeWindow.Proofs.Table.Refinement
import ProbeWindow.Proofs.Set.Refinement
import ProbeWindow.Proofs.GrowthPolicy
import ProbeWindow.Proofs.Invariance
import ProbeWindow.Proofs.Lodging
import ProbeWindow.Proofs.Table.Uniqueness
import ProbeWindow.Proofs.SlotArray.Packing
import ProbeWindow.Proofs.Table.Enlargement
import ProbeWindow.Proofs.Table.Rollback
import ProbeWindow.Proofs.Multiplicity
import ProbeWindow.Proofs.Distinctness
import ProbeWindow.Proofs.Rollback
import ProbeWindow.Proofs.Jamming
import ProbeWindow.Proofs.Canonical
import ProbeWindow.Proofs.SlotArray.Form
import ProbeWindow.Proofs.Checked.Basic
import ProbeWindow.Proofs.Checked.Slots
import ProbeWindow.Proofs.Checked.Shift
import ProbeWindow.Proofs.Checked.Walk
import ProbeWindow.Proofs.Checked.Table
import ProbeWindow.Proofs.Checked.Block
import ProbeWindow.Proofs.Checked.Copy
import ProbeWindow.Proofs.Checked.Whole
import ProbeWindow.Proofs.Checked.Sweep
import ProbeWindow.Proofs.Checked.Growth
import ProbeWindow.Proofs.Checked.Insertion
import ProbeWindow.Proofs.Checked.Calls
import ProbeWindow.Proofs.Checked.Map
import ProbeWindow.Proofs.Checked.Set
import ProbeWindow.Proofs.Checked.Compare
import ProbeWindow.Proofs.Safety
import ProbeWindow.Proofs.Comparison
import ProbeWindow.Proofs.Reordering
import ProbeWindow.Proofs.Equality
import ProbeWindow.Proofs.Table.Frame
import ProbeWindow.Proofs.Frame
import ProbeWindow.Proofs.Table.Climbing
import ProbeWindow.Proofs.Table.Seats
import ProbeWindow.Proofs.Table.Reports
import ProbeWindow.Proofs.Reports
import ProbeWindow.Proofs.LoadFactor
import ProbeWindow.Proofs.Table.Attempts
import ProbeWindow.Proofs.Atomicity
import ProbeWindow.Proofs.SlotArray.Carrying
import ProbeWindow.Proofs.Table.Listing
import ProbeWindow.Proofs.Removals
import ProbeWindow.Proofs.Table.Joining
import ProbeWindow.Proofs.Undoing
import ProbeWindow.Proofs.Table.Relocation
import ProbeWindow.Proofs.Table.Reseating
import ProbeWindow.Proofs.Shrinking
import ProbeWindow.Proofs.Table.Passes
import ProbeWindow.Proofs.Termination
import ProbeWindow.Proofs.Lookup
import ProbeWindow.Proofs.Table.Hashes
import ProbeWindow.Proofs.Table.Headroom
import ProbeWindow.Proofs.Table.Room
import ProbeWindow.Proofs.Room
import ProbeWindow.Proofs.Visits
import ProbeWindow.Proofs.Draining
import ProbeWindow.Proofs.Set.Sifting
import ProbeWindow.Proofs.Algebra
import ProbeWindow.Proofs.Folding
import ProbeWindow.Proofs.Bulk
import ProbeWindow.Proofs.Agreement
import ProbeWindow.Proofs.Table.Securing
import ProbeWindow.Proofs.Secured
import ProbeWindow.Proofs.Capacities
import ProbeWindow.Proofs.Layout
import ProbeWindow.Proofs.Table.Blocks
import ProbeWindow.Proofs.Blocks
import ProbeWindow.Proofs.Scanning
import ProbeWindow.Proofs.Rehashing
import ProbeWindow.Proofs.Register
