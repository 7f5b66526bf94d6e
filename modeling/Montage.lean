import Montage.Export.Sketch
import Montage.Api.Respond
import Montage.Edit.Request
import Montage.Engine.Recording
import Montage.Json.Printer
import Montage.Number.Shortest
import Montage.Catalogue
import Montage.Number.Given
import Montage.Proofs.Rational
import Montage.Proofs.Spacing
import Montage.Proofs.Reading
import Montage.Proofs.Valid
import Montage.Proofs.Edit.Parts
import Montage.Proofs.Edit.Change
import Montage.Proofs.Edit.Steps
import Montage.Proofs.Edit.Links
import Montage.Proofs.Edit.Reachable
import Montage.Proofs.Edit.Fits
import Montage.Proofs.Edit.Sound
import Montage.Proofs.Layout.Lengths
import Montage.Proofs.Export.Compiled
import Montage.Proofs.Layout.Table
import Montage.Proofs.Project.History
import Montage.Proofs.Layout.Fates
import Montage.Proofs.Export.InStep
import Montage.Proofs.Edit.Attached
import Montage.Proofs.Edit.Frame
import Montage.Proofs.Render.Runs
import Montage.Proofs.Engine.Endings
import Montage.Proofs.Export.Outcomes
import Montage.Proofs.Text.Drawn
import Montage.Proofs.Edit.Overlays
import Montage.Proofs.Export.Clock
import Montage.Proofs.Export.Leaves
import Montage.Proofs.Export.Detached
import Montage.Proofs.Edit.Locks
import Montage.Proofs.Render.Snapshots
import Montage.Proofs.Api.Refusals
import Montage.Proofs.Api.Undoing
import Montage.Proofs.Resolving
import Montage.Proofs.Edit.Reread
import Montage.Proofs.Layout.Drift
import Montage.Proofs.Export.Splitting
import Montage.Proofs.Edit.Cutting
import Montage.Proofs.Edit.Dragging
import Montage.Proofs.FirstFree
import Montage.Proofs.Edit.Dropping
import Montage.Proofs.Api.Drags
import Montage.Proofs.Snapping
import Montage.Proofs.Layout.Gaps
import Montage.Proofs.Edit.Repairing
import Montage.Proofs.Edit.Repeating
import Montage.Proofs.Export.Fading
import Montage.Proofs.Export.Accounted
import Montage.Proofs.Engine.Reports
import Montage.Proofs.Export.Levelled
import Montage.Proofs.Text.Compact
