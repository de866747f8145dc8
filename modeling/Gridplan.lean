import Gridplan.Csv.Frame
import Gridplan.Grid.Rect
import Gridplan.Grid.Sheet
import Gridplan.Proofs.Expr.References
import Gridplan.Proofs.Frame.RowOrder
import Gridplan.Proofs.Grid.Algebra
import Gridplan.Proofs.Grid.Spelling
import Gridplan.Proofs.Lambda.Weaving
import Gridplan.Proofs.Layout.Blind
import Gridplan.Proofs.Layout.Capped
import Gridplan.Proofs.Layout.Conditionals
import Gridplan.Proofs.Layout.Derived
import Gridplan.Proofs.Layout.Lookups
import Gridplan.Proofs.Layout.Numbering
import Gridplan.Proofs.Layout.PivotHeaders
import Gridplan.Proofs.Layout.Precedence
import Gridplan.Proofs.Layout.Printed
import Gridplan.Proofs.Layout.SheetCount
import Gridplan.Proofs.Layout.Snug
import Gridplan.Proofs.Layout.Ties
import Gridplan.Proofs.Local.Replay
import Gridplan.Proofs.Optimize.Identity
import Gridplan.Proofs.Plan.Drawing
import Gridplan.Proofs.Service.Addresses
import Gridplan.Proofs.Service.Retries
import Gridplan.Proofs.Service.Size
import Gridplan.Proofs.Table.Session
import Gridplan.Proofs.Workbook.Acceptance
import Gridplan.Proofs.Workbook.Stuck
import Gridplan.Script.Custom
import Gridplan.Table.Assign
import Gridplan.Table.Trace
import Gridplan.Workbook.ScheduleText
