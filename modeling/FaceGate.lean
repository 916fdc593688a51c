import FaceGate.Core.Base64
import FaceGate.Core.JsonText
import FaceGate.L5System.Session
import FaceGate.L5System.Provenance
import FaceGate.L3Edge.CameraLoop
import FaceGate.L3Edge.Collapse
import FaceGate.L3Edge.OpenWindows
import FaceGate.L3Edge.AuxiliaryLoop
import FaceGate.L3Edge.Backlog
import FaceGate.L3Edge.Shutdown
import FaceGate.L5System.EventDelivery
import FaceGate.L4Backend.Ingest
import FaceGate.L3Edge.OfflineQueue
import FaceGate.L5System.Catalogue
import FaceGate.L5System.EnrollDelete
import FaceGate.L1Domain.LoadConfig
import FaceGate.L5System.EventRow
import FaceGate.L4Backend.Employees
import FaceGate.L3Edge.Enroll
import FaceGate.L3Edge.EnrollRun
import FaceGate.L5System.Alignment
import FaceGate.L5System.FaceAngle
import FaceGate.L4Backend.Events
import FaceGate.L4Panel.EventsPage
import FaceGate.L4Panel.EnrollmentWizard
import FaceGate.L3Edge.Redelivery
import FaceGate.L4Backend.NightShift
import FaceGate.L4Backend.AuditHistory
import FaceGate.L4Backend.Dashboard
import FaceGate.L3Edge.QueueOrder
import FaceGate.L3Edge.Stabilization
import FaceGate.L2Device.GrantTiming
import FaceGate.L2Device.LedChannels
import FaceGate.L3Edge.StageProfiler
import FaceGate.L5System.EmployeeEdit
import FaceGate.L4Panel.DashboardExport
import FaceGate.L4Panel.CsvExport
import FaceGate.L4Panel.Unknowns
import FaceGate.L3Edge.MetricsCsv
import FaceGate.L4Backend.Token
import FaceGate.Core.Lines
import FaceGate.L3Edge.EnrollScale
import FaceGate.L3Edge.Eval
import FaceGate.L5System.DecisionTrail
