import Pca9536Driver.Library.Bytes
import Pca9536Driver.Library.Floating
import Pca9536Driver.Library.Numeral
import Pca9536Driver.Library.Printf
import Pca9536Driver.Library.Machine
import Pca9536Driver.Library.Partial
import Pca9536Driver.Library.Assignment
import Pca9536Driver.Library.History
import Pca9536Driver.Library.Cell
import Pca9536Driver.Model.Process
import Pca9536Driver.Model.Conversion
import Pca9536Driver.Model.SimpleTestProtocol
import Pca9536Driver.Model.TestFB
import Pca9536Driver.Interface.Diagnostic
import Pca9536Driver.Interface.Panel
import Pca9536Driver.Interface.Expander
import Pca9536Driver.Interface.Scan
import Pca9536Driver.Interface.Publishing
import Pca9536Driver.Interface.Probing
import Pca9536Driver.Interface.Events
import Pca9536Driver.Interface.Locality
import Pca9536Driver.Interface.Run
import Pca9536Driver.Interface.Plant
import Pca9536Driver.Interface.Host
import Pca9536Driver.Interface.UsbLine
import Pca9536Driver.Interface.Shell
import Pca9536Driver.Interface.Top
import Pca9536Driver.Interface.DiskFree
import Pca9536Driver.Interface.Free
import Pca9536Driver.Interface.Columns
import Pca9536Driver.Analysis.ExecCommand
import Pca9536Driver.Analysis.ConversionSafety
import Pca9536Driver.Analysis.OutputScan
import Pca9536Driver.Analysis.CachedScan
import Pca9536Driver.Analysis.UsbPulse
import Pca9536Driver.Analysis.SharedExpander
import Pca9536Driver.Analysis.BusFailures
import Pca9536Driver.Analysis.StartupSafety
import Pca9536Driver.Analysis.Snapshot
import Pca9536Driver.Analysis.MaskAgreement
import Pca9536Driver.Analysis.DeviceDetection
import Pca9536Driver.Analysis.CpuLoad
import Pca9536Driver.Analysis.MediaFigures
import Pca9536Driver.Analysis.UptimeHours
import Pca9536Driver.Analysis.UnresolvedChannels
import Pca9536Driver.Analysis.Isolation
import Pca9536Driver.Analysis.Lifecycle
import Pca9536Driver.Analysis.PowerLine
import Pca9536Driver.Analysis.ShellCommands
import Pca9536Driver.Analysis.LastWrite
import Pca9536Driver.Analysis.PublishedData
import Pca9536Driver.Analysis.SteadyScans
import Pca9536Driver.Analysis.ChannelOrder
import Pca9536Driver.Analysis.CpuTemperature
import Pca9536Driver.Analysis.MemoryShare
import Pca9536Driver.Analysis.UsePercent
import Pca9536Driver.Analysis.ModemState
import Pca9536Driver.Analysis.ReadingOrder
