import Azurefin.Lib.Act
import Azurefin.Lib.Prog
import Azurefin.Lib.Trace
import Azurefin.Lib.Flock
import Azurefin.Lib.Fs
import Azurefin.Lib.FsTree
import Azurefin.Lib.Durable
import Azurefin.Lib.Syscall
import Azurefin.Lib.Parents
import Azurefin.Lib.Digest
import Azurefin.Lib.Python
import Azurefin.Lib.Shell
import Azurefin.Lib.Binary
import Azurefin.Lib.Budget
import Azurefin.Lib.Decimal
import Azurefin.Lib.Words
import Azurefin.Lib.Calls
import Azurefin.Lib.TextFile
import Azurefin.Lib.Indexed
import Azurefin.Lib.Lines
import Azurefin.Lib.Octal
import Azurefin.Lib.Worklist
import Azurefin.Lib.Integer
import Azurefin.Firmware.Policy
import Azurefin.Firmware.Inventory
import Azurefin.Firmware.Provision
import Azurefin.Firmware.Publication
import Azurefin.Firmware.Store
import Azurefin.Firmware.CrashSafety
import Azurefin.Firmware.Success
import Azurefin.Firmware.Preflight
import Azurefin.Firmware.Setup
import Azurefin.Firmware.SetupCrash
import Azurefin.Firmware.SetupMain
import Azurefin.Firmware.ManifestText
import Azurefin.Firmware.Canonical
import Azurefin.Firmware.SameSources
import Azurefin.Firmware.Loader
import Azurefin.Firmware.LoaderSteps
import Azurefin.Firmware.Exposure
import Azurefin.Firmware.Acceptance
import Azurefin.Firmware.BootArgument
import Azurefin.Update.Preflight
import Azurefin.Update.Deployments
import Azurefin.Update.Channel
import Azurefin.Update.Exclusion
import Azurefin.Bluetooth.Address
import Azurefin.Bluetooth.Format
import Azurefin.Bluetooth.Confinement
import Azurefin.Bluetooth.Image
import Azurefin.Bluetooth.WellFormed
import Azurefin.Bluetooth.Layout
import Azurefin.Bluetooth.Storage
import Azurefin.Bluetooth.Detect
import Azurefin.Bluetooth.NoTrace
import Azurefin.Update.Promotion
import Azurefin.Update.SignedUpdate
import Azurefin.Update.Versions
import Azurefin.Release.Tag
import Azurefin.Release.Audit
import Azurefin.Release.Forbidden
import Azurefin.Release.AuditModes
import Azurefin.Release.AuditImage
import Azurefin.Release.Finalize
import Azurefin.Release.Resume
import Azurefin.Release.Assemble
import Azurefin.Installer.Workspace
import Azurefin.Installer.Trees
import Azurefin.Installer.Mountinfo
import Azurefin.Installer.Fstab
import Azurefin.Installer.FstabAgain
import Azurefin.Installer.FstabHome
import Azurefin.Installer.FstabOrder
import Azurefin.Installer.FstabBackup
import Azurefin.Installer.Kickstart
import Azurefin.Installer.GrubRefusals
import Azurefin.Installer.GrubPasses
import Azurefin.Installer.AuditedBoot
import Azurefin.Installer.Prepare
import Azurefin.Installer.Handoff
import Azurefin.Installer.Payload
import Azurefin.Installer.PayloadReady
import Azurefin.Diagnostics.Capture
import Azurefin.Diagnostics.CaptureRuns
import Azurefin.Lib.BitMask
import Azurefin.Parking.Module
import Azurefin.Parking.Sample
import Azurefin.Parking.Restored
import Azurefin.Parking.Floor
import Azurefin.Parking.Ticks
