import S5LBox.Arm.Entries
import S5LBox.Arm.Exclusives
import S5LBox.Arm.FastPaths
import S5LBox.Net.OrderlyClose
import S5LBox.Net.Coalescing
import S5LBox.Net.Admission
import S5LBox.Ppp.Rfc1661
import S5LBox.Ppp.Agreement
import S5LBox.Ppp.Replies
import S5LBox.Soc.RunClock
import S5LBox.Soc.TimerTicks
import S5LBox.Soc.ButtonEdges
import S5LBox.Soc.DmaStalls
import S5LBox.Usb.Integrity
import S5LBox.Usb.Transfers
import S5LBox.Firmware.ZipArchives
import S5LBox.Firmware.Base64
import S5LBox.Rootfs.FileRewrites
import S5LBox.Rootfs.CatalogAnswers
import S5LBox.Media.Coherence
import S5LBox.Media.FileBlock
import S5LBox.Rootfs.Allocation
import S5LBox.App.TouchQueue
import S5LBox.App.SnapshotChain
import S5LBox.Jit.MovImm
import S5LBox.App.ResumeCheckpoint
import S5LBox.App.InstanceText
import S5LBox.App.IpaSound
import S5LBox.Tools.GuestPatchApplied
import S5LBox.App.PackageLines
import S5LBox.Tools.Sha256Exact
import S5LBox.Firmware.LzssExact
import S5LBox.Firmware.LoaderSound
import S5LBox.Arm.RamWatchSound
import S5LBox.Arm.RamMapSound
import S5LBox.Firmware.DeviceTreeLookup
import S5LBox.Firmware.Attribution
