import HexaOS.HexafsBootPolicy
import HexaOS.HexafsCaps
import HexaOS.HexafsTransactions
import HexaOS.HexafsCache
import HexaOS.HexafsEntryRuns
import HexaOS.KernelAccess
import HexaOS.KheapRuns
import HexaOS.ShellRules
import HexaOS.InterruptStubs
import HexaOS.ProcessCounts
import HexaOS.ProcessFamilies
import HexaOS.TaskSwitch
import HexaOS.FormContents
import HexaOS.FormNaming
import HexaOS.EventQueues
import HexaOS.RunningTask
import HexaOS.PipeRuns
import HexaOS.HexafsObjectReads
import HexaOS.HexafsObjectRuns
import HexaOS.ElfBounds
import HexaOS.ExecPrograms
import HexaOS.FrameAllocation
import HexaOS.KheapSizes
import HexaOS.HexafsBlockRuns
import HexaOS.UserMappings
import HexaOS.FrameConservation
import HexaOS.ScheduleRotation
import HexaOS.TypedPipes
import HexaOS.PipeCreation
import HexaOS.EventPolling
import HexaOS.IntentDescriptors
import HexaOS.IntentProductions
import HexaOS.VfsRefinement
import HexaOS.CorruptedRecords
import HexaOS.HexafsContentBlocks
import HexaOS.HexafsLinkWalks
import HexaOS.RuleMaps
import HexaOS.Loopback
import HexaOS.UserRecords
import HexaOS.Passwords
import HexaOS.Listings
import HexaOS.ShownNumbers
import HexaOS.LineEditor
import HexaOS.Keyboard
import HexaOS.PackageRemoval
import HexaOS.WrappedBinaries
import HexaOS.KernelLog
import HexaOS.NumberBuffers
import HexaOS.CorruptedObjects
import HexaOS.SnapshotChains
import HexaOS.MountReads
import HexaOS.SaveLimits
import HexaOS.SnapshotHistory
import HexaOS.HexafsExhaustion
import HexaOS.PowerCycles
import HexaOS.ForeignForms
import HexaOS.Synchronization
import HexaOS.PrintedText
import HexaOS.PrioritySchedule
import HexaOS.AccountGuards
import HexaOS.EditedLines
import HexaOS.Timeline
import HexaOS.AtaDrives
import HexaOS.DiskDriver
import HexaOS.BootSector
