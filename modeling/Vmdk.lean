import Vmdk.Lib.Word
import Vmdk.Lib.Memo
import Vmdk.Lib.Machine
import Vmdk.Lib.Device
import Vmdk.Lib.Path
import Vmdk.Lib.Blocks
import Vmdk.Lib.Overlay
import Vmdk.Lib.Intervals
import Vmdk.Lib.Checked
import Vmdk.Lib.Copy
import Vmdk.Lib.Seek
import Vmdk.Header
import Vmdk.Encode
import Vmdk.Descriptor
import Vmdk.DiskDatabase
import Vmdk.SparseMulti
import Vmdk.Reader
import Vmdk.Alloc
import Vmdk.OpenCases
import Vmdk.Chain
import Vmdk.ReadAt
import Vmdk.Bytewise
import Vmdk.Stream
import Vmdk.ChainSound
import Vmdk.Content
import Vmdk.Refinement
import Vmdk.RecoverySound
import Vmdk.RecoveryExact
import Vmdk.Forensic
import Vmdk.Integrity
import Vmdk.Triage
import Vmdk.AllocSound
import Vmdk.AllocQuery
import Vmdk.RecoveryCount
import Vmdk.Dump
import Vmdk.IntegritySound
import Vmdk.Reports
import Vmdk.VerifySound
import Vmdk.SparseMultiSound
import Vmdk.Diff
import Vmdk.Vfs
import Vmdk.Companions
import Vmdk.ChainOpen
import Vmdk.SeekExact
import Vmdk.ChainOverlay
import Vmdk.FallThrough
import Vmdk.Metadata
import Vmdk.Confinement
import Vmdk.ExtentBytes
import Vmdk.ExtentLines
import Vmdk.Composed
import Vmdk.Truncation
import Vmdk.FlatSound
import Vmdk.Geometry
import Vmdk.ExtentArithmetic
import Vmdk.SesparseArithmetic
import Vmdk.Info
import Vmdk.DescriptorText
import Vmdk.HexText
import Vmdk.Examine
import Vmdk.Cache
import Vmdk.CraftedGrains
