import EspIdf.Lib.Prog
import EspIdf.Lib.Crc32
import EspIdf.Lib.Nor
import EspIdf.WearLevelling.Flash
import EspIdf.WearLevelling.Mapping
import EspIdf.WearLevelling.Invariant
import EspIdf.WearLevelling.Moves
import EspIdf.WearLevelling.Access
import EspIdf.WearLevelling.Mount
import EspIdf.WearLevelling.Migration
import EspIdf.WearLevelling.Refinement
import EspIdf.WearLevelling.ByteAccess
import EspIdf.WearLevelling.Bounds
import EspIdf.WearLevelling.ExtPerf
import EspIdf.WearLevelling.ExtSafe
import EspIdf.WearLevelling.CrashSafety
import EspIdf.Lib.EnumTable
import EspIdf.Nvs.Types
import EspIdf.Nvs.HashList
import EspIdf.Nvs.Flash
import EspIdf.Nvs.Page
import EspIdf.Nvs.PageManager
import EspIdf.Nvs.Storage
import EspIdf.Nvs.Entries
import EspIdf.Lib.Cipher
import EspIdf.Lib.Confined
import EspIdf.Nvs.Lookups
import EspIdf.Nvs.PageLists
import EspIdf.Nvs.PartitionGen
import EspIdf.Nvs.Space
import EspIdf.Nvs.StringRows
import EspIdf.Ota.Otadata
import EspIdf.Ota.App
import EspIdf.Ota.Bootloader
import EspIdf.Ota.Slots
import EspIdf.Ota.Streaming
import EspIdf.Ota.Reassembly
import EspIdf.Ota.Retry
import EspIdf.Ota.Selection
import EspIdf.Ota.Rollback
import EspIdf.Ota.Confirmation
import EspIdf.Ota.PowerLoss
import EspIdf.Event.Loop
import EspIdf.Event.Registrations
import EspIdf.Event.Tree
import EspIdf.Event.Refinement
import EspIdf.Event.Dispatch
import EspIdf.Event.Pointers
import EspIdf.Vfs.Table
import EspIdf.Vfs.Integrity
import EspIdf.Vfs.Select
import EspIdf.Vfs.Paths
import EspIdf.SpiFlash.Encrypted
import EspIdf.Lib.Signed
import EspIdf.Lib.BitField
import EspIdf.Lib.Utf8
import EspIdf.SpiFlash.Mmap
import EspIdf.SpiFlash.Mappings
import EspIdf.SpiFlash.Translation
import EspIdf.SpiFlash.VerifiedWrite
import EspIdf.SpiFlash.LegacyRead
import EspIdf.SpiFlash.LegacyWrite
import EspIdf.Lib.Deadlines
import EspIdf.EspTimer.Timers
import EspIdf.EspTimer.Runs
import EspIdf.EspTimer.Punctual
import EspIdf.Lib.Ram
import EspIdf.Lib.Ring
import EspIdf.Lib.Links
import EspIdf.Lib.Nodes
import EspIdf.RingBuffer.Buffer
import EspIdf.RingBuffer.Layout
import EspIdf.RingBuffer.Items
import EspIdf.RingBuffer.Steps
import EspIdf.RingBuffer.Sending
import EspIdf.RingBuffer.Queue
import EspIdf.RingBuffer.Held
import EspIdf.RingBuffer.Bytes
import EspIdf.RingBuffer.Fifo
import EspIdf.RingBuffer.Histories
import EspIdf.RingBuffer.InBounds
import EspIdf.RingBuffer.Promises
import EspIdf.RingBuffer.Sizing
import EspIdf.RingBuffer.Acquired
import EspIdf.Lib.OneTime
import EspIdf.Efuse.Registers
import EspIdf.Efuse.Fields
import EspIdf.Efuse.Staging
import EspIdf.Efuse.Coding
import EspIdf.Efuse.Calls
import EspIdf.Efuse.Batch
import EspIdf.Efuse.Reading
import EspIdf.Efuse.RoundTrip
import EspIdf.Efuse.Counting
import EspIdf.Efuse.SecureVersion
import EspIdf.Lib.Md5
import EspIdf.PartitionTable.Generator
import EspIdf.PartitionTable.Loader
import EspIdf.PartitionTable.Agreement
import EspIdf.PartitionTable.Soundness
import EspIdf.Bootloader.LoadAddresses
import EspIdf.Bootloader.ImageFormat
import EspIdf.Bootloader.ImageVerify
import EspIdf.PartitionTable.External
import EspIdf.PartitionTable.Confinement
import EspIdf.Pm.Locks
import EspIdf.Pm.LocksHold
import EspIdf.Pthread.LocalStorage
import EspIdf.Pthread.CondVar
import EspIdf.Pthread.LifeCycle
import EspIdf.Pthread.Owners
import EspIdf.Transport.Websocket
import EspIdf.Transport.Frames
import EspIdf.IntrAlloc.Vectors
import EspIdf.Dhcps.Server
import EspIdf.Dhcps.Leases
import EspIdf.Himem.Banks
import EspIdf.Himem.Consistency
import EspIdf.Ulp.Macros
import EspIdf.Ulp.Resolution
import EspIdf.Ulp.Assembly
import EspIdf.Ulp.Loading
import EspIdf.Ulp.Correctness
import EspIdf.PartitionTable.Binary
import EspIdf.PartitionTable.Text
import EspIdf.PartitionTable.Csv
import EspIdf.PartitionTable.CsvRoundTrip
import EspIdf.Httpd.UriTable
import EspIdf.Console.SplitArgv
import EspIdf.Bootloader.LabelSearch
import EspIdf.Soc.MemoryLayout
import EspIdf.Lib.MinHeap
import EspIdf.Log.LevelCache
import EspIdf.AppTrace.TraceBuffer
import EspIdf.Newlib.Calibration
import EspIdf.Transport.WebsocketSend
import EspIdf.SpiFlash.FlashWrite
import EspIdf.Lib.CStr
import EspIdf.Lib.CNumber
import EspIdf.Httpd.Query
import EspIdf.HttpClient.Header
import EspIdf.HttpClient.Request
import EspIdf.Mdns.Fqdn
import EspIdf.Mdns.Append
import EspIdf.Mdns.Mangle
import EspIdf.Newlib.Adjtime
import EspIdf.Lib.CSource
import EspIdf.EfuseTable.Generator
import EspIdf.EfuseTable.CFile
import EspIdf.EfuseTable.Fields
import EspIdf.EfuseTable.Reading
import EspIdf.EfuseTable.Definitions
import EspIdf.EfuseTable.Ranges
import EspIdf.EfuseTable.Meanings
import EspIdf.EfuseTable.Soundness
import EspIdf.Mdns.Labels
import EspIdf.Mdns.Compress
import EspIdf.Dhcps.Eviction
import EspIdf.Dhcps.Options
import EspIdf.SpiFlash.EraseRegion
import EspIdf.Pthread.TimedWaits
import EspIdf.Pthread.ThreadExit
import EspIdf.IntrAlloc.Choice
