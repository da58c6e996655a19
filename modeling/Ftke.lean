import Ftke.Base64
import Ftke.Base64.Loops
import Ftke.Base64.RoundTrip
import Ftke.BinStream
import Ftke.BinStream.Refine
import Ftke.BinStream.Runs
import Ftke.HalfRange
import Ftke.Heap
import Ftke.JitterBuffer
import Ftke.Links
import Ftke.MediaClock
import Ftke.Memory
import Ftke.Order
import Ftke.PriQueue
import Ftke.PriQueue.Runs
import Ftke.PriQueue.Sound
import Ftke.Queue
import Ftke.Reorder
import Ftke.Run
import Ftke.Scheduler
import Ftke.Scheduler.ReadyQ
import Ftke.Scheduler.Timers
import Ftke.BitStream
import Ftke.BitStream.Reads
import Ftke.BitStream.Runs
import Ftke.MediaData
import Ftke.Crc
import Ftke.AdaptationLayer
import Ftke.AdaptationLayer.Parse
import Ftke.AdaptationLayer.Runs
import Ftke.Srp
import Ftke.Srp.Pending
import Ftke.Srp.Sender
import Ftke.Srp.Endpoint
import Ftke.Srp.Timers
import Ftke.Multiplex
import Ftke.Multiplex.Expansion
import Ftke.Multiplex.Distribute
import Ftke.BitFields
import Ftke.GenericPer
import Ftke.GenericPer.Streams
import Ftke.Words
import Ftke.MultiplexTable
import Ftke.KeyValueStore
import Ftke.KeyValueStore.Lookup
import Ftke.KeyValueStore.Runs
import Ftke.Tiling
import Ftke.VariableSizeMemPool
import Ftke.VariableSizeMemPool.Runs
import Ftke.HttpParser
import Ftke.HttpParser.NormalContent
import Ftke.Overwrite
import Ftke.LatmParser
import Ftke.LatmParser.Compose
import Ftke.RtspParser
import Ftke.RtspParser.Fill
import Ftke.RtspParser.Runs
import Ftke.RtspParser.Stream
import Ftke.PvmfMediaClock
import Ftke.PvmfMediaClock.Continuity
import Ftke.Dataflow
import Ftke.CodeGen.Bitset
import Ftke.CodeGen.Instruction
import Ftke.CodeGen.Liveness
import Ftke.DoubleList
import Ftke.FunctionCache
import Ftke.FunctionCache.Layout
import Ftke.Transfer
import Ftke.PvmfPort
import Ftke.PvmfPort.Queues
import Ftke.PvmfPort.Delivery
import Ftke.PvmfPort.Wakeup
import Ftke.PvmfSyncUtil
import Ftke.PvmfSyncUtil.HandOut
import Ftke.RunLength
import Ftke.Mp4SampleTable
import Ftke.Mp4SampleTable.Chunks
import Ftke.Mp4SampleTable.Position
import Ftke.Mp4SampleTable.Get
import Ftke.Mp4SampleTable.Shortage
import Ftke.Mp4SampleTable.Peek
import Ftke.Mp4SampleTable.Seek
import Ftke.Mp4SampleTable.Times
import Ftke.Mp4SampleTable.Runs
import Ftke.StringUtils
import Ftke.PrefixCode
import Ftke.Utf8
import Ftke.StringUtf8
import Ftke.Utf8Conv
import Ftke.RtpJitterBuffer
import Ftke.RtpJitterBuffer.Vote
import Ftke.RtpJitterBuffer.Late
import Ftke.ResizableMemPool
import Ftke.ResizableMemPool.FreeList
import Ftke.ResizableMemPool.Blocks
import Ftke.ResizableMemPool.Resize
import Ftke.ResizableMemPool.Buffers
import Ftke.ResizableMemPool.Runs
import Ftke.ResizableMemPool.Wrap
import Ftke.RtpJitterBuffer.Purge
import Ftke.GenDataStructures.HashTable
import Ftke.Level1PduParcom
import Ftke.Level1PduParcom.Delivery
import Ftke.Level2PduParcom.Corruption
import Ftke.Level2PduParcom.Delivery
import Ftke.Level0PduParcom.Frames
import Ftke.Level0PduParcom.Transmit
import Ftke.Level0PduParcom.Delivery
import Ftke.SduDataLists
import Ftke.Srp.Bounds
import Ftke.MultiplexEntry.Carried
import Ftke.OutgoingChannel.Flow
import Ftke.MuxPdus.Budget
import Ftke.MemoryBuffer.Integrity
import Ftke.AccessUnit
import Ftke.LinkedList.Traversal
import Ftke.StringUri
import Ftke.GenericPer.Bounds
import Ftke.Srp.Sendings
import Ftke.Srp.Retries
import Ftke.Srp.Messages
import Ftke.HttpParser.Fields
import Ftke.KeyValueStore.Copy
import Ftke.KeyValueStore.Lengths
import Ftke.HttpComposer.Exact
import Ftke.HttpHeaderStore.Growth
import Ftke.H264PayloadParser.Counter
import Ftke.H264PayloadParser.Aggregation
import Ftke.H264PayloadParser.Fragmentation
import Ftke.RFC3640PayloadParser.Headers
import Ftke.LatmParser.Raw
import Ftke.LatmParser.Accesses
import Ftke.RtspParser.Continuations
import Ftke.PvmfMediaClock.Units
import Ftke.PvmfMediaClock.Interfaces
import Ftke.PvmfSyncUtil.Window
import Ftke.H264PayloadParser.Interleaved
import Ftke.Fixed.Inverse
import Ftke.Fixed.Sine
import Ftke.FunctionCache.Compaction
import Ftke.Mp4SampleTable.TimeLookup
import Ftke.SampleToChunk.Lookup
import Ftke.Probe
import Ftke.TableWindow
import Ftke.TimeToSample
import Ftke.ChunkOffset
import Ftke.CompositionOffset
import Ftke.CompositionOffset.OnDemand
import Ftke.SampleSize
import Ftke.CompositionOffset.MarkerTable
import Ftke.SampleToChunk.OnDemand
import Ftke.SampleToChunk.Termination
import Ftke.SyncSample
import Ftke.CodeGen.Segment
import Ftke.CodeGen.Emit
import Ftke.MemoryBuffer.Spread
import Ftke.MemoryBuffer.Eviction
import Ftke.MemoryBuffer.Records
import Ftke.LineClipper
