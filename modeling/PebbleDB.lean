import PebbleDB.Lib.Computation
import PebbleDB.Lib.Framing
import PebbleDB.Lib.Machine
import PebbleDB.Lib.SortedMap
import PebbleDB.Lib.SkipHeap
import PebbleDB.Bytes
import PebbleDB.Hash
import PebbleDB.Wal.Record
import PebbleDB.Wal.Replay
import PebbleDB.Wal.Append
import PebbleDB.Wal.Truncate
import PebbleDB.Manifest.Format
import PebbleDB.Manifest.Log
import PebbleDB.Manifest.Faults
import PebbleDB.Memtable
import PebbleDB.Db.Batch
import PebbleDB.Db.Checkpoint
import PebbleDB.Db.Compaction
import PebbleDB.Db.Flush
import PebbleDB.Db.GroupCommit
import PebbleDB.Db.Interleaving
import PebbleDB.Db.Node
import PebbleDB.Db.Open
import PebbleDB.Db.Store
import PebbleDB.Db.WalCoverage
import PebbleDB.Db.WalState
import PebbleDB.Iterator.Merge
import PebbleDB.Lib.Lists
import PebbleDB.Lib.Search
import PebbleDB.Manifest.Intact
import PebbleDB.Sst.Block
import PebbleDB.Sst.Bloom
import PebbleDB.Sst.Format
import PebbleDB.Sst.Iterator
import PebbleDB.Sst.Merge
import PebbleDB.Sst.Reader
import PebbleDB.Sst.Writer
import PebbleDB.Wal.Content
import PebbleDB.Wal.Torn
import PebbleDB.Db.CommitOrder
import PebbleDB.Db.Durability
import PebbleDB.Db.Refusal
import PebbleDB.Db.SearchOrder
import PebbleDB.Lib.Crash
import PebbleDB.Manifest.Crash
import PebbleDB.Db.TableSteps
import PebbleDB.Db.LiveFiles
import PebbleDB.Iterator.Faults
import PebbleDB.Sst.ReadFaults
import PebbleDB.Db.ReadErrors
import PebbleDB.Iterator.MergeIterator
import PebbleDB.Sst.Seek
import PebbleDB.Db.Scan
import PebbleDB.Db.SortedView
import PebbleDB.Db.WalSize
import PebbleDB.Sst.RoundTrip
import PebbleDB.Db.FullReplay
import PebbleDB.Lib.Pool
import PebbleDB.Sst.References
import PebbleDB.Db.Pins
import PebbleDB.Db.Requests
import PebbleDB.Db.Engine
import PebbleDB.Db.FreezeCutoff
import PebbleDB.Db.ChannelUse
import PebbleDB.Db.DirLock
import PebbleDB.Db.CleanClose
import PebbleDB.Db.Orphans
import PebbleDB.Lib.Lru
import PebbleDB.Sst.Cache
import PebbleDB.Sst.Sections
import PebbleDB.Sst.CachedReads
import PebbleDB.Memtable.History
import PebbleDB.Iterator.MergeOutput
import PebbleDB.Wal.Recovery
import PebbleDB.Wal.TruncateSteps
import PebbleDB.Manifest.ReplayFile
import PebbleDB.Db.BatchViews
import PebbleDB.Db.CompactorLoop
import PebbleDB.Acceptance.Report
import PebbleDB.Acceptance.Resources
import PebbleDB.Acceptance.ScanVerifiers
import PebbleDB.Acceptance.ModuleOrder
import PebbleDB.Acceptance.Verdict
import PebbleDB.Acceptance.Campaign
import PebbleDB.Db.Quarantine
import PebbleDB.Db.ScanSeek
import PebbleDB.Acceptance.PrefixScan
import PebbleDB.Manifest.Bounds
import PebbleDB.Wal.Limits
import PebbleDB.Sst.Parsing
import PebbleDB.Db.FileNames
import PebbleDB.Sst.AddOrder
import PebbleDB.Acceptance.EventBus
import PebbleDB.Db.History
