import FocalVector.Engine.RangeLookups
import FocalVector.Hnsw.BuiltGraphs
import FocalVector.Hnsw.Selection
import FocalVector.Persistence.AppendFaults
import FocalVector.Persistence.FlushCrash
import FocalVector.Persistence.FlushFaults
import FocalVector.Persistence.FlushFrames
import FocalVector.Persistence.IndexedRuns
import FocalVector.Persistence.Lives
import FocalVector.Persistence.PerfectGraphs
import FocalVector.Persistence.SharedFlush
import FocalVector.Persistence.SegmentSafety
import FocalVector.Persistence.StreamingChecksum
import FocalVector.Persistence.WalCorruption
import FocalVector.Raft.Alteration
import FocalVector.Raft.Cluster
import FocalVector.Raft.ExactlyOnce
import FocalVector.Raft.FilteredSearch
import FocalVector.Raft.Installation
import FocalVector.Raft.JsonForms
import FocalVector.Raft.RecordLimits
import FocalVector.Raft.SearchMemory
import FocalVector.Service.Database
import FocalVector.Service.FilterRequests
import FocalVector.Sharding.SearchRefinement
import FocalVector.Sharding.ShardValidation
