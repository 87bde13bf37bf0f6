import MedvedDB.SetOrder
import MedvedDB.TrlogRuns
import MedvedDB.RowIdentity
import MedvedDB.Completeness
import MedvedDB.ApplyEffect
import MedvedDB.CrashReplay
import MedvedDB.SetRuns
import MedvedDB.Inserts
import MedvedDB.RowLoss
import MedvedDB.RowsetCodec
import MedvedDB.NodeIdentity
import MedvedDB.InsertScan
import MedvedDB.Routes
import MedvedDB.Connection
import MedvedDB.Framing
import MedvedDB.SyncRanges
import MedvedDB.AddFailures
import MedvedDB.CommitRequests
import MedvedDB.SyncRequests
import MedvedDB.BatchLoops
import MedvedDB.EventCounters
import MedvedDB.RowsetAdd
import MedvedDB.ScanSeq
import MedvedDB.SubscribeAll
import MedvedDB.Nodes
import MedvedDB.TopologySnapshot
import MedvedDB.TopologyTables
import MedvedDB.CreateTable
import MedvedDB.Project
import MedvedDB.TablesSlice
import MedvedDB.P2pCodec
import MedvedDB.TopologyTrip
import MedvedDB.VmExpr
import MedvedDB.VectorRuns
import MedvedDB.VmEffects
import MedvedDB.HashRuns
import MedvedDB.Conman
import MedvedDB.Mkdir
import MedvedDB.Dialers
import MedvedDB.Lrucache
import MedvedDB.LowerBound
import MedvedDB.SortedSets
import MedvedDB.Bloom
import MedvedDB.RowBounds
import MedvedDB.SimultaneousDial
import MedvedDB.Jobber
