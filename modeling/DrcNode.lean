import DrcNode.Net.Recorded
import DrcNode.Net.Quorum
import DrcNode.Chain.Sortition
import DrcNode.Chain.Inflation
import DrcNode.Chain.ScriptRules
import DrcNode.Mining.Template
import DrcNode.Chain.OrphanPool
import DrcNode.Mempool.Waiting
import DrcNode.Mempool.Node
import DrcNode.Script.MultiSig
import DrcNode.Script.SigCache
import DrcNode.Script.SigCoverage
import DrcNode.Script.Builder
import DrcNode.Chain.MedianTime
import DrcNode.Chain.BestState
import DrcNode.Net.Rotation
import DrcNode.Vote.Estimate
import DrcNode.Net.Messages
import DrcNode.Chain.TxIndex
import DrcNode.Chain.DropIndex
import DrcNode.Database.Snapshot
import DrcNode.Addr.Peers
import DrcNode.Bloom.FastReduction
import DrcNode.Bloom.Filter
import DrcNode.Database.Durable
import DrcNode.Database.Treap
import DrcNode.Chain.Commit
import DrcNode.Chain.Disconnect
import DrcNode.Chain.Records
import DrcNode.Btcec.ExtendedKey
import DrcNode.Wire.Canonical
import DrcNode.Chain.HeightRange
