import Stegos.Lib.Except
import Stegos.Lib.Run
import Stegos.Lib.TreeMap
import Stegos.Lib.Fresh
import Stegos.Lib.Bits
import Stegos.Crypto
import Stegos.Consensus.State
import Stegos.Consensus.Network
import Stegos.Consensus.Lock
import Stegos.Consensus.Votes
import Stegos.Blockchain.Mvcc
import Stegos.Blockchain.Types
import Stegos.Blockchain.Error
import Stegos.Blockchain.Transaction
import Stegos.Blockchain.Election
import Stegos.Blockchain.Escrow
import Stegos.Blockchain.Chain
import Stegos.Blockchain.Validation
import Stegos.Blockchain.Register
import Stegos.Blockchain.Writes
import Stegos.Blockchain.Mirror
import Stegos.Blockchain.Pop
import Stegos.Blockchain.Step
import Stegos.Blockchain.Stakes
import Stegos.Blockchain.Undo
import Stegos.Blockchain.Epoch
import Stegos.Blockchain.Slashing
import Stegos.Blockchain.Awards
import Stegos.Blockchain.Slots
import Stegos.Blockchain.Merkle
import Stegos.Blockchain.Merkle.Build
import Stegos.Node.Mempool
import Stegos.Node.Service
import Stegos.Node.Replication
import Stegos.Blockchain.Merkle.Prune
import Stegos.Blockchain.Merkle.Serialize
import Stegos.Node.Mempool.Indexes
import Stegos.Lib.Largest
import Stegos.Wallet.Change
import Stegos.Blockchain.Api
import Stegos.Consensus.Multisignature
import Stegos.Consensus.Optimistic
import Stegos.Lib.ArrayVec
import Stegos.Network.KBucket
import Stegos.Network.KBucket.Runs
import Stegos.Network.KBucket.Connected
