import Octopus.Blockchain.Ancestors
import Octopus.Blockchain.Insertion
import Octopus.Blockchain.Reopening
import Octopus.Blockchain.StoredReceipts
import Octopus.Blockchain.TotalDifficulty
import Octopus.Consensus.AcceptedBatch
import Octopus.Consensus.Beacon
import Octopus.Consensus.Seal
import Octopus.Entity.ForkId
import Octopus.Entity.Signing
import Octopus.Fetcher.Notify
import Octopus.OperationDB.Copy
import Octopus.OperationDB.Persistence
import Octopus.OperationDB.Revert
import Octopus.OperationDB.Slots
import Octopus.P2p.Frame
import Octopus.Rlp.Containment
import Octopus.Rlp.Counting
import Octopus.Rlp.EncReader
import Octopus.Snap.HashRange
import Octopus.Trie.DeriveSha
import Octopus.Trie.Proof
import Octopus.TxPool.Capacity
import Octopus.TxPool.CappedList
import Octopus.TxPool.Scheduler
import Octopus.VM.Panics
import Octopus.VM.ReadOnly
import Octopus.VM.StorageRuns
