import Klomang.Lib.Bytes
import Klomang.Lib.Memo
import Klomang.Lib.FiniteMap
import Klomang.Lib.Ascending
import Klomang.Lib.Traversal
import Klomang.Lib.TopologicalOrder
import Klomang.Lib.Runs
import Klomang.Lib.Chunks
import Klomang.Crypto.Hash
import Klomang.Errors
import Klomang.State.Transaction
import Klomang.Crypto.Schnorr
import Klomang.Crypto.Sighash
import Klomang.Crypto.PolynomialCommitment
import Klomang.State.Storage
import Klomang.Consensus.EconomicConstants
import Klomang.State.VTrie
import Klomang.State.VTrieRoots
import Klomang.State.VTrieContents
import Klomang.Lib.Enumeration
import Klomang.Dag.Basic
import Klomang.Consensus.GhostDag
import Klomang.Dag.Shape
import Klomang.Consensus.Colouring
import Klomang.Consensus.Submission
import Klomang.Consensus.Arrival
import Klomang.Consensus.Agreement
import Klomang.State.Utxo
import Klomang.Pow.Hash
import Klomang.Consensus.Validation
import Klomang.Sample
import Klomang.Consensus.Ownership
import Klomang.Lib.Ledger
import Klomang.StateManager.Basic
import Klomang.Vm.GasMeter
import Klomang.Vm.Executor
import Klomang.StateManager.Apply
import Klomang.StateManager.Restore
import Klomang.StateManager.Moves
import Klomang.StateManager.Blocks
import Klomang.StateManager.Outcomes
import Klomang.StateManager.Calls
import Klomang.StateManager.Heights
import Klomang.StateManager.Sample
import Klomang.StateManager.Atomicity
import Klomang.StateManager.Snapshots
import Klomang.StateManager.Supply
import Klomang.StateManager.Accounting
import Klomang.StateManager.VerkleSync
import Klomang.StateManager.Conservation
import Klomang.Lib.Edits
import Klomang.StateManager.Indices
import Klomang.Lib.Greedy
import Klomang.State.AccessSet
import Klomang.Scheduler.Parallel
import Klomang.State.VTrieCaches
import Klomang.StateManager.Simulation
import Klomang.StateManager.Caches
import Klomang.Scheduler.Grouping
import Klomang.Scheduler.Execution
import Klomang.Scheduler.Commutation
import Klomang.Lib.Cluster
import Klomang.Consensus.Processing
import Klomang.Consensus.Tracking
import Klomang.Consensus.Clusters
import Klomang.Consensus.Ordering
import Klomang.StateManager.Spending
import Klomang.Dag.Changes
import Klomang.Dag.Tips
import Klomang.Dag.Removal
import Klomang.Dag.Partition
import Klomang.Consensus.Reorganisation
import Klomang.Consensus.Finality
import Klomang.Lib.Openings
import Klomang.State.VTrieProof
import Klomang.State.VTrieOpenings
import Klomang.State.VTrieRuns
import Klomang.State.VTrieBinding
import Klomang.State.VTriePruning
import Klomang.State.VTrieTombstones
import Klomang.State.VTrieAncestors
import Klomang.Lib.Schedule
import Klomang.State.UtxoApply
import Klomang.Consensus.Emission
import Klomang.Consensus.Reward
import Klomang.Consensus.Fees
import Klomang.Lib.Coefficients
import Klomang.Crypto.Opening
import Klomang.Crypto.OpeningProofs
import Klomang.Crypto.VerkleTree
import Klomang.Crypto.VerkleStanding
import Klomang.Crypto.VerkleCoherence
import Klomang.Crypto.VerkleProofs
import Klomang.Crypto.VerkleRuns
import Klomang.Crypto.VerklePruning
import Klomang.Crypto.VerkleWeights
import Klomang.Crypto.VerkleValues
import Klomang.Crypto.VerkleLingering
import Klomang.Crypto.VerkleAttestation
import Klomang.Crypto.UtxoRoot
import Klomang.Scheduler.Rounds
import Klomang.Lib.FirstFit
import Klomang.Scheduler.Precedence
import Klomang.Consensus.MerkleRoot
import Klomang.Pow.Miner
import Klomang.Consensus.ProofOfWork
import Klomang.Consensus.TransactionIds
import Klomang.State.UtxoEdits
import Klomang.Consensus.BurnBan
import Klomang.State.Blockchain
import Klomang.State.BlockchainUndo
import Klomang.State.BlockchainAtomicity
import Klomang.State.BlockchainWhole
import Klomang.State.BlockchainRuns
import Klomang.StateManager.TwoLedgers
import Klomang.StateManager.LedgerRuns
import Klomang.StateManager.HostCalls
import Klomang.StateManager.SupplyLeaf
import Klomang.Consensus.Sorting
import Klomang.Consensus.Fixpoint
import Klomang.Lib.Pointers
import Klomang.Consensus.VirtualBlock
import Klomang.State.VTrieErasure
import Klomang.Crypto.VerkleTombstones
import Klomang.Crypto.OpeningChecks
import Klomang.Consensus.EmissionTable
import Klomang.Consensus.Coinbase
import Klomang.Consensus.Issuance
import Klomang.State.UtxoExact
import Klomang.Consensus.RewardSplit
import Klomang.Vm.GasBooks
import Klomang.Vm.Metering
import Klomang.StateManager.GasFees
import Klomang.State.VTrieTransition
import Klomang.StateManager.PruningCycle
import Klomang.Pow.Binding
import Klomang.Crypto.BlockSignature
import Klomang.State.PayloadScan
import Klomang.State.UtxoRevert
import Klomang.Lib.Rounding
import Klomang.Consensus.Delivery
import Klomang.Daa.Difficulty
import Klomang.Daa.Newest
import Klomang.Pow.Retarget
import Klomang.StateManager.Replicas
import Klomang.StateManager.Forks
import Klomang.Lib.Pacing
import Klomang.Consensus.AdaptiveK
import Klomang.StateManager.Audits
import Klomang.Scheduler.Width
import Klomang.Consensus.Signing
import Klomang.Consensus.Depth
import Klomang.StateManager.LightClients
