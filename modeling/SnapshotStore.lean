import SnapshotStore.Engine
import SnapshotStore.Text.Hex
import SnapshotStore.Proofs.Bytes
import SnapshotStore.Proofs.Key.Stored
import SnapshotStore.Proofs.Key.Spec
import SnapshotStore.Proofs.Key.Codec
import SnapshotStore.Proofs.Key.Buffer
import SnapshotStore.Proofs.Trie.Map
import SnapshotStore.Proofs.Trie.Cursor
import SnapshotStore.Proofs.Trie.Queries
import SnapshotStore.Proofs.Trie.Scan
import SnapshotStore.Proofs.Trie.Dictionary
import SnapshotStore.Proofs.Trie.Paths
import SnapshotStore.Proofs.Ledger
import SnapshotStore.Proofs.Ledger.Forgetting
import SnapshotStore.Proofs.Service.Moves
import SnapshotStore.Proofs.History.Chronicle
import SnapshotStore.Proofs.Service.Reached
import SnapshotStore.Proofs.History.Attests
import SnapshotStore.Proofs.History.Moves
import SnapshotStore.Proofs.History.Store
import SnapshotStore.Proofs.History.Chains
import SnapshotStore.Proofs.History.Concealed
import SnapshotStore.Proofs.History.Prospects
import SnapshotStore.Proofs.Service.TableScans
import SnapshotStore.Proofs.Service.SteadyScans
import SnapshotStore.Proofs.Service.Rollback
import SnapshotStore.Proofs.Service.Doomed
import SnapshotStore.Proofs.Service.Refused
import SnapshotStore.Proofs.Service.Uniqueness
import SnapshotStore.Proofs.Upkeep.Services
import SnapshotStore.Proofs.History.Twins
import SnapshotStore.Proofs.Twins.Peers
import SnapshotStore.Proofs.Table.Outline
import SnapshotStore.Proofs.Twins.Writes
import SnapshotStore.Proofs.Twins.Reads
import SnapshotStore.Proofs.Twins.Operations
import SnapshotStore.Proofs.Twins.Services
import SnapshotStore.Proofs.Twins.ScansInUse
import SnapshotStore.Proofs.Twins.Reclaim
import SnapshotStore.Proofs.Table.Verdict
import SnapshotStore.Proofs.Service.Layouts
import SnapshotStore.Proofs.History.Diary
import SnapshotStore.Proofs.Service.LoneWriter
import SnapshotStore.Proofs.Service.Mirrored
import SnapshotStore.Proofs.Table.Exhausted
import SnapshotStore.Proofs.Store.Reclaiming
import SnapshotStore.Proofs.Engine.Reclaiming
import SnapshotStore.Proofs.Schema
import SnapshotStore.Proofs.Key.Comparing
import SnapshotStore.Proofs.Table.Duplicates
import SnapshotStore.Proofs.Version.Marks
