import Sentinel.Raft.Log
import Sentinel.Raft.Replica
import Sentinel.Raft.Leader
import Sentinel.Raft.Cluster
import Sentinel.Raft.Replication
import Sentinel.Raft.Election
import Sentinel.Raft.Durability
import Sentinel.Raft.Holds
import Sentinel.Raft.Validity
import Sentinel.Raft.Snapshots
import Sentinel.Raft.Bookkeeping
import Sentinel.Raft.Votes
import Sentinel.KV.Server
import Sentinel.Linearizability.Model
import Sentinel.Linearizability.Bitset
import Sentinel.Linearizability.LinkedList
import Sentinel.Linearizability.Search
import Sentinel.Linearizability.Check
import Sentinel.Linearizability.History
import Sentinel.Linearizability.Events
import Sentinel.Linearizability.Checker
import Sentinel.Linearizability.KvModel
import Sentinel.Raft.Commit
import Sentinel.Raft.CatchUp
import Sentinel.KV.Service
import Sentinel.Linearizability.Popcount
import Sentinel.Linearizability.Undo
import Sentinel.KV.Refinement
import Sentinel.KV.Clerks
import Sentinel.KV.Replay
import Sentinel.KV.Replies
import Sentinel.KV.RequestIds
import Sentinel.KV.Maps
import Sentinel.KV.Acks
import Sentinel.KV.Provenance
import Sentinel.KV.Data
import Sentinel.KV.Leaders
