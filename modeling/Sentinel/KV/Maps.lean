import Sentinel.KV.RequestIds
import Sentinel.Raft.Snapshots

/-! What the maps of `raftkv` can hold. `Run` changes a server's maps only by `applyOp` on the
command of a message its replica sent on the apply channel, which is an op a clerk sent, and by
decoding the maps of a snapshot message into its own; `CreateSnapshot` is given only maps `Run`
queued, and the Raft layer moves a snapshot only between a persister, an `InstallSnapshot` call
and the apply channel. So a property of maps that `StartKVServer`'s empty maps have, that
`applyOp` of a sent op keeps and that decoding one such map into another keeps holds of every
server's maps, of the maps `Run` queued for `CreateSnapshot` and of every snapshot of the
cluster, across every interleaving and crash. -/

namespace Sentinel.RaftKV

open Linearizability

/-- A property of maps, over the ops clerks sent, that empty maps have, that `applyOp` of a sent
op keeps, that decoding a snapshot's maps into the maps keeps, and that more sent ops keep. -/
structure KVServer.Closed (F : List Op → KVServer → Prop) : Prop where
  empty : ∀ ops, F ops KVServer.empty
  applyOp : ∀ ops kv op, F ops kv → op ∈ ops → F ops (kv.applyOp op).1
  load : ∀ ops kv snapshot, F ops kv → F ops snapshot → F ops (kv.load snapshot)
  mono : ∀ ops ops' kv, F ops kv → (∀ op ∈ ops, op ∈ ops') → F ops' kv

namespace Service

variable {s s' : Service} {P P' : KVServer → Prop}

/-- A server's maps and the maps its `Run` queued for `CreateSnapshot` have `P`. -/
def InServer (P : KVServer → Prop) (kv : KvNode) : Prop := P kv.kv ∧ ∀ p ∈ kv.snapshots, P p.1

/-- The maps of every server, the maps queued for `CreateSnapshot` and the snapshots the cluster
holds have `P`. -/
structure MapsWithin (P : KVServer → Prop) (s : Service) : Prop where
  servers : ∀ kv ∈ s.servers, InServer P kv
  cluster : s.cluster.Snapshots P

theorem MapsWithin.mono (maps : s.MapsWithin P) (imp : ∀ kv, P kv → P' kv) : s.MapsWithin P' where
  servers kv mem := let ⟨held,queued⟩ := maps.servers kv mem
    ⟨imp _ held,fun p mem => imp _ (queued p mem)⟩
  cluster := maps.cluster.mono imp

private theorem servers_set_maps (servers : ∀ kv ∈ s.servers, InServer P kv) {i : Nat} {x : KvNode}
    (new : InServer P x) : ∀ kv ∈ s.servers.set i x, InServer P kv :=
  fun kv mem => (List.mem_or_eq_of_mem_set mem).elim (servers kv) fun same => same ▸ new

theorem mem_ops_set {k : Nat} {call call' : KvCall} (found : s.calls[k]? = some call) (same : call'.op = call.op)
    (op : Op) (mem : op ∈ s.ops) : op ∈ (s.calls.set k call').map KvCall.op :=
  (ops_set found same).symm ▸ mem

private theorem mem_ops_send {c server : Nat} {op' : Op} (op : Op) (mem : op ∈ s.ops) : op ∈ (s.send c op' server).ops := by
  simp only [Service.send,ops,List.map_append,List.mem_append]
  exact .inl mem

theorem step_ops {oversized : Persister Op KVServer → Bool} :
    ∀ {a : ServiceAction}, s.step oversized a = some s' → ∀ op ∈ s.ops, op ∈ s'.ops
  | .raft _, stepped => by
    obtain ⟨_,-,rfl⟩ := raftStep_eq_some stepped
    exact fun _ => id
  | .invoke _ _, stepped => by
    obtain ⟨_,-,-,rfl⟩ := invoke_eq_some stepped
    exact fun op mem => mem_ops_send op mem
  | .deliver _, stepped => by
    obtain ⟨_,_,_,found,-,-,-,⟨-,_,_,-,-,rfl⟩ | ⟨-,rfl⟩⟩ := deliver_eq_some stepped <;>
    exact mem_ops_set found rfl
  | .receive _, stepped => by
    obtain ⟨_,_,_,_,found,-,-,-,rfl⟩ := receive_eq_some stepped
    exact mem_ops_set found rfl
  | .timeout _, stepped => by
    obtain ⟨_,_,found,-,rfl⟩ := timeout_eq_some stepped
    exact mem_ops_set found rfl
  | .complete _, stepped => by
    obtain ⟨_,_,_,_,_,found,-,-,-,-,⟨-,rfl⟩ | ⟨-,rfl⟩⟩ := complete_eq_some stepped
    · exact fun op' mem => mem_ops_send op' (mem_ops_set found (by rfl) op' mem)
    · exact mem_ops_set found rfl
  | .fail _, stepped => by
    obtain ⟨_,_,_,_,found,-,-,-,rfl⟩ := fail_eq_some stepped
    exact fun op' mem => mem_ops_send op' (mem_ops_set found (by rfl) op' mem)
  | .apply _, stepped => by
    obtain ⟨_,_,_,_,-,-,-,-,rfl⟩ := apply_eq_some stepped
    exact fun _ => id
  | .snapshot _ _, stepped => by
    obtain ⟨_,_,_,_,-,-,-,rfl⟩ := snapshot_eq_some stepped
    exact fun _ => id
  | .crash _, stepped => by
    obtain ⟨_,-,rfl⟩ := crash_eq_some stepped
    exact fun op mem => by rwa [← ops_crash] at mem

private theorem runMsg_inServer {ops : List Op} (applied : ∀ kv op, P kv → op ∈ ops → P (kv.applyOp op).1)
    (loaded : ∀ kv snapshot, P kv → P snapshot → P (kv.load snapshot)) {node node' : KvNode} {oversized : Bool} {msg : ApplyMsg Op KVServer} (held : InServer P node)
    (command : Admits (· ∈ ops) msg.command) (snapshot : SnapshotAdmits P msg.snapshot)
    (ran : node.runMsg oversized msg = some node') : InServer P node' := by
  unfold KvNode.runMsg at ran
  split_ifs at ran
  · cases ran
    split
    · exact ⟨loaded _ _ held.1 (snapshot _ ‹_›),held.2⟩
    · exact held
  all_goals
    obtain ⟨op,sent,rfl⟩ := Option.map_eq_some'.1 ran
    have taken := applied _ op held.1 (command op sent)
  · exact ⟨taken,fun p mem => (List.mem_append.1 mem).elim (held.2 p) fun new => by
      cases List.mem_singleton.1 new; exact taken⟩
  · exact ⟨taken,held.2⟩

variable {clients : List Int}

theorem MapsWithin.apply {oversized : Persister Op KVServer → Bool} (ids : s.RequestIds clients)
    (maps : s.MapsWithin P) (applied : ∀ kv op, P kv → op ∈ s.ops → P (kv.applyOp op).1)
    (loaded : ∀ kv snapshot, P kv → P snapshot → P (kv.load snapshot)) {i : Nat}
    (taken : s.apply oversized i = some s') : s'.MapsWithin P := by
  obtain ⟨node,kv,msg,kv',atNode,found,next,ran,rfl⟩ := apply_eq_some taken
  have sent := List.getElem?_mem next
  have held := runMsg_inServer applied loaded (maps.servers kv (List.getElem?_mem found))
    ((ids.commands.get atNode).raft.applied msg sent) ((maps.cluster.get atNode).raft.applied msg sent) ran
  exact ⟨servers_set_maps maps.servers held,maps.cluster⟩

theorem MapsWithin.step {oversized : Persister Op KVServer → Bool} (ids : s.RequestIds clients)
    (maps : s.MapsWithin P) (empty : P KVServer.empty) (applied : ∀ kv op, P kv → op ∈ s.ops → P (kv.applyOp op).1)
    (loaded : ∀ kv snapshot, P kv → P snapshot → P (kv.load snapshot)) :
    ∀ {a : ServiceAction}, s.step oversized a = some s' → s'.MapsWithin P
  | .raft a, stepped => by
    obtain ⟨cluster,clustered,rfl⟩ := raftStep_eq_some stepped
    refine ⟨maps.servers,maps.cluster.step (fun _ _ _ created => ?_) clustered⟩
    subst created
    cases stepped
  | .invoke _ _, stepped => by
    obtain ⟨_,-,-,rfl⟩ := invoke_eq_some stepped
    exact ⟨maps.servers,maps.cluster⟩
  | .deliver _, stepped => by
    obtain ⟨call,node,started,-,-,atNode,start,⟨-,cluster,kv,updated,found,rfl⟩ | ⟨-,rfl⟩⟩ := deliver_eq_some stepped
    · have held := maps.servers kv (List.getElem?_mem found)
      refine ⟨servers_set_maps maps.servers (by unfold KvNode.register; split_ifs <;> exact held),
        maps.cluster.updateNode (fun _ _ found' changed => ?_) updated⟩
      rw [atNode] at found'; cases found'; cases changed
      exact ⟨Raft.start_snapshots (maps.cluster.get atNode).raft call.op _ _ start,(maps.cluster.get atNode).earlier⟩
    · exact ⟨maps.servers,maps.cluster⟩
  | .receive _, stepped => by
    obtain ⟨_,_,kv,_,-,-,found,-,rfl⟩ := receive_eq_some stepped
    exact ⟨servers_set_maps maps.servers (maps.servers kv (List.getElem?_mem found)),maps.cluster⟩
  | .timeout _, stepped => by
    obtain ⟨_,_,-,-,rfl⟩ := timeout_eq_some stepped
    exact ⟨maps.servers,maps.cluster⟩
  | .complete _, stepped => by
    obtain ⟨_,_,_,_,_,-,-,-,-,-,⟨-,rfl⟩ | ⟨-,rfl⟩⟩ := complete_eq_some stepped <;>
    exact ⟨maps.servers,maps.cluster⟩
  | .fail _, stepped => by
    obtain ⟨_,_,_,_,-,-,-,-,rfl⟩ := fail_eq_some stepped
    exact ⟨maps.servers,maps.cluster⟩
  | .apply _, stepped => maps.apply ids applied loaded stepped
  | .snapshot _ _, stepped => by
    obtain ⟨kv,_,_,cluster,found,queued,clustered,rfl⟩ := snapshot_eq_some stepped
    have held := maps.servers kv (List.getElem?_mem found)
    refine ⟨servers_set_maps maps.servers ⟨held.1,fun p mem => held.2 p (List.mem_of_mem_eraseIdx mem)⟩,
      maps.cluster.step (fun _ _ _ created => ?_) clustered⟩
    cases created
    exact held.2 _ (List.getElem?_mem queued)
  | .crash _, stepped => by
    obtain ⟨cluster,clustered,rfl⟩ := crash_eq_some stepped
    exact ⟨servers_set_maps maps.servers ⟨empty,nofun⟩,
      maps.cluster.step (fun _ _ _ created => by cases created) clustered⟩

private theorem init_mapsWithin (empty : P KVServer.empty) (n : Nat) (clients : List Int) : (init n clients).MapsWithin P where
  servers kv mem := by
    cases List.eq_of_mem_replicate mem
    exact ⟨empty,nofun⟩
  cluster := Cluster.init_snapshots n

end Service

theorem Service.Reachable.mapsWithin {oversized : Persister Op KVServer → Bool} {n : Nat} {clients : List Int}
    {F : List Op → KVServer → Prop} (closed : KVServer.Closed F) (distinct : clients.Nodup) {s : Service}
    (reached : Service.Reachable oversized n clients s) : s.MapsWithin (F s.ops) := by
  induction reached with
  | init => exact Service.init_mapsWithin (closed.empty _) n clients
  | step _ reached stepped maps =>
    exact (maps.step (reached.requestIds distinct) (closed.empty _) (closed.applyOp _) (closed.load _) stepped).mono
      fun kv held => closed.mono _ _ kv held (Service.step_ops stepped)

end Sentinel.RaftKV
