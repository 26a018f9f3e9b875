import Sentinel.KV.Service
import Sentinel.Raft.Bookkeeping

/-! What a `raftkv` server's maps are. `Run` takes the messages of its Raft instance's apply
channel one at a time and in order, decodes the maps of a snapshot message into its own and
applies the op of a command, and nothing else writes the maps; the channel only grows while the instance lives,
and a crash restarts the server with empty maps together with the instance. So in every
reachable state each server's maps are what `Run` makes, from `StartKVServer`'s empty maps, of
the messages its replica's current instance has sent, up to the count it has taken. -/

namespace Sentinel.RaftKV

/-- What one pass of `Run`'s loop makes of the maps from a message: a snapshot message's maps are
decoded into them, a command is applied, and the type assertion panics on a message without a
command. -/
def KVServer.applyMsg (kv : KVServer) (msg : ApplyMsg Op KVServer) : Option KVServer :=
  if msg.useSnapshot then
    some (match msg.snapshot with
      | some snapshot => kv.load snapshot.kv
      | none => kv)
  else msg.command.map fun op => (kv.applyOp op).1

/-- The maps once `Run` has taken `msgs` in order. -/
def KVServer.applyMsgs (kv : KVServer) : List (ApplyMsg Op KVServer) → Option KVServer
  | [] => some kv
  | msg :: rest => (kv.applyMsg msg).bind (·.applyMsgs rest)

private theorem KVServer.applyMsgs_append (kv : KVServer) (msgs rest : List (ApplyMsg Op KVServer)) :
    kv.applyMsgs (msgs ++ rest) = (kv.applyMsgs msgs).bind (·.applyMsgs rest) := by
  induction msgs generalizing kv with
  | nil => rfl
  | cons msg msgs ih =>
    simp only [List.cons_append,applyMsgs,Option.bind_assoc]
    exact congrArg _ (funext ih)

private theorem KvNode.runMsg_kv (node : KvNode) (oversized : Bool) (msg : ApplyMsg Op KVServer) :
    (node.runMsg oversized msg).map KvNode.kv = node.kv.applyMsg msg := by
  unfold runMsg KVServer.applyMsg
  split_ifs
  · cases msg.snapshot <;> rfl
  all_goals cases msg.command <;> rfl

private theorem take_of_prefix_le {α : Type} {l l' : List α} (grown : l <+: l') {n : Nat} (le : n ≤ l.length) :
    l'.take n = l.take n := by
  rw [List.prefix_iff_eq_take.1 grown,List.take_take,min_eq_left le]

namespace Service

/-- Each server's maps are what `Run` made of the first `applied` messages its replica's current
instance sent on the apply channel. -/
def Replays (s : Service) : Prop :=
  ∀ (i : Nat) (kv : KvNode), s.servers[i]? = some kv → ∃ node, s.cluster.nodes[i]? = some node ∧
    kv.applied ≤ node.raft.chanApply.length ∧ KVServer.empty.applyMsgs (node.raft.chanApply.take kv.applied) = some kv.kv

variable {s s' : Service} {a : Action Op KVServer}

theorem Replays.of_moves (replays : s.Replays) (moved : Cluster.Moves a s.cluster s'.cluster)
    (servers : ∀ (i : Nat) (kv' : KvNode), s'.servers[i]? = some kv' → ∃ kv, s.servers[i]? = some kv ∧
      ((kv'.kv = kv.kv ∧ kv'.applied = kv.applied ∧ ∀ j, a = .crash j → j ≠ i) ∨
        kv'.applied = 0 ∧ kv'.kv = KVServer.empty)) : s'.Replays := by
  refine fun i kv' found' => ?_
  obtain ⟨kv,found,kept⟩ := servers i kv' found'
  obtain ⟨node,atNode,le,replayed⟩ := replays i kv found
  obtain ⟨node',atNode',continued⟩ := moved.nodes i node atNode
  rcases kept with ⟨maps,count,alive⟩ | ⟨count,maps⟩
  · rcases continued with continued | ⟨crashed,-⟩
    · have grown := continued.raft.applied
      refine ⟨node',atNode',count ▸ le.trans grown.length_le,?_⟩
      rw [count,maps,take_of_prefix_le grown le]
      exact replayed
    · exact absurd rfl (alive i crashed)
  · exact ⟨node',atNode',count ▸ Nat.zero_le _,by rw [count,maps]; rfl⟩

private theorem servers_set {i : Nat} {kv x : KvNode} (found : s.servers[i]? = some kv) (maps : x.kv = kv.kv)
    (count : x.applied = kv.applied) :
    ∀ (j : Nat) (kv' : KvNode), (s.servers.set i x)[j]? = some kv' → ∃ kv₀, s.servers[j]? = some kv₀ ∧
      kv'.kv = kv₀.kv ∧ kv'.applied = kv₀.applied := by
  intro j kv' found'
  rw [List.getElem?_set] at found'
  split_ifs at found' with same
  · subst same; cases found'
    exact ⟨kv,found,maps,count⟩
  · exact ⟨kv',found',rfl,rfl⟩

theorem Replays.frame (replays : s.Replays) (cluster : s'.cluster = s.cluster)
    (servers : ∀ (i : Nat) (kv' : KvNode), s'.servers[i]? = some kv' → ∃ kv, s.servers[i]? = some kv ∧
      kv'.kv = kv.kv ∧ kv'.applied = kv.applied) : s'.Replays :=
  replays.of_moves (a := .runSwitch 0) (cluster ▸ Cluster.Moves.refl _) fun i kv' found' =>
    let ⟨kv,found,maps,count⟩ := servers i kv' found'
    ⟨kv,found,.inl ⟨maps,count,fun _ => nofun⟩⟩

theorem Replays.apply {oversized : Persister Op KVServer → Bool} (replays : s.Replays) {i : Nat}
    (applied : s.apply oversized i = some s') : s'.Replays := by
  obtain ⟨node,kv,msg,kv',atNode,found,next,ran,rfl⟩ := apply_eq_some applied
  refine fun j kv'' found' => ?_
  rw [List.getElem?_set] at found'
  split_ifs at found' with same
  · subst same; cases found'
    obtain ⟨node₀,atNode₀,-,replayed⟩ := replays _ kv found
    rw [atNode] at atNode₀; cases atNode₀
    obtain ⟨bound,rfl⟩ := List.getElem?_eq_some_iff.1 next
    refine ⟨node,atNode,bound,?_⟩
    have loaded := KvNode.runMsg_kv kv (oversized node.raft.persister) node.raft.chanApply[kv.applied]
    rw [ran,Option.map_some'] at loaded
    rw [← List.take_concat_get' _ _ bound,KVServer.applyMsgs_append,replayed,Option.some_bind]
    simp only [KVServer.applyMsgs,← loaded,Option.some_bind]
  · exact replays j kv'' found'

theorem Replays.step {oversized : Persister Op KVServer → Bool} (replays : s.Replays) :
    ∀ {b : ServiceAction}, s.step oversized b = some s' → s'.Replays
  | .raft a, stepped => by
    obtain ⟨cluster,clustered,rfl⟩ := raftStep_eq_some stepped
    refine replays.of_moves (Cluster.step_moves clustered) fun i kv found =>
      ⟨kv,found,.inl ⟨rfl,rfl,fun j crashed => ?_⟩⟩
    subst crashed
    cases stepped
  | .invoke _ _, stepped => by
    obtain ⟨_,-,-,rfl⟩ := invoke_eq_some stepped
    exact replays.frame rfl fun i kv found => ⟨kv,found,rfl,rfl⟩
  | .deliver _, stepped => by
    obtain ⟨call,_,_,-,-,atNode,start,⟨-,_,kv,updated,found,rfl⟩ | ⟨-,rfl⟩⟩ := deliver_eq_some stepped
    · refine replays.of_moves (a := .start call.server call.op) (Cluster.updateNode_moves (fun _ _ found' changed => ?_)
        updated) fun i kv' found' => ?_
      · rw [atNode] at found'; cases found'; cases changed
        exact .inl ⟨Raft.start_extends call.op _ _ start,rfl⟩
      · obtain ⟨kv₀,found₀,maps,count⟩ := servers_set found (by unfold KvNode.register; split_ifs <;> rfl)
          (by unfold KvNode.register; split_ifs <;> rfl) i kv' found'
        exact ⟨kv₀,found₀,.inl ⟨maps,count,fun _ => nofun⟩⟩
    · exact replays.frame rfl fun i kv found => ⟨kv,found,rfl,rfl⟩
  | .receive _, stepped => by
    obtain ⟨_,_,_,_,-,-,found,-,rfl⟩ := receive_eq_some stepped
    exact replays.frame rfl (servers_set found rfl rfl)
  | .timeout _, stepped => by
    obtain ⟨_,_,-,-,rfl⟩ := timeout_eq_some stepped
    exact replays.frame rfl fun i kv found => ⟨kv,found,rfl,rfl⟩
  | .complete _, stepped => by
    obtain ⟨_,_,_,_,_,-,-,-,-,-,⟨-,rfl⟩ | ⟨-,rfl⟩⟩ := complete_eq_some stepped <;>
    exact replays.frame rfl fun i kv found => ⟨kv,found,rfl,rfl⟩
  | .fail _, stepped => by
    obtain ⟨_,_,_,_,-,-,-,-,rfl⟩ := fail_eq_some stepped
    exact replays.frame rfl fun i kv found => ⟨kv,found,rfl,rfl⟩
  | .apply _, stepped => replays.apply stepped
  | .snapshot _ _, stepped => by
    obtain ⟨kv,_,_,cluster,found,-,clustered,rfl⟩ := snapshot_eq_some stepped
    refine replays.of_moves (Cluster.step_moves clustered) fun i kv' found' => ?_
    obtain ⟨kv₀,found₀,maps,count⟩ := servers_set found (by rfl) (by rfl) i kv' found'
    exact ⟨kv₀,found₀,.inl ⟨maps,count,fun _ => nofun⟩⟩
  | .crash i, stepped => by
    obtain ⟨cluster,clustered,rfl⟩ := crash_eq_some stepped
    refine replays.of_moves (Cluster.step_moves clustered) fun j kv' found' => ?_
    rw [List.getElem?_set] at found'
    split_ifs at found' with same bound
    · subst same; cases found'
      exact ⟨_,List.getElem?_eq_getElem bound,.inr ⟨rfl,rfl⟩⟩
    · exact ⟨kv',found',.inl ⟨rfl,rfl,fun _ crashed => by cases crashed; exact same⟩⟩

private theorem init_replays (n : Nat) (clients : List Int) : (init n clients).Replays := by
  refine fun i kv found => ?_
  obtain ⟨bound,rfl⟩ := List.getElem?_eq_some_iff.1 found
  simp only [init,List.getElem_replicate,List.length_replicate] at bound ⊢
  exact ⟨_,List.getElem?_eq_getElem (by simpa [Cluster.init] using bound),Nat.zero_le _,rfl⟩

end Service

theorem Service.Reachable.replays {oversized : Persister Op KVServer → Bool} {n : Nat} {clients : List Int}
    {s : Service} (reached : Service.Reachable oversized n clients s) : s.Replays := by
  induction reached with
  | init => exact Service.init_replays n clients
  | step _ _ stepped replays => exact replays.step stepped

end Sentinel.RaftKV
