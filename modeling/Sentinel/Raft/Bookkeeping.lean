import Sentinel.Raft.Durability
import Sentinel.Raft.Replication

/-! What no step of `raft.go` takes back. A replica's apply channel only grows: the handlers,
`applyLog` and `recoverFromSnapshot` append to `chanApply` and nothing removes from it, and a
restart keeps what was sent before it. The leader's `nextIndex` and `matchIndex` have a slot
for every peer: winning an election makes them with `len(rf.peers)` slots, the reply paths write
them in place, and every request names a peer, so every `nextIndex[server]` and
`matchIndex[server]` of the leader is in range. Neither needs more than the steps themselves;
the slots need the requests of reachable states to name peers. -/

namespace Sentinel

variable {C K : Type}

namespace Raft

/-- The leader's `nextIndex` and `matchIndex` have a slot for every peer. -/
def Slotted (rf : Raft C K) : Prop :=
  rf.state = .leader → rf.nextIndex.length = rf.peers ∧ rf.matchIndex.length = rf.peers

/-- What a locked section keeps of the replica's bookkeeping: its peers, what it sent on the
apply channel, and the leader's slots. -/
structure Extends (rf rf' : Raft C K) : Prop where
  peers : rf'.peers = rf.peers
  applied : rf.chanApply <+: rf'.chanApply
  slotted : rf.Slotted → rf'.Slotted

section Extends

variable {rf rf' rf'' : Raft C K}

theorem Extends.refl (rf : Raft C K) : rf.Extends rf := ⟨rfl,List.prefix_refl _,id⟩

theorem Extends.trans (first : rf.Extends rf') (second : rf'.Extends rf'') : rf.Extends rf'' :=
  ⟨second.peers.trans first.peers,first.applied.trans second.applied,second.slotted ∘ first.slotted⟩

theorem Extends.append {msgs : List (ApplyMsg C K)} (peers : rf'.peers = rf.peers)
    (chan : rf'.chanApply = rf.chanApply ++ msgs) (state : rf'.state = rf.state)
    (next : rf'.nextIndex.length = rf.nextIndex.length) (matched : rf'.matchIndex.length = rf.matchIndex.length) :
    rf.Extends rf' := by
  refine ⟨peers,chan ▸ List.prefix_append _ _,fun slotted leading => ?_⟩
  rw [next,matched,peers]
  exact slotted (state ▸ leading)

theorem Extends.frame (peers : rf'.peers = rf.peers) (chan : rf'.chanApply = rf.chanApply)
    (state : rf'.state = rf.state) (next : rf'.nextIndex.length = rf.nextIndex.length)
    (matched : rf'.matchIndex.length = rf.matchIndex.length) : rf.Extends rf' :=
  .append peers (chan.trans (List.append_nil _).symm) state next matched

theorem Extends.demote (peers : rf'.peers = rf.peers) (chan : rf'.chanApply = rf.chanApply)
    (demoted : rf'.state ≠ .leader) : rf.Extends rf' :=
  ⟨peers,chan ▸ List.prefix_refl _,fun _ leading => absurd leading demoted⟩

private theorem extends_updateTerm (rf : Raft C K) (term : Nat) : rf.Extends (rf.updateTerm term) := by
  unfold updateTerm
  split
  · exact .demote rfl rfl nofun
  · exact .refl rf

end Extends

/-! ### Each locked section -/

variable {rf : Raft C K}

private theorem requestVote_extends (args : RequestVoteArgs) : Ensures (rf.Extends ·) (rf.requestVote args) := by
  have up := extends_updateTerm rf args.term
  simp only [requestVote,ensures_ite,ensures_some,ensures_bind]
  exact ⟨fun _ => .frame rfl rfl rfl rfl rfl,fun _ => ⟨fun _ _ _ _ _ =>
    ⟨fun _ => up.trans (.frame rfl rfl rfl rfl rfl),fun _ => up.trans (.frame rfl rfl rfl rfl rfl)⟩,
    fun _ => up.trans (.frame rfl rfl rfl rfl rfl)⟩⟩

private theorem checkPrev_extends (args : AppendEntriesArgs C) (base : Nat) :
    Ensures (rf.Extends ·) (rf.checkPrev args base) := by
  have appended : Ensures (rf.Extends ·) (rf.appendFrom args base) := by
    simp only [appendFrom,ensures_ite,ensures_bind,ensures_map,ensures_some]
    exact ⟨fun _ _ _ => ⟨fun _ _ _ => .frame rfl rfl rfl rfl rfl,fun _ => .frame rfl rfl rfl rfl rfl⟩,
      fun _ => .frame rfl rfl rfl rfl rfl⟩
  simp only [checkPrev,ensures_ite,ensures_bind,ensures_map]
  exact ⟨fun _ _ _ => ⟨fun _ _ _ => .frame rfl rfl rfl rfl rfl,fun _ => appended⟩,fun _ => appended⟩

private theorem appendEntries_extends (args : AppendEntriesArgs C) : Ensures (rf.Extends ·) (rf.appendEntries args) := by
  have up : rf.Extends { rf.updateTerm args.term with chanHeartbeat := (rf.updateTerm args.term).chanHeartbeat + 1 } :=
    (extends_updateTerm rf args.term).trans (.frame rfl rfl rfl rfl rfl)
  simp only [appendEntries,ensures_ite,ensures_map,ensures_bind,ensures_some]
  exact ⟨fun _ _ _ => .frame rfl rfl rfl rfl rfl,fun _ _ _ => ⟨fun _ => up.trans (.frame rfl rfl rfl rfl rfl),
    fun _ base _ rf' a found => up.trans (checkPrev_extends args base rf' a found)⟩⟩

private theorem installSnapshot_extends (args : InstallSnapshotArgs K) : rf.Extends (rf.installSnapshot args).1 := by
  simp only [installSnapshot]
  split_ifs
  · exact .refl rf
  · exact ⟨rfl,List.prefix_append _ _,fun _ leading => nomatch leading⟩
  · exact .demote rfl rfl nofun
  · exact .append rfl rfl rfl rfl rfl
  · exact .frame rfl rfl rfl rfl rfl

private theorem handle_extends (rpc : Rpc C K) : Ensures (rf.Extends ·) (rf.handle rpc) := by
  cases rpc with
  | requestVote args => simpa [handle] using requestVote_extends args
  | appendEntries args =>
    simp only [handle,ensures_map]
    exact fun ⟨rf',reply,spawned⟩ found => appendEntries_extends args rf' (reply,spawned) found
  | installSnapshot args => simpa [handle] using installSnapshot_extends args

private theorem sendRequestVote_extends (args : RequestVoteArgs) (reply : Option RequestVoteReply) :
    ∀ rf', rf.sendRequestVote args reply = some rf' → rf.Extends rf' := by
  cases reply with
  | none => rintro _ ⟨⟩; exact .frame rfl rfl rfl rfl rfl
  | some reply =>
    simp only [sendRequestVote]
    split_ifs <;> rintro _ found
    · cases found; exact .frame rfl rfl rfl rfl rfl
    · cases found; exact .demote rfl rfl nofun
    · obtain ⟨_,_,rfl⟩ := Option.map_eq_some'.1 found
      exact ⟨rfl,List.prefix_refl _,fun _ _ => ⟨List.length_replicate _ _,List.length_replicate _ _⟩⟩
    all_goals cases found; exact .frame rfl rfl rfl rfl rfl

private theorem sendAppendEntries_extends (server : Nat) (args : AppendEntriesArgs C) (reply : Option AppendEntriesReply) :
    Ensures (rf.Extends ·) (rf.sendAppendEntries server args reply) := by
  cases reply with
  | none => simpa [sendAppendEntries] using Extends.refl rf
  | some reply =>
    simp only [sendAppendEntries,ensures_ite,ensures_some,ensures_bind]
    refine ⟨fun _ => .refl rf,fun _ => ⟨fun _ => .demote rfl rfl nofun,fun _ rf' tracked => ?_⟩⟩
    have tracked : rf.Extends rf' := by
      unfold trackReply at tracked
      split_ifs at tracked
      · cases tracked
        split
        · exact .frame rfl rfl rfl (List.length_set _ _ _) (List.length_set _ _ _)
        · exact .refl rf
      · obtain ⟨_,_,rfl⟩ := Option.map_eq_some'.1 tracked
        exact .frame rfl rfl rfl (List.length_set _ _ _) rfl
    simp only [commitPhase,ensures_bind,ensures_map]
    intro _ _ _ _ n _
    cases n <;> exact tracked.trans (.frame rfl rfl rfl rfl rfl)

private theorem sendInstallSnapshot_extends (server : Nat) (args : InstallSnapshotArgs K) (reply : Option InstallSnapshotReply) :
    rf.Extends (rf.sendInstallSnapshot server args reply) := by
  cases reply with
  | none => exact .refl rf
  | some reply =>
    simp only [sendInstallSnapshot]
    split_ifs
    · exact .refl rf
    · exact .demote rfl rfl nofun
    · exact .frame rfl rfl rfl (List.length_set _ _ _) (List.length_set _ _ _)

private theorem receive_extends (server : Nat) (rpc : Rpc C K) (reply : Option RpcReply) :
    Ensures (rf.Extends ·) (rf.receive server rpc reply) := by
  unfold receive
  split <;> first
    | exact ensures_map.2 fun rf' sent => sendRequestVote_extends _ _ rf' sent
    | exact sendAppendEntries_extends server _ _
    | (simp only [ensures_some]; exact sendInstallSnapshot_extends server _ _)

theorem start_extends (command : C) : Ensures (rf.Extends ·) (rf.start command) := by
  simp only [start,ensures_ite,ensures_map,ensures_some]
  exact ⟨fun _ _ _ => .frame rfl rfl rfl rfl rfl,fun _ => .refl rf⟩

private theorem createSnapshot_extends (kvSnapshot : K) (index : Nat) :
    ∀ rf', rf.createSnapshot kvSnapshot index = some rf' → rf.Extends rf' := by
  simp only [createSnapshot,Option.bind_eq_some]
  rintro rf' ⟨base,-,last,-,created⟩
  split_ifs at created
  · cases created; exact .refl rf
  · obtain ⟨entry,-,rfl⟩ := Option.map_eq_some'.1 created
    exact .frame rfl rfl rfl rfl rfl

private theorem applyLog_extends : ∀ rf', rf.applyLog = some rf' → rf.Extends rf' := by
  simp only [applyLog,Option.bind_eq_some,Option.map_eq_some']
  rintro _ ⟨_,_,_,_,rfl⟩
  exact .append rfl rfl rfl rfl rfl

private theorem make_peers (peers me : Nat) (persister : Persister C K) :
    (make peers me persister).peers = peers ∧ (make peers me persister).state = .follower := by
  unfold make
  cases persister.raftstate <;> cases persister.snapshot <;> exact ⟨rfl,rfl⟩

end Raft

/-! ### Replicas and the cluster -/

namespace Node

/-- A step of the replica's own instance: its `Raft` extends and what earlier instances sent stays. -/
structure Continues (node node' : Node C K) : Prop where
  raft : node.raft.Extends node'.raft
  earlier : node'.earlier = node.earlier

/-- What a step keeps of a replica: its peers, every message it sent on an apply channel,
restarts included, and the leader's slots. -/
structure Grows (node node' : Node C K) : Prop where
  peers : node'.raft.peers = node.raft.peers
  sent : node.sent <+: node'.sent
  slotted : node.raft.Slotted → node'.raft.Slotted

variable {node node' node'' : Node C K}

theorem Continues.refl (node : Node C K) : node.Continues node := ⟨.refl _,rfl⟩

theorem Grows.refl (node : Node C K) : node.Grows node := ⟨rfl,List.prefix_refl _,id⟩

theorem Grows.of_continues (continued : node.Continues node') : node.Grows node' :=
  ⟨continued.raft.peers,by
    rw [Node.sent,Node.sent,continued.earlier]; exact (List.prefix_append_right_inj _).2 continued.raft.applied,
    continued.raft.slotted⟩

private theorem runSwitch_continues (switched : node.runSwitch = some node') : node.Continues node' := by
  unfold runSwitch at switched
  split_ifs at switched
  split at switched <;> cases switched <;> exact ⟨.refl _,rfl⟩

private theorem runReceive_continues {signal : Signal} (received : node.runReceive signal = some node') :
    node.Continues node' := by
  unfold runReceive at received
  split at received <;> simp only [Option.ite_none_right_eq_some,Option.some.injEq] at received <;>
    obtain ⟨-,rfl⟩ := received
  all_goals first
    | exact ⟨.frame rfl rfl rfl rfl rfl,rfl⟩
    | exact ⟨.demote rfl rfl nofun,rfl⟩

private theorem runTimeout_continues (timedOut : node.runTimeout = some node') : node.Continues node' := by
  unfold runTimeout at timedOut
  split at timedOut <;> cases timedOut
  · exact ⟨.demote rfl rfl nofun,rfl⟩
  · exact ⟨.refl _,rfl⟩

private theorem runPersist_continues (persisted : node.runPersist = some node') : node.Continues node' := by
  rcases runPersist_eq_some persisted with ⟨-,rfl⟩ | ⟨_,-,rfl⟩ | ⟨_,_,-,rfl⟩ | ⟨_,-,rfl⟩ <;>
    exact ⟨.frame rfl rfl rfl rfl rfl,rfl⟩

private theorem runCandidate_continues (started : node.runCandidate = some node') : node.Continues node' := by
  unfold runCandidate at started
  split_ifs at started
  cases started
  exact ⟨.frame rfl rfl rfl rfl rfl,rfl⟩

private theorem applyLog_continues (applied : node.applyLog = some node') : node.Continues node' := by
  unfold applyLog at applied
  split_ifs at applied
  obtain ⟨rf,found,rfl⟩ := Option.map_eq_some'.1 applied
  exact ⟨Raft.applyLog_extends rf found,rfl⟩

private theorem boot_grows (node : Node C K) (i : Nat) :
    node.Grows (boot (make node.raft.peers i node.raft.persister) node.sent) :=
  ⟨(Raft.make_peers _ _ _).1,List.prefix_append _ _,fun _ leading =>
    absurd ((Raft.make_peers _ _ _).2.symm.trans leading) nofun⟩

end Node

namespace Cluster

/-- What step `a` does to the replicas: it adds and removes none, a crash of `j` restarts `j`
through `Make` from its persister, and every other replica continues its instance. -/
structure Moves (a : Action C K) (s s' : Cluster C K) : Prop where
  length : s'.nodes.length = s.nodes.length
  nodes : ∀ (j : Nat) (node : Node C K), s.nodes[j]? = some node → ∃ node', s'.nodes[j]? = some node' ∧
    (node.Continues node' ∨ a = .crash j ∧ node' = Node.boot (make node.raft.peers j node.raft.persister) node.sent)

/-- A step keeps every replica in its place, and each one grows. -/
structure Grows (s s' : Cluster C K) : Prop where
  length : s'.nodes.length = s.nodes.length
  nodes : ∀ (i : Nat) (node : Node C K), s.nodes[i]? = some node →
    ∃ node', s'.nodes[i]? = some node' ∧ node.Grows node'

variable {s s' s'' : Cluster C K} {i : Nat} {a : Action C K}

theorem Grows.refl (s : Cluster C K) : s.Grows s := ⟨rfl,fun _ node found => ⟨node,found,.refl node⟩⟩

theorem Moves.refl (s : Cluster C K) : Moves a s s := ⟨rfl,fun _ node found => ⟨node,found,.inl (.refl node)⟩⟩

theorem Moves.congr (moved : Moves a s s') (same : s''.nodes = s'.nodes) : Moves a s s'' :=
  ⟨same ▸ moved.length,fun j node found => same ▸ moved.nodes j node found⟩

theorem updateNode_moves {f : Node C K → Option (Node C K)}
    (sound : ∀ node node', s.nodes[i]? = some node → f node = some node' →
      node.Continues node' ∨ a = .crash i ∧ node' = Node.boot (make node.raft.peers i node.raft.persister) node.sent)
    (updated : s.updateNode i f = some s') : Moves a s s' := by
  obtain ⟨node,node',found,changed,rfl⟩ := updateNode_eq_some updated
  refine ⟨List.length_set _ _ _,fun j nj foundJ => ?_⟩
  by_cases same : i = j
  · subst same
    rw [found] at foundJ; cases foundJ
    exact ⟨node',List.getElem?_set_self (List.getElem?_eq_some_iff.1 found).1,sound node node' found changed⟩
  · exact ⟨nj,by rw [List.getElem?_set_ne same]; exact foundJ,.inl (.refl nj)⟩

private theorem updateNode_moves_of_raft {f : Node C K → Option (Node C K)}
    (same : ∀ node node', f node = some node' → node'.raft = node.raft ∧ node'.earlier = node.earlier)
    (updated : s.updateNode i f = some s') : Moves a s s' :=
  updateNode_moves (fun node node' _ changed => by
    obtain ⟨raft,earlier⟩ := same node node' changed
    exact .inl ⟨by rw [raft]; exact .refl _,earlier⟩) updated

theorem step_moves : ∀ {a : Action C K}, s.step a = some s' → Moves a s s'
  | .runSwitch _, stepped => updateNode_moves (fun _ _ _ changed => .inl (Node.runSwitch_continues changed)) stepped
  | .runReceive _ _, stepped => updateNode_moves (fun _ _ _ changed => .inl (Node.runReceive_continues changed)) stepped
  | .runTimeout _, stepped => updateNode_moves (fun _ _ _ changed => .inl (Node.runTimeout_continues changed)) stepped
  | .runPersist _, stepped => updateNode_moves (fun _ _ _ changed => .inl (Node.runPersist_continues changed)) stepped
  | .runCandidate _, stepped =>
    updateNode_moves (fun _ _ _ changed => .inl (Node.runCandidate_continues changed)) stepped
  | .applyLog _, stepped => updateNode_moves (fun _ _ _ changed => .inl (Node.applyLog_continues changed)) stepped
  | .broadcastHeartbeat _, stepped => by
    obtain ⟨s'',_,updated,rfl⟩ := broadcastHeartbeat_eq_some stepped
    exact (updateNode_moves_of_raft (fun _ _ changed => by cases changed; exact ⟨rfl,rfl⟩) updated).congr rfl
  | .broadcastRequestVote _ _, stepped => by
    obtain ⟨_,s'',updated,rfl | ⟨_,_,rfl⟩⟩ := broadcastRequestVote_eq_some stepped <;>
      exact (updateNode_moves_of_raft (fun _ _ changed => by cases changed; exact ⟨rfl,rfl⟩) updated).congr rfl
  | .deliver _, stepped => by
    obtain ⟨call,node,rf,_,_,_,-,-,found,handled,updated,rfl⟩ := deliver_eq_some stepped
    refine (updateNode_moves (fun _ _ found' changed => ?_) updated).congr rfl
    rw [found] at found'; cases found'; cases changed
    exact .inl ⟨Raft.handle_extends call.rpc rf _ handled,rfl⟩
  | .complete _, stepped | .fail _, stepped => by
    obtain ⟨call,node,rf,_,_,-,found,received,updated,rfl⟩ := complete_eq_some stepped
    refine (updateNode_moves (fun _ _ found' changed => ?_) updated).congr rfl
    rw [found] at found'; cases found'; cases changed
    exact .inl ⟨Raft.receive_extends call.server call.rpc _ rf _ received,rfl⟩
  | .start _ command, stepped => updateNode_moves (fun _ _ _ changed => by
      obtain ⟨⟨rf,index⟩,started,rfl⟩ := Option.map_eq_some'.1 changed
      exact .inl ⟨Raft.start_extends command rf index started,rfl⟩) stepped
  | .createSnapshot _ kvSnapshot index, stepped => updateNode_moves (fun _ _ _ changed => by
      obtain ⟨rf,created,rfl⟩ := Option.map_eq_some'.1 changed
      exact .inl ⟨Raft.createSnapshot_extends kvSnapshot index rf created,rfl⟩) stepped
  | .crash _, stepped => by
    obtain ⟨s'',updated,rfl⟩ := crash_eq_some stepped
    exact (updateNode_moves (fun _ _ _ changed => by cases changed; exact .inr ⟨rfl,rfl⟩) updated).congr rfl

theorem Moves.grows (moved : Moves a s s') : s.Grows s' := by
  refine ⟨moved.length,fun j node found => ?_⟩
  obtain ⟨node',found',continued | ⟨-,rfl⟩⟩ := moved.nodes j node found
  · exact ⟨node',found',.of_continues continued⟩
  · exact ⟨_,found',Node.boot_grows node j⟩

theorem updateNode_grows {f : Node C K → Option (Node C K)}
    (sound : ∀ node node', s.nodes[i]? = some node → f node = some node' → node.Continues node')
    (updated : s.updateNode i f = some s') : s.Grows s' :=
  (updateNode_moves (a := .crash i) (fun node node' found changed => .inl (sound node node' found changed))
    updated).grows

theorem step_grows (stepped : s.step a = some s') : s.Grows s' :=
  (step_moves stepped).grows

/-- Every replica counts `n` peers and keeps the leader's slots, and every request in flight
goes to one of the `n` replicas. -/
structure Indexed (n : Nat) (s : Cluster C K) : Prop where
  nodes : ∀ node ∈ s.nodes, node.raft.peers = n ∧ node.raft.Slotted
  calls : ∀ call ∈ s.calls, call.server < n

variable {n : Nat}

theorem Indexed.get (indexed : s.Indexed n) {node : Node C K} (found : s.nodes[i]? = some node) :
    node.raft.peers = n ∧ node.raft.Slotted :=
  indexed.nodes node (List.getElem?_mem found)

theorem Indexed.of_grows (indexed : s.Indexed n) (grown : s.Grows s') (calls : ∀ call ∈ s'.calls, call.server < n) :
    s'.Indexed n := by
  refine ⟨fun node' mem => ?_,calls⟩
  obtain ⟨j,bound,rfl⟩ := List.getElem_of_mem mem
  have bound' : j < s.nodes.length := grown.length ▸ bound
  obtain ⟨_,found,grows⟩ := grown.nodes j _ (List.getElem?_eq_getElem bound')
  rw [List.getElem?_eq_getElem bound,Option.some.injEq] at found
  subst found
  obtain ⟨peers,slotted⟩ := indexed.nodes _ (List.getElem_mem bound')
  exact ⟨grows.peers.trans peers,grows.slotted slotted⟩

theorem Indexed.step_calls (indexed : s.Indexed n) : ∀ {a : Action C K}, s.step a = some s' →
    ∀ call ∈ s'.calls, call.server < n
  | .broadcastHeartbeat _, stepped => by
    simp only [step,Cluster.broadcastHeartbeat,bind,pure,Option.none_bind,Option.some_bind,
      Option.ite_none_left_eq_some,Option.bind_eq_some,Option.some.injEq] at stepped
    obtain ⟨node,found,-,rpcs,built,s'',updated,rfl⟩ := stepped
    obtain ⟨_,_,_,-,rfl⟩ := updateNode_eq_some updated
    intro call mem
    rcases List.mem_append.1 mem with old | new
    · exact indexed.calls call old
    obtain ⟨⟨server,rpc⟩,listed,rfl⟩ := List.mem_map.1 new
    simp only [Raft.broadcastHeartbeat,Option.bind_eq_some] at built
    obtain ⟨base,-,built⟩ := built
    split_ifs at built
    · have := List.mem_range.1 (List.mem_filter.1 (Raft.mapM_pairs_mem built _ listed).1).1
      exact (indexed.get found).1 ▸ this
    · cases built; cases listed
  | .broadcastRequestVote _ _, stepped => by
    simp only [step,Cluster.broadcastRequestVote,bind,pure,Option.bind_eq_some] at stepped
    obtain ⟨node,found,request,-,stepped⟩ := stepped
    have same : ∀ {j : Nat} {f : Node C K → Option (Node C K)} {t : Cluster C K}, s.updateNode j f = some t →
        t.calls = s.calls :=
      fun updated => by obtain ⟨_,_,_,_,rfl⟩ := updateNode_eq_some updated; rfl
    rcases request with _ | ⟨args,server⟩ <;> simp only [Option.bind_eq_some] at stepped
    · obtain ⟨_,-,updated⟩ := stepped
      exact same updated ▸ indexed.calls
    split_ifs at stepped with done
    · exact same stepped ▸ indexed.calls
    all_goals
      obtain ⟨s'',updated,stepped⟩ := Option.bind_eq_some.1 stepped
      simp only [Option.some_bind,Option.some.injEq] at stepped
      subst stepped
    · intro call mem
      rcases List.mem_append.1 mem with old | new
      · exact indexed.calls call (same updated ▸ old)
      · cases List.mem_singleton.1 new
        exact (indexed.get found).1 ▸ Nat.lt_of_not_le done
    · exact same updated ▸ indexed.calls
  | .deliver _, stepped => by
    obtain ⟨call,_,_,_,_,s'',_,-,-,-,updated,rfl⟩ := deliver_eq_some stepped
    obtain ⟨_,_,_,_,rfl⟩ := updateNode_eq_some updated
    intro call' mem
    rcases List.mem_or_eq_of_mem_set mem with old | rfl
    · exact indexed.calls call' old
    · exact indexed.calls call (List.getElem?_mem ‹_›)
  | .complete _, stepped | .fail _, stepped => by
    obtain ⟨_,_,_,_,s'',-,-,-,updated,rfl⟩ := complete_eq_some stepped
    obtain ⟨_,_,_,_,rfl⟩ := updateNode_eq_some updated
    exact fun call mem => indexed.calls call (List.mem_of_mem_eraseIdx mem)
  | .crash _, stepped => by
    obtain ⟨s'',updated,rfl⟩ := crash_eq_some stepped
    obtain ⟨_,_,_,_,rfl⟩ := updateNode_eq_some updated
    exact fun call mem => indexed.calls call (List.mem_filter.1 mem).1
  | .runSwitch _, stepped | .runReceive _ _, stepped | .runTimeout _, stepped | .runPersist _, stepped
  | .runCandidate _, stepped | .applyLog _, stepped | .start _ _, stepped | .createSnapshot _ _ _, stepped => by
    obtain ⟨_,_,_,_,rfl⟩ := updateNode_eq_some stepped
    exact indexed.calls

private theorem init_indexed (n : Nat) : (init n : Cluster C K).Indexed n := by
  refine ⟨fun node mem => ?_,nofun⟩
  obtain ⟨i,_,rfl⟩ := List.mem_map.1 mem
  obtain ⟨peers,follower⟩ := Raft.make_peers n i (⟨none,none⟩ : Persister C K)
  exact ⟨peers,fun leading => absurd (follower.symm.trans leading) nofun⟩

end Cluster

theorem Reachable.indexed {n : Nat} {s : Cluster C K} (reached : Reachable n s) : s.Indexed n := by
  induction reached with
  | init => exact Cluster.init_indexed n
  | step _ _ stepped indexed => exact indexed.of_grows (Cluster.step_grows stepped) (indexed.step_calls stepped)

/-- In every reachable state of an `n`-replica cluster, every replica counts `n` peers, a
leader's `nextIndex` and `matchIndex` have `n` slots, and every request in flight goes to one
of the `n` replicas: every `nextIndex[server]` and `matchIndex[server]` the leader reads and
writes for a request is in range. -/
theorem leader_slots_in_range {n : Nat} {s : Cluster C K} (reached : Reachable n s) :
    (∀ node ∈ s.nodes, node.raft.peers = n ∧
      (node.raft.state = .leader → node.raft.nextIndex.length = n ∧ node.raft.matchIndex.length = n)) ∧
    ∀ call ∈ s.calls, call.server < n := by
  have indexed := reached.indexed
  refine ⟨fun node mem => ?_,indexed.calls⟩
  obtain ⟨peers,slotted⟩ := indexed.nodes node mem
  exact ⟨peers,fun leading => peers ▸ slotted leading⟩

theorem leaderAppends_leader_slots_in_range :
    ∃ node, (Cluster.replay 3 leaderAppends (by decide)).nodes[0]? = some node ∧
      (node.raft.peers = 3 ∧
        (node.raft.state = .leader → node.raft.nextIndex.length = 3 ∧ node.raft.matchIndex.length = 3)) ∧
      ∀ call ∈ (Cluster.replay 3 leaderAppends (by decide)).calls, call.server < 3 := by
  obtain ⟨node,found⟩ : ∃ node, (Cluster.replay 3 leaderAppends (by decide)).nodes[0]? = some node := by
    apply Option.isSome_iff_exists.1; decide
  have slots := leader_slots_in_range (@Reachable.replay Nat Unit 3 leaderAppends (by decide))
  exact ⟨node,found,slots.1 node (List.getElem?_mem found),slots.2⟩

end Sentinel
