import Sentinel.Raft.Cluster

/-! Log replication in `raft.go`. The branch of `AppendEntries` that accepts a
request cuts the log at `PrevLogIndex` and appends the request's entries, whatever
the log held after that index. A stale request of the current term therefore
shortens a log the leader has counted, which breaks the replication properties
below; each is stated over the cluster and followed by the schedule that refutes it. -/

namespace Sentinel

variable {C K : Type}

namespace Raft

/-- `rf.log[i-baseIndex]` for the replica's current base. -/
def logAt (rf : Raft C K) (i : Nat) : Option (LogEntry C) :=
  (baseIndex rf.log).bind fun base => entryAt rf.log base i

end Raft

/-! ### State machine safety -/

/-- Two command messages with one `CommandIndex`, sent by any two replicas or by
one replica across restarts, carry the same command. -/
def StateMachineSafety [DecidableEq C] (s : Cluster C K) : Prop :=
  ∀ a ∈ s.nodes, ∀ b ∈ s.nodes, ∀ m ∈ a.sent, ∀ m' ∈ b.sent,
    m.commandValid ∧ m'.commandValid ∧ m.commandIndex = m'.commandIndex → m.command = m'.command

instance [DecidableEq C] (s : Cluster C K) : Decidable (StateMachineSafety s) :=
  inferInstanceAs (Decidable (∀ a ∈ s.nodes, ∀ b ∈ s.nodes, ∀ m ∈ a.sent, ∀ m' ∈ b.sent,
    m.commandValid ∧ m'.commandValid ∧ m.commandIndex = m'.commandIndex → m.command = m'.command))

/-- Replica 0 wins term 1 and appends commands 1 and 2; its first heartbeat to
replica 1 carries entry 1 only, its second carries both. -/
def leaderAppends : List (Action Nat Unit) :=
  [.runSwitch 0,.runTimeout 0,.runPersist 0,.runPersist 0,.runPersist 0,.runPersist 0,.runSwitch 0,.runCandidate 0,
   .broadcastRequestVote 0 0,.broadcastRequestVote 0 0,.broadcastRequestVote 0 0,
   .broadcastRequestVote 0 0,.broadcastRequestVote 0 0,
   .deliver 0,.complete 0,.fail 0,.runReceive 0 .winElect,
   .start 0 1,.runSwitch 0,.broadcastHeartbeat 0,.start 0 2,.runSwitch 0,.broadcastHeartbeat 0,
   .fail 3,.fail 1,.deliver 1]

/-- The reply to the longer request lets replica 0 commit and apply index 2. -/
def leaderCommits : List (Action Nat Unit) := [.complete 1,.applyLog 0]

/-- The shorter request arrives late and cuts replica 1's log back to index 1. -/
def staleArrives : List (Action Nat Unit) := [.deliver 0]

/-- Replica 1 then wins term 2 with replica 2's vote. -/
def followerElected : List (Action Nat Unit) :=
  [.runSwitch 1,.runTimeout 1,.runPersist 1,.runPersist 1,.runPersist 1,.runPersist 1,.runSwitch 1,.runCandidate 1,
   .broadcastRequestVote 1 0,.broadcastRequestVote 1 0,.broadcastRequestVote 1 0,
   .broadcastRequestVote 1 0,.broadcastRequestVote 1 0,.deliver 2]

/-- As leader of term 2 it appends command 3 at index 2, replicates and applies it. -/
def newLeaderApplies : List (Action Nat Unit) :=
  [.complete 2,.fail 1,.runReceive 1 .winElect,.start 1 3,.runSwitch 1,.broadcastHeartbeat 1,
   .fail 1,.deliver 1,.complete 1,.runSwitch 1,.broadcastHeartbeat 1,.fail 1,.deliver 1,.complete 1,
   .applyLog 1]

theorem stale_append_breaks_state_machine_safety :
    ∃ s : Cluster Nat Unit, Reachable 3 s ∧ ¬ StateMachineSafety s :=
  ⟨_,Reachable.replay (leaderAppends ++ leaderCommits ++ staleArrives ++ followerElected ++
    newLeaderApplies) (by decide),by decide⟩

/-! ### Leader completeness -/

def Rpc.isAppendEntries : Rpc C K → Bool
  | .appendEntries _ => true
  | _ => false

/-- In the step `complete c` from `s` to `s'`, leader `l` of `term` processes the
reply to one of its `AppendEntries` and its commit loop raises `commitIndex` past
`entry.index` while its log holds `entry` there. -/
def CommitsEntry (s : Cluster C K) (c : Nat) (s' : Cluster C K) (l term : Nat) (entry : LogEntry C) : Prop :=
  s.step (.complete c) = some s' ∧ (∃ call ∈ s.calls[c]?, call.caller = l ∧ call.rpc.isAppendEntries) ∧
    ∃ node ∈ s.nodes[l]?, ∃ node' ∈ s'.nodes[l]?, node'.raft.state = .leader ∧ node'.raft.currentTerm = term ∧
      node.raft.commitIndex < entry.index ∧ entry.index ≤ node'.raft.commitIndex ∧
      node'.raft.logAt entry.index = some entry

/-- Replica `j` sets `rf.state = STATE_LEADER` in the step from `s` to `s'`, in `term`. -/
def BecameLeader (s s' : Cluster C K) (j term : Nat) : Prop :=
  ∃ node ∈ s.nodes[j]?, ∃ node' ∈ s'.nodes[j]?, node.raft.state ≠ .leader ∧
    node'.raft.state = .leader ∧ node'.raft.currentTerm = term

instance (s s' : Cluster C K) (j term : Nat) : Decidable (BecameLeader s s' j term) :=
  inferInstanceAs (Decidable (∃ node ∈ s.nodes[j]?, ∃ node' ∈ s'.nodes[j]?, node.raft.state ≠ .leader ∧
    node'.raft.state = .leader ∧ node'.raft.currentTerm = term))

/-- An entry a leader of `term` committed is, at index `entry.index`, in the log of
every later leader of a higher term whose base is below that index. -/
def LeaderCompleteness (C K : Type) [DecidableEq C] (n : Nat) : Prop :=
  ∀ (s₀ s₁ t₀ t₁ : Cluster C K) (c : Nat) (b : Action C K) (l j term term' : Nat) (entry : LogEntry C),
    Reachable n s₀ → CommitsEntry s₀ c s₁ l term entry → Steps s₁ t₀ → t₀.step b = some t₁ →
    BecameLeader t₀ t₁ j term' → term < term' →
    ∃ node ∈ t₁.nodes[j]?, node.raft.logAt entry.index = some entry ∨
      entry.index ≤ (baseIndex node.raft.log).getD 0

theorem stale_append_breaks_leader_completeness : ¬ LeaderCompleteness Nat Unit 3 := by
  intro complete
  have kept := complete _ _ _ _ 1 (.complete 2) 0 1 1 2 ⟨2,1,some 2⟩
    (Reachable.replay leaderAppends (by decide))
    ⟨Cluster.replay_step leaderAppends _ (by decide) (by decide),by decide,by decide⟩
    (Steps.replay (leaderAppends ++ [.complete 1]) ([.applyLog 0] ++ staleArrives ++
      followerElected) (by decide) (by decide))
    (Cluster.replay_step _ _ (by decide) (by decide)) (by decide) (by decide)
  revert kept
  decide

/-! ### The leader's `matchIndex` -/

/-- While `l` leads and peer `p` is in the same term, every entry up to
`matchIndex[p]` above both bases is in `p`'s log as in `l`'s. -/
def MatchIndexSound (s : Cluster C K) : Prop :=
  ∀ l p, l ≠ p → ∀ leader : Node C K, leader ∈ s.nodes[l]? → ∀ peer : Node C K, peer ∈ s.nodes[p]? →
    leader.raft.state = .leader → peer.raft.currentTerm = leader.raft.currentTerm →
    ∀ i, max ((baseIndex leader.raft.log).getD 0) ((baseIndex peer.raft.log).getD 0) < i →
      i ≤ leader.raft.matchIndex.getD p 0 →
      ∃ entry, peer.raft.logAt i = some entry ∧ leader.raft.logAt i = some entry

theorem stale_append_breaks_match_index :
    ∃ s : Cluster Nat Unit, Reachable 3 s ∧ ¬ MatchIndexSound s := by
  refine ⟨_,Reachable.replay (leaderAppends ++ leaderCommits ++ staleArrives) (by decide),?_⟩
  intro sound
  obtain ⟨entry,held,_⟩ := sound 0 1 (by decide) _ (Option.get_mem (by decide)) _ (Option.get_mem (by decide))
    (by decide) (by decide) 2 (by decide) (by decide)
  have present := congrArg Option.isSome held
  rw [Option.isSome_some] at present
  revert present
  decide

/-! ### The index order of a replica -/

/-- `log[0].Index <= lastApplied <= commitIndex <= getLastLogIndex()`. -/
def IndexOrder (rf : Raft C K) : Prop :=
  ∃ base last, baseIndex rf.log = some base ∧ lastLogIndex rf.log = some last ∧
    base ≤ rf.lastApplied ∧ rf.lastApplied ≤ rf.commitIndex ∧ rf.commitIndex ≤ last

/-- Every reachable replica keeps the index order, and no step other than its
restart lowers its `commitIndex` or `lastApplied`. -/
def IndexInvariant (C K : Type) (n : Nat) : Prop :=
  (∀ s : Cluster C K, Reachable n s → ∀ i : Nat, ∀ node : Node C K, node ∈ s.nodes[i]? → IndexOrder node.raft) ∧
  ∀ (s s' : Cluster C K) (a : Action C K), Reachable n s → s.step a = some s' →
    ∀ i : Nat, a ≠ .crash i → ∀ node : Node C K, node ∈ s.nodes[i]? → ∀ node' : Node C K, node' ∈ s'.nodes[i]? →
      node.raft.commitIndex ≤ node'.raft.commitIndex ∧ node.raft.lastApplied ≤ node'.raft.lastApplied

/-- After replica 0 commits index 2, its next heartbeat carries `LeaderCommit = 2`
to replica 1, which commits index 2 and spawns `applyLog`. -/
def commitReachesFollower : List (Action Nat Unit) := [.runSwitch 0,.broadcastHeartbeat 0,.fail 2,.deliver 1]

theorem stale_append_breaks_index_order : ¬ IndexInvariant Nat Unit 3 := by
  intro invariant
  obtain ⟨base,last,_,found,_,_,bound⟩ := invariant.1 _
    (Reachable.replay (leaderAppends ++ leaderCommits ++ commitReachesFollower ++ staleArrives)
      (by decide)) 1 _ (Option.get_mem (by decide))
  obtain rfl : last = 1 := Option.some.inj (found.symm.trans (by decide))
  revert bound
  decide

/-! ### The log representation -/

/-- The representation invariant of a replica's log. -/
structure LogWellFormed (rf : Raft C K) : Prop where
  nonempty : rf.log ≠ []
  consecutive : ∀ k < rf.log.length, rf.log[k]?.map (·.index) = (baseIndex rf.log).map (· + k)
  sorted : (rf.log.map (·.term)).Pairwise (· ≤ ·)
  bounded : ∀ entry ∈ rf.log, entry.term ≤ rf.currentTerm
  nextIndex : rf.state = .leader → ∀ p < rf.peers, ∀ last, lastLogIndex rf.log = some last →
    rf.nextIndex.getD p 0 ≤ last + 1

namespace Raft

theorem logAt_eq_some {rf : Raft C K} {base i : Nat} {entry : LogEntry C} (based : baseIndex rf.log = some base) :
    rf.logAt i = some entry ↔ base ≤ i ∧ rf.log[i - base]? = some entry := by
  simp [logAt,based,entryAt,Option.ite_none_right_eq_some]

end Raft

namespace LogWellFormed

variable {rf : Raft C K} {base : Nat}

theorem based (wf : LogWellFormed rf) : ∃ base, baseIndex rf.log = some base := by
  cases log : rf.log with
  | nil => exact absurd log wf.nonempty
  | cons entry _ => exact ⟨entry.index,rfl⟩

theorem lastLogIndex_eq (wf : LogWellFormed rf) (based : baseIndex rf.log = some base) :
    lastLogIndex rf.log = some (base + (rf.log.length - 1)) := by
  have bound : rf.log.length - 1 < rf.log.length := by
    have := List.length_pos.2 wf.nonempty
    omega
  simpa [lastLogIndex,List.getLast?_eq_getElem?,based] using wf.consecutive _ bound

theorem logAt_isSome (based : baseIndex rf.log = some base) {i : Nat} (above : base ≤ i)
    (below : i < base + rf.log.length) : ∃ entry, rf.logAt i = some entry :=
  ⟨_,(Raft.logAt_eq_some based).2 ⟨above,List.getElem?_eq_getElem (by omega)⟩⟩

theorem term_le (wf : LogWellFormed rf) (based : baseIndex rf.log = some base) {i j : Nat}
    {earlier later : LogEntry C} (atI : rf.logAt i = some earlier) (atJ : rf.logAt j = some later)
    (le : i ≤ j) : earlier.term ≤ later.term := by
  obtain ⟨-,atI⟩ := (Raft.logAt_eq_some based).1 atI
  obtain ⟨above,atJ⟩ := (Raft.logAt_eq_some based).1 atJ
  obtain ⟨boundI,rfl⟩ := List.getElem?_eq_some_iff.1 atI
  obtain ⟨boundJ,rfl⟩ := List.getElem?_eq_some_iff.1 atJ
  rcases Nat.lt_or_eq_of_le (Nat.sub_le_sub_right le base) with lt | same
  · exact List.pairwise_iff_getElem.1 (List.pairwise_map.1 wf.sorted) _ _ boundI boundJ lt
  · simp only [same,le_refl]

theorem term_le_currentTerm (wf : LogWellFormed rf) {i : Nat} {entry : LogEntry C}
    (held : rf.logAt i = some entry) : entry.term ≤ rf.currentTerm := by
  obtain ⟨base,based,-⟩ := Option.bind_eq_some.1 held
  exact wf.bounded entry (List.getElem?_mem ((Raft.logAt_eq_some based).1 held).2)

theorem getD_set_le (l : List Nat) (i v j : Nat) : (l.set i v).getD j 0 ≤ max v (l.getD j 0) := by
  simp only [List.getD_eq_getElem?_getD,List.getElem?_set]
  split_ifs
  · exact le_max_left _ _
  · exact Nat.zero_le _
  · exact le_max_right _ _

theorem setNextIndex (wf : LogWellFormed rf) (based : baseIndex rf.log = some base) (server : Nat) {next : Nat}
    (bound : next ≤ base + 1) : LogWellFormed { rf with nextIndex := rf.nextIndex.set server next } := by
  refine ⟨wf.nonempty,wf.consecutive,wf.sorted,wf.bounded,fun leading p peer last ends => ?_⟩
  show (rf.nextIndex.set server next).getD p 0 ≤ last + 1
  have := getD_set_le rf.nextIndex server next p
  have := wf.nextIndex leading p peer last ends
  have := Option.some.inj (ends.symm.trans (wf.lastLogIndex_eq based))
  omega

end LogWellFormed

namespace Raft

/-- A request the follower agrees with at `PrevLogIndex` but that ends before the follower's
log does is accepted, and the log is cut back to the request's end: the follower's last entry
is gone, whatever the request's entries are. -/
theorem appendEntries_shortens {rf : Raft C K} {args : AppendEntriesArgs C} {prev : LogEntry C}
    {base last : Nat} (wf : LogWellFormed rf) (current : rf.currentTerm ≤ args.term)
    (based : baseIndex rf.log = some base) (held : rf.logAt args.prevLogIndex = some prev)
    (agrees : prev.term = args.prevLogTerm) (ends : lastLogIndex rf.log = some last)
    (shorter : args.prevLogIndex + args.entries.length < last) :
    ∃ rf' reply spawned, rf.appendEntries args = some (rf',reply,spawned) ∧ reply.success = true ∧
      rf'.log = rf.log.take (args.prevLogIndex + 1 - base) ++ args.entries ∧
      rf'.log.length < rf.log.length ∧ rf'.logAt last = none := by
  obtain ⟨above,found⟩ := (logAt_eq_some based).1 held
  obtain ⟨inLog,-⟩ := List.getElem?_eq_some_iff.1 found
  obtain rfl : last = base + (rf.log.length - 1) := Option.some.inj (ends.symm.trans (wf.lastLogIndex_eq based))
  have kept : rf.log.take (args.prevLogIndex + 1 - base) ≠ [] := by
    simp [List.take_eq_nil_iff,wf.nonempty]
    omega
  obtain ⟨final,ending⟩ := Option.ne_none_iff_exists'.1
    (mt List.getLast?_eq_none_iff.1 (List.append_ne_nil_of_left_ne_nil kept args.entries))
  have shrinks : (rf.log.take (args.prevLogIndex + 1 - base) ++ args.entries).length < rf.log.length := by
    simp only [List.length_append,List.length_take]
    omega
  have atPrev : entryAt rf.log base args.prevLogIndex = some prev := by simpa [logAt,based] using held
  have sliced : sliceTo rf.log (args.prevLogIndex + 1 - base) =
      some (rf.log.take (args.prevLogIndex + 1 - base)) := by
    simp only [sliceTo]
    rw [if_pos (by omega)]
  have lastNew : lastLogIndex (rf.log.take (args.prevLogIndex + 1 - base) ++ args.entries) = some final.index := by
    simp [lastLogIndex,ending]
  have gone : ∀ rf' : Raft C K, rf'.log = rf.log.take (args.prevLogIndex + 1 - base) ++ args.entries →
      rf'.logAt (base + (rf.log.length - 1)) = none := fun rf' log => by
    have rebased : baseIndex rf'.log = some base := by
      rw [log,← based]
      simp only [baseIndex,List.head?_append_of_ne_nil _ kept,List.head?_take]
      rw [if_neg (by omega)]
    rw [logAt,rebased,Option.some_bind,entryAt,if_pos (by omega),List.getElem?_eq_none_iff.2 (by rw [log]; omega)]
  simp only [appendEntries,checkPrev,appendFrom,if_neg (show ¬ args.term < rf.currentTerm by omega),updateTerm_log,
    ends,Option.some_bind,if_neg (show ¬ base + (rf.log.length - 1) < args.prevLogIndex by omega),based,if_pos above,
    atPrev,agrees,ne_eq,not_true_eq_false,if_false,if_pos (show base ≤ args.prevLogIndex + 1 by omega),sliced,lastNew]
  split_ifs <;> exact ⟨_,_,_,rfl,rfl,rfl,shrinks,gone _ rfl⟩

end Raft

/-- A request that does not conflict with the follower: its entries are consecutive from
`PrevLogIndex + 1`, the follower holds `PrevLogIndex` with `PrevLogTerm` or `PrevLogIndex` is one
below its base, and every entry the follower holds at an entry's index has that entry's term. -/
def NonConflicting (rf : Raft C K) (args : AppendEntriesArgs C) : Prop :=
  (∀ k < args.entries.length, args.entries[k]?.map (·.index) = some (args.prevLogIndex + 1 + k)) ∧
    ((rf.logAt args.prevLogIndex).map (·.term) = some args.prevLogTerm ∨
      baseIndex rf.log = some (args.prevLogIndex + 1)) ∧
    ∀ entry ∈ args.entries, ∀ held ∈ rf.logAt entry.index, held.term = entry.term

instance (rf : Raft C K) (args : AppendEntriesArgs C) : Decidable (NonConflicting rf args) :=
  inferInstanceAs (Decidable (_ ∧ _ ∧ _))

/-- A follower of term 1 that holds indices 0 to 2. -/
def caughtUpFollower : Raft Nat Unit :=
  { peers := 3, persister := ⟨none,none⟩, me := 1, state := .follower, voteCount := 0, currentTerm := 1,
    votedFor := some 0, log := [⟨0,0,none⟩,⟨1,1,some 1⟩,⟨2,1,some 2⟩], commitIndex := 0, lastApplied := 0,
    nextIndex := [], matchIndex := [], chanApply := [], chanGrantVote := 0, chanWinElect := 0,
    chanHeartbeat := 0 }

/-- The leader's earlier request, which carried index 1 only, arriving late. -/
def delayedRequest : AppendEntriesArgs Nat := ⟨1,0,0,0,[⟨1,1,some 1⟩],0⟩

theorem delayed_request_shortens_log :
    LogWellFormed caughtUpFollower ∧ NonConflicting caughtUpFollower delayedRequest ∧
      ∃ rf' reply spawned, caughtUpFollower.appendEntries delayedRequest = some (rf',reply,spawned) ∧
        reply.success = true ∧ rf'.log = caughtUpFollower.log.take 1 ++ delayedRequest.entries ∧
        rf'.log.length < caughtUpFollower.log.length ∧ rf'.logAt 2 = none :=
  have wf : LogWellFormed caughtUpFollower := ⟨by decide,by decide,by decide,by decide,nofun⟩
  ⟨wf,by decide,Raft.appendEntries_shortens wf (by decide) rfl rfl rfl rfl (by decide)⟩
/-- Replica 0 wins term 1 and sends replica 1 an empty heartbeat with
`PrevLogIndex = 0`, which stays in flight; it then replicates and commits command 1,
replica 1 applies it and the service snapshots at index 1. -/
def snapshotBeforeHeartbeat : List (Action Nat Unit) :=
  [.runSwitch 0,.runTimeout 0,.runPersist 0,.runPersist 0,.runPersist 0,.runPersist 0,.runSwitch 0,.runCandidate 0,
   .broadcastRequestVote 0 0,.broadcastRequestVote 0 0,.broadcastRequestVote 0 0,
   .broadcastRequestVote 0 0,.broadcastRequestVote 0 0,
   .deliver 0,.complete 0,.fail 0,.runReceive 0 .winElect,
   .runSwitch 0,.broadcastHeartbeat 0,.fail 1,.start 0 1,.runSwitch 0,.broadcastHeartbeat 0,.fail 2,
   .deliver 1,.complete 1,.applyLog 0,.runSwitch 0,.broadcastHeartbeat 0,.fail 2,.deliver 1,.complete 1,
   .applyLog 1,.createSnapshot 1 () 1]

theorem empty_heartbeat_empties_log :
    ∃ s : Cluster Nat Unit, Reachable 3 s ∧ ∃ node ∈ s.nodes[1]?, ¬ LogWellFormed node.raft := by
  refine ⟨_,Reachable.replay (snapshotBeforeHeartbeat ++ [.deliver 0]) (by decide),
    _,Option.get_mem (by decide),fun wellFormed => wellFormed.nonempty ?_⟩
  decide

/-! ### The snapshot beside the log -/

/-- In each replica's persister, the log saved beside a snapshot starts at the snapshot's
header `(lastIncludedIndex, lastIncludedTerm)`. -/
def SnapshotAgrees (s : Cluster C K) : Prop :=
  ∀ node ∈ s.nodes, ∀ snapshot ∈ node.raft.persister.snapshot, ∃ saved ∈ node.raft.persister.raftstate,
    saved.log.head?.map (fun e => (e.index,e.term)) = some (snapshot.lastIncludedIndex,snapshot.lastIncludedTerm)

instance (s : Cluster C K) : Decidable (SnapshotAgrees s) :=
  inferInstanceAs (Decidable (∀ node ∈ s.nodes, _))

/-- After replica 1 snapshots at index 1, the delayed heartbeat empties its log, and the
handler's deferred `persist` saves the empty log beside the snapshot. -/
theorem empty_heartbeat_splits_snapshot :
    ∃ s : Cluster Nat Unit, Reachable 3 s ∧ ¬ SnapshotAgrees s :=
  ⟨_,Reachable.replay (snapshotBeforeHeartbeat ++ [.deliver 0]) (by decide),by decide⟩

/-! ### The apply channel -/

/-- The index a message on the apply channel stands for. -/
def ApplyMsg.index (m : ApplyMsg C K) : Nat :=
  if m.useSnapshot then (m.snapshot.map (·.lastIncludedIndex)).getD 0 else m.commandIndex

/-- Each command message follows the previous message's index by one; each
snapshot message lies above it. -/
def applyOrdered : Nat → List (ApplyMsg C K) → Prop
  | _, [] => True
  | previous, m :: rest =>
    (if m.useSnapshot then previous < m.index else m.index = previous + 1) ∧ applyOrdered m.index rest

/-- Every instance's apply stream is ordered, and a pending `applyLog` never reads
past the end of the log. -/
def ApplyChannelOrder (C K : Type) (n : Nat) : Prop :=
  ∀ s : Cluster C K, Reachable n s → ∀ i : Nat, ∀ node : Node C K, node ∈ s.nodes[i]? →
    applyOrdered 0 node.raft.chanApply ∧ (0 < node.applyLogs → node.raft.applyLog.isSome)

theorem stale_append_panics_apply_log : ¬ ApplyChannelOrder Nat Unit 3 := by
  intro ordered
  have reads := (ordered _ (Reachable.replay (leaderAppends ++ leaderCommits ++
    commitReachesFollower ++ staleArrives) (by decide)) 1 _ (Option.get_mem (by decide))).2 (by decide)
  revert reads
  decide

end Sentinel
