import Sentinel.Raft.Cluster

/-! Persistence in `raft.go`. Every locked section that changes `currentTerm`, `votedFor` or
`log` ends in `persist()` or `SaveStateAndSnapshot`, and `Make` persists what it read back. But
`Run`'s follower timeout calls `persist()` without the lock: it reads the term, the vote and the
log one after the other while handlers run, and then saves what it read over whatever a handler
saved in between. So the persister need not hold the replica's `getRaftState()`; what holds in
every reachable state is that it is never ahead of the replica: its term is at most the
replica's, and a vote it holds for the replica's own term is the replica's vote. Along a run in
which a replica does not crash, its term never goes down and within a term its vote stays. A
crash restarts it from its persister, which a stale save can leave in an older term. -/

namespace Sentinel

variable {C K : Type}

namespace Raft

/-- What a replica keeps across a step other than its own crash: its term does not go down,
and within a term its vote, once cast, does not change. -/
structure Keeps (rf rf' : Raft C K) : Prop where
  term : rf.currentTerm ≤ rf'.currentTerm
  vote : rf'.currentTerm = rf.currentTerm → ∀ c, rf.votedFor = some c → rf'.votedFor = some c

/-- The persister holds `rf.getRaftState()`, as after `persist()`. -/
def Durable (rf : Raft C K) : Prop := rf.persister.raftstate = some rf.getRaftState

/-- A term and a vote the replica is not behind: the term is at most the replica's, and a vote
for the replica's own term is the replica's vote. -/
structure Below (savedTerm : Nat) (savedVote : Option Nat) (rf : Raft C K) : Prop where
  term : savedTerm ≤ rf.currentTerm
  vote : rf.currentTerm = savedTerm → ∀ c, savedVote = some c → rf.votedFor = some c

/-- The persister holds a state the replica is not behind. -/
def Saved (rf : Raft C K) : Prop :=
  ∃ state, rf.persister.raftstate = some state ∧ rf.Below state.currentTerm state.votedFor

/-- A locked section took `rf` to `rf'`: it kept what `rf` had, and kept the persister below. -/
structure Advances (rf rf' : Raft C K) : Prop where
  keeps : rf.Keeps rf'
  saved : rf.Saved → rf'.Saved

/-- Every replica a section returns in `o` satisfies `P`. -/
def Ensures {α : Type} (P : Raft C K → Prop) (o : Option (Raft C K × α)) : Prop :=
  ∀ rf a, o = some (rf,a) → P rf

section Keeps

variable {rf rf' rf'' : Raft C K} {term : Nat} {vote : Option Nat}

theorem Keeps.of_eq (term : rf'.currentTerm = rf.currentTerm) (vote : rf'.votedFor = rf.votedFor) :
    rf.Keeps rf' :=
  ⟨term.ge,fun _ _ voted => vote.trans voted⟩

theorem Keeps.of_lt (lt : rf.currentTerm < rf'.currentTerm) : rf.Keeps rf' :=
  ⟨lt.le,fun same => absurd same (Nat.ne_of_gt lt)⟩

theorem Below.keeps (below : rf.Below term vote) (keeps : rf.Keeps rf') : rf'.Below term vote := by
  refine ⟨below.term.trans keeps.term,fun same c voted => ?_⟩
  have back : rf.currentTerm = term := by have := below.term; have := keeps.term; omega
  exact keeps.vote (by omega) c (below.vote back c voted)

theorem Keeps.trans (first : rf.Keeps rf') (second : rf'.Keeps rf'') : rf.Keeps rf'' := by
  refine ⟨first.term.trans second.term,fun same c voted => ?_⟩
  have back : rf'.currentTerm = rf.currentTerm := by have := first.term; have := second.term; omega
  exact second.vote (by omega) c (first.vote back c voted)

private theorem keeps_updateTerm (rf : Raft C K) (term : Nat) : rf.Keeps (rf.updateTerm term) := by
  unfold updateTerm
  split_ifs with higher
  · exact .of_lt higher
  · exact .of_eq rfl rfl

theorem Keeps.vote_for {candidate : Nat} (free : rf.votedFor = none ∨ rf.votedFor = some candidate)
    (term : rf'.currentTerm = rf.currentTerm) (vote : rf'.votedFor = some candidate) : rf.Keeps rf' := by
  refine ⟨term.ge,fun _ c voted => ?_⟩
  rcases free with free | free <;> rw [free] at voted
  · cases voted
  · rw [vote,voted]

theorem Saved.keep (saved : rf.Saved) (raftstate : rf'.persister.raftstate = rf.persister.raftstate)
    (keeps : rf.Keeps rf') : rf'.Saved :=
  let ⟨state,found,below⟩ := saved
  ⟨state,raftstate.trans found,below.keeps keeps⟩

theorem Advances.frame (raftstate : rf'.persister.raftstate = rf.persister.raftstate) (keeps : rf.Keeps rf') :
    rf.Advances rf' :=
  ⟨keeps,fun saved => saved.keep raftstate keeps⟩

theorem Durable.saved (durable : rf.Durable) : rf.Saved := ⟨_,durable,le_rfl,fun _ _ voted => voted⟩

theorem Advances.persisted (durable : rf'.Durable) (keeps : rf.Keeps rf') : rf.Advances rf' :=
  ⟨keeps,fun _ => durable.saved⟩

theorem Advances.refl (rf : Raft C K) : rf.Advances rf := .frame rfl (.of_eq rfl rfl)

theorem Advances.trans (first : rf.Advances rf') (second : rf'.Advances rf'') : rf.Advances rf'' :=
  ⟨first.keeps.trans second.keeps,second.saved ∘ first.saved⟩

end Keeps

@[simp] theorem persist_durable (rf : Raft C K) : rf.persist.Durable := rfl

@[simp] theorem saveStateAndSnapshot_durable (rf : Raft C K) (snapshot : Option (Snapshot K)) :
    (rf.saveStateAndSnapshot snapshot).Durable := rfl

section Ensures

variable {α β : Type} {P : Raft C K → Prop}

@[simp] theorem ensures_some {p : Raft C K × α} : Ensures P (some p) ↔ P p.1 :=
  ⟨fun h => h p.1 p.2 rfl,fun h _ _ found => by cases found; exact h⟩

@[simp] theorem ensures_none : Ensures P (none : Option (Raft C K × α)) := fun _ _ found => by cases found

@[simp] theorem ensures_bind {o : Option β} {f : β → Option (Raft C K × α)} :
    Ensures P (o.bind f) ↔ ∀ x, o = some x → Ensures P (f x) := by
  constructor
  · intro h x found rf a result
    exact h rf a (by rw [found]; exact result)
  · intro h rf a result
    obtain ⟨x,found,result⟩ := Option.bind_eq_some.1 result
    exact h x found rf a result

@[simp] theorem ensures_map {o : Option β} {f : β → Raft C K × α} :
    Ensures P (o.map f) ↔ ∀ x, o = some x → P (f x).1 := by
  cases o <;> simp

@[simp] theorem ensures_ite {c : Prop} [Decidable c] {t e : Option (Raft C K × α)} :
    Ensures P (if c then t else e) ↔ (c → Ensures P t) ∧ (¬ c → Ensures P e) := by
  split_ifs with h <;> simp [h]

end Ensures

/-! ### Each locked section -/

variable {rf : Raft C K}

private theorem requestVote_advances (args : RequestVoteArgs) : Ensures (rf.Advances ·) (rf.requestVote args) := by
  have keeps := keeps_updateTerm rf args.term
  have refused : rf.Advances (rf.updateTerm args.term).persist := .persisted rfl (keeps.trans (.of_eq rfl rfl))
  simp only [requestVote,ensures_ite,ensures_some,ensures_bind]
  refine ⟨fun _ => .persisted rfl (.of_eq rfl rfl),
    fun _ => ⟨fun free _ _ _ _ => ⟨fun _ => ?_,fun _ => refused⟩,fun _ => refused⟩⟩
  exact .persisted rfl (keeps.trans (.vote_for free rfl rfl))

private theorem checkPrev_keeps (args : AppendEntriesArgs C) (base : Nat) :
    Ensures (fun rf' => rf'.Durable ∧ rf'.currentTerm = rf.currentTerm ∧ rf'.votedFor = rf.votedFor)
      (rf.checkPrev args base) := by
  simp [checkPrev,appendFrom]

private theorem appendEntries_advances (args : AppendEntriesArgs C) : Ensures (rf.Advances ·) (rf.appendEntries args) := by
  have keeps := keeps_updateTerm rf args.term
  simp only [appendEntries,ensures_ite,ensures_map,ensures_bind,ensures_some]
  refine ⟨fun _ _ _ => .persisted rfl (.of_eq rfl rfl),
    fun _ _ _ => ⟨fun _ => .persisted rfl (keeps.trans (.of_eq rfl rfl)),fun _ base _ rf' a found => ?_⟩⟩
  obtain ⟨durable,term,vote⟩ := checkPrev_keeps args base rf' a found
  exact .persisted durable (keeps.trans (.of_eq term vote))

private theorem installSnapshot_advances (args : InstallSnapshotArgs K) : rf.Advances (rf.installSnapshot args).1 := by
  simp only [installSnapshot]
  split_ifs
  all_goals first
    | exact .frame rfl (.of_eq rfl rfl)
    | exact .persisted rfl (.of_eq rfl rfl)
    | exact .persisted rfl (.of_lt (by simp; omega))

private theorem handle_advances (rpc : Rpc C K) : Ensures (rf.Advances ·) (rf.handle rpc) := by
  cases rpc with
  | requestVote args => simpa [handle] using requestVote_advances args
  | appendEntries args =>
    simp only [handle,ensures_map]
    exact fun ⟨rf',reply,spawned⟩ found => appendEntries_advances args rf' (reply,spawned) found
  | installSnapshot args => simpa [handle] using installSnapshot_advances args

private theorem sendRequestVote_advances (args : RequestVoteArgs) (reply : Option RequestVoteReply) :
    ∀ rf', rf.sendRequestVote args reply = some rf' → rf.Advances rf' := by
  cases reply with
  | none => rintro _ ⟨⟩; exact .persisted rfl (.of_eq rfl rfl)
  | some reply =>
    simp only [sendRequestVote]
    split_ifs with stale higher granted won <;> rintro _ found
    · cases found; exact .persisted rfl (.of_eq rfl rfl)
    · cases found; exact .persisted rfl (.of_lt higher)
    · obtain ⟨_,_,rfl⟩ := Option.map_eq_some'.1 found; exact .persisted rfl (.of_eq rfl rfl)
    all_goals cases found; exact .persisted rfl (.of_eq rfl rfl)

private theorem trackReply_advances {server : Nat} {args : AppendEntriesArgs C} {reply : AppendEntriesReply}
    {rf' : Raft C K} (tracked : rf.trackReply server args reply = some rf') : rf.Advances rf' := by
  unfold trackReply at tracked
  split_ifs at tracked
  · cases tracked; split <;> exact .frame rfl (.of_eq rfl rfl)
  · obtain ⟨_,_,rfl⟩ := Option.map_eq_some'.1 tracked; exact .frame rfl (.of_eq rfl rfl)

private theorem commitPhase_advances : Ensures (rf.Advances ·) rf.commitPhase := by
  simp only [commitPhase,ensures_bind,ensures_map]
  intro _ _ _ _ n _
  cases n <;> exact .frame rfl (.of_eq rfl rfl)

private theorem sendAppendEntries_advances (server : Nat) (args : AppendEntriesArgs C) (reply : Option AppendEntriesReply) :
    Ensures (rf.Advances ·) (rf.sendAppendEntries server args reply) := by
  cases reply with
  | none => simpa [sendAppendEntries] using Advances.refl rf
  | some reply =>
    simp only [sendAppendEntries,ensures_ite,ensures_some,ensures_bind]
    refine ⟨fun _ => .refl rf,fun _ => ⟨fun higher => .persisted rfl (.of_lt higher),fun _ rf' tracked => ?_⟩⟩
    exact fun rf'' a found => (trackReply_advances tracked).trans (commitPhase_advances rf'' a found)

private theorem sendInstallSnapshot_advances (server : Nat) (args : InstallSnapshotArgs K)
    (reply : Option InstallSnapshotReply) : rf.Advances (rf.sendInstallSnapshot server args reply) := by
  cases reply with
  | none => exact .refl rf
  | some reply =>
    simp only [sendInstallSnapshot]
    split_ifs with stale higher
    · exact .refl rf
    · exact .persisted rfl (.of_lt higher)
    · exact .frame rfl (.of_eq rfl rfl)

private theorem receive_advances (server : Nat) (rpc : Rpc C K) (reply : Option RpcReply) :
    Ensures (rf.Advances ·) (rf.receive server rpc reply) := by
  unfold receive
  split <;> first
    | exact ensures_map.2 fun rf' sent => sendRequestVote_advances _ _ rf' sent
    | exact sendAppendEntries_advances server _ _
    | (simp only [ensures_some]; exact sendInstallSnapshot_advances server _ _)

private theorem start_advances (command : C) : Ensures (rf.Advances ·) (rf.start command) := by
  simp only [start,ensures_ite,ensures_map,ensures_some]
  exact ⟨fun _ _ _ => .persisted rfl (.of_eq rfl rfl),fun _ => .refl rf⟩

private theorem createSnapshot_advances (kvSnapshot : K) (index : Nat) :
    ∀ rf', rf.createSnapshot kvSnapshot index = some rf' → rf.Advances rf' := by
  simp only [createSnapshot,Option.bind_eq_some]
  rintro rf' ⟨base,-,last,-,created⟩
  split_ifs at created
  · cases created; exact .refl rf
  · obtain ⟨entry,-,rfl⟩ := Option.map_eq_some'.1 created
    exact .persisted rfl (.of_eq rfl rfl)

private theorem applyLog_advances : ∀ rf', rf.applyLog = some rf' → rf.Advances rf' := by
  simp only [applyLog,Option.bind_eq_some,Option.map_eq_some']
  rintro _ ⟨_,_,_,_,rfl⟩
  exact .frame rfl (.of_eq rfl rfl)

private theorem make_saved (peers me : Nat) (persister : Persister C K) : (make peers me persister).Saved :=
  Durable.saved rfl

end Raft

/-! ### The steps of `Run` and of the cluster -/

namespace Persisting

/-- The fields `persist()` has read so far are below the replica. -/
def Behind : Persisting C → Raft C K → Prop
  | .encodeTerm, _ => True
  | .encodeVote term, rf => term ≤ rf.currentTerm
  | .encodeLog term vote, rf => rf.Below term vote
  | .save state, rf => rf.Below state.currentTerm state.votedFor

theorem Behind.keeps {p : Persisting C} {rf rf' : Raft C K} (behind : p.Behind rf) (keeps : rf.Keeps rf') :
    p.Behind rf' := by
  cases p with
  | encodeTerm => trivial
  | encodeVote => exact Nat.le_trans behind keeps.term
  | encodeLog | save => exact Raft.Below.keeps behind keeps

end Persisting

namespace Node

/-- The persister is below the replica, and so is what `Run`'s `persist()` has read. -/
structure Saved (node : Node C K) : Prop where
  raft : node.raft.Saved
  persisting : node.persisting.Behind node.raft

/-- What a step other than its crash does to a replica: it keeps its term and its vote, and
keeps it saved. -/
structure Advances (node node' : Node C K) : Prop where
  keeps : node.raft.Keeps node'.raft
  saved : node.Saved → node'.Saved

variable {node node' : Node C K}

theorem Advances.of_raft (advanced : node.raft.Advances node'.raft) (persisting : node'.persisting = node.persisting) :
    node.Advances node' :=
  ⟨advanced.keeps,fun saved => ⟨advanced.saved saved.raft,persisting ▸ saved.persisting.keeps advanced.keeps⟩⟩

theorem Advances.refl (node : Node C K) : node.Advances node := .of_raft (.refl _) rfl

private theorem runSwitch_advances (switched : node.runSwitch = some node') : node.Advances node' := by
  unfold runSwitch at switched
  split_ifs at switched
  split at switched <;> cases switched <;> exact .of_raft (.refl _) rfl

private theorem runReceive_advances {signal : Signal} (received : node.runReceive signal = some node') :
    node.Advances node' := by
  unfold runReceive at received
  split at received <;> simp only [Option.ite_none_right_eq_some,Option.some.injEq] at received <;>
    obtain ⟨-,rfl⟩ := received <;> exact .of_raft (.frame rfl (.of_eq rfl rfl)) rfl

private theorem runTimeout_advances (timedOut : node.runTimeout = some node') : node.Advances node' := by
  unfold runTimeout at timedOut
  split at timedOut <;> cases timedOut
  · exact ⟨.of_eq rfl rfl,fun saved => ⟨saved.raft.keep rfl (.of_eq rfl rfl),trivial⟩⟩
  · exact .of_raft (.refl _) rfl

private theorem runPersist_advances (persisted : node.runPersist = some node') : node.Advances node' := by
  rcases runPersist_eq_some persisted with ⟨staged,rfl⟩ | ⟨_,staged,rfl⟩ | ⟨_,_,staged,rfl⟩ | ⟨_,staged,rfl⟩ <;>
    refine ⟨.of_eq rfl rfl,fun saved => ?_⟩ <;>
    have behind := saved.persisting <;> simp only [staged,Persisting.Behind] at behind
  · exact ⟨saved.raft,le_rfl⟩
  · exact ⟨saved.raft,behind,fun _ _ voted => voted⟩
  · exact ⟨saved.raft,behind⟩
  · exact ⟨⟨_,rfl,behind.keeps (.of_eq rfl rfl)⟩,trivial⟩

private theorem runCandidate_advances (started : node.runCandidate = some node') : node.Advances node' := by
  unfold runCandidate at started
  split_ifs at started
  cases started
  exact .of_raft (.persisted rfl (.of_lt (Nat.lt_succ_self _))) rfl

private theorem applyLog_advances (applied : node.applyLog = some node') : node.Advances node' := by
  unfold applyLog at applied
  split_ifs at applied
  obtain ⟨rf,found,rfl⟩ := Option.map_eq_some'.1 applied
  exact .of_raft (Raft.applyLog_advances rf found) rfl

private theorem boot_saved (peers me : Nat) (persister : Persister C K) (earlier : List (ApplyMsg C K)) :
    (boot (make peers me persister) earlier).Saved :=
  ⟨Raft.make_saved _ _ _,trivial⟩

end Node

namespace Cluster

/-- Every replica is saved. -/
def Saved (s : Cluster C K) : Prop := ∀ node ∈ s.nodes, node.Saved

/-- Step `a` took `s` to `s'`: every replica is still in its place, the one `a` crashes is
saved, and every other one advanced. -/
structure Advances (a : Action C K) (s s' : Cluster C K) : Prop where
  length : s'.nodes.length = s.nodes.length
  nodes : ∀ (i : Nat) (node : Node C K), s.nodes[i]? = some node →
    ∃ node', s'.nodes[i]? = some node' ∧ (a = .crash i ∧ node'.Saved ∨ node.Advances node')

variable {s s' : Cluster C K} {a : Action C K} {i : Nat} {node : Node C K}

theorem Advances.congr {s'' : Cluster C K} (advanced : Advances a s s') (same : s''.nodes = s'.nodes) :
    Advances a s s'' :=
  ⟨same ▸ advanced.length,fun j node found => same ▸ advanced.nodes j node found⟩

private theorem updateNode_advances {f : Node C K → Option (Node C K)}
    (sound : ∀ node node', s.nodes[i]? = some node → f node = some node' → a = .crash i ∧ node'.Saved ∨ node.Advances node')
    (updated : s.updateNode i f = some s') : Advances a s s' := by
  obtain ⟨node,node',found,changed,rfl⟩ := updateNode_eq_some updated
  refine ⟨List.length_set _ _ _,fun j nj foundJ => ?_⟩
  by_cases same : i = j
  · subst same
    rw [found] at foundJ; cases foundJ
    exact ⟨node',List.getElem?_set_self (List.getElem?_eq_some_iff.1 found).1,sound node node' found changed⟩
  · exact ⟨nj,by rw [List.getElem?_set_ne same]; exact foundJ,.inr (.refl nj)⟩

private theorem updateNode_advances_of_node {f : Node C K → Option (Node C K)}
    (sound : ∀ node node', f node = some node' → node.Advances node') (updated : s.updateNode i f = some s') :
    Advances a s s' :=
  updateNode_advances (fun _ _ _ changed => .inr (sound _ _ changed)) updated

theorem step_advances : ∀ {a : Action C K}, s.step a = some s' → Advances a s s'
  | .runSwitch _, stepped => updateNode_advances_of_node (fun _ _ => Node.runSwitch_advances) stepped
  | .runReceive _ _, stepped => updateNode_advances_of_node (fun _ _ => Node.runReceive_advances) stepped
  | .runTimeout _, stepped => updateNode_advances_of_node (fun _ _ => Node.runTimeout_advances) stepped
  | .runPersist _, stepped => updateNode_advances_of_node (fun _ _ => Node.runPersist_advances) stepped
  | .runCandidate _, stepped => updateNode_advances_of_node (fun _ _ => Node.runCandidate_advances) stepped
  | .applyLog _, stepped => updateNode_advances_of_node (fun _ _ => Node.applyLog_advances) stepped
  | .broadcastHeartbeat _, stepped => by
    obtain ⟨s'',_,updated,rfl⟩ := broadcastHeartbeat_eq_some stepped
    exact (updateNode_advances_of_node (fun _ _ changed => by cases changed; exact .of_raft (.refl _) rfl)
      updated).congr rfl
  | .broadcastRequestVote _ _, stepped => by
    obtain ⟨_,s'',updated,rfl | ⟨_,_,rfl⟩⟩ := broadcastRequestVote_eq_some stepped <;>
      exact (updateNode_advances_of_node (fun _ _ changed => by cases changed; exact .of_raft (.refl _) rfl)
        updated).congr rfl
  | .deliver _, stepped => by
    obtain ⟨call,node,rf,_,_,_,-,-,found,handled,updated,rfl⟩ := deliver_eq_some stepped
    refine (updateNode_advances (fun _ _ found' changed => ?_) updated).congr rfl
    rw [found] at found'; cases found'; cases changed
    exact .inr (.of_raft (Raft.handle_advances call.rpc rf _ handled) rfl)
  | .complete _, stepped | .fail _, stepped => by
    obtain ⟨call,node,rf,_,_,-,found,received,updated,rfl⟩ := complete_eq_some stepped
    refine (updateNode_advances (fun _ _ found' changed => ?_) updated).congr rfl
    rw [found] at found'; cases found'; cases changed
    exact .inr (.of_raft (Raft.receive_advances call.server call.rpc _ rf _ received) rfl)
  | .start _ command, stepped => updateNode_advances_of_node (fun _ _ changed => by
      obtain ⟨⟨rf,index⟩,started,rfl⟩ := Option.map_eq_some'.1 changed
      exact .of_raft (Raft.start_advances command rf index started) rfl) stepped
  | .createSnapshot _ kvSnapshot index, stepped => updateNode_advances_of_node (fun _ _ changed => by
      obtain ⟨rf,created,rfl⟩ := Option.map_eq_some'.1 changed
      exact .of_raft (Raft.createSnapshot_advances kvSnapshot index rf created) rfl) stepped
  | .crash _, stepped => by
    obtain ⟨s'',updated,rfl⟩ := crash_eq_some stepped
    exact (updateNode_advances (fun node _ _ changed => by
      cases changed; exact .inl ⟨rfl,Node.boot_saved _ _ _ _⟩) updated).congr rfl

theorem Advances.saved (advanced : Advances a s s') (saved : s.Saved) : s'.Saved := by
  intro node' mem
  obtain ⟨j,bound,rfl⟩ := List.getElem_of_mem mem
  obtain ⟨_,found,moved⟩ := advanced.nodes j _ (List.getElem?_eq_getElem (advanced.length ▸ bound))
  rw [List.getElem?_eq_getElem bound,Option.some.injEq] at found
  subst found
  rcases moved with ⟨-,restarted⟩ | advanced
  · exact restarted
  · exact advanced.saved (saved _ (List.getElem_mem _))

theorem Advances.keeps (advanced : Advances a s s') (alive : a ≠ .crash i) (found : s.nodes[i]? = some node) :
    ∃ node', s'.nodes[i]? = some node' ∧ node.raft.Keeps node'.raft :=
  let ⟨node',found',moved⟩ := advanced.nodes i node found
  ⟨node',found',(moved.resolve_left fun ⟨crashed,_⟩ => alive crashed).keeps⟩

private theorem runActions_keeps {t : Cluster C K} {actions : List (Action C K)} (alive : Action.crash i ∉ actions)
    (ran : s.runActions actions = some t) (found : s.nodes[i]? = some node) :
    ∃ node', t.nodes[i]? = some node' ∧ node.raft.Keeps node'.raft := by
  induction actions generalizing s node with
  | nil => cases ran; exact ⟨node,found,.of_eq rfl rfl⟩
  | cons a rest ih =>
    obtain ⟨s'',stepped,ran⟩ := Option.bind_eq_some.1 ran
    obtain ⟨node',found',keeps⟩ := (step_advances stepped).keeps (fun same => alive (same ▸ .head _)) found
    obtain ⟨node'',found'',keeps'⟩ := ih (fun mem => alive (.tail _ mem)) ran found'
    exact ⟨node'',found'',keeps.trans keeps'⟩

private theorem init_saved (n : Nat) : (init n : Cluster C K).Saved := by
  intro node mem
  obtain ⟨_,_,rfl⟩ := List.mem_map.1 mem
  exact Node.boot_saved _ _ _ _

end Cluster

theorem Reachable.saved {n : Nat} {s : Cluster C K} (reached : Reachable n s) : s.Saved := by
  induction reached with
  | init => exact Cluster.init_saved n
  | step _ _ stepped saved => exact (Cluster.step_advances stepped).saved saved

/-- Along any run, from any state, in which replica `i` does not crash, its term never goes down. -/
theorem currentTerm_monotone {s t : Cluster C K} {actions : List (Action C K)} {i : Nat} {node : Node C K}
    (alive : Action.crash i ∉ actions) (ran : s.runActions actions = some t) (found : s.nodes[i]? = some node) :
    ∃ node', t.nodes[i]? = some node' ∧ node.raft.currentTerm ≤ node'.raft.currentTerm :=
  let ⟨node',found',keeps⟩ := Cluster.runActions_keeps alive ran found
  ⟨node',found',keeps.term⟩

/-- A lone replica times out as a follower and stands in term 1. -/
def candidacy : List (Action Nat Unit) :=
  [.runSwitch 0,.runTimeout 0,.runPersist 0,.runPersist 0,.runPersist 0,.runPersist 0,.runSwitch 0,.runCandidate 0]

theorem candidacy_keeps_term :
    Action.crash 0 ∉ candidacy ∧ ∃ node', (Cluster.replay 1 candidacy (by decide)).nodes[0]? = some node' ∧
      (Node.boot (make 1 0 ⟨none,none⟩) [] : Node Nat Unit).raft.currentTerm ≤ node'.raft.currentTerm :=
  ⟨by decide,currentTerm_monotone (by decide) (Cluster.runActions_replay _) rfl⟩

/-- Along any run, from any state, in which replica `i` does not crash, while it is still in the
term it voted in it votes for the same candidate. -/
theorem votedFor_stable {s t : Cluster C K} {actions : List (Action C K)} {i : Nat} {node : Node C K}
    {candidate : Nat} (alive : Action.crash i ∉ actions) (ran : s.runActions actions = some t)
    (found : s.nodes[i]? = some node) (voted : node.raft.votedFor = some candidate) :
    ∃ node', t.nodes[i]? = some node' ∧
      (node'.raft.currentTerm = node.raft.currentTerm → node'.raft.votedFor = some candidate) :=
  let ⟨node',found',keeps⟩ := Cluster.runActions_keeps alive ran found
  ⟨node',found',fun same => keeps.vote same candidate voted⟩

theorem candidacy_keeps_vote :
    ∃ node, (Cluster.replay 1 candidacy (by decide)).nodes[0]? = some node ∧ node.raft.votedFor = some 0 ∧
      (.crash 0 : Action Nat Unit) ∉ [.runTimeout 0,.runSwitch 0] ∧
      ∃ node', (Cluster.replay 1 (candidacy ++ [.runTimeout 0,.runSwitch 0]) (by decide)).nodes[0]? = some node' ∧
        (node'.raft.currentTerm = node.raft.currentTerm → node'.raft.votedFor = some 0) := by
  obtain ⟨node,found⟩ : ∃ node, (Cluster.replay 1 candidacy (by decide)).nodes[0]? = some node :=
    ⟨_,Option.eq_some_of_isSome (by decide)⟩
  have voted : node.raft.votedFor = some 0 := by
    have vote : ((Cluster.replay 1 candidacy (by decide)).nodes[0]?).map (·.raft.votedFor) = some (some 0) := by
      decide
    rw [found] at vote
    exact Option.some.inj vote
  exact ⟨node,found,voted,by decide,votedFor_stable (by decide) (Cluster.replay_runActions _ _) found voted⟩

/-- In every state any interleaving from `Make` reaches (lost and late RPCs, crashes), each
replica's persister holds a term, a vote and a log, and is never ahead of the replica: the saved
term is at most the replica's, and a vote saved for the replica's own term is the replica's vote. -/
theorem persister_below_raft_state {n : Nat} {s : Cluster C K} (reached : Reachable n s) :
    ∀ node ∈ s.nodes, ∃ state, node.raft.persister.raftstate = some state ∧
      state.currentTerm ≤ node.raft.currentTerm ∧
      (node.raft.currentTerm = state.currentTerm → ∀ c, state.votedFor = some c → node.raft.votedFor = some c) := by
  intro node mem
  obtain ⟨state,found,below⟩ := (reached.saved node mem).raft
  exact ⟨state,found,below.term,below.vote⟩

/-- Replica 0's `Run` times out and its `persist()` reads term 0; replica 1 stands in term 1 and
replica 0 grants it its vote, persisting term 1; `persist()` then reads the vote and the log and
saves term 0 over it. -/
def stalePersist : List (Action Nat Unit) :=
  [.runSwitch 0,.runTimeout 0,.runPersist 0,
   .runSwitch 1,.runTimeout 1,.runPersist 1,.runPersist 1,.runPersist 1,.runPersist 1,.runSwitch 1,.runCandidate 1,
   .broadcastRequestVote 1 0,.broadcastRequestVote 1 0,.deliver 0,
   .runPersist 0,.runPersist 0,.runPersist 0]

theorem stalePersist_persister_below_raft_state :
    ∃ node, (Cluster.replay 2 stalePersist (by decide)).nodes[0]? = some node ∧
      ∃ state, node.raft.persister.raftstate = some state ∧ state.currentTerm ≤ node.raft.currentTerm ∧
        (node.raft.currentTerm = state.currentTerm → ∀ c, state.votedFor = some c → node.raft.votedFor = some c) := by
  obtain ⟨node,found⟩ : ∃ node, (Cluster.replay 2 stalePersist (by decide)).nodes[0]? = some node :=
    ⟨_,Option.eq_some_of_isSome (by decide)⟩
  exact ⟨node,found,persister_below_raft_state (Reachable.replay _ _) node (List.getElem?_mem found)⟩

end Sentinel
