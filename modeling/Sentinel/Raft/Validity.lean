import Sentinel.Raft.Durability
import Sentinel.Raft.Holds
import Sentinel.Raft.Replication

/-! Validity in `raft.go`: a command gets into a log, a request or the apply channel only
through `Start`. The handlers append the entries of a request and keep entries of their own log,
`trimLog` and `recoverFromSnapshot` write a sentinel with no command, the caller's side of the
RPCs and the steps of `Run` write neither the log nor the apply channel, `Run`'s `persist()`
saves a log it read from the replica, `applyLog` sends commands of the log, and a restart reads
back a log the replica persisted. So along any run
from `Make`, every command a replica holds or has sent on its apply channel was given to
`Start` in that run, whatever the bugs of the replication code do to the order and the number
of copies. -/

namespace Sentinel

variable {C K : Type}

/-- The command of an entry or a message, if it has one, is one `P` admits. -/
def Admits (P : C → Prop) (command : Option C) : Prop := ∀ c, command = some c → P c

private theorem admits_none (P : C → Prop) : Admits P none := nofun

theorem Admits.mono {P Q : C → Prop} {command : Option C} (admits : Admits P command) (le : ∀ c, P c → Q c) :
    Admits Q command :=
  fun c same => le c (admits c same)

/-- The commands a request carries: the entries of an `AppendEntries`. -/
def Rpc.Valid (P : C → Prop) : Rpc C K → Prop
  | .requestVote _ => True
  | .appendEntries args => ∀ e ∈ args.entries, Admits P e.command
  | .installSnapshot _ => True

section Sentinels

variable {P : C → Prop}

theorem Rpc.Valid.mono {Q : C → Prop} {rpc : Rpc C K} (valid : rpc.Valid P) (le : ∀ c, P c → Q c) : rpc.Valid Q := by
  cases rpc with
  | appendEntries args => exact fun e mem => (valid e mem).mono le
  | _ => trivial

private theorem trimLog_admits {log : List (LogEntry C)} {index term : Nat} {e : LogEntry C}
    (mem : e ∈ trimLog log index term) : e ∈ log ∨ Admits P e.command := by
  rcases mem_trimLog mem with rfl | old
  · exact .inr (admits_none P)
  · exact .inl old

private theorem snapshotMsg_admits {msgs : List (ApplyMsg C K)} {snapshot : Option (Snapshot K)} {msg : ApplyMsg C K}
    (mem : msg ∈ msgs ++ [Raft.snapshotMsg snapshot]) : msg ∈ msgs ∨ Admits P msg.command :=
  (List.mem_append.1 mem).imp_right fun new => by cases List.mem_singleton.1 new; exact admits_none P

end Sentinels

namespace Raft

/-- What the caller's side of an RPC keeps: it writes neither the log, the snapshot nor the
apply channel, takes no term back, and persists nothing but its own log. -/
structure KeepsLog (rf rf' : Raft C K) : Prop where
  term : rf.currentTerm ≤ rf'.currentTerm
  log : rf'.log = rf.log
  snapshot : rf'.persister.snapshot = rf.persister.snapshot
  applied : rf'.chanApply = rf.chanApply
  persisted : ∀ data, rf'.persister.raftstate = some data → rf.persister.raftstate = some data ∨ data.log = rf.log

section KeepsLog

variable {rf rf' : Raft C K}

theorem KeepsLog.frame (term : rf.currentTerm ≤ rf'.currentTerm) (log : rf'.log = rf.log)
    (persister : rf'.persister = rf.persister) (applied : rf'.chanApply = rf.chanApply) : rf.KeepsLog rf' :=
  ⟨term,log,by rw [persister],applied,fun _ found => .inl (persister ▸ found)⟩

theorem KeepsLog.refl (rf : Raft C K) : rf.KeepsLog rf := .frame le_rfl rfl rfl rfl

theorem KeepsLog.trans {rf'' : Raft C K} (first : rf.KeepsLog rf') (second : rf'.KeepsLog rf'') : rf.KeepsLog rf'' :=
  ⟨first.term.trans second.term,second.log.trans first.log,second.snapshot.trans first.snapshot,
    second.applied.trans first.applied,fun data found =>
      (second.persisted data found).elim (first.persisted data) fun own => .inr (own.trans first.log)⟩

theorem KeepsLog.persist (kept : rf.KeepsLog rf') : rf.KeepsLog rf'.persist := by
  refine ⟨kept.term,kept.log,kept.snapshot,kept.applied,fun data found => .inr ?_⟩
  cases found
  exact kept.log

theorem keepsLog_updateTerm (rf : Raft C K) (term : Nat) : rf.KeepsLog (rf.updateTerm term) :=
  .frame ((le_max_left _ _).trans_eq (updateTerm_currentTerm rf term).symm) (by simp)
    (by unfold Raft.updateTerm; split <;> rfl) (by unfold Raft.updateTerm; split <;> rfl)

end KeepsLog

variable {rf : Raft C K}

theorem requestVote_keepsLog (args : RequestVoteArgs) : Ensures (rf.KeepsLog ·) (rf.requestVote args) := by
  have up := keepsLog_updateTerm rf args.term
  simp only [requestVote,ensures_ite,ensures_some,ensures_bind]
  exact ⟨fun _ => (KeepsLog.refl rf).persist,fun _ => ⟨fun _ _ _ _ _ =>
    ⟨fun _ => KeepsLog.persist (up.trans (.frame le_rfl rfl rfl rfl)),fun _ => up.persist⟩,fun _ => up.persist⟩⟩

theorem receive_keepsLog (server : Nat) (rpc : Rpc C K) (reply : Option RpcReply) :
    Ensures (rf.KeepsLog ·) (rf.receive server rpc reply) := by
  have stepDown : ∀ term, rf.currentTerm < term → rf.KeepsLog (rf.stepDown term).persist :=
    fun _ higher => KeepsLog.persist (.frame higher.le rfl rfl rfl)
  have voted : ∀ args reply, ∀ rf', rf.sendRequestVote args reply = some rf' → rf.KeepsLog rf' := by
    intro args reply
    cases reply with
    | none => rintro _ ⟨⟩; exact (KeepsLog.refl rf).persist
    | some reply =>
      simp only [sendRequestVote]
      split_ifs with stale higher <;> rintro _ found
      · cases found; exact (KeepsLog.refl rf).persist
      · cases found; exact stepDown _ higher
      · obtain ⟨_,_,rfl⟩ := Option.map_eq_some'.1 found; exact KeepsLog.persist (.frame le_rfl rfl rfl rfl)
      all_goals cases found; exact KeepsLog.persist (.frame le_rfl rfl rfl rfl)
  have appended : ∀ args reply, Ensures (rf.KeepsLog ·) (rf.sendAppendEntries server args reply) := by
    intro args reply
    cases reply with
    | none => simpa [sendAppendEntries] using KeepsLog.refl rf
    | some reply =>
      simp only [sendAppendEntries,ensures_ite,ensures_some,ensures_bind]
      refine ⟨fun _ => .refl rf,fun _ => ⟨stepDown _,fun _ rf' tracked => ?_⟩⟩
      have tracked : rf.KeepsLog rf' := by
        unfold trackReply at tracked
        split_ifs at tracked
        · cases tracked; split <;> exact .frame le_rfl rfl rfl rfl
        · obtain ⟨_,_,rfl⟩ := Option.map_eq_some'.1 tracked; exact .frame le_rfl rfl rfl rfl
      simp only [commitPhase,ensures_bind,ensures_map]
      intro _ _ _ _ n _
      cases n <;> exact tracked.trans (.frame le_rfl rfl rfl rfl)
  have installed : ∀ args reply, rf.KeepsLog (rf.sendInstallSnapshot server args reply) := by
    intro args reply
    cases reply with
    | none => exact .refl rf
    | some reply =>
      simp only [sendInstallSnapshot]
      split_ifs with stale higher
      · exact .refl rf
      · exact stepDown _ higher
      · exact .frame le_rfl rfl rfl rfl
  unfold receive
  split <;> first
    | exact ensures_map.2 fun rf' sent => voted _ _ rf' sent
    | exact appended _ _
    | (simp only [ensures_some]; exact installed _ _)

/-- Every command the replica holds is one `P` admits: in its log, in the log its persister
keeps, and on its apply channel. -/
structure Valid (P : C → Prop) (rf : Raft C K) : Prop where
  log : ∀ e ∈ rf.log, Admits P e.command
  persisted : ∀ data, rf.persister.raftstate = some data → ∀ e ∈ data.log, Admits P e.command
  applied : ∀ msg ∈ rf.chanApply, Admits P msg.command

section Valid

variable {P : C → Prop} {rf' : Raft C K}

theorem Valid.of_sub (valid : rf.Valid P) (log : ∀ e ∈ rf'.log, e ∈ rf.log ∨ Admits P e.command)
    (persisted : ∀ data, rf'.persister.raftstate = some data → rf.persister.raftstate = some data ∨ data.log = rf'.log)
    (applied : ∀ msg ∈ rf'.chanApply, msg ∈ rf.chanApply ∨ Admits P msg.command) : rf'.Valid P where
  log e mem := (log e mem).elim (valid.log e) id
  persisted data found := (persisted data found).elim (valid.persisted data) fun own e mem =>
    (log e (own ▸ mem)).elim (valid.log e) id
  applied msg mem := (applied msg mem).elim (valid.applied msg) id

theorem Valid.frame (valid : rf.Valid P) (log : rf'.log = rf.log)
    (raftstate : rf'.persister.raftstate = rf.persister.raftstate) (applied : rf'.chanApply = rf.chanApply) :
    rf'.Valid P :=
  valid.of_sub (fun _ mem => .inl (log ▸ mem)) (fun _ found => .inl (raftstate ▸ found))
    fun _ mem => .inl (applied ▸ mem)

theorem Valid.persist (valid : rf.Valid P) : rf.persist.Valid P :=
  valid.of_sub (fun _ mem => .inl mem) (fun _ found => .inr (by cases found; rfl)) fun _ mem => .inl mem

theorem Valid.mono {Q : C → Prop} (valid : rf.Valid P) (le : ∀ c, P c → Q c) : rf.Valid Q :=
  ⟨fun e mem => (valid.log e mem).mono le,fun data found e mem => (valid.persisted data found e mem).mono le,
    fun msg mem => (valid.applied msg mem).mono le⟩

theorem Valid.keepsLog (valid : rf.Valid P) (kept : rf.KeepsLog rf') : rf'.Valid P :=
  valid.of_sub (fun _ mem => .inl (kept.log ▸ mem))
    (fun data found => (kept.persisted data found).imp_right fun own => own.trans kept.log.symm)
    fun _ mem => .inl (kept.applied ▸ mem)

/-! ### The handlers -/

private theorem appendFrom_valid (valid : rf.Valid P) {args : AppendEntriesArgs C}
    (entries : ∀ e ∈ args.entries, Admits P e.command) (base : Nat) :
    Ensures (·.Valid P) (rf.appendFrom args base) := by
  simp only [appendFrom,ensures_ite,ensures_bind,ensures_map,ensures_some]
  refine ⟨fun _ kept sliced => ?_,fun _ => valid.persist⟩
  have extended : ({ rf with log := kept ++ args.entries } : Raft C K).Valid P :=
    valid.of_sub (fun e mem => (List.mem_append.1 mem).imp (fun old => sliceTo_subset sliced old) (entries e))
      (fun _ found => .inl found) fun _ mem => .inl mem
  exact ⟨fun _ _ _ => Valid.persist (extended.frame rfl rfl rfl),fun _ => extended.persist⟩

private theorem checkPrev_valid (valid : rf.Valid P) {args : AppendEntriesArgs C}
    (entries : ∀ e ∈ args.entries, Admits P e.command) (base : Nat) :
    Ensures (·.Valid P) (rf.checkPrev args base) := by
  have appended := appendFrom_valid valid entries base
  simp only [checkPrev,ensures_ite,ensures_bind,ensures_map]
  exact ⟨fun _ _ _ => ⟨fun _ _ _ => valid.persist,fun _ => appended⟩,fun _ => appended⟩

private theorem appendEntries_valid (valid : rf.Valid P) {args : AppendEntriesArgs C}
    (entries : ∀ e ∈ args.entries, Admits P e.command) : Ensures (·.Valid P) (rf.appendEntries args) := by
  have up : ({ rf.updateTerm args.term with chanHeartbeat := (rf.updateTerm args.term).chanHeartbeat + 1 } :
      Raft C K).Valid P := (valid.keepsLog (keepsLog_updateTerm rf args.term)).frame rfl rfl rfl
  simp only [appendEntries,ensures_ite,ensures_map,ensures_bind,ensures_some]
  exact ⟨fun _ _ _ => valid.persist,fun _ _ _ => ⟨fun _ => up.persist,fun _ base _ => checkPrev_valid up entries base⟩⟩

private theorem installSnapshot_valid (valid : rf.Valid P) (args : InstallSnapshotArgs K) :
    (rf.installSnapshot args).1.Valid P := by
  unfold installSnapshot
  by_cases stale : args.term < rf.currentTerm
  · rw [if_pos stale]; exact valid
  rw [if_neg stale]
  dsimp only
  have stepped : (if rf.currentTerm < args.term then (rf.stepDown args.term).persist else rf).Valid P := by
    split_ifs
    · exact Valid.persist (valid.frame rfl rfl rfl)
    · exact valid
  generalize (if rf.currentTerm < args.term then (rf.stepDown args.term).persist else rf) = rf' at *
  split_ifs
  · exact stepped.of_sub (fun _ mem => trimLog_admits mem) (fun _ found => .inr (by cases found; rfl))
      fun _ mem => snapshotMsg_admits mem
  · exact stepped.frame rfl rfl rfl

private theorem handle_valid (valid : rf.Valid P) {rpc : Rpc C K} (sent : rpc.Valid P) :
    Ensures (·.Valid P) (rf.handle rpc) := by
  cases rpc with
  | requestVote args =>
    simp only [handle,ensures_map]
    exact fun ⟨rf',reply⟩ found => valid.keepsLog (requestVote_keepsLog args rf' reply found)
  | appendEntries args =>
    simp only [handle,ensures_map]
    exact fun ⟨rf',reply,spawned⟩ found => appendEntries_valid valid sent rf' (reply,spawned) found
  | installSnapshot args => simpa [handle] using installSnapshot_valid valid args

/-! ### `Start`, `CreateSnapshot`, `applyLog` and `Make` -/

theorem start_valid (valid : rf.Valid P) {command : C} (admitted : P command) :
    Ensures (·.Valid P) (rf.start command) := by
  simp only [start,ensures_ite,ensures_map,ensures_some]
  refine ⟨fun _ _ _ => Valid.persist (valid.of_sub (fun e mem => ?_) (fun _ found => .inl found) fun _ mem => .inl mem),
    fun _ => valid⟩
  rcases List.mem_append.1 mem with old | new
  · exact .inl old
  · obtain rfl := List.mem_singleton.1 new
    exact .inr fun _ same => by cases same; exact admitted

private theorem createSnapshot_valid (valid : rf.Valid P) (kvSnapshot : K) (index : Nat) :
    ∀ rf', rf.createSnapshot kvSnapshot index = some rf' → rf'.Valid P := by
  simp only [createSnapshot,Option.bind_eq_some]
  rintro rf' ⟨base,-,last,-,created⟩
  split_ifs at created
  · cases created; exact valid
  · obtain ⟨entry,-,rfl⟩ := Option.map_eq_some'.1 created
    exact valid.of_sub (fun _ mem => trimLog_admits mem) (fun _ found => .inr (by cases found; rfl))
      fun _ mem => .inl mem

private theorem applyLog_valid (valid : rf.Valid P) : ∀ rf', rf.applyLog = some rf' → rf'.Valid P := by
  simp only [applyLog,Option.bind_eq_some,Option.map_eq_some']
  rintro _ ⟨base,-,msgs,built,rfl⟩
  refine valid.of_sub (fun _ mem => .inl mem) (fun _ found => .inl found) fun msg mem =>
    (List.mem_append.1 mem).imp_right fun new => ?_
  obtain ⟨i,-,found⟩ := mapM_some_mem built msg new
  obtain ⟨entry,atI,rfl⟩ := Option.map_eq_some'.1 found
  exact valid.log entry (entryAt_mem atI)

theorem Valid.readPersist (valid : rf.Valid P) {state : Option (PersistentState C)}
    (persisted : ∀ data, state = some data → ∀ e ∈ data.log, Admits P e.command) : (rf.readPersist state).Valid P := by
  cases state with
  | none => exact valid
  | some data =>
    exact valid.of_sub (fun e mem => .inr (persisted data rfl e mem)) (fun _ found => .inl found) fun _ mem => .inl mem

theorem Valid.recoverFromSnapshot (valid : rf.Valid P) (snapshot : Option (Snapshot K)) :
    (rf.recoverFromSnapshot snapshot).Valid P := by
  cases snapshot with
  | none => exact valid
  | some snapshot =>
    exact valid.of_sub (fun _ mem => trimLog_admits mem) (fun _ found => .inl found) fun _ mem => snapshotMsg_admits mem

private theorem make_valid {persister : Persister C K}
    (persisted : ∀ data, persister.raftstate = some data → ∀ e ∈ data.log, Admits P e.command) (peers me : Nat) :
    (make peers me persister).Valid P := by
  unfold make
  refine Valid.persist (Valid.recoverFromSnapshot (Valid.readPersist ⟨fun e mem => ?_,persisted,nofun⟩ persisted) _)
  cases List.mem_singleton.1 mem
  exact admits_none P

private theorem heartbeatTo_valid (valid : rf.Valid P) {base server : Nat} {rpc : Rpc C K}
    (built : rf.heartbeatTo base server = some rpc) : rpc.Valid P := by
  unfold heartbeatTo at built
  dsimp only at built
  split_ifs at built
  · obtain ⟨prev,-,built⟩ := Option.bind_eq_some.1 built
    obtain ⟨last,-,rfl⟩ := Option.map_eq_some'.1 built
    intro e mem
    split_ifs at mem
    · exact valid.log e (List.mem_of_mem_drop mem)
    · cases mem
  · obtain ⟨_,-,rfl⟩ := Option.map_eq_some'.1 built
    trivial

private theorem broadcastHeartbeat_valid (valid : rf.Valid P) {rpcs : List (Nat × Rpc C K)}
    (built : rf.broadcastHeartbeat = some rpcs) : ∀ p ∈ rpcs, p.2.Valid P := by
  simp only [broadcastHeartbeat,Option.bind_eq_some] at built
  obtain ⟨base,-,built⟩ := built
  split_ifs at built
  · exact fun p mem => heartbeatTo_valid valid (mapM_pairs_mem built p mem).2
  · cases built; nofun

end Valid

end Raft

/-! ### Replicas and the cluster -/

/-- The log `Run`'s `persist()` has read and not saved yet. -/
def Persisting.log : Persisting C → List (LogEntry C)
  | .save state => state.log
  | _ => []

namespace Node

/-- What the locked and unlocked steps of `Run` other than `persist()` do to a replica: they
write its term, role, votes and signal counts, never its log or its apply channel, start
`persist()` afresh or leave it, and queue `broadcastRequestVote`s that have built no request yet. -/
structure RunKeeps (node node' : Node C K) : Prop where
  raft : node.raft.KeepsLog node'.raft
  earlier : node'.earlier = node.earlier
  persisting : node'.persisting = node.persisting ∨ node'.persisting = .encodeTerm
  voteRequests : ∀ r ∈ node'.voteRequests, r ∈ node.voteRequests ∨ r = none

variable {node node' : Node C K}

theorem runSwitch_keeps (switched : node.runSwitch = some node') : node.RunKeeps node' := by
  unfold runSwitch at switched
  split_ifs at switched
  split at switched <;> cases switched <;> exact ⟨.refl _,rfl,.inl rfl,fun _ => .inl⟩

theorem runReceive_keeps {signal : Signal} (received : node.runReceive signal = some node') : node.RunKeeps node' := by
  unfold runReceive at received
  split at received <;> simp only [Option.ite_none_right_eq_some,Option.some.injEq] at received <;>
    obtain ⟨-,rfl⟩ := received <;> exact ⟨.frame le_rfl rfl rfl rfl,rfl,.inl rfl,fun _ => .inl⟩

theorem runTimeout_keeps (timedOut : node.runTimeout = some node') : node.RunKeeps node' := by
  unfold runTimeout at timedOut
  split at timedOut <;> cases timedOut
  · exact ⟨.frame le_rfl rfl rfl rfl,rfl,.inr rfl,fun _ => .inl⟩
  · exact ⟨.refl _,rfl,.inl rfl,fun _ => .inl⟩

theorem runCandidate_keeps (started : node.runCandidate = some node') : node.RunKeeps node' := by
  unfold runCandidate at started
  split_ifs at started
  cases started
  exact ⟨Raft.KeepsLog.persist (.frame (Nat.le_succ _) rfl rfl rfl),rfl,.inl rfl,fun _ mem =>
    (List.mem_append.1 mem).imp_right List.mem_singleton.1⟩

/-- Every command a replica holds, has read to persist, or its earlier instances sent is one
`P` admits. -/
structure Valid (P : C → Prop) (node : Node C K) : Prop where
  raft : node.raft.Valid P
  persisting : ∀ e ∈ node.persisting.log, Admits P e.command
  earlier : ∀ msg ∈ node.earlier, Admits P msg.command

variable {P : C → Prop}

theorem Valid.sent (valid : node.Valid P) : ∀ msg ∈ node.sent, Admits P msg.command :=
  fun msg mem => (List.mem_append.1 mem).elim (valid.earlier msg) (valid.raft.applied msg)

theorem Valid.mono {Q : C → Prop} (valid : node.Valid P) (le : ∀ c, P c → Q c) : node.Valid Q :=
  ⟨valid.raft.mono le,fun e mem => (valid.persisting e mem).mono le,fun msg mem => (valid.earlier msg mem).mono le⟩

theorem Valid.runKeeps (valid : node.Valid P) (kept : node.RunKeeps node') : node'.Valid P := by
  refine ⟨valid.raft.keepsLog kept.raft,fun e mem => ?_,kept.earlier ▸ valid.earlier⟩
  rcases kept.persisting with same | fresh
  · exact valid.persisting e (same ▸ mem)
  · rw [fresh] at mem; cases mem

private theorem runPersist_valid (persisted : node.runPersist = some node') (valid : node.Valid P) : node'.Valid P := by
  rcases runPersist_eq_some persisted with ⟨-,rfl⟩ | ⟨_,-,rfl⟩ | ⟨_,_,-,rfl⟩ | ⟨state,staged,rfl⟩
  · exact ⟨valid.raft,nofun,valid.earlier⟩
  · exact ⟨valid.raft,nofun,valid.earlier⟩
  · exact ⟨valid.raft,valid.raft.log,valid.earlier⟩
  · refine ⟨⟨valid.raft.log,fun _ found e mem => valid.persisting e ?_,valid.raft.applied⟩,nofun,valid.earlier⟩
    cases found
    rw [staged]
    exact mem

private theorem applyLog_valid (applied : node.applyLog = some node') (valid : node.Valid P) : node'.Valid P := by
  unfold applyLog at applied
  split_ifs at applied
  obtain ⟨rf,found,rfl⟩ := Option.map_eq_some'.1 applied
  exact ⟨Raft.applyLog_valid valid.raft rf found,valid.persisting,valid.earlier⟩

end Node

namespace Cluster

/-- Every replica and every request in flight carries only commands `P` admits. -/
def Valid (P : C → Prop) (s : Cluster C K) : Prop := s.Holds (·.Valid P) (·.Valid P)

variable {P : C → Prop} {s s' : Cluster C K}

theorem Valid.mono {Q : C → Prop} (valid : s.Valid P) (le : ∀ c, P c → Q c) : s.Valid Q :=
  Holds.mono valid (fun _ kept => kept.mono le) fun _ kept => kept.mono le

theorem Valid.step (valid : s.Valid P) :
    ∀ {a : Action C K}, (∀ i c, a = .start i c → P c) → s.step a = some s' → s'.Valid P
  | .runSwitch _, _, stepped =>
    Holds.updateNode_of_node valid (fun _ _ changed kept => kept.runKeeps (Node.runSwitch_keeps changed)) stepped
  | .runReceive _ _, _, stepped =>
    Holds.updateNode_of_node valid (fun _ _ changed kept => kept.runKeeps (Node.runReceive_keeps changed)) stepped
  | .runTimeout _, _, stepped =>
    Holds.updateNode_of_node valid (fun _ _ changed kept => kept.runKeeps (Node.runTimeout_keeps changed)) stepped
  | .runPersist _, _, stepped => Holds.updateNode_of_node valid (fun _ _ => Node.runPersist_valid) stepped
  | .runCandidate _, _, stepped =>
    Holds.updateNode_of_node valid (fun _ _ changed kept => kept.runKeeps (Node.runCandidate_keeps changed)) stepped
  | .applyLog _, _, stepped => Holds.updateNode_of_node valid (fun _ _ => Node.applyLog_valid) stepped
  | .broadcastHeartbeat _, _, stepped => Holds.broadcastHeartbeat valid (fun _ _ kept built =>
      ⟨⟨kept.raft,kept.persisting,kept.earlier⟩,Raft.broadcastHeartbeat_valid kept.raft built⟩) stepped
  | .broadcastRequestVote _ _, _, stepped =>
    Holds.broadcastRequestVote valid (fun _ _ kept => ⟨kept.raft,kept.persisting,kept.earlier⟩) (fun _ => trivial) stepped
  | .deliver _, _, stepped => Holds.deliver valid (fun _ _ rf _ _ kept request handled =>
      ⟨Raft.handle_valid kept.raft request rf _ handled,kept.persisting,kept.earlier⟩) stepped
  | .complete _, _, stepped => Holds.complete valid (fun _ server rpc _ rf spawned kept received =>
      ⟨kept.raft.keepsLog (Raft.receive_keepsLog server rpc _ rf spawned received),kept.persisting,kept.earlier⟩) stepped
  | .fail _, _, stepped => Holds.complete valid (fun _ server rpc _ rf spawned kept received =>
      ⟨kept.raft.keepsLog (Raft.receive_keepsLog server rpc _ rf spawned received),kept.persisting,kept.earlier⟩) stepped
  | .start _ command, admitted, stepped => by
    refine Holds.updateNode_of_node valid (fun _ _ changed kept => ?_) stepped
    obtain ⟨⟨rf,index⟩,started,rfl⟩ := Option.map_eq_some'.1 changed
    exact ⟨Raft.start_valid kept.raft (admitted _ _ rfl) rf index started,kept.persisting,kept.earlier⟩
  | .createSnapshot _ kvSnapshot index, _, stepped => by
    refine Holds.updateNode_of_node valid (fun _ _ changed kept => ?_) stepped
    obtain ⟨rf,created,rfl⟩ := Option.map_eq_some'.1 changed
    exact ⟨Raft.createSnapshot_valid kept.raft kvSnapshot index rf created,kept.persisting,kept.earlier⟩
  | .crash j, _, stepped =>
    Holds.crash (i := j) valid (fun _ _ kept => ⟨Raft.make_valid kept.raft.persisted _ _,nofun,kept.sent⟩) stepped

theorem Valid.runActions {t : Cluster C K} (valid : s.Valid P) {actions : List (Action C K)}
    (admitted : ∀ i c, Action.start i c ∈ actions → P c) (ran : s.runActions actions = some t) : t.Valid P :=
  Holds.runActions valid (fun valid admits stepped => Valid.step valid admits stepped)
    (fun _ mem i c same => admitted i c (same ▸ mem)) ran

theorem init_valid (n : Nat) : (init n : Cluster C K).Valid P :=
  init_holds fun _ => ⟨Raft.make_valid nofun _ _,nofun,nofun⟩

end Cluster

/-- Along every interleaving from `Make`, crashes included, every command a replica holds in
its log or has sent on its apply channel, restarts included, was given to `Start` in that run. -/
theorem applied_commands_were_started {n : Nat} {actions : List (Action C K)} {t : Cluster C K}
    (ran : (Cluster.init n).runActions actions = some t) :
    ∀ node ∈ t.nodes, ∀ c, ((∃ e ∈ node.raft.log, e.command = some c) ∨ ∃ msg ∈ node.sent, msg.command = some c) →
      ∃ i, Action.start i c ∈ actions := by
  intro node mem c held
  have valid := ((Cluster.init_valid (P := fun c => ∃ i, Action.start i c ∈ actions) n).runActions
    (fun i _ mem => ⟨i,mem⟩) ran).nodes node mem
  rcases held with ⟨e,held,same⟩ | ⟨msg,sent,same⟩
  · exact valid.raft.log e held c same
  · exact valid.sent msg sent c same

theorem leaderCommits_commands_were_started :
    ∃ node, (Cluster.replay 3 (leaderAppends ++ leaderCommits) (by decide)).nodes[0]? = some node ∧
      ∀ c, ((∃ e ∈ node.raft.log, e.command = some c) ∨ ∃ msg ∈ node.sent, msg.command = some c) →
        ∃ i, Action.start i c ∈ leaderAppends ++ leaderCommits := by
  obtain ⟨node,found⟩ : ∃ node, (Cluster.replay 3 (leaderAppends ++ leaderCommits) (by decide)).nodes[0]? = some node := by
    apply Option.isSome_iff_exists.1; decide
  exact ⟨node,found,applied_commands_were_started (Cluster.runActions_replay _) node (List.getElem?_mem found)⟩

end Sentinel
