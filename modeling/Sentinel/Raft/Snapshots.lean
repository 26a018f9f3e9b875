import Sentinel.Raft.Validity

/-! Snapshots in `raft.go` come only from `CreateSnapshot`. The service's bytes enter a
persister only there; `InstallSnapshot` saves the snapshot a request carries and sends it on the
apply channel, `broadcastHeartbeat` sends the snapshot its persister keeps, `Make` sends the
persisted snapshot back to the service, and no other section writes a snapshot or sends a
snapshot message. So along any run from `Make`, every snapshot a persister keeps, a request
carries or a replica has sent on its apply channel holds maps that the service passed to
`CreateSnapshot` in that run. -/

namespace Sentinel

variable {C K : Type}

/-- The maps of a snapshot, if there is one, are ones `Q` admits. -/
def SnapshotAdmits (Q : K → Prop) (snapshot : Option (Snapshot K)) : Prop := ∀ s, snapshot = some s → Q s.kv

private theorem snapshotAdmits_none (Q : K → Prop) : SnapshotAdmits Q none := nofun

theorem SnapshotAdmits.mono {Q Q' : K → Prop} {snapshot : Option (Snapshot K)} (admits : SnapshotAdmits Q snapshot)
    (le : ∀ kv, Q kv → Q' kv) : SnapshotAdmits Q' snapshot :=
  fun s found => le _ (admits s found)

/-- The snapshot a request carries: the data of an `InstallSnapshot`. -/
def Rpc.Snapshots (Q : K → Prop) : Rpc C K → Prop
  | .requestVote _ => True
  | .appendEntries _ => True
  | .installSnapshot args => SnapshotAdmits Q args.data

theorem Rpc.Snapshots.mono {Q Q' : K → Prop} {rpc : Rpc C K} (held : rpc.Snapshots Q) (le : ∀ kv, Q kv → Q' kv) :
    rpc.Snapshots Q' := by
  cases rpc with
  | installSnapshot args => exact SnapshotAdmits.mono held le
  | _ => trivial

namespace Raft

/-- Every snapshot the replica holds has maps `Q` admits: the one its persister keeps, and
those of the messages it sent on its apply channel. -/
structure Snapshots (Q : K → Prop) (rf : Raft C K) : Prop where
  persisted : SnapshotAdmits Q rf.persister.snapshot
  applied : ∀ msg ∈ rf.chanApply, SnapshotAdmits Q msg.snapshot

variable {Q : K → Prop} {rf rf' : Raft C K}

theorem Snapshots.of_sub (held : rf.Snapshots Q)
    (persisted : rf'.persister.snapshot = rf.persister.snapshot ∨ SnapshotAdmits Q rf'.persister.snapshot)
    (applied : ∀ msg ∈ rf'.chanApply, msg ∈ rf.chanApply ∨ SnapshotAdmits Q msg.snapshot) : rf'.Snapshots Q where
  persisted := persisted.elim (fun same => same ▸ held.persisted) id
  applied msg mem := (applied msg mem).elim (held.applied msg) id

theorem Snapshots.frame (held : rf.Snapshots Q) (snapshot : rf'.persister.snapshot = rf.persister.snapshot)
    (applied : rf'.chanApply = rf.chanApply) : rf'.Snapshots Q :=
  held.of_sub (.inl snapshot) fun _ mem => .inl (applied ▸ mem)

theorem Snapshots.keepsLog (held : rf.Snapshots Q) (kept : rf.KeepsLog rf') : rf'.Snapshots Q :=
  held.frame kept.snapshot kept.applied

theorem Snapshots.persist (held : rf.Snapshots Q) : rf.persist.Snapshots Q := held.frame rfl rfl

theorem Snapshots.mono {Q' : K → Prop} (held : rf.Snapshots Q) (le : ∀ kv, Q kv → Q' kv) : rf.Snapshots Q' :=
  ⟨held.persisted.mono le,fun msg mem => (held.applied msg mem).mono le⟩

/-! ### The sections -/

private theorem checkPrev_keepsSnapshot (args : AppendEntriesArgs C) (base : Nat) :
    Ensures (fun rf' => rf'.persister.snapshot = rf.persister.snapshot ∧ rf'.chanApply = rf.chanApply)
      (rf.checkPrev args base) := by
  simp [checkPrev,appendFrom,Raft.persist]

private theorem appendEntries_snapshots (held : rf.Snapshots Q) (args : AppendEntriesArgs C) :
    Ensures (·.Snapshots Q) (rf.appendEntries args) := by
  have up : ({ rf.updateTerm args.term with chanHeartbeat := (rf.updateTerm args.term).chanHeartbeat + 1 } :
      Raft C K).Snapshots Q := (held.keepsLog (keepsLog_updateTerm rf args.term)).frame rfl rfl
  simp only [appendEntries,ensures_ite,ensures_map,ensures_bind,ensures_some]
  refine ⟨fun _ _ _ => held.persist,fun _ _ _ => ⟨fun _ => up.persist,fun _ base _ rf' a found => ?_⟩⟩
  obtain ⟨snapshot,applied⟩ := checkPrev_keepsSnapshot args base rf' a found
  exact up.frame snapshot applied

private theorem installSnapshot_snapshots (held : rf.Snapshots Q) {args : InstallSnapshotArgs K}
    (data : SnapshotAdmits Q args.data) : (rf.installSnapshot args).1.Snapshots Q := by
  unfold installSnapshot
  by_cases stale : args.term < rf.currentTerm
  · rw [if_pos stale]; exact held
  rw [if_neg stale]
  dsimp only
  have stepped : (if rf.currentTerm < args.term then (rf.stepDown args.term).persist else rf).Snapshots Q := by
    split_ifs
    · exact held.frame rfl rfl
    · exact held
  generalize (if rf.currentTerm < args.term then (rf.stepDown args.term).persist else rf) = rf' at *
  split_ifs
  · refine stepped.of_sub (.inr data) fun msg mem => (List.mem_append.1 mem).imp_right fun new => ?_
    cases List.mem_singleton.1 new
    exact data
  · exact stepped.frame rfl rfl

private theorem handle_snapshots (held : rf.Snapshots Q) {rpc : Rpc C K} (sent : rpc.Snapshots Q) :
    Ensures (·.Snapshots Q) (rf.handle rpc) := by
  cases rpc with
  | requestVote args =>
    simp only [handle,ensures_map]
    exact fun ⟨rf',reply⟩ found => held.keepsLog (requestVote_keepsLog args rf' reply found)
  | appendEntries args =>
    simp only [handle,ensures_map]
    exact fun ⟨rf',reply,spawned⟩ found => appendEntries_snapshots held args rf' (reply,spawned) found
  | installSnapshot args => simpa [handle] using installSnapshot_snapshots held sent

theorem start_snapshots (held : rf.Snapshots Q) (command : C) : Ensures (·.Snapshots Q) (rf.start command) := by
  simp only [start,ensures_ite,ensures_map,ensures_some]
  exact ⟨fun _ _ _ => held.frame rfl rfl,fun _ => held⟩

private theorem createSnapshot_snapshots (held : rf.Snapshots Q) {kvSnapshot : K} (admitted : Q kvSnapshot) (index : Nat) :
    ∀ rf', rf.createSnapshot kvSnapshot index = some rf' → rf'.Snapshots Q := by
  simp only [createSnapshot,Option.bind_eq_some]
  rintro rf' ⟨base,-,last,-,created⟩
  split_ifs at created
  · cases created; exact held
  · obtain ⟨entry,-,rfl⟩ := Option.map_eq_some'.1 created
    exact held.of_sub (.inr fun _ saved => by cases saved; exact admitted) fun _ mem => .inl mem

private theorem applyLog_snapshots (held : rf.Snapshots Q) : ∀ rf', rf.applyLog = some rf' → rf'.Snapshots Q := by
  simp only [applyLog,Option.bind_eq_some,Option.map_eq_some']
  rintro _ ⟨base,-,msgs,built,rfl⟩
  refine held.of_sub (.inl rfl) fun msg mem => (List.mem_append.1 mem).imp_right fun new => ?_
  obtain ⟨i,-,found⟩ := mapM_some_mem built msg new
  obtain ⟨entry,-,rfl⟩ := Option.map_eq_some'.1 found
  exact snapshotAdmits_none Q

theorem Snapshots.readPersist (held : rf.Snapshots Q) (state : Option (PersistentState C)) :
    (rf.readPersist state).Snapshots Q := by
  cases state <;> exact held.frame rfl rfl

theorem Snapshots.recoverFromSnapshot (held : rf.Snapshots Q) {snapshot : Option (Snapshot K)}
    (admits : SnapshotAdmits Q snapshot) : (rf.recoverFromSnapshot snapshot).Snapshots Q := by
  cases snapshot with
  | none => exact held
  | some snapshot =>
    refine held.of_sub (.inl rfl) fun msg mem => (List.mem_append.1 mem).imp_right fun new => ?_
    cases List.mem_singleton.1 new
    exact admits

private theorem make_snapshots {persister : Persister C K} (persisted : SnapshotAdmits Q persister.snapshot)
    (peers me : Nat) : (make peers me persister).Snapshots Q :=
  Snapshots.persist
    (Snapshots.recoverFromSnapshot (Snapshots.readPersist ⟨persisted,fun _ mem => by cases mem⟩ _) persisted)

private theorem heartbeatTo_snapshots (held : rf.Snapshots Q) {base server : Nat} {rpc : Rpc C K}
    (built : rf.heartbeatTo base server = some rpc) : rpc.Snapshots Q := by
  unfold heartbeatTo at built
  dsimp only at built
  split_ifs at built
  · obtain ⟨prev,-,built⟩ := Option.bind_eq_some.1 built
    obtain ⟨last,-,rfl⟩ := Option.map_eq_some'.1 built
    trivial
  · obtain ⟨_,-,rfl⟩ := Option.map_eq_some'.1 built
    exact held.persisted

private theorem broadcastHeartbeat_snapshots (held : rf.Snapshots Q) {rpcs : List (Nat × Rpc C K)}
    (built : rf.broadcastHeartbeat = some rpcs) : ∀ p ∈ rpcs, p.2.Snapshots Q := by
  simp only [broadcastHeartbeat,Option.bind_eq_some] at built
  obtain ⟨base,-,built⟩ := built
  split_ifs at built
  · exact fun p mem => heartbeatTo_snapshots held (mapM_pairs_mem built p mem).2
  · cases built; nofun

end Raft

/-! ### Replicas and the cluster -/

namespace Node

/-- Every snapshot a replica holds or its earlier instances sent has maps `Q` admits. -/
structure Snapshots (Q : K → Prop) (node : Node C K) : Prop where
  raft : node.raft.Snapshots Q
  earlier : ∀ msg ∈ node.earlier, SnapshotAdmits Q msg.snapshot

variable {Q : K → Prop} {node node' : Node C K}

theorem Snapshots.sent (held : node.Snapshots Q) : ∀ msg ∈ node.sent, SnapshotAdmits Q msg.snapshot :=
  fun msg mem => (List.mem_append.1 mem).elim (held.earlier msg) (held.raft.applied msg)

theorem Snapshots.runKeeps (held : node.Snapshots Q) (kept : node.RunKeeps node') : node'.Snapshots Q :=
  ⟨held.raft.keepsLog kept.raft,kept.earlier ▸ held.earlier⟩

theorem Snapshots.mono {Q' : K → Prop} (held : node.Snapshots Q) (le : ∀ kv, Q kv → Q' kv) : node.Snapshots Q' :=
  ⟨held.raft.mono le,fun msg mem => (held.earlier msg mem).mono le⟩

private theorem runPersist_snapshots (persisted : node.runPersist = some node') (held : node.Snapshots Q) :
    node'.Snapshots Q := by
  rcases runPersist_eq_some persisted with ⟨-,rfl⟩ | ⟨_,-,rfl⟩ | ⟨_,_,-,rfl⟩ | ⟨_,-,rfl⟩ <;>
    exact ⟨held.raft.frame rfl rfl,held.earlier⟩

private theorem applyLog_snapshots (applied : node.applyLog = some node') (held : node.Snapshots Q) : node'.Snapshots Q := by
  unfold applyLog at applied
  split_ifs at applied
  obtain ⟨rf,found,rfl⟩ := Option.map_eq_some'.1 applied
  exact ⟨Raft.applyLog_snapshots held.raft rf found,held.earlier⟩

end Node

namespace Cluster

/-- Every replica and every request in flight holds only snapshots with maps `Q` admits. -/
def Snapshots (Q : K → Prop) (s : Cluster C K) : Prop := s.Holds (·.Snapshots Q) (·.Snapshots Q)

variable {Q : K → Prop} {s s' : Cluster C K}

theorem Snapshots.mono {Q' : K → Prop} (held : s.Snapshots Q) (le : ∀ kv, Q kv → Q' kv) : s.Snapshots Q' :=
  Holds.mono held (fun _ kept => kept.mono le) fun _ kept => kept.mono le

theorem Snapshots.step (held : s.Snapshots Q) :
    ∀ {a : Action C K}, (∀ i kvSnapshot index, a = .createSnapshot i kvSnapshot index → Q kvSnapshot) →
      s.step a = some s' → s'.Snapshots Q
  | .runSwitch _, _, stepped =>
    Holds.updateNode_of_node held (fun _ _ changed kept => kept.runKeeps (Node.runSwitch_keeps changed)) stepped
  | .runReceive _ _, _, stepped =>
    Holds.updateNode_of_node held (fun _ _ changed kept => kept.runKeeps (Node.runReceive_keeps changed)) stepped
  | .runTimeout _, _, stepped =>
    Holds.updateNode_of_node held (fun _ _ changed kept => kept.runKeeps (Node.runTimeout_keeps changed)) stepped
  | .runPersist _, _, stepped => Holds.updateNode_of_node held (fun _ _ => Node.runPersist_snapshots) stepped
  | .runCandidate _, _, stepped =>
    Holds.updateNode_of_node held (fun _ _ changed kept => kept.runKeeps (Node.runCandidate_keeps changed)) stepped
  | .applyLog _, _, stepped => Holds.updateNode_of_node held (fun _ _ => Node.applyLog_snapshots) stepped
  | .broadcastHeartbeat _, _, stepped => Holds.broadcastHeartbeat held (fun _ _ kept built =>
      ⟨⟨kept.raft,kept.earlier⟩,Raft.broadcastHeartbeat_snapshots kept.raft built⟩) stepped
  | .broadcastRequestVote _ _, _, stepped =>
    Holds.broadcastRequestVote held (fun _ _ kept => ⟨kept.raft,kept.earlier⟩) (fun _ => trivial) stepped
  | .deliver _, _, stepped => Holds.deliver held (fun _ _ rf _ _ kept request handled =>
      ⟨Raft.handle_snapshots kept.raft request rf _ handled,kept.earlier⟩) stepped
  | .complete _, _, stepped => Holds.complete held (fun _ server rpc _ rf spawned kept received =>
      ⟨kept.raft.keepsLog (Raft.receive_keepsLog server rpc _ rf spawned received),kept.earlier⟩) stepped
  | .fail _, _, stepped => Holds.complete held (fun _ server rpc _ rf spawned kept received =>
      ⟨kept.raft.keepsLog (Raft.receive_keepsLog server rpc _ rf spawned received),kept.earlier⟩) stepped
  | .start _ command, _, stepped => by
    refine Holds.updateNode_of_node held (fun _ _ changed kept => ?_) stepped
    obtain ⟨⟨rf,index⟩,started,rfl⟩ := Option.map_eq_some'.1 changed
    exact ⟨Raft.start_snapshots kept.raft command rf index started,kept.earlier⟩
  | .createSnapshot _ kvSnapshot index, admitted, stepped => by
    refine Holds.updateNode_of_node held (fun _ _ changed kept => ?_) stepped
    obtain ⟨rf,created,rfl⟩ := Option.map_eq_some'.1 changed
    exact ⟨Raft.createSnapshot_snapshots kept.raft (admitted _ _ _ rfl) index rf created,kept.earlier⟩
  | .crash _, _, stepped =>
    Holds.crash held (fun _ _ kept => ⟨Raft.make_snapshots kept.raft.persisted _ _,kept.sent⟩) stepped

theorem Snapshots.runActions {t : Cluster C K} (held : s.Snapshots Q) {actions : List (Action C K)}
    (admitted : ∀ i kvSnapshot index, Action.createSnapshot i kvSnapshot index ∈ actions → Q kvSnapshot)
    (ran : s.runActions actions = some t) : t.Snapshots Q :=
  Holds.runActions held (fun held admits stepped => Snapshots.step held admits stepped)
    (fun _ mem i kvSnapshot index same => admitted i kvSnapshot index (same ▸ mem)) ran

theorem init_snapshots (n : Nat) : (init n : Cluster C K).Snapshots Q :=
  init_holds fun _ => ⟨Raft.make_snapshots nofun _ _,nofun⟩

end Cluster

/-- Along every interleaving from `Make`, crashes included, a snapshot that a replica's persister
keeps, that a replica has sent on its apply channel (restarts included), or that an
`InstallSnapshot` request in flight carries holds maps the service passed to `CreateSnapshot` in
that run: the Raft layer moves snapshots and never makes one. -/
theorem snapshots_were_created {n : Nat} {actions : List (Action C K)} {t : Cluster C K}
    (ran : (Cluster.init n).runActions actions = some t) (snapshot : Snapshot K) :
    ((∃ node ∈ t.nodes, node.raft.persister.snapshot = some snapshot ∨ ∃ msg ∈ node.sent, msg.snapshot = some snapshot) ∨
      ∃ call ∈ t.calls, ∃ args : InstallSnapshotArgs K, call.rpc = .installSnapshot args ∧ args.data = some snapshot) →
    ∃ i index, Action.createSnapshot i snapshot.kv index ∈ actions := by
  have held := (Cluster.init_snapshots (Q := fun kv => ∃ i index, Action.createSnapshot i kv index ∈ actions) n).runActions
    (fun i _ index mem => ⟨i,index,mem⟩) ran
  rintro (⟨node,mem,persisted | ⟨msg,sent,carried⟩⟩ | ⟨call,mem,args,rpc,carried⟩)
  · exact (held.nodes node mem).raft.persisted snapshot persisted
  · exact (held.nodes node mem).sent msg sent snapshot carried
  · have installing := held.calls call mem
    rw [rpc] at installing
    exact installing snapshot carried

theorem leaderCommits_snapshots_were_created :
    ∃ node, (Cluster.replay 3 (leaderAppends ++ leaderCommits) (by decide)).nodes[0]? = some node ∧
      ∀ snapshot : Snapshot Unit,
        (node.raft.persister.snapshot = some snapshot ∨ ∃ msg ∈ node.sent, msg.snapshot = some snapshot) →
        ∃ i index, Action.createSnapshot i snapshot.kv index ∈ leaderAppends ++ leaderCommits := by
  obtain ⟨node,found⟩ : ∃ node, (Cluster.replay 3 (leaderAppends ++ leaderCommits) (by decide)).nodes[0]? = some node := by
    apply Option.isSome_iff_exists.1; decide
  exact ⟨node,found,fun snapshot held =>
    snapshots_were_created (Cluster.runActions_replay _) snapshot (.inl ⟨node,List.getElem?_mem found,held⟩)⟩

end Sentinel
