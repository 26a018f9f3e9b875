import Sentinel.KV.Replay

/-! Where the replies of `raftkv` come from. A handler replies without `WrongLeader` only with
the result `Run` buffered in `resultCh[index]` for an op with the same `ClientId` and
`RequestId` as its own, and `Run` buffers only what `applyOp` returned for the command of a
message its Raft instance sent on the apply channel, on the maps it had made of the messages
before it (`Service.Replays`). The apply channel only grows, so once a server has replied, the
op it answered and the messages its maps were made of stay among the messages its replica sent,
across crashes of that replica and of the server. -/

namespace Sentinel.RaftKV

open Linearizability

theorem applyOp_ids (kv : KVServer) (op : Op) :
    (kv.applyOp op).2.clientId = op.clientId ∧ (kv.applyOp op).2.requestId = op.requestId := by
  unfold KVServer.applyOp
  split_ifs <;> (try split) <;> exact ⟨rfl,rfl⟩

private theorem runMsg_results {node node' : KvNode} {oversized : Bool} {msg : ApplyMsg Op KVServer}
    (ran : node.runMsg oversized msg = some node') (index : Nat) (result : Result)
    (buffered : node'.resultCh index = some (some result)) :
    node.resultCh index = some (some result) ∨ ∃ op, msg.command = some op ∧ (node.kv.applyOp op).2 = result := by
  unfold KvNode.runMsg at ran
  split_ifs at ran
  · cases ran
    split at buffered <;> exact .inl buffered
  all_goals
    obtain ⟨op,command,rfl⟩ := Option.map_eq_some'.1 ran
    dsimp only at buffered
    by_cases same : index = msg.commandIndex
    · subst same
      simp only [Function.update_same,Option.some.injEq] at buffered
      exact .inr ⟨op,command,buffered⟩
    · rw [Function.update_noteq same] at buffered
      exact .inl buffered

/-- `op` is the command of a message that `node` sent on an apply channel, and `kv` is what `Run`
made, from `StartKVServer`'s empty maps, of the messages sent on that channel before it: the maps
`applyOp` ran on. `front` holds what earlier instances of the replica sent. -/
def AppliedAt (node : Node Op KVServer) (op : Op) (kv : KVServer) : Prop :=
  ∃ front before msg, front ++ before ++ [msg] <+: node.sent ∧ msg.command = some op ∧
    KVServer.empty.applyMsgs before = some kv

theorem AppliedAt.grow {node node' : Node Op KVServer} {op : Op} {kv : KVServer} (grown : node.sent <+: node'.sent) :
    AppliedAt node op kv → AppliedAt node' op kv
  | ⟨front,before,msg,sent,command,replayed⟩ => ⟨front,before,msg,sent.trans grown,command,replayed⟩

theorem AppliedAt.sent {node : Node Op KVServer} {op : Op} {kv : KVServer} :
    AppliedAt node op kv → ∃ msg ∈ node.sent, msg.command = some op
  | ⟨_,_,msg,sent,command,_⟩ => ⟨msg,sent.subset (List.mem_append_right _ (List.mem_singleton_self msg)),command⟩

namespace Service

variable {s s' : Service} {Q Q' : KVServer → Prop}

/-- `result` is what `applyOp` returned for an op replica `i` sent on an apply channel, on the
maps `Run` had made of the messages before it, which have `Q`. -/
def Applied (Q : KVServer → Prop) (s : Service) (i : Nat) (result : Result) : Prop :=
  ∃ node, s.cluster.nodes[i]? = some node ∧ ∃ op kv, AppliedAt node op kv ∧ Q kv ∧ (kv.applyOp op).2 = result

/-- A reply without `WrongLeader` to `call` carries a result of its own op that its server applied. -/
def AppliedReply (Q : KVServer → Prop) (s : Service) (call : KvCall) : Prop :=
  ∀ reply, call.stage = .replied reply → reply.wrongLeader = false →
    ∃ result, isMatch call.op result = true ∧ reply = replyOf result ∧ s.Applied Q call.server result

/-- Every buffered result and every reply without `WrongLeader` comes from an applied command,
applied to maps that have `Q`. -/
structure RepliesApplied (Q : KVServer → Prop) (s : Service) : Prop where
  results : ∀ (i : Nat) (node : KvNode) index result, s.servers[i]? = some node →
    node.resultCh index = some (some result) → s.Applied Q i result
  replies : ∀ call ∈ s.calls, s.AppliedReply Q call

private theorem deliver_grows {k : Nat} (delivered : s.deliver k = some s') : s.cluster.Grows s'.cluster := by
  obtain ⟨call,node,started,-,-,atNode,start,⟨-,cluster,kv,updated,-,rfl⟩ | ⟨-,rfl⟩⟩ := deliver_eq_some delivered
  · refine Cluster.updateNode_grows (fun _ _ found changed => ?_) updated
    rw [atNode] at found
    cases found; cases changed
    exact ⟨Raft.start_extends call.op _ _ start,rfl⟩
  · exact .refl _

theorem step_grows {oversized : Persister Op KVServer → Bool} :
    ∀ {a : ServiceAction}, s.step oversized a = some s' → s.cluster.Grows s'.cluster
  | .raft _, stepped => by
    obtain ⟨_,clustered,rfl⟩ := raftStep_eq_some stepped
    exact Cluster.step_grows clustered
  | .invoke _ _, stepped => by
    obtain ⟨_,-,-,rfl⟩ := invoke_eq_some stepped
    exact .refl _
  | .deliver _, stepped => deliver_grows stepped
  | .receive _, stepped => by
    obtain ⟨_,_,_,_,-,-,-,-,rfl⟩ := receive_eq_some stepped
    exact .refl _
  | .timeout _, stepped => by
    obtain ⟨_,_,-,-,rfl⟩ := timeout_eq_some stepped
    exact .refl _
  | .complete _, stepped => by
    obtain ⟨_,_,_,_,_,-,-,-,-,-,⟨-,rfl⟩ | ⟨-,rfl⟩⟩ := complete_eq_some stepped <;> exact .refl _
  | .fail _, stepped => by
    obtain ⟨_,_,_,_,-,-,-,-,rfl⟩ := fail_eq_some stepped
    exact .refl _
  | .apply _, stepped => by
    obtain ⟨_,_,_,_,-,-,-,-,rfl⟩ := apply_eq_some stepped
    exact .refl _
  | .snapshot _ _, stepped => by
    obtain ⟨_,_,_,_,-,-,clustered,rfl⟩ := snapshot_eq_some stepped
    exact Cluster.step_grows clustered
  | .crash _, stepped => by
    obtain ⟨_,clustered,rfl⟩ := crash_eq_some stepped
    exact Cluster.step_grows clustered

theorem Applied.grow (grown : s.cluster.Grows s'.cluster) {i : Nat} {result : Result} :
    s.Applied Q i result → s'.Applied Q i result
  | ⟨node,found,op,kv,ran,applied⟩ =>
    let ⟨node',found',grows⟩ := grown.nodes i node found
    ⟨node',found',op,kv,ran.grow grows.sent,applied⟩

theorem Applied.mono (imp : ∀ kv, Q kv → Q' kv) {i : Nat} {result : Result} :
    s.Applied Q i result → s.Applied Q' i result
  | ⟨node,found,op,kv,ran,held,applied⟩ => ⟨node,found,op,kv,ran,imp kv held,applied⟩

theorem RepliesApplied.mono (inv : s.RepliesApplied Q) (imp : ∀ kv, Q kv → Q' kv) : s.RepliesApplied Q' where
  results i node index result found buffered := (inv.results i node index result found buffered).mono imp
  replies call mem reply replied ok :=
    let ⟨result,matched,same,applied⟩ := inv.replies call mem reply replied ok
    ⟨result,matched,same,applied.mono imp⟩

theorem RepliesApplied.frame (inv : s.RepliesApplied Q) (grown : s.cluster.Grows s'.cluster)
    (results : ∀ (i : Nat) (node : KvNode) index result, s'.servers[i]? = some node →
      node.resultCh index = some (some result) →
      (∃ node₀, s.servers[i]? = some node₀ ∧ node₀.resultCh index = some (some result)) ∨ s'.Applied Q i result)
    (replies : ∀ call ∈ s'.calls, (∃ call₀ ∈ s.calls, call₀.server = call.server ∧ call₀.op = call.op ∧
      call₀.stage = call.stage) ∨ s'.AppliedReply Q call) : s'.RepliesApplied Q := by
  refine ⟨fun i node index result found buffered => ?_,fun call mem => ?_⟩
  · rcases results i node index result found buffered with ⟨node₀,found₀,buffered₀⟩ | applied
    · exact Applied.grow grown (inv.results i node₀ index result found₀ buffered₀)
    · exact applied
  · rcases replies call mem with ⟨call₀,mem₀,server,op,stage⟩ | applied
    · intro reply replied ok
      obtain ⟨result,matched,rfl,applied⟩ := inv.replies call₀ mem₀ reply (stage ▸ replied) ok
      exact ⟨result,op ▸ matched,rfl,server ▸ Applied.grow grown applied⟩
    · exact applied

private theorem results_same (servers : s'.servers = s.servers) :
    ∀ (i : Nat) (node : KvNode) index result, s'.servers[i]? = some node →
      node.resultCh index = some (some result) →
      (∃ node₀, s.servers[i]? = some node₀ ∧ node₀.resultCh index = some (some result)) ∨ s'.Applied Q i result :=
  fun _ node _ _ found buffered => .inl ⟨node,servers ▸ found,buffered⟩

private theorem results_set {i : Nat} {node node' : KvNode} (found : s.servers[i]? = some node)
    (servers : s'.servers = s.servers.set i node')
    (kept : ∀ index result, node'.resultCh index = some (some result) →
      node.resultCh index = some (some result) ∨ s'.Applied Q i result) :
    ∀ (j : Nat) (nodeJ : KvNode) index result, s'.servers[j]? = some nodeJ →
      nodeJ.resultCh index = some (some result) →
      (∃ node₀, s.servers[j]? = some node₀ ∧ node₀.resultCh index = some (some result)) ∨ s'.Applied Q j result := by
  intro j nodeJ index result foundJ buffered
  rw [servers,List.getElem?_set] at foundJ
  split_ifs at foundJ with same
  · subst same
    simp only [(List.getElem?_eq_some_iff.1 found).1,if_true,Option.some.injEq] at foundJ
    subst foundJ
    exact (kept index result buffered).imp_left fun old => ⟨node,found,old⟩
  · exact .inl ⟨nodeJ,foundJ,buffered⟩

private theorem replies_set {k : Nat} {call : KvCall} (found : s.calls[k]? = some call) (call' : KvCall)
    (kept : (call'.server = call.server ∧ call'.op = call.op ∧ call'.stage = call.stage) ∨ s'.AppliedReply Q call') :
    ∀ c ∈ s.calls.set k call', (∃ call₀ ∈ s.calls, call₀.server = c.server ∧ call₀.op = c.op ∧
      call₀.stage = c.stage) ∨ s'.AppliedReply Q c := by
  intro c mem
  rcases List.mem_or_eq_of_mem_set mem with old | rfl
  · exact .inl ⟨c,old,rfl,rfl,rfl⟩
  · exact kept.imp_left fun ⟨server,op,stage⟩ => ⟨call,List.getElem?_mem found,server.symm,op.symm,stage.symm⟩

private theorem appliedReply_of_not_ok {call : KvCall}
    (notOk : ∀ reply, call.stage = .replied reply → reply.wrongLeader = true) : s.AppliedReply Q call :=
  fun reply replied ok => by rw [notOk reply replied] at ok; cases ok

private theorem appliedReply_sent (clerk server : Nat) (op : Op) (waited : Bool) :
    s.AppliedReply Q ⟨clerk,server,op,.sent,waited⟩ :=
  appliedReply_of_not_ok nofun

theorem RepliesApplied.deliver (inv : s.RepliesApplied Q) {k : Nat} (delivered : s.deliver k = some s') :
    s'.RepliesApplied Q := by
  obtain ⟨call,_,started,found,-,-,-,⟨-,_,kv,-,atServer,rfl⟩ | ⟨-,rfl⟩⟩ := deliver_eq_some delivered
  · refine inv.frame (deliver_grows delivered) (results_set atServer rfl fun index result buffered => .inl ?_)
      (replies_set found _ (.inr (appliedReply_of_not_ok nofun)))
    unfold KvNode.register at buffered
    split_ifs at buffered
    · exact buffered
    · by_cases same : index = started.2.1.toNat
      · subst same; simp at buffered
      · simpa [Function.update_noteq same] using buffered
  · exact inv.frame (.refl _) (results_same rfl) (replies_set found _ (.inr (appliedReply_of_not_ok fun _ replied =>
      by cases replied; rfl)))

theorem RepliesApplied.receive (inv : s.RepliesApplied Q) {k : Nat} (received : s.receive k = some s') :
    s'.RepliesApplied Q := by
  obtain ⟨call,index,kv,result,found,-,atServer,buffered,rfl⟩ := receive_eq_some received
  refine inv.frame (.refl _) (results_set atServer rfl fun index' result' buffered' => .inl ?_)
    (replies_set found _ (.inr fun reply replied ok => ?_))
  · by_cases same : index' = index
    · subst same; simp at buffered'
    · simpa [Function.update_noteq same] using buffered'
  · cases replied
    split_ifs at ok ⊢ with matched
    · exact ⟨result,matched,rfl,inv.results call.server kv index result atServer buffered⟩
    · cases ok

theorem RepliesApplied.release (inv : s.RepliesApplied Q) {k : Nat} {call : KvCall} (found : s.calls[k]? = some call)
    {extra : List KvCall} (cluster : s'.cluster = s.cluster) (servers : s'.servers = s.servers)
    (calls : s'.calls = s.calls.set k { call with waited := false } ++ extra) (sent : ∀ c ∈ extra, c.stage = .sent) :
    s'.RepliesApplied Q := by
  refine inv.frame (cluster ▸ .refl _) (results_same servers) fun c mem => ?_
  rw [calls] at mem
  rcases List.mem_append.1 mem with old | new
  · exact replies_set found { call with waited := false } (.inl ⟨rfl,rfl,rfl⟩) c old
  · exact .inr (appliedReply_of_not_ok fun _ replied => by rw [sent c new] at replied; cases replied)

theorem RepliesApplied.apply {oversized : Persister Op KVServer → Bool} (inv : s.RepliesApplied Q)
    (replays : s.Replays) (served : ∀ kv ∈ s.servers, Q kv.kv) {i : Nat} (applied : s.apply oversized i = some s') :
    s'.RepliesApplied Q := by
  obtain ⟨node,kv,msg,kv',atNode,atServer,msgAt,ran,rfl⟩ := apply_eq_some applied
  refine inv.frame (.refl _) (results_set atServer rfl fun index result buffered => ?_)
    fun c mem => .inl ⟨c,mem,rfl,rfl,rfl⟩
  rcases runMsg_results ran index result buffered with old | ⟨op,command,returned⟩
  · exact .inl old
  obtain ⟨node₀,atNode₀,-,replayed⟩ := replays i kv atServer
  rw [atNode] at atNode₀; cases atNode₀
  obtain ⟨bound,rfl⟩ := List.getElem?_eq_some_iff.1 msgAt
  have sent : node.earlier ++ node.raft.chanApply.take kv.applied ++ [node.raft.chanApply[kv.applied]] <+: node.sent := by
    rw [List.append_assoc,List.take_concat_get' _ _ bound]
    exact (List.prefix_append_right_inj _).2 (List.take_prefix _ _)
  exact .inr ⟨node,atNode,op,kv.kv,⟨_,_,_,sent,command,replayed⟩,served kv (List.getElem?_mem atServer),returned⟩

theorem RepliesApplied.crash (inv : s.RepliesApplied Q) {i : Nat} (crashed : s.crash i = some s') :
    s'.RepliesApplied Q := by
  obtain ⟨cluster,stepped,rfl⟩ := crash_eq_some crashed
  refine inv.frame (Cluster.step_grows stepped) ?_ fun c mem => ?_
  · intro j node index result found buffered
    rw [List.getElem?_set] at found
    split_ifs at found with same
    · simp only [Option.some.injEq] at found
      subst found
      cases buffered
    · exact .inl ⟨node,found,buffered⟩
  · obtain ⟨c₀,mem₀,rfl⟩ := List.mem_map.1 mem
    split_ifs with running
    · exact .inr (appliedReply_of_not_ok nofun)
    · exact .inl ⟨c₀,mem₀,rfl,rfl,rfl⟩

theorem RepliesApplied.step {oversized : Persister Op KVServer → Bool} (inv : s.RepliesApplied Q) (replays : s.Replays)
    (served : ∀ kv ∈ s.servers, Q kv.kv) : ∀ {a : ServiceAction}, s.step oversized a = some s' → s'.RepliesApplied Q
  | .raft _, stepped => by
    obtain ⟨_,clustered,rfl⟩ := raftStep_eq_some stepped
    exact inv.frame (Cluster.step_grows clustered) (results_same rfl) fun c mem => .inl ⟨c,mem,rfl,rfl,rfl⟩
  | .invoke _ _, stepped => by
    obtain ⟨_,-,-,rfl⟩ := invoke_eq_some stepped
    refine inv.frame (.refl _) (results_same rfl) fun call mem => ?_
    rcases List.mem_append.1 mem with old | new
    · exact .inl ⟨call,old,rfl,rfl,rfl⟩
    · cases List.mem_singleton.1 new; exact .inr (appliedReply_sent _ _ _ _)
  | .deliver _, stepped => inv.deliver stepped
  | .receive _, stepped => inv.receive stepped
  | .timeout _, stepped => by
    obtain ⟨_,_,found,-,rfl⟩ := timeout_eq_some stepped
    exact inv.frame (.refl _) (results_same rfl) (replies_set found _ (.inr (appliedReply_of_not_ok fun _ replied =>
      by cases replied; rfl)))
  | .complete _, stepped => by
    obtain ⟨_,_,_,_,_,found,-,-,-,-,⟨-,rfl⟩ | ⟨-,rfl⟩⟩ := complete_eq_some stepped
    · exact inv.release found rfl rfl rfl fun c mem => by cases List.mem_singleton.1 mem; rfl
    · exact inv.release found rfl rfl (List.append_nil _).symm nofun
  | .fail _, stepped => by
    obtain ⟨_,_,_,_,found,-,-,-,rfl⟩ := fail_eq_some stepped
    exact inv.release found rfl rfl rfl fun c mem => by cases List.mem_singleton.1 mem; rfl
  | .apply _, stepped => inv.apply replays served stepped
  | .snapshot _ _, stepped => by
    obtain ⟨_,_,_,_,atServer,-,clustered,rfl⟩ := snapshot_eq_some stepped
    exact inv.frame (Cluster.step_grows clustered) (results_set atServer rfl fun _ _ buffered => .inl buffered)
      fun c mem => .inl ⟨c,mem,rfl,rfl,rfl⟩
  | .crash _, stepped => inv.crash stepped

theorem init_repliesApplied (n : Nat) (clients : List Int) : (init n clients).RepliesApplied Q := by
  refine ⟨fun i node index result found buffered => ?_,nofun⟩
  obtain ⟨-,rfl⟩ := List.mem_replicate.1 (List.getElem?_mem found)
  cases buffered

end Service

end Sentinel.RaftKV
