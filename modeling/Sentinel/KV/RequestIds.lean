import Sentinel.KV.Clerks
import Sentinel.KV.Replies
import Sentinel.Raft.Validity

/-! Request ids in `raftkv`. A clerk stamps each op it issues with its `ClientId` and the next
`RequestId` of its counter, and retries an op only with the op itself; a server passes to
`Start` only the op of a request it received, and the Raft layer holds and applies only what
was started (`Cluster.Valid`). So when the clients have distinct ids, one
`(ClientId, RequestId)` names one op across every replica's log and apply channel, crashes and
lost calls included: `isDuplicated` and `isMatch`, which compare ids, never confuse two ops,
and a reply without `WrongLeader` answers the clerk's own op. -/

namespace Sentinel.RaftKV

open Linearizability

@[simp] theorem Request.op_clientId (clientId requestId : Int) (request : Request) :
    (request.op clientId requestId).clientId = clientId := by
  cases request <;> rfl

@[simp] theorem Request.op_requestId (clientId requestId : Int) (request : Request) :
    (request.op clientId requestId).requestId = requestId := by
  cases request <;> rfl

namespace Service

/-- The ops the clerks have sent, one per call. -/
def ops (s : Service) : List Op := s.calls.map KvCall.op

/-- `op` is the command of an entry of a replica's log or of a message it sent on an apply channel. -/
def Carried (s : Service) (op : Op) : Prop :=
  ∃ node ∈ s.cluster.nodes, (∃ e ∈ node.raft.log, e.command = some op) ∨ ∃ msg ∈ node.sent, msg.command = some op

/-- Each sent op carries a clerk's id and an id below that clerk's counter, one id of a client
names one sent op, a clerk retries a sent op, and the cluster holds only sent ops. -/
structure RequestIds (clients : List Int) (s : Service) : Prop where
  clients : s.clerks.map Clerk.clientId = clients
  issued : ∀ op ∈ s.ops, ∃ ck ∈ s.clerks, op.clientId = ck.clientId ∧ op.requestId < ck.requestId
  unique : ∀ op ∈ s.ops, ∀ op' ∈ s.ops, op.clientId = op'.clientId → op.requestId = op'.requestId → op = op'
  pending : ∀ ck ∈ s.clerks, ∀ p ∈ ck.pending, p.1 ∈ s.ops
  commands : s.cluster.Valid (· ∈ s.ops)

variable {clients : List Int} {s s' : Service}

theorem RequestIds.of_sub (ids : s.RequestIds clients) (clients' : s'.clerks.map Clerk.clientId = clients)
    (advance : ∀ ck ∈ s.clerks, ∃ ck' ∈ s'.clerks, ck'.clientId = ck.clientId ∧ ck.requestId ≤ ck'.requestId)
    (ops : ∀ op, op ∈ s'.ops ↔ op ∈ s.ops) (pending : ∀ ck ∈ s'.clerks, ∀ p ∈ ck.pending, p.1 ∈ s.ops)
    (commands : s'.cluster.Valid (· ∈ s.ops)) : s'.RequestIds clients where
  clients := clients'
  issued op mem := by
    obtain ⟨ck,held,same,below⟩ := ids.issued op ((ops op).1 mem)
    obtain ⟨ck',held',same',le⟩ := advance ck held
    exact ⟨ck',held',same.trans same'.symm,below.trans_le le⟩
  unique op mem op' mem' := ids.unique op ((ops op).1 mem) op' ((ops op').1 mem')
  pending ck held p mem := (ops p.1).2 (pending ck held p mem)
  commands := commands.mono fun op mem => (ops op).2 mem

theorem RequestIds.frame (ids : s.RequestIds clients) (clerks : s'.clerks = s.clerks) (ops : s'.ops = s.ops)
    (commands : s'.cluster.Valid (· ∈ s.ops)) : s'.RequestIds clients :=
  ids.of_sub (clerks ▸ ids.clients) (fun ck held => ⟨ck,clerks ▸ held,rfl,le_rfl⟩) (fun _ => ops ▸ .rfl)
    (clerks ▸ ids.pending) commands

theorem ops_set {k : Nat} {call call' : KvCall} (found : s.calls[k]? = some call) (same : call'.op = call.op) :
    (s.calls.set k call').map KvCall.op = s.ops := by
  rw [List.map_set,same]
  exact set_eq_of_getElem? (by simp [ops,found])

private theorem clerks_set_advance {c : Nat} {ck : Clerk} (found : s.clerks[c]? = some ck) (ck' : Clerk)
    (same : ck'.clientId = ck.clientId) (le : ck.requestId ≤ ck'.requestId) :
    (s.clerks.set c ck').map Clerk.clientId = s.clerks.map Clerk.clientId ∧
      ∀ ck₀ ∈ s.clerks, ∃ ck₁ ∈ s.clerks.set c ck', ck₁.clientId = ck₀.clientId ∧ ck₀.requestId ≤ ck₁.requestId := by
  refine ⟨by rw [List.map_set,same]; exact set_eq_of_getElem? (by simp [found]),fun ck₀ held => ?_⟩
  obtain ⟨j,atJ⟩ := List.mem_iff_getElem?.1 held
  by_cases mine : c = j
  · subst mine
    rw [found] at atJ; cases atJ
    exact ⟨ck',List.mem_set _ _ (List.getElem?_eq_some_iff.1 found).1 _,same,le⟩
  · exact ⟨ck₀,List.getElem?_mem ((List.getElem?_set_ne mine).trans atJ),rfl,le_rfl⟩

theorem ops_crash (i : Nat) :
    (s.calls.map fun call => if call.server = i ∧ call.stage.running then { call with stage := .lost } else call).map
      KvCall.op = s.ops := by
  simp only [ops,List.map_map]
  congr 1
  funext call
  dsimp only [Function.comp_apply]
  split <;> rfl

theorem RequestIds.restage (ids : s.RequestIds clients) {k : Nat} {call : KvCall}
    (found : s.calls[k]? = some call) (call' : KvCall) (same : call'.op = call.op) :
    ({ s with calls := s.calls.set k call' } : Service).RequestIds clients :=
  ids.frame rfl (ops_set found same) ids.commands

theorem RequestIds.retry (ids : s.RequestIds clients) {c : Nat} {ck : Clerk} (found : s.clerks[c]? = some ck)
    {op : Op} {called : Int} (pending : ck.pending = some (op,called)) : (s.retry c ck op).RequestIds clients := by
  have sent := ids.pending ck (List.getElem?_mem found) (op,called) pending
  obtain ⟨clients',advance⟩ :=
    clerks_set_advance found { ck with leader := (ck.leader + 1) % s.servers.length } rfl le_rfl
  refine ids.of_sub (clients'.trans ids.clients) advance (fun op' => ?_) (fun ck' held p mem => ?_) ids.commands
  · simp only [Service.retry,Service.send,ops,List.map_append,List.mem_append,List.map_cons,List.map_nil,
      List.mem_singleton]
    exact ⟨fun sent' => sent'.elim id fun same => same ▸ sent,.inl⟩
  · rcases List.mem_or_eq_of_mem_set held with old | rfl
    · exact ids.pending ck' old p mem
    · exact ids.pending ck (List.getElem?_mem found) p mem

theorem RequestIds.invoke (distinct : clients.Nodup) (ids : s.RequestIds clients) {c : Nat} {request : Request}
    (invoked : s.invoke c request = some s') : s'.RequestIds clients := by
  obtain ⟨ck,atClerk,-,rfl⟩ := invoke_eq_some invoked
  obtain ⟨clients',advance⟩ := clerks_set_advance atClerk
    { ck with requestId := ck.requestId + 1, pending := some (request.op ck.clientId ck.requestId,s.clock) } rfl
    (Int.le_add_one le_rfl)
  have fresh : ∀ op ∈ s.ops, op.clientId = ck.clientId → op.requestId < ck.requestId := by
    intro op mem same
    obtain ⟨ck₀,held,same₀,below⟩ := ids.issued op mem
    obtain rfl : ck₀ = ck := List.inj_on_of_nodup_map (ids.clients ▸ distinct) held (List.getElem?_mem atClerk)
      (same₀.symm.trans same)
    exact below
  have ops : ∀ op, op ∈ (s.send c (request.op ck.clientId ck.requestId) ck.leader).ops ↔
      op ∈ s.ops ∨ op = request.op ck.clientId ck.requestId := by
    simp [Service.send,ops]
  refine ⟨clients'.trans ids.clients,fun op mem => ?_,fun op mem op' mem' client request => ?_,
    fun ck' held p mem => (ops p.1).2 ?_,ids.commands.mono fun op mem => (ops op).2 (.inl mem)⟩
  · rcases (ops op).1 mem with old | rfl
    · obtain ⟨ck₀,held,same,below⟩ := ids.issued op old
      obtain ⟨ck₁,held',same',le⟩ := advance ck₀ held
      exact ⟨ck₁,held',same.trans same'.symm,below.trans_le le⟩
    · exact ⟨_,List.mem_set _ _ (List.getElem?_eq_some_iff.1 atClerk).1 _,by simp,by simp⟩
  · rcases (ops op).1 mem with old | rfl <;> rcases (ops op').1 mem' with old' | rfl
    · exact ids.unique op old op' old' client request
    · exact absurd (request.trans (Request.op_requestId _ _ _))
        (fresh op old (client.trans (Request.op_clientId _ _ _))).ne
    · exact absurd (request.symm.trans (Request.op_requestId _ _ _))
        (fresh op' old' (client.symm.trans (Request.op_clientId _ _ _))).ne
    · rfl
  · rcases List.mem_or_eq_of_mem_set held with old | rfl
    · exact .inl (ids.pending ck' old p mem)
    · cases mem; exact .inr rfl

theorem RequestIds.deliver (ids : s.RequestIds clients) {k : Nat} (delivered : s.deliver k = some s') :
    s'.RequestIds clients := by
  obtain ⟨call,node,started,found,-,atServer,startedAt,⟨-,cluster,kv,updated,-,rfl⟩ | ⟨-,rfl⟩⟩ :=
    deliver_eq_some delivered
  · refine ids.frame rfl (ops_set found rfl) (ids.commands.updateNode (fun _ _ found' changed => ?_) updated)
    rw [atServer] at found'; cases found'; cases changed
    have held := ids.commands.get atServer
    exact ⟨Raft.start_valid held.raft (List.mem_map_of_mem _ (List.getElem?_mem found)) started.1 started.2 startedAt,
      held.persisting,held.earlier⟩
  · exact ids.restage found _ rfl

theorem RequestIds.complete (ids : s.RequestIds clients) {k : Nat} (completed : s.complete k = some s') :
    s'.RequestIds clients := by
  obtain ⟨call,_,ck,op,called,found,-,-,atClerk,pending,⟨-,rfl⟩ | ⟨-,rfl⟩⟩ := complete_eq_some completed
  all_goals have restaged := ids.restage found { call with waited := false } rfl
  · exact restaged.retry atClerk pending
  obtain ⟨clients',advance⟩ := clerks_set_advance atClerk { ck with pending := none } rfl le_rfl
  refine restaged.of_sub (clients'.trans ids.clients) advance (fun _ => .rfl) (fun ck' held p mem => ?_)
    restaged.commands
  rcases List.mem_or_eq_of_mem_set held with old | rfl
  · exact restaged.pending ck' old p mem
  · cases mem

theorem RequestIds.step {oversized : Persister Op KVServer → Bool} (distinct : clients.Nodup)
    (ids : s.RequestIds clients) : ∀ {a : ServiceAction}, s.step oversized a = some s' → s'.RequestIds clients
  | .raft a, stepped => by
    obtain ⟨cluster,clustered,rfl⟩ := raftStep_eq_some stepped
    refine ids.frame rfl rfl (ids.commands.step (fun i c started => ?_) clustered)
    subst started
    cases stepped
  | .invoke _ _, stepped => ids.invoke distinct stepped
  | .deliver _, stepped => ids.deliver stepped
  | .receive _, stepped => by
    obtain ⟨_,_,_,_,found,-,-,-,rfl⟩ := receive_eq_some stepped
    exact ids.frame rfl (ops_set found rfl) ids.commands
  | .timeout _, stepped => by
    obtain ⟨_,_,found,-,rfl⟩ := timeout_eq_some stepped
    exact ids.restage found _ rfl
  | .complete _, stepped => ids.complete stepped
  | .fail _, stepped => by
    obtain ⟨call,_,_,_,found,-,atClerk,pending,rfl⟩ := fail_eq_some stepped
    exact (ids.restage found { call with waited := false } rfl).retry atClerk pending
  | .apply _, stepped => by
    obtain ⟨_,_,_,_,-,-,-,-,rfl⟩ := apply_eq_some stepped
    exact ids.frame rfl rfl ids.commands
  | .snapshot _ _, stepped => by
    obtain ⟨_,_,_,_,-,-,clustered,rfl⟩ := snapshot_eq_some stepped
    exact ids.frame rfl rfl (ids.commands.step (fun _ _ started => by cases started) clustered)
  | .crash i, stepped => by
    obtain ⟨cluster,clustered,rfl⟩ := crash_eq_some stepped
    exact ids.frame rfl (ops_crash i) (ids.commands.step (fun _ _ started => by cases started) clustered)

private theorem init_requestIds (n : Nat) (clients : List Int) : (init n clients).RequestIds clients :=
  ⟨by simp [init,Function.comp_def],nofun,nofun,fun ck held => by
    obtain ⟨_,_,rfl⟩ := List.mem_map.1 held
    nofun,Cluster.init_valid n⟩

end Service

theorem Service.Reachable.requestIds {oversized : Persister Op KVServer → Bool} {n : Nat} {clients : List Int}
    (distinct : clients.Nodup) {s : Service} (reached : Service.Reachable oversized n clients s) :
    s.RequestIds clients := by
  induction reached with
  | init => exact Service.init_requestIds n clients
  | step _ _ stepped ids => exact ids.step distinct stepped

theorem Service.RequestIds.carried {clients : List Int} {s : Service} (ids : s.RequestIds clients) {op : Op}
    (carried : s.Carried op) : op ∈ s.ops := by
  obtain ⟨node,mem,⟨e,held,same⟩ | ⟨msg,sent,same⟩⟩ := carried
  · exact (ids.commands.nodes node mem).raft.log e held op same
  · exact (ids.commands.nodes node mem).sent msg sent op same

/-- When the clients have distinct ids, in every state any interleaving of the service reaches
(lost and late calls, retries, crashes of replicas and servers), two ops that replicas hold in
their logs or have sent on their apply channels and that carry the same `ClientId` and
`RequestId` are the same op. -/
theorem request_ids_name_one_op {oversized : Persister Op KVServer → Bool} {n : Nat} {clients : List Int}
    (distinct : clients.Nodup) {s : Service} (reached : Service.Reachable oversized n clients s) :
    ∀ op op', s.Carried op → s.Carried op' → op.clientId = op'.clientId → op.requestId = op'.requestId → op = op' :=
  fun op op' carried carried' =>
    let ids := reached.requestIds distinct
    ids.unique op (ids.carried carried) op' (ids.carried carried')

theorem putCompletes_request_ids_name_one_op :
    [(1 : Int),2,3].Nodup ∧ ∀ op op',
      (Service.replay (fun _ => false) 3 [1,2,3] (getAndPutStarted ++ putCompletes) (by decide)).Carried op →
      (Service.replay (fun _ => false) 3 [1,2,3] (getAndPutStarted ++ putCompletes) (by decide)).Carried op' →
      op.clientId = op'.clientId → op.requestId = op'.requestId → op = op' :=
  ⟨by decide,request_ids_name_one_op (by decide) (Service.Reachable.replay _ _)⟩

theorem Service.RequestIds.answers_own_op {clients : List Int} {s : Service} {Q : KVServer → Prop}
    (ids : s.RequestIds clients) (inv : s.RepliesApplied Q) {call : KvCall} (mem : call ∈ s.calls) {reply : Reply}
    (replied : call.stage = .replied reply) (ok : reply.wrongLeader = false) :
    ∃ node, s.cluster.nodes[call.server]? = some node ∧ ∃ kv, AppliedAt node call.op kv ∧ Q kv ∧
      reply = replyOf (kv.applyOp call.op).2 := by
  obtain ⟨result,matched,rfl,node,found,op,kv,ran,held,rfl⟩ := inv.replies call mem reply replied ok
  obtain ⟨client,request⟩ := applyOp_ids kv op
  simp only [isMatch,Bool.and_eq_true,beq_iff_eq] at matched
  obtain rfl : op = call.op := ids.unique op (ids.carried ⟨node,List.getElem?_mem found,.inr ran.sent⟩)
    call.op (List.mem_map_of_mem _ mem) (client ▸ matched.1.symm) (request ▸ matched.2.symm)
  exact ⟨node,found,kv,ran,held,rfl⟩

end Sentinel.RaftKV
