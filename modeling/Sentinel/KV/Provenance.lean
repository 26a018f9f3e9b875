import Sentinel.KV.Acks

/-! Where the ops and the results of `raftkv` come from. The Raft layer holds and applies only
ops that clerks sent (`RequestIds`), and a clerk sends only the op `Get` or `PutAppend` made of
its request, with its own `ClientId` and a `RequestId` it drew; so `applyOp` never sees a command
other than get, put and append. A clerk records an op as completed when a server replies to its
`Call` without `WrongLeader`: that reply carries what `applyOp` returned for the clerk's own op
(`RequestIds.answers_own_op`), which the server's replica sent on its apply channel, and the
clerk records the reply's `Value` as the op's output. So the history holds no result the
service did not compute. It does not say in which state of the maps the op was applied: a lost
put shows that it need not be one the history explains. -/

namespace Sentinel.RaftKV

open Linearizability

namespace Service

variable {s s' : Service} {clients : List Int} {Q Q' : KVServer → Prop}

/-! ### Every op is a clerk's request -/

/-- Every sent op is the op `Get` or `PutAppend` makes of a request, with the op's own ids. -/
def Requested (s : Service) : Prop := ∀ op ∈ s.ops, ∃ request : Request, op = request.op op.clientId op.requestId

private theorem ops_set_sub {k : Nat} {call call' : KvCall} (found : s.calls[k]? = some call) (same : call'.op = call.op) :
    ∀ op ∈ (s.calls.set k call').map KvCall.op, op ∈ s.ops :=
  fun _ mem => ops_set found same ▸ mem

theorem Requested.of_sub (requested : s.Requested) (ops : ∀ op ∈ s'.ops, op ∈ s.ops) : s'.Requested :=
  fun op mem => requested op (ops op mem)

private theorem ops_retry_sub (ids : s.RequestIds clients) {k : Nat} {call : KvCall} (found : s.calls[k]? = some call)
    {ck : Clerk} (atClerk : s.clerks[call.clerk]? = some ck) {op : Op} {called : Int}
    (pending : ck.pending = some (op,called)) :
    ∀ op' ∈ ({ s with calls := s.calls.set k { call with waited := false } }.retry call.clerk ck op).ops, op' ∈ s.ops := by
  intro op' mem
  simp only [Service.retry,Service.send,ops,List.map_append,List.mem_append,List.map_cons,List.map_nil,
    List.mem_singleton] at mem
  rcases mem with old | rfl
  · exact ops_set_sub found (by rfl) op' old
  · exact ids.pending ck (List.getElem?_mem atClerk) (op',called) pending

theorem Requested.step {oversized : Persister Op KVServer → Bool} (ids : s.RequestIds clients)
    (requested : s.Requested) : ∀ {a : ServiceAction}, s.step oversized a = some s' → s'.Requested
  | .raft _, stepped => by
    obtain ⟨_,-,rfl⟩ := raftStep_eq_some stepped
    exact requested
  | .invoke _ request, stepped => by
    obtain ⟨ck,-,-,rfl⟩ := invoke_eq_some stepped
    intro op mem
    simp only [Service.send,ops,List.map_append,List.mem_append,List.map_cons,List.map_nil,
      List.mem_singleton] at mem
    rcases mem with old | rfl
    · exact requested op old
    · exact ⟨request,by simp⟩
  | .deliver _, stepped => by
    obtain ⟨_,_,_,found,-,-,-,⟨-,_,_,-,-,rfl⟩ | ⟨-,rfl⟩⟩ := deliver_eq_some stepped <;>
    exact requested.of_sub (ops_set_sub found (by rfl))
  | .receive _, stepped => by
    obtain ⟨_,_,_,_,found,-,-,-,rfl⟩ := receive_eq_some stepped
    exact requested.of_sub (ops_set_sub found (by rfl))
  | .timeout _, stepped => by
    obtain ⟨_,_,found,-,rfl⟩ := timeout_eq_some stepped
    exact requested.of_sub (ops_set_sub found (by rfl))
  | .complete _, stepped => by
    obtain ⟨_,_,_,_,_,found,-,-,atClerk,pending,⟨-,rfl⟩ | ⟨-,rfl⟩⟩ := complete_eq_some stepped
    · exact requested.of_sub (ops_retry_sub ids found atClerk pending)
    · exact requested.of_sub (ops_set_sub found (by rfl))
  | .fail _, stepped => by
    obtain ⟨_,_,_,_,found,-,atClerk,pending,rfl⟩ := fail_eq_some stepped
    exact requested.of_sub (ops_retry_sub ids found atClerk pending)
  | .apply _, stepped => by
    obtain ⟨_,_,_,_,-,-,-,-,rfl⟩ := apply_eq_some stepped
    exact requested
  | .snapshot _ _, stepped => by
    obtain ⟨_,_,_,_,-,-,-,rfl⟩ := snapshot_eq_some stepped
    exact requested
  | .crash i, stepped => by
    obtain ⟨_,-,rfl⟩ := crash_eq_some stepped
    exact requested.of_sub fun op mem => (ops_crash i) ▸ mem

/-! ### Every completed op was applied -/

private theorem step_history {oversized : Persister Op KVServer → Bool} :
    ∀ {a : ServiceAction}, s.step oversized a = some s' → s'.history = s.history ∨ ∃ k, a = .complete k
  | .raft _, stepped => by
    obtain ⟨_,-,rfl⟩ := raftStep_eq_some stepped
    exact .inl rfl
  | .invoke _ _, stepped => by
    obtain ⟨_,-,-,rfl⟩ := invoke_eq_some stepped
    exact .inl rfl
  | .deliver _, stepped => by
    obtain ⟨_,_,_,-,-,-,-,⟨-,_,_,-,-,rfl⟩ | ⟨-,rfl⟩⟩ := deliver_eq_some stepped <;> exact .inl rfl
  | .receive _, stepped => by
    obtain ⟨_,_,_,_,-,-,-,-,rfl⟩ := receive_eq_some stepped
    exact .inl rfl
  | .timeout _, stepped => by
    obtain ⟨_,_,-,-,rfl⟩ := timeout_eq_some stepped
    exact .inl rfl
  | .complete k, _ => .inr ⟨k,rfl⟩
  | .fail _, stepped => by
    obtain ⟨_,_,_,_,-,-,-,-,rfl⟩ := fail_eq_some stepped
    exact .inl rfl
  | .apply _, stepped => by
    obtain ⟨_,_,_,_,-,-,-,-,rfl⟩ := apply_eq_some stepped
    exact .inl rfl
  | .snapshot _ _, stepped => by
    obtain ⟨_,_,_,_,-,-,-,rfl⟩ := snapshot_eq_some stepped
    exact .inl rfl
  | .crash _, stepped => by
    obtain ⟨_,-,rfl⟩ := crash_eq_some stepped
    exact .inl rfl

private theorem replyOf_value {result : Result} (ok : (replyOf result).wrongLeader = false) :
    (replyOf result).value = result.value := by
  unfold replyOf at ok ⊢
  split_ifs at ok ⊢
  rfl

/-- `h` is the input of a sent op that some replica has sent on its apply channel, and its
output is the value `applyOp` returned for that op on the maps `Run` had made of the messages
before it, which have `Q`. -/
def Completed (Q : KVServer → Prop) (s : Service) (h : Operation KvValue) : Prop :=
  ∃ op ∈ s.ops, h.input = .input (inputOf op) ∧ ∃ node ∈ s.cluster.nodes, ∃ kv, AppliedAt node op kv ∧ Q kv ∧
    h.output = .output ⟨(kv.applyOp op).2.value⟩

/-- Every op of the history was applied, to maps that have `Q`. -/
def HistoryApplied (Q : KVServer → Prop) (s : Service) : Prop := ∀ h ∈ s.history, s.Completed Q h

theorem HistoryApplied.mono (applied : s.HistoryApplied Q) (imp : ∀ kv, Q kv → Q' kv) : s.HistoryApplied Q' :=
  fun h mem =>
    let ⟨op,sent,input,node,mem,kv,ran,held,output⟩ := applied h mem
    ⟨op,sent,input,node,mem,kv,ran,imp kv held,output⟩

theorem Completed.grow (grown : s.cluster.Grows s'.cluster) (ops : ∀ op ∈ s.ops, op ∈ s'.ops)
    {h : Operation KvValue} : s.Completed Q h → s'.Completed Q h
  | ⟨op,sent,input,node,mem,kv,ran,held,output⟩ => by
    obtain ⟨i,found⟩ := List.mem_iff_getElem?.1 mem
    obtain ⟨node',found',grows⟩ := grown.nodes i node found
    exact ⟨op,ops op sent,input,node',List.getElem?_mem found',kv,ran.grow grows.sent,held,output⟩

theorem HistoryApplied.step {oversized : Persister Op KVServer → Bool} (ids : s.RequestIds clients)
    (inv : s.RepliesApplied Q) (wf : s.ClerksWellFormed) (applied : s.HistoryApplied Q) {a : ServiceAction}
    (stepped : s.step oversized a = some s') : s'.HistoryApplied Q := by
  have kept : ∀ h ∈ s.history, s'.Completed Q h := fun h mem =>
    (applied h mem).grow (step_grows stepped) (step_ops stepped)
  rcases step_history stepped with same | ⟨k,rfl⟩
  · exact fun h mem => kept h (same ▸ mem)
  obtain ⟨call,reply,ck,op,called,found,replied,waiting,atClerk,pending,⟨-,rfl⟩ | ⟨ok,rfl⟩⟩ :=
    complete_eq_some stepped
  · exact kept
  intro h mem
  rcases List.mem_append.1 mem with old | new
  · exact kept h old
  cases List.mem_singleton.1 new
  obtain ⟨rfl,-⟩ := waitedOps_release wf found waiting atClerk pending
  have sent := List.getElem?_mem found
  obtain ⟨node,atNode,kv,ran,held,rfl⟩ := ids.answers_own_op inv sent replied ok
  exact ⟨call.op,mem_ops_set found (by rfl) _ (List.mem_map_of_mem _ sent),rfl,node,List.getElem?_mem atNode,kv,ran,
    held,by rw [replyOf_value ok]⟩

end Service

theorem Service.Reachable.requested {oversized : Persister Op KVServer → Bool} {n : Nat} {clients : List Int}
    (distinct : clients.Nodup) {s : Service} (reached : Service.Reachable oversized n clients s) : s.Requested := by
  induction reached with
  | init => exact fun _ mem => by cases mem
  | step _ reached stepped requested => exact requested.step (reached.requestIds distinct) stepped

/-- When the clients have distinct ids, in every state any interleaving of the service reaches,
every op that a replica holds in its log or has sent on its apply channel is a `Get`, `Put` or
`Append` request of some clerk, made into an op with that clerk's `ClientId` and a `RequestId`
the clerk has already drawn: no replica holds or applies an op no clerk issued, and `applyOp`
never meets a command other than get, put and append. -/
theorem carried_ops_were_requested {oversized : Persister Op KVServer → Bool} {n : Nat} {clients : List Int}
    (distinct : clients.Nodup) {s : Service} (reached : Service.Reachable oversized n clients s) :
    ∀ op, s.Carried op → ∃ request : Request, ∃ ck ∈ s.clerks,
      op = request.op ck.clientId op.requestId ∧ op.requestId < ck.requestId := by
  intro op carried
  have ids := reached.requestIds distinct
  have sent := ids.carried carried
  obtain ⟨request,same⟩ := reached.requested distinct op sent
  obtain ⟨ck,held,client,below⟩ := ids.issued op sent
  exact ⟨request,ck,held,client ▸ same,below⟩

theorem putCompletes_carried_ops_were_requested :
    [(1 : Int),2,3].Nodup ∧ ∀ op,
      (Service.replay (fun _ => false) 3 [1,2,3] (getAndPutStarted ++ putCompletes) (by decide)).Carried op →
      ∃ request : Request, ∃ ck ∈
        (Service.replay (fun _ => false) 3 [1,2,3] (getAndPutStarted ++ putCompletes) (by decide)).clerks,
        op = request.op ck.clientId op.requestId ∧ op.requestId < ck.requestId :=
  ⟨by decide,carried_ops_were_requested (by decide) (Service.Reachable.replay _ _)⟩

end Sentinel.RaftKV
