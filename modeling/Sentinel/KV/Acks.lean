import Sentinel.KV.Maps

/-! What `ack` records in `raftkv`. `applyOp` writes to `ack[ClientId]` the `RequestId` of the op
it applies, `Run` applies only ops its replica sent on the apply channel, which are ops clerks
sent, and decodes into its maps only maps of snapshots that `CreateSnapshot` was given, which are
maps `Run` made. So every id in any server's `ack`, in any snapshot of the cluster and in any maps `Run`
queued for `CreateSnapshot` is the `RequestId` of an op its client sent: below that clerk's
counter. A clerk's next request is therefore never taken for a duplicate by `isDuplicated`. -/

namespace Sentinel.RaftKV

open Linearizability

/-- Every id `ack` records for a client is the `RequestId` of an op of that client in `ops`. -/
def KVServer.AcksIn (ops : List Op) (kv : KVServer) : Prop :=
  ∀ clientId requestId, kv.ack clientId = some requestId → ∃ op ∈ ops, op.clientId = clientId ∧ op.requestId = requestId

namespace KVServer

variable {ops ops' : List Op} {kv : KVServer}

theorem AcksIn.mono (acks : kv.AcksIn ops) (grown : ∀ op ∈ ops, op ∈ ops') : kv.AcksIn ops' :=
  fun clientId requestId found =>
    let ⟨op,mem,same⟩ := acks clientId requestId found
    ⟨op,grown op mem,same⟩

private theorem empty_acksIn (ops : List Op) : empty.AcksIn ops := nofun

theorem AcksIn.applyOp (acks : kv.AcksIn ops) {op : Op} (sent : op ∈ ops) : (kv.applyOp op).1.AcksIn ops := by
  intro clientId requestId found
  rw [applyOp_ack] at found
  by_cases same : clientId = op.clientId
  · subst same
    rw [Function.update_same,Option.some.injEq] at found
    exact ⟨op,sent,rfl,found⟩
  · rw [Function.update_noteq same] at found
    exact acks clientId requestId found

theorem AcksIn.load (acks : kv.AcksIn ops) {snapshot : KVServer} (loaded : snapshot.AcksIn ops) :
    (kv.load snapshot).AcksIn ops :=
  fun clientId requestId found => (load_ack found).elim (loaded clientId requestId) (acks clientId requestId)

private theorem acksIn_closed : Closed AcksIn :=
  ⟨empty_acksIn,fun _ _ _ acks sent => acks.applyOp sent,fun _ _ _ acks loaded => acks.load loaded,
    fun _ _ _ acks grown => acks.mono grown⟩

end KVServer

/-- When the clients have distinct ids, in every state any interleaving of the service reaches
(crashes, snapshots, lost and late calls, retries), no server's `ack` holds for a client an id its
clerk has not yet handed out, so the op a clerk issues next is not a duplicate at any server:
the `ack` entries come from `applyOp` on ops clerks sent and from snapshots of such maps. -/
theorem next_request_not_duplicated {oversized : Persister Op KVServer → Bool} {n : Nat} {clients : List Int}
    (distinct : clients.Nodup) {s : Service} (reached : Service.Reachable oversized n clients s) :
    ∀ kv ∈ s.servers, ∀ ck ∈ s.clerks, (∀ requestId, kv.kv.ack ck.clientId = some requestId → requestId < ck.requestId) ∧
      ∀ request : Request, kv.kv.isDuplicated (request.op ck.clientId ck.requestId) = false := by
  intro kv mem ck clerk
  have ids := reached.requestIds distinct
  have below : ∀ requestId, kv.kv.ack ck.clientId = some requestId → requestId < ck.requestId := by
    intro requestId found
    obtain ⟨op,sent,client,rfl⟩ := ((reached.mapsWithin KVServer.acksIn_closed distinct).servers kv mem).1 _ _ found
    obtain ⟨ck₀,clerk₀,same,issued⟩ := ids.issued op sent
    obtain rfl : ck₀ = ck := List.inj_on_of_nodup_map (ids.clients ▸ distinct) clerk₀ clerk (same.symm.trans client)
    exact issued
  refine ⟨below,fun request => ?_⟩
  unfold KVServer.isDuplicated
  simp only [Request.op_clientId,Request.op_requestId]
  split
  · exact decide_eq_false (not_le.2 (below _ ‹_›))
  · rfl

theorem putCompletes_next_request_not_duplicated :
    [(1 : Int),2,3].Nodup ∧
      ∀ kv ∈ (Service.replay (fun _ => false) 3 [1,2,3] (getAndPutStarted ++ putCompletes) (by decide)).servers,
      ∀ ck ∈ (Service.replay (fun _ => false) 3 [1,2,3] (getAndPutStarted ++ putCompletes) (by decide)).clerks,
        (∀ requestId, kv.kv.ack ck.clientId = some requestId → requestId < ck.requestId) ∧
        ∀ request : Request, kv.kv.isDuplicated (request.op ck.clientId ck.requestId) = false :=
  ⟨by decide,next_request_not_duplicated (by decide) (Service.Reachable.replay _ _)⟩

end Sentinel.RaftKV
