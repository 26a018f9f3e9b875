import Sentinel.KV.Replies

/-! Where the clerks of `raftkv` send their calls. `MakeClerk` starts at `leader = 0`, and after a
call that fails or replies `WrongLeader`, `Get` and `PutAppend` move on to
`(ck.leader + 1) % len(ck.servers)`; the service keeps one replica and one `KVServer` per server,
through crashes. So with at least one server `ck.servers[ck.leader]` is never out of range, and
every call in flight names a replica and a `KVServer` that exist, across every interleaving. -/

namespace Sentinel.RaftKV

namespace Service

variable {s s' : Service} {n : Nat}

/-- The service has `n` replicas and `n` `KVServer`s, and every clerk's `leader` and every call's
server is one of them. -/
structure Addressed (n : Nat) (s : Service) : Prop where
  nodes : s.cluster.nodes.length = n
  servers : s.servers.length = n
  leaders : ∀ ck ∈ s.clerks, ck.leader < n
  calls : ∀ call ∈ s.calls, call.server < n

private theorem leaders_set (leaders : ∀ ck ∈ s.clerks, ck.leader < n) {c : Nat} {ck : Clerk} (bound : ck.leader < n) :
    ∀ ck' ∈ s.clerks.set c ck, ck'.leader < n :=
  fun _ mem => (List.mem_or_eq_of_mem_set mem).elim (leaders _) fun same => same ▸ bound

private theorem calls_set (calls : ∀ call ∈ s.calls, call.server < n) {k : Nat} {call call' : KvCall}
    (found : s.calls[k]? = some call) (same : call'.server = call.server) : ∀ c ∈ s.calls.set k call', c.server < n :=
  fun _ mem => (List.mem_or_eq_of_mem_set mem).elim (calls _) fun new =>
    new ▸ same ▸ calls call (List.getElem?_mem found)

theorem Addressed.send (addressed : s.Addressed n) {c server : Nat} {op : Op} (bound : server < n) :
    (s.send c op server).Addressed n :=
  ⟨addressed.nodes,addressed.servers,addressed.leaders,fun call mem =>
    (List.mem_append.1 mem).elim (addressed.calls call) fun new => by cases List.mem_singleton.1 new; exact bound⟩

theorem Addressed.retry (positive : 0 < n) (addressed : s.Addressed n) {c : Nat} {ck : Clerk} {op : Op} :
    (s.retry c ck op).Addressed n := by
  have next : (ck.leader + 1) % s.servers.length < n := by
    rw [addressed.servers]
    exact Nat.mod_lt _ positive
  refine Addressed.send ?_ next
  exact ⟨addressed.nodes,addressed.servers,leaders_set addressed.leaders next,addressed.calls⟩

theorem Addressed.step {oversized : Persister Op KVServer → Bool} (positive : 0 < n) (addressed : s.Addressed n)
    {a : ServiceAction} (stepped : s.step oversized a = some s') : s'.Addressed n := by
  have nodes := (step_grows stepped).length.trans addressed.nodes
  have servers : ∀ {i : Nat} {kv : KvNode}, (s.servers.set i kv).length = n :=
    (List.length_set _ _ _).trans addressed.servers
  cases a with
  | raft _ =>
    obtain ⟨_,-,rfl⟩ := raftStep_eq_some stepped
    exact ⟨nodes,addressed.servers,addressed.leaders,addressed.calls⟩
  | invoke _ _ =>
    obtain ⟨ck,atClerk,-,rfl⟩ := invoke_eq_some stepped
    have bound := addressed.leaders ck (List.getElem?_mem atClerk)
    refine Addressed.send ?_ bound
    exact ⟨addressed.nodes,addressed.servers,leaders_set addressed.leaders bound,addressed.calls⟩
  | deliver _ =>
    obtain ⟨_,_,_,found,-,-,-,⟨-,_,_,-,-,rfl⟩ | ⟨-,rfl⟩⟩ := deliver_eq_some stepped
    · exact ⟨nodes,servers,addressed.leaders,calls_set addressed.calls found rfl⟩
    · exact ⟨nodes,addressed.servers,addressed.leaders,calls_set addressed.calls found rfl⟩
  | receive _ =>
    obtain ⟨_,_,_,_,found,-,-,-,rfl⟩ := receive_eq_some stepped
    exact ⟨nodes,servers,addressed.leaders,calls_set addressed.calls found rfl⟩
  | timeout _ =>
    obtain ⟨_,_,found,-,rfl⟩ := timeout_eq_some stepped
    exact ⟨nodes,addressed.servers,addressed.leaders,calls_set addressed.calls found rfl⟩
  | complete _ =>
    obtain ⟨_,_,ck,_,_,found,-,-,atClerk,-,⟨-,rfl⟩ | ⟨-,rfl⟩⟩ := complete_eq_some stepped
    · refine Addressed.retry positive ?_
      exact ⟨addressed.nodes,addressed.servers,addressed.leaders,calls_set addressed.calls found rfl⟩
    · exact ⟨nodes,addressed.servers,leaders_set addressed.leaders (addressed.leaders ck (List.getElem?_mem atClerk)),
        calls_set addressed.calls found rfl⟩
  | fail _ =>
    obtain ⟨_,_,_,_,found,-,-,-,rfl⟩ := fail_eq_some stepped
    refine Addressed.retry positive ?_
    exact ⟨addressed.nodes,addressed.servers,addressed.leaders,calls_set addressed.calls found rfl⟩
  | apply _ =>
    obtain ⟨_,_,_,_,-,-,-,-,rfl⟩ := apply_eq_some stepped
    exact ⟨nodes,servers,addressed.leaders,addressed.calls⟩
  | snapshot _ _ =>
    obtain ⟨_,_,_,_,-,-,-,rfl⟩ := snapshot_eq_some stepped
    exact ⟨nodes,servers,addressed.leaders,addressed.calls⟩
  | crash _ =>
    obtain ⟨_,-,rfl⟩ := crash_eq_some stepped
    refine ⟨nodes,servers,addressed.leaders,fun call' mem => ?_⟩
    obtain ⟨call,listed,rfl⟩ := List.mem_map.1 mem
    split_ifs <;> exact addressed.calls call listed

private theorem init_addressed (positive : 0 < n) (clients : List Int) : (init n clients).Addressed n where
  nodes := (List.length_map _ _).trans (List.length_range n)
  servers := List.length_replicate _ _
  leaders ck mem := by
    obtain ⟨_,_,rfl⟩ := List.mem_map.1 mem
    exact positive
  calls := nofun

end Service

theorem Service.Reachable.addressed {oversized : Persister Op KVServer → Bool} {n : Nat} {clients : List Int}
    (positive : 0 < n) {s : Service} (reached : Service.Reachable oversized n clients s) : s.Addressed n := by
  induction reached with
  | init => exact Service.init_addressed positive clients
  | step _ _ stepped addressed => exact addressed.step positive stepped

/-- With at least one server, in every state any interleaving of the service reaches, crashes
included, every clerk's `ck.servers[ck.leader]` is in range, and every call in flight names a
replica and a `KVServer` that exist: no clerk calls a server the service does not have. -/
theorem clerks_call_existing_servers {oversized : Persister Op KVServer → Bool} {n : Nat} {clients : List Int}
    (positive : 0 < n) {s : Service} (reached : Service.Reachable oversized n clients s) :
    (∀ ck ∈ s.clerks, ck.leader < s.servers.length) ∧
      ∀ call ∈ s.calls, (∃ node, s.cluster.nodes[call.server]? = some node) ∧ ∃ kv, s.servers[call.server]? = some kv :=
  let addressed := reached.addressed positive
  ⟨fun ck mem => addressed.servers ▸ addressed.leaders ck mem,fun call mem =>
    ⟨⟨_,List.getElem?_eq_getElem (addressed.nodes ▸ addressed.calls call mem)⟩,
      ⟨_,List.getElem?_eq_getElem (addressed.servers ▸ addressed.calls call mem)⟩⟩⟩

theorem staleGet_clerks_call_existing_servers :
    0 < 3 ∧ ∃ s, s = Service.replay (fun _ => false) 3 [1,2,3]
        (getAndPutStarted ++ putCompletes ++ putLost ++ staleGet) (by decide) ∧
      (∀ ck ∈ s.clerks, ck.leader < s.servers.length) ∧
      ∀ call ∈ s.calls, (∃ node, s.cluster.nodes[call.server]? = some node) ∧ ∃ kv, s.servers[call.server]? = some kv :=
  ⟨by decide,_,rfl,clerks_call_existing_servers (by decide) (Service.Reachable.replay _ _)⟩

end Sentinel.RaftKV
