import Sentinel.KV.Service

/-! The clerks of `raftkv` and the history their completed ops make. A clerk issues one op at a
time and retries it until a server replies without `WrongLeader`: the calls it still waits on
are one call carrying the op it retries, and none once that op has completed. Each invocation
and each completion takes a fresh tick of the clock, so the history has distinct times and each
op is called before it returns, across every interleaving and crash. These are the hypotheses
of the checker's theorems, so they hold of every history the service produces. -/

namespace Sentinel.RaftKV

open Linearizability

/-- The op of a call that clerk `c` still waits on. -/
def KvCall.waitedOp (c : Nat) (call : KvCall) : Option Op :=
  if call.clerk = c ∧ call.waited then some call.op else none

private theorem filterMap_set_split {α β : Type} (f : α → Option β) {l : List α} {k : Nat} {y : α}
    (found : l[k]? = some y) (x : α) :
    ∃ front back, l.filterMap f = front ++ (f y).toList ++ back ∧
      (l.set k x).filterMap f = front ++ (f x).toList ++ back := by
  obtain ⟨bound,rfl⟩ := List.getElem?_eq_some_iff.1 found
  have around : ∀ z, (l.take k ++ z :: l.drop (k + 1)).filterMap f =
      (l.take k).filterMap f ++ (f z).toList ++ (l.drop (k + 1)).filterMap f := by
    intro z
    cases h : f z <;> simp [List.filterMap_cons,h]
  refine ⟨(l.take k).filterMap f,(l.drop (k + 1)).filterMap f,?_,?_⟩
  · conv_lhs => rw [← List.take_append_drop k l,List.drop_eq_getElem_cons bound]
    exact around l[k]
  · rw [List.set_eq_take_append_cons_drop,if_pos bound]
    exact around x

theorem set_eq_of_getElem? {α : Type} {l : List α} {k : Nat} {y : α} (found : l[k]? = some y) : l.set k y = l := by
  obtain ⟨bound,rfl⟩ := List.getElem?_eq_some_iff.1 found
  apply List.ext_getElem?
  intro j
  rw [List.getElem?_set]
  split_ifs with same
  · subst same; simp [bound]
  · rfl

namespace Service

/-- The ops of the calls clerk `c` still waits on. -/
def waitedOps (s : Service) (c : Nat) : List Op := s.calls.filterMap (KvCall.waitedOp c)

/-- The op clerk `c` retries, if it has one. -/
def pendingOps (s : Service) (c : Nat) : List Op := ((s.clerks[c]?).bind Clerk.pending).toList.map Prod.fst

/-- The times the clock handed out that are still in use: the call and the return of each
completed op and the call of each op a clerk retries. -/
def stamps (s : Service) : List Int :=
  (s.history.flatMap fun op => [op.call,op.ret]) ++ s.clerks.filterMap fun ck => ck.pending.map Prod.snd

/-- One call per clerk with an op to retry, carrying that op; distinct times, all handed out. -/
structure ClerksWellFormed (s : Service) : Prop where
  waited : ∀ c, s.waitedOps c = s.pendingOps c
  distinct : s.stamps.Nodup
  past : ∀ t ∈ s.stamps, t < s.clock
  ordered : ∀ op ∈ s.history, op.call < op.ret

variable {s s' : Service}

private theorem pendingOps_eq (s : Service) (c : Nat) :
    s.pendingOps c = (((s.clerks.map Clerk.pending)[c]?).bind id).toList.map Prod.fst := by
  rw [pendingOps,List.getElem?_map]
  cases s.clerks[c]? <;> rfl

private theorem stamps_eq (s : Service) : s.stamps =
    (s.history.flatMap fun op => [op.call,op.ret]) ++ (s.clerks.map Clerk.pending).filterMap (Option.map Prod.snd) := by
  rw [stamps,List.filterMap_map]
  rfl

theorem ClerksWellFormed.frame (wf : s.ClerksWellFormed) (pendings : s'.clerks.map Clerk.pending = s.clerks.map Clerk.pending)
    (history : s'.history = s.history) (clock : s'.clock = s.clock) (waited : ∀ c, s'.waitedOps c = s.waitedOps c) :
    s'.ClerksWellFormed := by
  have same : s'.stamps = s.stamps := by rw [stamps_eq,stamps_eq,pendings,history]
  refine ⟨fun c => ?_,same ▸ wf.distinct,same ▸ clock ▸ wf.past,history ▸ wf.ordered⟩
  rw [waited,wf.waited,pendingOps_eq,pendingOps_eq,pendings]

theorem ClerksWellFormed.tick (wf : s.ClerksWellFormed) (waited : ∀ c, s'.waitedOps c = s'.pendingOps c)
    (stamped : s'.stamps.Perm (s.clock :: s.stamps)) (clock : s'.clock = s.clock + 1)
    (ordered : ∀ op ∈ s'.history, op ∈ s.history ∨ op.call < op.ret) : s'.ClerksWellFormed := by
  refine ⟨waited,stamped.nodup_iff.2 (List.nodup_cons.2 ⟨fun mem => ?_,wf.distinct⟩),fun t mem => ?_,
    fun op mem => (ordered op mem).elim (wf.ordered op) id⟩
  · exact lt_irrefl _ (wf.past _ mem)
  · rcases List.mem_cons.1 (stamped.mem_iff.1 mem) with rfl | old
    · omega
    · have := wf.past t old; omega

private theorem waitedOps_set_stage {k : Nat} {call : KvCall} (found : s.calls[k]? = some call) (stage : Stage) (c : Nat) :
    (s.calls.set k { call with stage }).filterMap (KvCall.waitedOp c) = s.waitedOps c := by
  obtain ⟨front,back,before,after⟩ := filterMap_set_split (KvCall.waitedOp c) found { call with stage }
  rw [waitedOps,before,after]
  rfl

@[simp] theorem waitedOps_send (clerk : Nat) (op : Op) (server c : Nat) :
    (s.send clerk op server).waitedOps c = s.waitedOps c ++ if clerk = c then [op] else [] := by
  by_cases same : clerk = c <;> simp [send,waitedOps,KvCall.waitedOp,List.filterMap_cons,same]

private theorem pendingOps_set {c : Nat} {ck ck' : Clerk} (found : s.clerks[c]? = some ck)
    (clerks : s'.clerks = s.clerks.set c ck') (c' : Nat) :
    s'.pendingOps c' = if c = c' then ck'.pending.toList.map Prod.fst else s.pendingOps c' := by
  rw [pendingOps,clerks]
  by_cases same : c = c'
  · subst same
    simp [(List.getElem?_eq_some_iff.1 found).1]
  · simp [pendingOps,List.getElem?_set,same]

theorem ClerksWellFormed.restage (wf : s.ClerksWellFormed) {k : Nat} {call : KvCall} {stage : Stage}
    (found : s.calls[k]? = some call) (calls : s'.calls = s.calls.set k { call with stage })
    (clerks : s'.clerks = s.clerks) (history : s'.history = s.history) (clock : s'.clock = s.clock) :
    s'.ClerksWellFormed :=
  wf.frame (by rw [clerks]) history clock fun c => by rw [waitedOps,calls]; exact waitedOps_set_stage found stage c

theorem waitedOps_release (wf : s.ClerksWellFormed) {k : Nat} {call : KvCall} (found : s.calls[k]? = some call)
    (waiting : call.waited = true) {ck : Clerk} (atClerk : s.clerks[call.clerk]? = some ck) {op : Op} {called : Int}
    (pending : ck.pending = some (op,called)) :
    call.op = op ∧ ∀ c, (s.calls.set k { call with waited := false }).filterMap (KvCall.waitedOp c) =
      if call.clerk = c then [] else s.waitedOps c := by
  have before : s.waitedOps call.clerk = [op] := by rw [wf.waited]; simp [pendingOps,atClerk,pending]
  obtain ⟨front,back,split,after⟩ :=
    filterMap_set_split (KvCall.waitedOp call.clerk) found { call with waited := false }
  rw [← waitedOps,before] at split
  simp only [KvCall.waitedOp,waiting,and_self,if_true,Option.toList] at split after
  obtain ⟨rfl,rfl,same⟩ : front = [] ∧ back = [] ∧ call.op = op := by
    rcases front with _ | ⟨_,front⟩ <;> simp_all
  refine ⟨same,fun c => ?_⟩
  by_cases mine : call.clerk = c
  · subst mine
    simpa using after
  · obtain ⟨front,back,split,after⟩ := filterMap_set_split (KvCall.waitedOp c) found { call with waited := false }
    rw [if_neg mine,waitedOps,split,after]
    simp [KvCall.waitedOp,mine]

private theorem stamps_set {c : Nat} {ck : Clerk} (found : s.clerks[c]? = some ck) (ck' : Clerk) :
    ∃ front back, s.stamps = (s.history.flatMap fun op => [op.call,op.ret]) ++
        (front ++ (ck.pending.map Prod.snd).toList ++ back) ∧
      ∀ t : Service, t.clerks = s.clerks.set c ck' → t.stamps = (t.history.flatMap fun op => [op.call,op.ret]) ++
        (front ++ (ck'.pending.map Prod.snd).toList ++ back) := by
  obtain ⟨front,back,before,after⟩ := filterMap_set_split (fun ck : Clerk => ck.pending.map Prod.snd) found ck'
  exact ⟨front,back,by rw [stamps,before],fun t clerks => by rw [stamps,clerks,after]⟩

theorem ClerksWellFormed.resend (wf : s.ClerksWellFormed) {k : Nat} {call : KvCall} (found : s.calls[k]? = some call)
    (waiting : call.waited = true) {ck : Clerk} (atClerk : s.clerks[call.clerk]? = some ck) {op : Op} {called : Int}
    (pending : ck.pending = some (op,called)) :
    ({ s with calls := s.calls.set k { call with waited := false } }.retry call.clerk ck op).ClerksWellFormed := by
  obtain ⟨-,released⟩ := waitedOps_release wf found waiting atClerk pending
  refine wf.frame ?_ rfl rfl fun c => ?_
  · simp only [Service.retry,Service.send,List.map_set]
    exact set_eq_of_getElem? (by simp [atClerk])
  · simp only [Service.retry,waitedOps_send]
    rw [waitedOps,released]
    split_ifs with mine
    · subst mine; rw [wf.waited]; simp [pendingOps,atClerk,pending]
    · exact List.append_nil _

theorem ClerksWellFormed.invoke (wf : s.ClerksWellFormed) {c : Nat} {request : Request}
    (invoked : s.invoke c request = some s') : s'.ClerksWellFormed := by
  obtain ⟨ck,atClerk,idle,rfl⟩ := invoke_eq_some invoked
  obtain ⟨front,back,before,after⟩ := stamps_set atClerk
    { ck with requestId := ck.requestId + 1, pending := some (request.op ck.clientId ck.requestId,s.clock) }
  refine wf.tick (fun c' => ?_) ?_ rfl fun op mem => .inl mem
  · rw [waitedOps_send,pendingOps_set atClerk rfl]
    split_ifs with same
    · subst same
      show s.waitedOps c ++ _ = _
      rw [wf.waited]
      simp [pendingOps,atClerk,idle]
    · exact (List.append_nil _).trans (wf.waited c')
  · rw [after _ rfl,before,idle]
    dsimp only [Service.send,Option.map_some',Option.map_none',Option.toList]
    simp only [List.append_nil,List.append_assoc,List.singleton_append]
    rw [← List.append_assoc,← List.append_assoc]
    exact List.perm_middle

theorem ClerksWellFormed.complete (wf : s.ClerksWellFormed) {k : Nat} (completed : s.complete k = some s') :
    s'.ClerksWellFormed := by
  obtain ⟨call,reply,ck,op,called,found,-,waiting,atClerk,pending,⟨-,rfl⟩ | ⟨-,rfl⟩⟩ := complete_eq_some completed
  · exact wf.resend found waiting atClerk pending
  obtain ⟨-,released⟩ := waitedOps_release wf found waiting atClerk pending
  obtain ⟨front,back,before,after⟩ := stamps_set atClerk { ck with pending := none }
  have issued : called < s.clock := wf.past called (by rw [before,pending]; simp)
  refine wf.tick (fun c => ?_) ?_ rfl fun op mem => ?_
  · rw [pendingOps_set atClerk rfl,waitedOps,released]
    split_ifs
    · rfl
    · exact wf.waited c
  · rw [after _ rfl,before,pending]
    simp only [List.flatMap_append,List.flatMap_cons,List.flatMap_nil,Option.map_some',Option.map_none',
      Option.toList,List.append_nil,List.append_assoc,List.singleton_append,List.cons_append,List.nil_append]
    have middle : ((s.history.flatMap fun op => [op.call,op.ret]) ++ [called] ++ s.clock :: (front ++ back)).Perm _ :=
      List.perm_middle
    simp only [List.append_assoc,List.singleton_append] at middle
    exact middle.trans (.cons _ (.append_left _ List.perm_middle.symm))
  · rcases List.mem_append.1 mem with old | new
    · exact .inl old
    · cases List.mem_singleton.1 new
      exact .inr issued

theorem ClerksWellFormed.crash (wf : s.ClerksWellFormed) {i : Nat} (crashed : s.crash i = some s') :
    s'.ClerksWellFormed := by
  obtain ⟨cluster,-,rfl⟩ := crash_eq_some crashed
  refine wf.frame rfl rfl rfl fun c => ?_
  rw [waitedOps,waitedOps,List.filterMap_map]
  congr 1
  funext call
  dsimp only [Function.comp_apply]
  split <;> rfl

theorem ClerksWellFormed.step {oversized : Persister Op KVServer → Bool} (wf : s.ClerksWellFormed) :
    ∀ {a : ServiceAction}, s.step oversized a = some s' → s'.ClerksWellFormed
  | .raft _, stepped => by
    obtain ⟨_,-,rfl⟩ := raftStep_eq_some stepped
    exact wf.frame rfl rfl rfl fun _ => rfl
  | .invoke _ _, stepped => wf.invoke stepped
  | .deliver _, stepped => by
    obtain ⟨_,_,_,found,-,-,-,⟨-,_,_,-,-,rfl⟩ | ⟨-,rfl⟩⟩ := deliver_eq_some stepped <;>
    exact wf.restage found rfl rfl rfl rfl
  | .receive _, stepped => by
    obtain ⟨_,_,_,_,found,-,-,-,rfl⟩ := receive_eq_some stepped
    exact wf.restage found rfl rfl rfl rfl
  | .timeout _, stepped => by
    obtain ⟨_,_,found,-,rfl⟩ := timeout_eq_some stepped
    exact wf.restage found rfl rfl rfl rfl
  | .complete _, stepped => wf.complete stepped
  | .fail _, stepped => by
    obtain ⟨_,_,_,_,found,waiting,atClerk,pending,rfl⟩ := fail_eq_some stepped
    exact wf.resend found waiting atClerk pending
  | .apply _, stepped => by
    obtain ⟨_,_,_,_,-,-,-,-,rfl⟩ := apply_eq_some stepped
    exact wf.frame rfl rfl rfl fun _ => rfl
  | .snapshot _ _, stepped => by
    obtain ⟨_,_,_,_,-,-,-,rfl⟩ := snapshot_eq_some stepped
    exact wf.frame rfl rfl rfl fun _ => rfl
  | .crash _, stepped => wf.crash stepped

private theorem init_clerksWellFormed (n : Nat) (clients : List Int) : (init n clients).ClerksWellFormed := by
  have empty : (init n clients).stamps = [] := by simp [stamps,init]
  refine ⟨fun c => ?_,empty ▸ List.nodup_nil,empty ▸ nofun,nofun⟩
  simp only [waitedOps,pendingOps,init,List.getElem?_map]
  cases clients[c]? <;> rfl

end Service

theorem Service.Reachable.clerksWellFormed {oversized : Persister Op KVServer → Bool} {n : Nat} {clients : List Int}
    {s : Service} (reached : Service.Reachable oversized n clients s) : s.ClerksWellFormed := by
  induction reached with
  | init => exact Service.init_clerksWellFormed n clients
  | step _ _ stepped wf => exact wf.step stepped

end Sentinel.RaftKV
