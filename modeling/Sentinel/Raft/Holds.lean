import Sentinel.Raft.Cluster

/-! Invariants of the cluster that hold of each replica and of each request in flight. A step
changes at most one replica, through `updateNode`; `broadcastHeartbeat` and
`broadcastRequestVote` add requests, a delivery sets a reply and keeps the request, a
completion and a crash drop requests. So such an invariant is kept once each section keeps its
part of the replica it runs on and every request sent has its part: the bookkeeping of the
cluster is done here, once for every invariant of this shape. -/

namespace Sentinel

variable {C K : Type}

namespace Cluster

/-- Every replica has `N` and every request in flight has `R`. -/
structure Holds (N : Node C K → Prop) (R : Rpc C K → Prop) (s : Cluster C K) : Prop where
  nodes : ∀ node ∈ s.nodes, N node
  calls : ∀ call ∈ s.calls, R call.rpc

variable {N N' : Node C K → Prop} {R R' : Rpc C K → Prop} {s s' : Cluster C K} {i : Nat}

theorem Holds.mono (held : s.Holds N R) (nodes : ∀ node, N node → N' node) (calls : ∀ rpc, R rpc → R' rpc) :
    s.Holds N' R' :=
  ⟨fun node mem => nodes node (held.nodes node mem),fun call mem => calls _ (held.calls call mem)⟩

theorem Holds.get (held : s.Holds N R) {node : Node C K} (found : s.nodes[i]? = some node) : N node :=
  held.nodes node (List.getElem?_mem found)

theorem Holds.updateNode (held : s.Holds N R) {f : Node C K → Option (Node C K)}
    (sound : ∀ node node', s.nodes[i]? = some node → f node = some node' → N node')
    (updated : s.updateNode i f = some s') : s'.Holds N R := by
  obtain ⟨node,node',found,changed,rfl⟩ := updateNode_eq_some updated
  refine ⟨fun n mem => ?_,held.calls⟩
  rcases List.mem_or_eq_of_mem_set mem with old | rfl
  · exact held.nodes n old
  · exact sound node _ found changed

theorem Holds.updateNode_of_node (held : s.Holds N R) {f : Node C K → Option (Node C K)}
    (sound : ∀ node node', f node = some node' → N node → N node')
    (updated : s.updateNode i f = some s') : s'.Holds N R :=
  held.updateNode (fun _ _ found changed => sound _ _ changed (held.get found)) updated

theorem Holds.send (held : s.Holds N R) {rpcs : List (Nat × Rpc C K)} (sent : ∀ p ∈ rpcs, R p.2) :
    (s.send i rpcs).Holds N R := by
  refine ⟨held.nodes,fun call mem => (List.mem_append.1 mem).elim (held.calls call) fun new => ?_⟩
  obtain ⟨p,listed,rfl⟩ := List.mem_map.1 new
  exact sent p listed

theorem Holds.broadcastHeartbeat (held : s.Holds N R)
    (sound : ∀ node rpcs, N node → node.raft.broadcastHeartbeat = some rpcs →
      N { node with heartbeats := node.heartbeats - 1 } ∧ ∀ p ∈ rpcs, R p.2)
    (sent : s.broadcastHeartbeat i = some s') : s'.Holds N R := by
  simp only [Cluster.broadcastHeartbeat,bind,pure,Option.none_bind,Option.some_bind,Option.ite_none_left_eq_some,
    Option.bind_eq_some,Option.some.injEq] at sent
  obtain ⟨node,found,-,rpcs,built,s'',updated,rfl⟩ := sent
  have kept := sound node rpcs (held.get found) built
  refine (held.updateNode (fun _ _ found' changed => ?_) updated).send kept.2
  rw [found] at found'; cases found'; cases changed
  exact kept.1

theorem Holds.broadcastRequestVote {g : Nat} (held : s.Holds N R)
    (sound : ∀ node requests, N node → N { node with voteRequests := requests })
    (request : ∀ args : RequestVoteArgs, R (.requestVote args))
    (sent : s.broadcastRequestVote i g = some s') : s'.Holds N R := by
  obtain ⟨f,s'',updated,sent⟩ := broadcastRequestVote_eq_some sent
  have updated : s''.Holds N R := held.updateNode_of_node (fun _ _ changed kept => by
    cases changed; exact sound _ _ kept) updated
  rcases sent with rfl | ⟨server,args,rfl⟩
  · exact updated
  · exact updated.send (List.forall_mem_singleton.2 (request args))

theorem Holds.deliver {c : Nat} (held : s.Holds N R)
    (sound : ∀ node rpc rf reply spawned, N node → R rpc → node.raft.handle rpc = some (rf,reply,spawned) →
      N { node with raft := rf, applyLogs := node.applyLogs + if spawned then 1 else 0 })
    (delivered : s.deliver c = some s') : s'.Holds N R := by
  obtain ⟨call,node,rf,reply,spawned,s'',found,-,atServer,handled,updated,rfl⟩ := deliver_eq_some delivered
  have request := held.calls call (List.getElem?_mem found)
  have updated : s''.Holds N R := held.updateNode (fun _ _ found' changed => by
    rw [atServer] at found'; cases found'; cases changed
    exact sound _ _ _ _ _ (held.get atServer) request handled) updated
  refine ⟨updated.nodes,fun call' mem => ?_⟩
  rcases List.mem_or_eq_of_mem_set mem with old | rfl
  · exact updated.calls call' old
  · exact request

theorem Holds.complete {c : Nat} {ok : Bool} (held : s.Holds N R)
    (sound : ∀ node server rpc reply rf spawned, N node → node.raft.receive server rpc reply = some (rf,spawned) →
      N { node with raft := rf, applyLogs := node.applyLogs + if spawned then 1 else 0 })
    (completed : s.complete c ok = some s') : s'.Holds N R := by
  obtain ⟨call,node,rf,spawned,s'',-,atCaller,received,updated,rfl⟩ := complete_eq_some completed
  have updated : s''.Holds N R := held.updateNode (fun _ _ found' changed => by
    rw [atCaller] at found'; cases found'; cases changed
    exact sound _ _ _ _ _ _ (held.get atCaller) received) updated
  exact ⟨updated.nodes,fun call' mem => updated.calls call' (List.mem_of_mem_eraseIdx mem)⟩

theorem Holds.crash (held : s.Holds N R)
    (sound : ∀ node, s.nodes[i]? = some node → N node →
      N (Node.boot (make node.raft.peers i node.raft.persister) node.sent))
    (crashed : s.crash i = some s') : s'.Holds N R := by
  obtain ⟨s'',updated,rfl⟩ := crash_eq_some crashed
  have updated : s''.Holds N R := held.updateNode (fun node _ found changed => by
    cases changed; exact sound node found (held.get found)) updated
  exact ⟨updated.nodes,fun call mem => updated.calls call (List.mem_filter.1 mem).1⟩

theorem Holds.runActions {A : Action C K → Prop} {t : Cluster C K} (held : s.Holds N R)
    (step : ∀ {s s' : Cluster C K} {a : Action C K}, s.Holds N R → A a → s.step a = some s' → s'.Holds N R)
    {actions : List (Action C K)} (admitted : ∀ a ∈ actions, A a) (ran : s.runActions actions = some t) :
    t.Holds N R := by
  induction actions generalizing s with
  | nil => cases ran; exact held
  | cons a rest ih =>
    obtain ⟨s',stepped,ran⟩ := Option.bind_eq_some.1 ran
    exact ih (step held (admitted a (.head _)) stepped) (fun a mem => admitted a (.tail _ mem)) ran

theorem init_holds {n : Nat} (sound : ∀ i, N (Node.boot (make n i ⟨none,none⟩) [])) :
    (init n : Cluster C K).Holds N R := by
  refine ⟨fun node mem => ?_,nofun⟩
  obtain ⟨i,_,rfl⟩ := List.mem_map.1 mem
  exact sound i

end Cluster

end Sentinel
