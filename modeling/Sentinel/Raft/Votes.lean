import Sentinel.Raft.Durability
import Sentinel.Raft.Election

/-! One vote per term, on the wire. A granted `RequestVote` reply stays in its call until
`Call` returns. Each such vote is backed by its voter, which has reached the vote's term and,
while it is still in that term, votes for that candidate; so along every run from `Make` in
which a voter does not crash, the votes it granted in one term name one candidate. A crash
breaks this: after a stale save of `Run`'s unlocked `persist()` the voter restarts in an older
term, grants a second vote in the newer one, and two replicas become leader of one term. -/

namespace Sentinel

variable {C K : Type}

/-- The call holds its server's vote for `candidate` in `term`. -/
def Call.Grants (call : Call C K) (term candidate : Nat) : Prop :=
  ∃ args : RequestVoteArgs, call.rpc = .requestVote args ∧ args.candidateId = candidate ∧
    call.reply = some (.requestVote ⟨term,true⟩)

theorem Call.Grants.reply_ne {call : Call C K} {term candidate : Nat} (grants : call.Grants term candidate) :
    call.reply ≠ none := by
  obtain ⟨_,_,_,granted⟩ := grants
  rw [granted]; exact Option.some_ne_none _

theorem Call.Grants.candidate_eq {call : Call C K} {term term' candidate candidate' : Nat}
    (grants : call.Grants term candidate) (grants' : call.Grants term' candidate') : candidate = candidate' := by
  obtain ⟨args,rpc,rfl,-⟩ := grants
  obtain ⟨args',rpc',rfl,-⟩ := grants'
  rw [rpc] at rpc'; cases rpc'; rfl

namespace Raft

variable {rf rf' : Raft C K} {term : Nat}

private theorem requestVote_grant {args : RequestVoteArgs} (granted : rf.requestVote args = some (rf',⟨term,true⟩)) :
    rf'.Below term (some args.candidateId) ∧ rf.currentTerm ≤ term ∧
      (rf.currentTerm = term → rf.votedFor = none ∨ rf.votedFor = some args.candidateId) := by
  simp only [requestVote] at granted
  split_ifs at granted with stale free
  · simp at granted
  · simp only [Option.bind_eq_some] at granted
    obtain ⟨_,-,_,-,granted⟩ := granted
    split_ifs at granted
    · simp only [Option.some.injEq,Prod.mk.injEq,RequestVoteReply.mk.injEq,and_true] at granted
      obtain ⟨rfl,rfl⟩ := granted
      refine ⟨⟨le_rfl,fun _ _ voted => voted⟩,?_,fun same => ?_⟩
      · simp [Nat.le_max_left]
      · unfold updateTerm at free same
        split_ifs at free same with higher
        · simp at same; omega
        · exact free
    · simp at granted
  · simp at granted

end Raft

namespace Cluster

/-- The votes replica `v` granted on the wire are backed by `v`, and in one term they name one
candidate. -/
structure Votes (v : Nat) (s : Cluster C K) : Prop where
  backed : ∀ call ∈ s.calls, call.server = v → ∀ term candidate, call.Grants term candidate →
    ∃ node, s.nodes[v]? = some node ∧ node.raft.Below term (some candidate)
  unique : ∀ call ∈ s.calls, ∀ call' ∈ s.calls, call.server = v → call'.server = v →
    ∀ term candidate candidate', call.Grants term candidate → call'.Grants term candidate' → candidate = candidate'

/-- Every call of `s'` was a call of `s` or has no reply yet. -/
def CallsFrom (s s' : Cluster C K) : Prop := ∀ call ∈ s'.calls, call ∈ s.calls ∨ call.reply = none

variable {s s' : Cluster C K} {a : Action C K} {i v : Nat}

private theorem backed_advance {term candidate : Nat}
    (backed : ∃ node, s.nodes[v]? = some node ∧ node.raft.Below term (some candidate))
    (advanced : Advances a s s') (alive : a ≠ .crash v) :
    ∃ node, s'.nodes[v]? = some node ∧ node.raft.Below term (some candidate) :=
  let ⟨_,found,below⟩ := backed
  let ⟨node',found',keeps⟩ := advanced.keeps alive found
  ⟨node',found',below.keeps keeps⟩

theorem Votes.of_callsFrom (votes : s.Votes v) (advanced : Advances a s s') (alive : a ≠ .crash v)
    (calls : CallsFrom s s') : s'.Votes v := by
  have old : ∀ {call term candidate}, call ∈ s'.calls → Call.Grants call term candidate → call ∈ s.calls :=
    fun mem grants => (calls _ mem).resolve_right grants.reply_ne
  refine ⟨fun call mem server term candidate grants => ?_,fun call mem call' mem' server server' term _ _ grants grants' =>
    votes.unique call (old mem grants) call' (old mem' grants') server server' term _ _ grants grants'⟩
  exact backed_advance (votes.backed call (old mem grants) server term candidate grants) advanced alive

private theorem callsFrom_updateNode {f : Node C K → Option (Node C K)} (updated : s.updateNode i f = some s') :
    CallsFrom s s' := by
  obtain ⟨_,_,_,_,rfl⟩ := updateNode_eq_some updated
  exact fun _ mem => .inl mem

theorem CallsFrom.send (calls : CallsFrom s s') (rpcs : List (Nat × Rpc C K)) : CallsFrom s (s'.send i rpcs) := by
  intro call mem
  rcases List.mem_append.1 mem with mem | mem
  · exact calls call mem
  · obtain ⟨_,_,rfl⟩ := List.mem_map.1 mem
    exact .inr rfl

private theorem broadcastHeartbeat_callsFrom (sent : s.broadcastHeartbeat i = some s') : CallsFrom s s' := by
  obtain ⟨_,rpcs,updated,rfl⟩ := broadcastHeartbeat_eq_some sent
  exact (callsFrom_updateNode updated).send rpcs

private theorem broadcastRequestVote_callsFrom {g : Nat} (sent : s.broadcastRequestVote i g = some s') :
    CallsFrom s s' := by
  obtain ⟨_,_,updated,rfl | ⟨_,_,rfl⟩⟩ := broadcastRequestVote_eq_some sent
  · exact callsFrom_updateNode updated
  · exact (callsFrom_updateNode updated).send _

private theorem complete_callsFrom {c : Nat} {ok : Bool} (completed : s.complete c ok = some s') : CallsFrom s s' := by
  obtain ⟨_,_,_,_,_,-,-,-,updated,rfl⟩ := complete_eq_some completed
  exact fun call mem => callsFrom_updateNode updated call (List.mem_of_mem_eraseIdx mem)

private theorem crash_callsFrom (crashed : s.crash i = some s') : CallsFrom s s' := by
  obtain ⟨_,updated,rfl⟩ := crash_eq_some crashed
  exact fun call mem => callsFrom_updateNode updated call (List.mem_of_mem_filter mem)

private theorem deliver_votes {c : Nat} (votes : s.Votes v) (delivered : s.deliver c = some s') : s'.Votes v := by
  have advanced : Advances (.deliver c) s s' := step_advances delivered
  obtain ⟨call,node,rf,reply,_,s'',found,idle,atServer,handled,updated,rfl⟩ := deliver_eq_some delivered
  obtain ⟨_,_,-,⟨⟩,rfl⟩ := updateNode_eq_some updated
  let answered : Call C K := { call with reply := some reply }
  -- a vote in the answered call is the one `RequestVote` just granted on `node`
  have granted : ∀ {term candidate}, answered.Grants term candidate →
      rf.Below term (some candidate) ∧ node.raft.currentTerm ≤ term ∧
        (node.raft.currentTerm = term → node.raft.votedFor = none ∨ node.raft.votedFor = some candidate) := by
    rintro term _ ⟨args,rpc,rfl,replied⟩
    simp only [answered,Option.some.injEq] at replied rpc
    rw [rpc,replied] at handled
    simp only [Raft.handle,Option.map_eq_some',Prod.mk.injEq,RpcReply.requestVote.injEq] at handled
    obtain ⟨⟨_,_⟩,voted,rfl,rfl,-⟩ := handled
    exact Raft.requestVote_grant voted
  -- a vote of the same voter granted earlier in that term went to the same candidate
  have earlier : ∀ call' ∈ s.calls, call'.server = v → call.server = v →
      ∀ {term c₁ c₂}, call'.Grants term c₁ → answered.Grants term c₂ → c₁ = c₂ := by
    intro call' mem server here term c₁ c₂ grants₁ grants₂
    obtain ⟨_,found',below⟩ := votes.backed call' mem server term c₁ grants₁
    rw [← here,atServer] at found'; cases found'
    obtain ⟨-,up,free⟩ := granted grants₂
    have now : node.raft.currentTerm = term := le_antisymm up below.term
    rcases free now with free | free <;> rw [below.vote now c₁ rfl] at free
    · cases free
    · exact Option.some.inj free
  have old : ∀ call' ∈ s.calls.set c answered, call' ∈ s.calls ∨ call' = answered :=
    fun _ mem => List.mem_or_eq_of_mem_set mem
  refine ⟨fun call' mem server term candidate grants => ?_,
    fun call₁ mem₁ call₂ mem₂ server₁ server₂ term c₁ c₂ grants₁ grants₂ => ?_⟩
  · rcases old call' mem with mem | rfl
    · exact backed_advance (votes.backed call' mem server term candidate grants) advanced nofun
    · subst server
      exact ⟨_,List.getElem?_set_self (List.getElem?_eq_some_iff.1 atServer).1,(granted grants).1⟩
  · rcases old call₁ mem₁ with mem₁ | rfl <;> rcases old call₂ mem₂ with mem₂ | rfl
    · exact votes.unique call₁ mem₁ call₂ mem₂ server₁ server₂ term c₁ c₂ grants₁ grants₂
    · exact earlier call₁ mem₁ server₁ server₂ grants₁ grants₂
    · exact (earlier call₂ mem₂ server₂ server₁ grants₂ grants₁).symm
    · exact grants₁.candidate_eq grants₂

theorem Votes.step (votes : s.Votes v) (alive : a ≠ .crash v) (stepped : s.step a = some s') : s'.Votes v := by
  have advanced := step_advances stepped
  cases a with
  | deliver _ => exact deliver_votes votes stepped
  | broadcastHeartbeat _ => exact votes.of_callsFrom advanced alive (broadcastHeartbeat_callsFrom stepped)
  | broadcastRequestVote _ _ => exact votes.of_callsFrom advanced alive (broadcastRequestVote_callsFrom stepped)
  | complete _ | fail _ => exact votes.of_callsFrom advanced alive (complete_callsFrom stepped)
  | crash _ => exact votes.of_callsFrom advanced alive (crash_callsFrom stepped)
  | runSwitch _ | runReceive _ _ | runTimeout _ | runPersist _ | runCandidate _ | applyLog _ | start _ _
  | createSnapshot _ _ _ => exact votes.of_callsFrom advanced alive (callsFrom_updateNode stepped)

theorem Votes.runActions {t : Cluster C K} {actions : List (Action C K)} (votes : s.Votes v)
    (alive : Action.crash v ∉ actions) (ran : s.runActions actions = some t) : t.Votes v := by
  induction actions generalizing s with
  | nil => cases ran; exact votes
  | cons a rest ih =>
    obtain ⟨s'',stepped,ran⟩ := Option.bind_eq_some.1 ran
    exact ih (votes.step (fun same => alive (same ▸ .head _)) stepped) (fun mem => alive (.tail _ mem)) ran

private theorem init_votes (n v : Nat) : (init n : Cluster C K).Votes v :=
  ⟨fun _ mem => absurd mem (List.not_mem_nil _),fun _ mem => absurd mem (List.not_mem_nil _)⟩

end Cluster

/-- Along every run from `Make` in which replica `v` does not crash, the votes `v` granted on
the wire in one term name one candidate. -/
theorem granted_votes_unique {n v : Nat} {actions : List (Action C K)} {s : Cluster C K}
    (ran : (Cluster.init n).runActions actions = some s) (alive : Action.crash v ∉ actions)
    {call call' : Call C K} (mem : call ∈ s.calls) (mem' : call' ∈ s.calls) (server : call.server = v)
    (server' : call'.server = v) {term candidate candidate' : Nat} (grants : call.Grants term candidate)
    (grants' : call'.Grants term candidate') : candidate = candidate' :=
  ((Cluster.init_votes n v).runActions alive ran).unique call mem call' mem' server server' term candidate candidate'
    grants grants'

/-- Replica 0 stands in term 1, times out as a candidate and stands in term 2 before either of
its `broadcastRequestVote`s has run; both then ask replica 1 for its term-2 vote, and replica 1
grants both. -/
def resentVote : List (Action Nat Unit) :=
  candidacy ++ [.runTimeout 0,.runSwitch 0,.runCandidate 0,
    .broadcastRequestVote 0 0,.broadcastRequestVote 0 0,.broadcastRequestVote 0 0,
    .broadcastRequestVote 0 1,.broadcastRequestVote 0 1,.broadcastRequestVote 0 1,.deliver 0,.deliver 1]

theorem resentVote_votes_unique :
    (Cluster.replay 2 resentVote (by decide)).calls =
        [⟨0,1,.requestVote ⟨2,0,0,0⟩,some (.requestVote ⟨2,true⟩)⟩,⟨0,1,.requestVote ⟨2,0,0,0⟩,some (.requestVote ⟨2,true⟩)⟩] ∧
      (.crash 1 : Action Nat Unit) ∉ resentVote ∧ (0 : Nat) = 0 := by
  have calls : (Cluster.replay 2 resentVote (by decide)).calls =
      [⟨0,1,.requestVote ⟨2,0,0,0⟩,some (.requestVote ⟨2,true⟩)⟩,⟨0,1,.requestVote ⟨2,0,0,0⟩,some (.requestVote ⟨2,true⟩)⟩] := by
    decide
  have alive : (.crash 1 : Action Nat Unit) ∉ resentVote := by decide
  exact ⟨calls,alive,granted_votes_unique (Cluster.runActions_replay _) alive (by rw [calls]; exact .head _)
    (by rw [calls]; exact .tail _ (.head _)) rfl rfl ⟨_,rfl,rfl,rfl⟩ ⟨_,rfl,rfl,rfl⟩⟩

end Sentinel
