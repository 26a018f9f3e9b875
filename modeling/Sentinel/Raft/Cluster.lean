import Sentinel.Raft.Leader

/-! A cluster of replicas of `raft.go` under every interleaving of their
goroutines. Each locked section of the code is one step; `Run` reads and writes
`rf.state` without the lock, and its follower timeout calls `rf.persist()` without
it, so its loop is split at those points and at each field `persist()` reads. An RPC is a
`Call` in flight: the handler runs when the request is delivered, and the caller
processes the reply later, or sees `Call` return false. A crash restarts a
replica through `Make` from its persister; its goroutines die with it. -/

namespace Sentinel

/-- Where `rf.Run` stands: about to read `rf.state` at the top of its loop, in the
follower's `select`, inside the follower's unlocked `rf.persist()`, waiting for `rf.mu`
in the candidate branch, or in the candidate's `select`. The leader branch does not block. -/
inductive RunPc
  | top
  | followerSelect
  | persist
  | candidateLock
  | candidateSelect
deriving DecidableEq, Repr

/-- How far `Run`'s unlocked `rf.persist()` has got: `getRaftState` encodes `currentTerm`,
then `votedFor`, then `log`, each as it reaches it, and `SaveRaftState` then stores the
bytes. Each field is read at one instant; handlers may run in between. -/
inductive Persisting (C : Type)
  | encodeTerm
  | encodeVote (currentTerm : Nat)
  | encodeLog (currentTerm : Nat) (votedFor : Option Nat)
  | save (state : PersistentState C)
deriving DecidableEq, Repr

/-- The three signal channels `Run` selects on. -/
inductive Signal
  | grantVote
  | heartbeat
  | winElect
deriving DecidableEq, Repr

/-- A replica and its goroutines: `Run` and how far its `persist()` has got, the
`applyLog`s and `broadcastHeartbeat`s spawned and not yet run, and the
`broadcastRequestVote`s, each not yet started (`none`) or holding its arguments and the
next peer of its loop. `earlier` keeps what earlier instances sent on their apply
channels (ghost). -/
structure Node (C K : Type) where
  raft : Raft C K
  run : RunPc
  persisting : Persisting C
  applyLogs : Nat
  heartbeats : Nat
  voteRequests : List (Option (RequestVoteArgs × Nat))
  earlier : List (ApplyMsg C K)

/-- A goroutine of `caller` blocked in `Call`, and the reply once the handler ran. -/
structure Call (C K : Type) where
  caller : Nat
  server : Nat
  rpc : Rpc C K
  reply : Option RpcReply
deriving DecidableEq

structure Cluster (C K : Type) where
  nodes : List (Node C K)
  calls : List (Call C K)

inductive Action (C K : Type)
  | runSwitch (i : Nat)
  | runReceive (i : Nat) (signal : Signal)
  | runTimeout (i : Nat)
  | runPersist (i : Nat)
  | runCandidate (i : Nat)
  | applyLog (i : Nat)
  | broadcastHeartbeat (i : Nat)
  | broadcastRequestVote (i g : Nat)
  | deliver (c : Nat)
  | complete (c : Nat)
  | fail (c : Nat)
  | start (i : Nat) (command : C)
  | createSnapshot (i : Nat) (kvSnapshot : K) (index : Nat)
  | crash (i : Nat)
deriving DecidableEq

namespace Node

variable {C K : Type}

/-- A fresh instance: `Make` has returned and started `go rf.Run()`. -/
def boot (rf : Raft C K) (earlier : List (ApplyMsg C K)) : Node C K :=
  ⟨rf,.top,.encodeTerm,0,0,[],earlier⟩

/-- Every message this replica has sent on an apply channel, restarts included. -/
def sent (node : Node C K) : List (ApplyMsg C K) := node.earlier ++ node.raft.chanApply

def setRaft (node : Node C K) (rf : Raft C K) : Node C K := { node with raft := rf }

/-- The `switch rf.state` at the top of `Run`; the leader branch spawns
`broadcastHeartbeat` and sleeps. -/
def runSwitch (node : Node C K) : Option (Node C K) :=
  if node.run ≠ .top then none else
  match node.raft.state with
  | .follower => some { node with run := .followerSelect }
  | .candidate => some { node with run := .candidateLock }
  | .leader => some { node with heartbeats := node.heartbeats + 1 }

/-- A `select` of `Run` takes a buffered signal. A candidate that takes a
heartbeat sets `rf.state = STATE_FOLLOWER` without the lock. -/
def runReceive (node : Node C K) (signal : Signal) : Option (Node C K) :=
  let rf := node.raft
  match node.run, signal with
  | .followerSelect, .grantVote =>
    if 0 < rf.chanGrantVote then
      some { node with raft := { rf with chanGrantVote := rf.chanGrantVote - 1 }, run := .top }
    else none
  | .followerSelect, .heartbeat =>
    if 0 < rf.chanHeartbeat then
      some { node with raft := { rf with chanHeartbeat := rf.chanHeartbeat - 1 }, run := .top }
    else none
  | .candidateSelect, .heartbeat =>
    if 0 < rf.chanHeartbeat then
      some { node with
        raft := { rf with chanHeartbeat := rf.chanHeartbeat - 1, state := .follower }, run := .top }
    else none
  | .candidateSelect, .winElect =>
    if 0 < rf.chanWinElect then
      some { node with raft := { rf with chanWinElect := rf.chanWinElect - 1 }, run := .top }
    else none
  | _, _ => none

/-- The timer case of a `select`: a follower sets `rf.state = STATE_CANDIDATE` and starts
`rf.persist()`, both without the lock; a candidate goes round its loop again. -/
def runTimeout (node : Node C K) : Option (Node C K) :=
  match node.run with
  | .followerSelect =>
    some { node with raft := { node.raft with state := .candidate }, run := .persist, persisting := .encodeTerm }
  | .candidateSelect => some { node with run := .top }
  | _ => none

/-- One step of the follower's unlocked `rf.persist()`: `getRaftState` reads the next field,
and `SaveRaftState` stores what was read, over whatever a handler saved in between. -/
def runPersist (node : Node C K) : Option (Node C K) :=
  if node.run ≠ .persist then none else
  let rf := node.raft
  some (match node.persisting with
    | .encodeTerm => { node with persisting := .encodeVote rf.currentTerm }
    | .encodeVote term => { node with persisting := .encodeLog term rf.votedFor }
    | .encodeLog term vote => { node with persisting := .save ⟨term,vote,rf.log⟩ }
    | .save state => { node with raft := rf.saveRaftState state, run := .top, persisting := .encodeTerm })

theorem runPersist_eq_some {node node' : Node C K} (persisted : node.runPersist = some node') :
    (node.persisting = .encodeTerm ∧ node' = { node with persisting := .encodeVote node.raft.currentTerm }) ∨
    (∃ term, node.persisting = .encodeVote term ∧ node' = { node with persisting := .encodeLog term node.raft.votedFor }) ∨
    (∃ term vote, node.persisting = .encodeLog term vote ∧
      node' = { node with persisting := .save ⟨term,vote,node.raft.log⟩ }) ∨
    ∃ state, node.persisting = .save state ∧
      node' = { node with raft := node.raft.saveRaftState state, run := .top, persisting := .encodeTerm } := by
  unfold runPersist at persisted
  split_ifs at persisted
  cases persisted
  cases node.persisting <;> simp

/-- The locked part of `Run`'s candidate branch: a new term, a vote for itself,
and `go rf.broadcastRequestVote()`. It does not look at `rf.state` again. -/
def runCandidate (node : Node C K) : Option (Node C K) :=
  if node.run ≠ .candidateLock then none else
  let rf := node.raft
  some { node with
    raft := { rf with currentTerm := rf.currentTerm + 1, votedFor := some rf.me, voteCount := 1 }.persist
    run := .candidateSelect
    voteRequests := node.voteRequests ++ [none] }

def applyLog (node : Node C K) : Option (Node C K) :=
  if node.applyLogs = 0 then none else
  (node.raft.applyLog).map fun rf => { node with raft := rf, applyLogs := node.applyLogs - 1 }

end Node

namespace Cluster

variable {C K : Type}

/-- The cluster `Make` starts with `n` empty persisters. -/
def init (n : Nat) : Cluster C K :=
  ⟨(List.range n).map fun i => Node.boot (make n i ⟨none,none⟩) [],[]⟩

def updateNode (s : Cluster C K) (i : Nat) (f : Node C K → Option (Node C K)) : Option (Cluster C K) := do
  let node ← s.nodes[i]?
  let node ← f node
  return { s with nodes := s.nodes.set i node }

/-- `go rf.sendX(server, args, ...)` for each request: the goroutines call `Call`. -/
def send (s : Cluster C K) (caller : Nat) (rpcs : List (Nat × Rpc C K)) : Cluster C K :=
  { s with calls := s.calls ++ rpcs.map fun (server,rpc) => ⟨caller,server,rpc,none⟩ }

def broadcastHeartbeat (s : Cluster C K) (i : Nat) : Option (Cluster C K) := do
  let node ← s.nodes[i]?
  if node.heartbeats = 0 then none
  let rpcs ← node.raft.broadcastHeartbeat
  let s ← s.updateNode i fun node => some { node with heartbeats := node.heartbeats - 1 }
  return s.send i rpcs

/-- One step of a `broadcastRequestVote` goroutine: its locked part, then one
iteration of its loop, which reads `rf.state` without the lock. -/
def broadcastRequestVote (s : Cluster C K) (i g : Nat) : Option (Cluster C K) := do
  let node ← s.nodes[i]?
  match ← node.voteRequests[g]? with
  | none =>
    let args ← node.raft.requestVoteArgs
    s.updateNode i fun node => some { node with voteRequests := node.voteRequests.set g (some (args,0)) }
  | some (args,server) =>
    if node.raft.peers ≤ server then
      s.updateNode i fun node => some { node with voteRequests := node.voteRequests.eraseIdx g }
    else
      let s ← s.updateNode i fun node =>
        some { node with voteRequests := node.voteRequests.set g (some (args,server + 1)) }
      if server ≠ node.raft.me ∧ node.raft.state = .candidate then
        return s.send i [(server,.requestVote args)]
      return s

/-- The server runs the handler of call `c`. -/
def deliver (s : Cluster C K) (c : Nat) : Option (Cluster C K) := do
  let call ← s.calls[c]?
  if call.reply.isSome then none
  let node ← s.nodes[call.server]?
  let (rf,reply,spawned) ← node.raft.handle call.rpc
  let s ← s.updateNode call.server fun node =>
    some { node with raft := rf, applyLogs := node.applyLogs + if spawned then 1 else 0 }
  return { s with calls := s.calls.set c { call with reply := some reply } }

/-- `Call` of call `c` returns, with its reply or (`ok = false`) without one. -/
def complete (s : Cluster C K) (c : Nat) (ok : Bool) : Option (Cluster C K) := do
  let call ← s.calls[c]?
  if ok ∧ call.reply.isNone then none
  let node ← s.nodes[call.caller]?
  let (rf,spawned) ← node.raft.receive call.server call.rpc (if ok then call.reply else none)
  let s ← s.updateNode call.caller fun node =>
    some { node with raft := rf, applyLogs := node.applyLogs + if spawned then 1 else 0 }
  return { s with calls := s.calls.eraseIdx c }

/-- A crash: the replica restarts through `Make` from its persister, and the calls
its goroutines were blocked in are gone. -/
def crash (s : Cluster C K) (i : Nat) : Option (Cluster C K) := do
  let s ← s.updateNode i fun node =>
    some (Node.boot (make node.raft.peers i node.raft.persister) node.sent)
  return { s with calls := s.calls.filter (·.caller ≠ i) }

/-! What each action can do: one inversion lemma per action. -/

section Inversion

variable {s s' : Cluster C K} {i : Nat}

theorem updateNode_eq_some {f : Node C K → Option (Node C K)} (updated : s.updateNode i f = some s') :
    ∃ node node', s.nodes[i]? = some node ∧ f node = some node' ∧
      s' = { s with nodes := s.nodes.set i node' } := by
  simp only [updateNode,bind,Option.bind_eq_some,pure,Option.some.injEq] at updated
  obtain ⟨node,found,node',changed,rfl⟩ := updated
  exact ⟨node,node',found,changed,rfl⟩

theorem broadcastHeartbeat_eq_some (sent : s.broadcastHeartbeat i = some s') :
    ∃ s'' rpcs, s.updateNode i (fun node => some { node with heartbeats := node.heartbeats - 1 }) = some s'' ∧
      s' = s''.send i rpcs := by
  simp only [broadcastHeartbeat,bind,pure,Option.none_bind,Option.some_bind,Option.ite_none_left_eq_some,
    Option.bind_eq_some,Option.some.injEq] at sent
  obtain ⟨-,-,-,rpcs,-,s'',updated,rfl⟩ := sent
  exact ⟨s'',rpcs,updated,rfl⟩

theorem broadcastRequestVote_eq_some {g : Nat} (sent : s.broadcastRequestVote i g = some s') :
    ∃ (f : Node C K → List (Option (RequestVoteArgs × Nat))) (s'' : Cluster C K),
      s.updateNode i (fun node => some { node with voteRequests := f node }) = some s'' ∧
      (s' = s'' ∨ ∃ server args, s' = s''.send i [(server,.requestVote args)]) := by
  simp only [broadcastRequestVote,bind,pure,Option.bind_eq_some] at sent
  obtain ⟨node,-,request,-,sent⟩ := sent
  rcases request with _ | ⟨args,server⟩ <;> simp only [Option.bind_eq_some] at sent
  · obtain ⟨_,-,updated⟩ := sent
    exact ⟨_,_,updated,.inl rfl⟩
  split_ifs at sent
  · exact ⟨_,_,sent,.inl rfl⟩
  all_goals
    obtain ⟨s'',updated,sent⟩ := Option.bind_eq_some.1 sent
    simp only [Option.some_bind,Option.some.injEq] at sent
    subst sent
  · exact ⟨_,s'',updated,.inr ⟨server,args,rfl⟩⟩
  · exact ⟨_,s'',updated,.inl rfl⟩

theorem deliver_eq_some {c : Nat} (delivered : s.deliver c = some s') :
    ∃ call node rf reply spawned s'', s.calls[c]? = some call ∧ call.reply = none ∧
      s.nodes[call.server]? = some node ∧ node.raft.handle call.rpc = some (rf,reply,spawned) ∧
      s.updateNode call.server
        (fun node => some { node with raft := rf, applyLogs := node.applyLogs + if spawned then 1 else 0 }) =
          some s'' ∧
      s' = ⟨s''.nodes,s''.calls.set c { call with reply := some reply }⟩ := by
  simp only [deliver,bind,pure,Option.none_bind,Option.some_bind,Option.ite_none_left_eq_some,
    Option.bind_eq_some,Option.some.injEq,Option.not_isSome_iff_eq_none] at delivered
  obtain ⟨call,found,idle,node,atServer,⟨rf,reply,spawned⟩,handled,s'',updated,rfl⟩ := delivered
  exact ⟨call,node,rf,reply,spawned,s'',found,idle,atServer,handled,updated,rfl⟩

theorem complete_eq_some {c : Nat} {ok : Bool} (completed : s.complete c ok = some s') :
    ∃ call node rf spawned s'', s.calls[c]? = some call ∧ s.nodes[call.caller]? = some node ∧
      node.raft.receive call.server call.rpc (if ok then call.reply else none) = some (rf,spawned) ∧
      s.updateNode call.caller
        (fun node => some { node with raft := rf, applyLogs := node.applyLogs + if spawned then 1 else 0 }) =
          some s'' ∧
      s' = { s'' with calls := s''.calls.eraseIdx c } := by
  simp only [complete,bind,pure,Option.none_bind,Option.some_bind,Option.ite_none_left_eq_some,
    Option.bind_eq_some,Option.some.injEq] at completed
  obtain ⟨call,found,-,node,atServer,⟨rf,spawned⟩,received,s'',updated,rfl⟩ := completed
  exact ⟨call,node,rf,spawned,s'',found,atServer,received,updated,rfl⟩

theorem crash_eq_some (crashed : s.crash i = some s') :
    ∃ s'', s.updateNode i (fun node => some (Node.boot (make node.raft.peers i node.raft.persister) node.sent)) =
      some s'' ∧ s' = { s'' with calls := s''.calls.filter (·.caller ≠ i) } := by
  simp only [crash,bind,pure,Option.bind_eq_some,Option.some.injEq] at crashed
  obtain ⟨s'',updated,rfl⟩ := crashed
  exact ⟨s'',updated,rfl⟩

end Inversion

def step (s : Cluster C K) : Action C K → Option (Cluster C K)
  | .runSwitch i => s.updateNode i Node.runSwitch
  | .runReceive i signal => s.updateNode i (Node.runReceive · signal)
  | .runTimeout i => s.updateNode i Node.runTimeout
  | .runPersist i => s.updateNode i Node.runPersist
  | .runCandidate i => s.updateNode i Node.runCandidate
  | .applyLog i => s.updateNode i Node.applyLog
  | .broadcastHeartbeat i => s.broadcastHeartbeat i
  | .broadcastRequestVote i g => s.broadcastRequestVote i g
  | .deliver c => s.deliver c
  | .complete c => s.complete c true
  | .fail c => s.complete c false
  | .start i command => s.updateNode i fun node => (node.raft.start command).map (node.setRaft ·.1)
  | .createSnapshot i kvSnapshot index =>
    s.updateNode i fun node => (node.raft.createSnapshot kvSnapshot index).map node.setRaft
  | .crash i => s.crash i

/-- Replay a schedule; a disabled step or a panic ends it. -/
def runActions (s : Cluster C K) : List (Action C K) → Option (Cluster C K)
  | [] => some s
  | a :: rest => (s.step a).bind (runActions · rest)

private theorem runActions_append (s : Cluster C K) (first rest : List (Action C K)) :
    s.runActions (first ++ rest) = (s.runActions first).bind (·.runActions rest) := by
  induction first generalizing s with
  | nil => rfl
  | cons a first ih =>
    simp only [List.cons_append,runActions,Option.bind_assoc]
    exact congrArg _ (funext ih)

/-- The state a schedule that runs through leads the `n`-replica cluster to. -/
def replay (n : Nat) (actions : List (Action C K)) (ran : ((init n).runActions actions).isSome) :
    Cluster C K :=
  ((init n).runActions actions).get ran

theorem runActions_replay {n : Nat} {actions : List (Action C K)} (ran : ((init n).runActions actions).isSome) :
    (init n).runActions actions = some (replay n actions ran) :=
  Option.eq_some_of_isSome ran

theorem replay_runActions {n : Nat} {first rest : List (Action C K)}
    (ran : ((init n).runActions first).isSome) (ran' : ((init n).runActions (first ++ rest)).isSome) :
    (replay n first ran).runActions rest = some (replay n (first ++ rest) ran') := by
  have whole := runActions_append (init n) first rest
  rw [runActions_replay ran,runActions_replay ran',Option.some_bind] at whole
  exact whole.symm

theorem replay_step {n : Nat} (first : List (Action C K)) (a : Action C K)
    (ran : ((init n).runActions first).isSome) (ran' : ((init n).runActions (first ++ [a])).isSome) :
    (replay n first ran).step a = some (replay n (first ++ [a]) ran') := by
  have single := replay_runActions ran ran'
  simpa [runActions] using single

end Cluster

/-- Some interleaving leads from `s` to `t`. -/
def Steps {C K : Type} (s t : Cluster C K) : Prop := ∃ actions, s.runActions actions = some t

/-- The states of an `n`-replica cluster some interleaving reaches. -/
inductive Reachable {C K : Type} (n : Nat) : Cluster C K → Prop
  | init : Reachable n (Cluster.init n)
  | step {s s' : Cluster C K} (a : Action C K) (reached : Reachable n s)
      (stepped : s.step a = some s') : Reachable n s'

theorem Reachable.runActions {C K : Type} {n : Nat} {s t : Cluster C K} {actions : List (Action C K)}
    (reached : Reachable n s) (ran : s.runActions actions = some t) : Reachable n t := by
  induction actions generalizing s with
  | nil => cases ran; exact reached
  | cons a rest ih =>
    obtain ⟨s',stepped,ran⟩ := Option.bind_eq_some.mp ran
    exact ih (.step a reached stepped) ran

theorem Reachable.replay {C K : Type} {n : Nat} (actions : List (Action C K))
    (ran : ((Cluster.init n).runActions actions).isSome) : Reachable n (Cluster.replay n actions ran) :=
  Reachable.init.runActions (Cluster.runActions_replay ran)

theorem Steps.replay {C K : Type} {n : Nat} (first rest : List (Action C K))
    (ran : ((Cluster.init n).runActions first).isSome)
    (ran' : ((Cluster.init n).runActions (first ++ rest)).isSome) :
    Steps (Cluster.replay n first ran) (Cluster.replay n (first ++ rest) ran') :=
  ⟨rest,Cluster.replay_runActions ran ran'⟩

end Sentinel
