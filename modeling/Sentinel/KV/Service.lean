import Sentinel.Raft.Cluster
import Sentinel.KV.Server
import Sentinel.Linearizability.KvModel

/-! The key/value service of `raftkv` on the Raft cluster. Each replica runs a `KVServer`
beside its Raft instance: the `Get` and `PutAppend` handlers call `appendEntryToLog`, which
starts the op and waits on `resultCh[index]` for `Run` to apply it, and `Run` takes the
messages of the apply channel in order. Each `Clerk` issues one call at a time and retries at
the next server until a server replies without `WrongLeader`. The clerks' calls, like the
Raft RPCs of `Cluster`, may be lost at any point, and a request whose `Call` returned false
may still reach its server. A replica crashes with its `KVServer` and restarts from its
persister. The history of completed clerk operations is kept as ghost state, stamped with a
clock that each invocation and each response advances, so step order is real-time order. -/

namespace Sentinel.RaftKV

open Linearizability

/-- `GetReply` and `PutAppendReply` in one; a put or append leaves `value` empty. -/
structure Reply where
  wrongLeader : Bool
  err : String
  value : String
deriving DecidableEq, Repr

/-- `isMatch`. -/
def isMatch (entry : Op) (result : Result) : Bool :=
  entry.clientId == result.clientId && entry.requestId == result.requestId

/-- What `Get` and `PutAppend` reply once `appendEntryToLog` has returned `result`. -/
def replyOf (result : Result) : Reply :=
  if result.ok then ⟨false,result.err,result.value⟩ else ⟨true,"",""⟩

/-- The reply to `Result{OK: false}`. -/
def wrongLeader : Reply := ⟨true,"",""⟩

/-- A clerk's request: `Get(key)`, `Put(key, value)` or `Append(key, value)`. -/
inductive Request
  | get (key : String)
  | put (key value : String)
  | append (key value : String)
deriving DecidableEq, Repr

/-- The arguments the clerk sends, as the handler turns them into an `Op`. -/
def Request.op (clientId requestId : Int) : Request → Op
  | .get key => ⟨"get",clientId,requestId,key,""⟩
  | .put key value => ⟨"put",clientId,requestId,key,value⟩
  | .append key value => ⟨"append",clientId,requestId,key,value⟩

/-- The checker's input for an op: `Op` is 0 for get, 1 for put and 2 for append. -/
def inputOf (op : Op) : KvInput :=
  ⟨if op.command = "get" then 0 else if op.command = "put" then 1 else 2,op.key,op.value⟩

/-- Where the server's handler of one call stands: the request is in flight, `Start` has
returned `index` and the handler waits in its `select`, the handler has replied, or the server
crashed under it. -/
inductive Stage
  | sent
  | waiting (index : Nat)
  | replied (reply : Reply)
  | lost
deriving DecidableEq, Repr

/-- The request is in flight or its handler waits: a crash of the server ends it. -/
def Stage.running : Stage → Bool
  | .sent | .waiting _ => true
  | _ => false

/-- A clerk's `Call` and the handler it starts. `waited` turns false once the `Call` has
returned: the handler may still run, but its reply goes nowhere. -/
structure KvCall where
  clerk : Nat
  server : Nat
  op : Op
  stage : Stage
  waited : Bool

/-- A `KVServer` beside its Raft instance: the maps `applyOp` works on, `resultCh` (an absent
channel is `none`, an empty one `some none`), how many messages of the instance's apply
channel `Run` has taken, and the `CreateSnapshot` goroutines `Run` spawned that have not run. -/
structure KvNode where
  kv : KVServer
  resultCh : Nat → Option (Option Result)
  applied : Nat
  snapshots : List (KVServer × Nat)

/-- `Clerk`: `pending` is the op it retries, with the time it was called. -/
structure Clerk where
  clientId : Int
  requestId : Int
  leader : Nat
  pending : Option (Op × Int)

/-- The service: the cluster, one `KVServer` per replica, the clerks and their calls, and the
completed operations with the clock (ghost). -/
structure Service where
  cluster : Cluster Op KVServer
  servers : List KvNode
  clerks : List Clerk
  calls : List KvCall
  history : List (Operation KvValue)
  clock : Int

inductive ServiceAction
  | raft (a : Action Op KVServer)
  | invoke (clerk : Nat) (request : Request)
  | deliver (call : Nat)
  | receive (call : Nat)
  | timeout (call : Nat)
  | complete (call : Nat)
  | fail (call : Nat)
  | apply (server : Nat)
  | snapshot (server g : Nat)
  | crash (server : Nat)

namespace KvNode

/-- `StartKVServer` once `Run` is running: empty maps and no channels. -/
def start : KvNode := ⟨KVServer.empty,fun _ => none,0,[]⟩

/-- The handler makes `resultCh[index]` unless it is there. It does so under `kv.mu` right after
`Start`; `Run` makes the same channel if it applies the index first, so the two orders agree. -/
def register (node : KvNode) (index : Nat) : KvNode :=
  if (node.resultCh index).isSome then node
  else { node with resultCh := Function.update node.resultCh index (some none) }

/-- One pass of `Run`'s loop on `msg`: a snapshot message is decoded into the maps; a command is applied
and its result replaces whatever `resultCh[CommandIndex]` buffered, and when the Raft state is
too large a `CreateSnapshot` of the maps at that index is spawned. The assertion
`msg.Command.(Op)` panics on a message without a command. -/
def runMsg (node : KvNode) (oversized : Bool) (msg : ApplyMsg Op KVServer) : Option KvNode :=
  if msg.useSnapshot then
    some (match msg.snapshot with
      | some snapshot => { node with kv := node.kv.load snapshot.kv }
      | none => node)
  else msg.command.map fun op =>
    let applied := node.kv.applyOp op
    let node := { node with
      kv := applied.1
      resultCh := Function.update node.resultCh msg.commandIndex (some (some applied.2)) }
    if oversized then { node with snapshots := node.snapshots ++ [(applied.1,msg.commandIndex)] } else node

end KvNode

namespace Service

/-- `n` replicas from empty persisters, and a clerk for each client id. -/
def init (n : Nat) (clients : List Int) : Service :=
  ⟨Cluster.init n,List.replicate n KvNode.start,clients.map fun id => ⟨id,0,0,none⟩,[],[],0⟩

/-- The clerk's `Call` of `op` to `servers[server]`. -/
def send (s : Service) (clerk : Nat) (op : Op) (server : Nat) : Service :=
  { s with calls := s.calls ++ [⟨clerk,server,op,.sent,true⟩] }

/-- `ck.leader = (ck.leader + 1) % len(ck.servers)` and the next `Call`. -/
def retry (s : Service) (c : Nat) (ck : Clerk) (op : Op) : Service :=
  let leader := (ck.leader + 1) % s.servers.length
  { s with clerks := s.clerks.set c { ck with leader } }.send c op leader

/-- `ck.Get` or `ck.PutAppend`: take the next request id and call the believed leader. -/
def invoke (s : Service) (c : Nat) (request : Request) : Option Service :=
  (s.clerks[c]?).bind fun ck =>
  if ck.pending.isSome then none else
  let op := request.op ck.clientId ck.requestId
  some ({ s with
    clerks := s.clerks.set c { ck with requestId := ck.requestId + 1, pending := some (op,s.clock) }
    clock := s.clock + 1 }.send c op ck.leader)

/-- The request reaches its server: `appendEntryToLog` calls `Start`, which replies
`WrongLeader` off the leader, and otherwise makes `resultCh[index]`. -/
def deliver (s : Service) (k : Nat) : Option Service :=
  (s.calls[k]?).bind fun call =>
  if call.stage ≠ .sent then none else
  (s.cluster.nodes[call.server]?).bind fun node =>
  (node.raft.start call.op).bind fun started =>
  if started.2.2.2 then
    (s.cluster.updateNode call.server fun node => some (node.setRaft started.1)).bind fun cluster =>
    (s.servers[call.server]?).map fun kv =>
    { s with
      cluster
      servers := s.servers.set call.server (kv.register started.2.1.toNat)
      calls := s.calls.set k { call with stage := .waiting started.2.1.toNat } }
  else some { s with calls := s.calls.set k { call with stage := .replied wrongLeader } }

/-- The handler's `select` takes the result `Run` buffered in `resultCh[index]`, and replies with
it if it is the result of its own op, `WrongLeader` otherwise. -/
def receive (s : Service) (k : Nat) : Option Service :=
  (s.calls[k]?).bind fun call =>
  match call.stage with
  | .waiting index =>
    (s.servers[call.server]?).bind fun kv =>
    match kv.resultCh index with
    | some (some result) => some { s with
        servers := s.servers.set call.server { kv with resultCh := Function.update kv.resultCh index (some none) }
        calls := s.calls.set k
          { call with stage := .replied (if isMatch call.op result then replyOf result else wrongLeader) } }
    | _ => none
  | _ => none

/-- The 240 ms case of the handler's `select`. -/
def timeout (s : Service) (k : Nat) : Option Service :=
  (s.calls[k]?).bind fun call =>
  match call.stage with
  | .waiting _ => some { s with calls := s.calls.set k { call with stage := .replied wrongLeader } }
  | _ => none

/-- The clerk's `Call` returns the reply: a reply without `WrongLeader` completes the op, which
enters the history; any other sends it to the next server. -/
def complete (s : Service) (k : Nat) : Option Service :=
  (s.calls[k]?).bind fun call =>
  match call.stage with
  | .replied reply =>
    if ¬ call.waited then none else
    (s.clerks[call.clerk]?).bind fun ck => ck.pending.map fun (op,called) =>
    let s := { s with calls := s.calls.set k { call with waited := false } }
    if reply.wrongLeader then s.retry call.clerk ck op
    else { s with
      clerks := s.clerks.set call.clerk { ck with pending := none }
      history := s.history ++ [⟨.input (inputOf op),called,.output ⟨reply.value⟩,s.clock⟩]
      clock := s.clock + 1 }
  | _ => none

/-- The clerk's `Call` returns false (the request or the reply was lost), and it tries the next
server; the handler, if it runs, replies to no one. -/
def fail (s : Service) (k : Nat) : Option Service :=
  (s.calls[k]?).bind fun call =>
  if ¬ call.waited then none else
  (s.clerks[call.clerk]?).bind fun ck => ck.pending.map fun (op,_) =>
  { s with calls := s.calls.set k { call with waited := false } }.retry call.clerk ck op

/-- `Run` takes the next message of its Raft instance's apply channel. `oversized` is the
test `kv.maxraftstate != -1 && kv.rf.GetRaftStateSize() > kv.maxraftstate` on the persister. -/
def apply (oversized : Persister Op KVServer → Bool) (s : Service) (i : Nat) : Option Service :=
  (s.cluster.nodes[i]?).bind fun node => (s.servers[i]?).bind fun kv =>
  (node.raft.chanApply[kv.applied]?).bind fun msg =>
  (kv.runMsg (oversized node.raft.persister) msg).map fun kv' =>
  { s with servers := s.servers.set i { kv' with applied := kv.applied + 1 } }

/-- A spawned `kv.rf.CreateSnapshot(w.Bytes(), msg.CommandIndex)` runs. -/
def snapshot (s : Service) (i g : Nat) : Option Service :=
  (s.servers[i]?).bind fun kv => (kv.snapshots[g]?).bind fun (state,index) =>
  (s.cluster.step (.createSnapshot i state index)).map fun cluster =>
  { s with cluster, servers := s.servers.set i { kv with snapshots := kv.snapshots.eraseIdx g } }

/-- Replica `i` crashes with its `KVServer` and restarts: the handlers it ran are gone. -/
def crash (s : Service) (i : Nat) : Option Service :=
  (s.cluster.step (.crash i)).map fun cluster =>
  { s with
    cluster
    servers := s.servers.set i KvNode.start
    calls := s.calls.map fun call =>
      if call.server = i ∧ call.stage.running then { call with stage := .lost } else call }

/-! What each action of the service can do: one inversion lemma per action. -/

section Inversion

variable {s s' : Service}

theorem invoke_eq_some {c : Nat} {request : Request} (invoked : s.invoke c request = some s') :
    ∃ ck, s.clerks[c]? = some ck ∧ ck.pending = none ∧
      s' = { s with
        clerks := s.clerks.set c
          { ck with requestId := ck.requestId + 1, pending := some (request.op ck.clientId ck.requestId,s.clock) }
        clock := s.clock + 1 }.send c (request.op ck.clientId ck.requestId) ck.leader := by
  simp only [invoke,Option.bind_eq_some,Option.ite_none_left_eq_some,Option.some.injEq,
    Option.not_isSome_iff_eq_none] at invoked
  obtain ⟨ck,found,idle,rfl⟩ := invoked
  exact ⟨ck,found,idle,rfl⟩

theorem deliver_eq_some {k : Nat} (delivered : s.deliver k = some s') :
    ∃ call node started, s.calls[k]? = some call ∧ call.stage = .sent ∧ s.cluster.nodes[call.server]? = some node ∧
      node.raft.start call.op = some started ∧
      ((started.2.2.2 = true ∧ ∃ cluster kv,
          s.cluster.updateNode call.server (fun node => some (node.setRaft started.1)) = some cluster ∧
          s.servers[call.server]? = some kv ∧
          s' = { s with
            cluster
            servers := s.servers.set call.server (kv.register started.2.1.toNat)
            calls := s.calls.set k { call with stage := .waiting started.2.1.toNat } }) ∨
        started.2.2.2 = false ∧
          s' = { s with calls := s.calls.set k { call with stage := .replied wrongLeader } }) := by
  simp only [deliver,Option.bind_eq_some,Option.ite_none_left_eq_some,not_not] at delivered
  obtain ⟨call,found,sent,node,atServer,started,startedAt,delivered⟩ := delivered
  refine ⟨call,node,started,found,sent,atServer,startedAt,?_⟩
  by_cases leader : started.2.2.2 = true
  · rw [if_pos leader] at delivered
    obtain ⟨cluster,updated,kv,atKv,rfl⟩ := by simpa only [Option.bind_eq_some,Option.map_eq_some'] using delivered
    exact .inl ⟨leader,cluster,kv,updated,atKv,rfl⟩
  · rw [if_neg leader] at delivered
    exact .inr ⟨by simpa using leader,(Option.some.inj delivered).symm⟩

theorem receive_eq_some {k : Nat} (received : s.receive k = some s') :
    ∃ call index kv result, s.calls[k]? = some call ∧ call.stage = .waiting index ∧
      s.servers[call.server]? = some kv ∧ kv.resultCh index = some (some result) ∧
      s' = { s with
        servers := s.servers.set call.server { kv with resultCh := Function.update kv.resultCh index (some none) }
        calls := s.calls.set k
          { call with stage := .replied (if isMatch call.op result then replyOf result else wrongLeader) } } := by
  obtain ⟨call,found,received⟩ := Option.bind_eq_some.1 received
  split at received
  case h_2 => cases received
  case h_1 index waiting =>
    obtain ⟨kv,atServer,received⟩ := Option.bind_eq_some.1 received
    split at received
    case h_2 => cases received
    case h_1 result buffered =>
      cases received
      exact ⟨call,index,kv,result,found,waiting,atServer,buffered,rfl⟩

theorem timeout_eq_some {k : Nat} (timedOut : s.timeout k = some s') :
    ∃ call index, s.calls[k]? = some call ∧ call.stage = .waiting index ∧
      s' = { s with calls := s.calls.set k { call with stage := .replied wrongLeader } } := by
  obtain ⟨call,found,timedOut⟩ := Option.bind_eq_some.1 timedOut
  split at timedOut
  case h_2 => cases timedOut
  case h_1 index waiting =>
    cases timedOut
    exact ⟨call,index,found,waiting,rfl⟩

theorem complete_eq_some {k : Nat} (completed : s.complete k = some s') :
    ∃ call reply ck op called, s.calls[k]? = some call ∧ call.stage = .replied reply ∧ call.waited = true ∧
      s.clerks[call.clerk]? = some ck ∧ ck.pending = some (op,called) ∧
      ((reply.wrongLeader = true ∧
          s' = { s with calls := s.calls.set k { call with waited := false } }.retry call.clerk ck op) ∨
        reply.wrongLeader = false ∧ s' = { s with
          calls := s.calls.set k { call with waited := false }
          clerks := s.clerks.set call.clerk { ck with pending := none }
          history := s.history ++ [⟨.input (inputOf op),called,.output ⟨reply.value⟩,s.clock⟩]
          clock := s.clock + 1 }) := by
  obtain ⟨call,found,completed⟩ := Option.bind_eq_some.1 completed
  split at completed
  case h_2 => cases completed
  case h_1 reply replied =>
    simp only [Option.ite_none_left_eq_some,not_not,Option.bind_eq_some,Option.map_eq_some'] at completed
    obtain ⟨waited,ck,atClerk,⟨op,called⟩,pending,rfl⟩ := completed
    refine ⟨call,reply,ck,op,called,found,replied,waited,atClerk,pending,?_⟩
    cases reply.wrongLeader
    · exact .inr ⟨rfl,rfl⟩
    · exact .inl ⟨rfl,rfl⟩

theorem fail_eq_some {k : Nat} (failed : s.fail k = some s') :
    ∃ call ck op called, s.calls[k]? = some call ∧ call.waited = true ∧ s.clerks[call.clerk]? = some ck ∧
      ck.pending = some (op,called) ∧
      s' = { s with calls := s.calls.set k { call with waited := false } }.retry call.clerk ck op := by
  simp only [fail,Option.bind_eq_some,Option.ite_none_left_eq_some,Option.map_eq_some',not_not] at failed
  obtain ⟨call,found,waited,ck,atClerk,⟨op,called⟩,pending,rfl⟩ := failed
  exact ⟨call,ck,op,called,found,waited,atClerk,pending,rfl⟩

theorem apply_eq_some {oversized : Persister Op KVServer → Bool} {i : Nat} (applied : s.apply oversized i = some s') :
    ∃ node kv msg kv', s.cluster.nodes[i]? = some node ∧ s.servers[i]? = some kv ∧
      node.raft.chanApply[kv.applied]? = some msg ∧ kv.runMsg (oversized node.raft.persister) msg = some kv' ∧
      s' = { s with servers := s.servers.set i { kv' with applied := kv.applied + 1 } } := by
  simp only [apply,Option.bind_eq_some,Option.map_eq_some'] at applied
  obtain ⟨node,atNode,kv,atKv,msg,atMsg,kv',ran,rfl⟩ := applied
  exact ⟨node,kv,msg,kv',atNode,atKv,atMsg,ran,rfl⟩

theorem snapshot_eq_some {i g : Nat} (taken : s.snapshot i g = some s') :
    ∃ kv state index cluster, s.servers[i]? = some kv ∧ kv.snapshots[g]? = some (state,index) ∧
      s.cluster.step (.createSnapshot i state index) = some cluster ∧
      s' = { s with cluster, servers := s.servers.set i { kv with snapshots := kv.snapshots.eraseIdx g } } := by
  simp only [snapshot,Option.bind_eq_some,Option.map_eq_some'] at taken
  obtain ⟨kv,atKv,⟨state,index⟩,spawned,cluster,clustered,rfl⟩ := taken
  exact ⟨kv,state,index,cluster,atKv,spawned,clustered,rfl⟩

theorem crash_eq_some {i : Nat} (crashed : s.crash i = some s') :
    ∃ cluster, s.cluster.step (.crash i) = some cluster ∧
      s' = { s with
        cluster
        servers := s.servers.set i KvNode.start
        calls := s.calls.map fun call =>
          if call.server = i ∧ call.stage.running then { call with stage := .lost } else call } := by
  obtain ⟨cluster,clustered,rfl⟩ := Option.map_eq_some'.1 crashed
  exact ⟨cluster,clustered,rfl⟩

end Inversion

/-- A step of the Raft layer alone; `Start` and `CreateSnapshot` come from the service, and a
crash takes the `KVServer` with it. -/
def raftStep (s : Service) : Action Op KVServer → Option Service
  | .start .. | .createSnapshot .. | .crash _ => none
  | a => (s.cluster.step a).map fun cluster => { s with cluster }

theorem raftStep_eq_some {s s' : Service} {a : Action Op KVServer} (stepped : s.raftStep a = some s') :
    ∃ cluster, s.cluster.step a = some cluster ∧ s' = { s with cluster } := by
  unfold raftStep at stepped
  split at stepped
  any_goals cases stepped
  obtain ⟨cluster,clustered,rfl⟩ := Option.map_eq_some'.1 stepped
  exact ⟨cluster,clustered,rfl⟩

def step (oversized : Persister Op KVServer → Bool) (s : Service) : ServiceAction → Option Service
  | .raft a => s.raftStep a
  | .invoke c request => s.invoke c request
  | .deliver k => s.deliver k
  | .receive k => s.receive k
  | .timeout k => s.timeout k
  | .complete k => s.complete k
  | .fail k => s.fail k
  | .apply i => s.apply oversized i
  | .snapshot i g => s.snapshot i g
  | .crash i => s.crash i

def runActions (oversized : Persister Op KVServer → Bool) (s : Service) : List ServiceAction → Option Service
  | [] => some s
  | a :: rest => (s.step oversized a).bind (runActions oversized · rest)

/-- The states of the service some interleaving reaches. -/
inductive Reachable (oversized : Persister Op KVServer → Bool) (n : Nat) (clients : List Int) : Service → Prop
  | init : Reachable oversized n clients (init n clients)
  | step {s s' : Service} (a : ServiceAction) (reached : Reachable oversized n clients s)
      (stepped : s.step oversized a = some s') : Reachable oversized n clients s'

theorem Reachable.runActions {oversized : Persister Op KVServer → Bool} {n : Nat} {clients : List Int}
    {s t : Service} {actions : List ServiceAction} (reached : Reachable oversized n clients s)
    (ran : s.runActions oversized actions = some t) : Reachable oversized n clients t := by
  induction actions generalizing s with
  | nil => cases ran; exact reached
  | cons a rest ih =>
    obtain ⟨s',stepped,ran⟩ := Option.bind_eq_some.mp ran
    exact ih (.step a reached stepped) ran

/-- The state a schedule that runs through leads the service to. -/
def replay (oversized : Persister Op KVServer → Bool) (n : Nat) (clients : List Int) (actions : List ServiceAction)
    (ran : ((init n clients).runActions oversized actions).isSome) : Service :=
  ((init n clients).runActions oversized actions).get ran

theorem Reachable.replay {oversized : Persister Op KVServer → Bool} {n : Nat} {clients : List Int}
    (actions : List ServiceAction) (ran : ((Service.init n clients).runActions oversized actions).isSome) :
    Reachable oversized n clients (replay oversized n clients actions ran) :=
  Reachable.init.runActions (Option.eq_some_of_isSome ran)

end Service

/-! ### A lost put -/

/-- Replica 0 wins term 1. Clerk 0 calls `Get("k")` and clerk 1 `Put("k", "x")` through it,
and `Start` puts them at indices 1 and 2; replica 0's heartbeats to replica 1 carry index 1,
then indices 1 and 2, and the longer one is delivered. -/
def getAndPutStarted : List ServiceAction :=
  [.raft (.runSwitch 0),.raft (.runTimeout 0),
   .raft (.runPersist 0),.raft (.runPersist 0),.raft (.runPersist 0),.raft (.runPersist 0),
   .raft (.runSwitch 0),.raft (.runCandidate 0),
   .raft (.broadcastRequestVote 0 0),.raft (.broadcastRequestVote 0 0),.raft (.broadcastRequestVote 0 0),
   .raft (.broadcastRequestVote 0 0),.raft (.broadcastRequestVote 0 0),
   .raft (.deliver 0),.raft (.complete 0),.raft (.fail 0),.raft (.runReceive 0 .winElect),
   .invoke 0 (.get "k"),.deliver 0,.raft (.runSwitch 0),.raft (.broadcastHeartbeat 0),
   .invoke 1 (.put "k" "x"),.deliver 1,.raft (.runSwitch 0),.raft (.broadcastHeartbeat 0),
   .raft (.fail 3),.raft (.fail 1),.raft (.deliver 1)]

/-- Replica 1's reply lets replica 0 commit index 2; its `Run` applies both ops, and both
clerks get their replies: the put has completed. -/
def putCompletes : List ServiceAction :=
  [.raft (.complete 1),.raft (.applyLog 0),.apply 0,.apply 0,.receive 0,.complete 0,.receive 1,.complete 1]

/-- The shorter heartbeat arrives late and cuts replica 1's log back to index 1; replica 1
then wins term 2 with replica 2's vote. -/
def putLost : List ServiceAction :=
  [.raft (.deliver 0),
   .raft (.runSwitch 1),.raft (.runTimeout 1),
   .raft (.runPersist 1),.raft (.runPersist 1),.raft (.runPersist 1),.raft (.runPersist 1),
   .raft (.runSwitch 1),.raft (.runCandidate 1),
   .raft (.broadcastRequestVote 1 0),.raft (.broadcastRequestVote 1 0),.raft (.broadcastRequestVote 1 0),
   .raft (.broadcastRequestVote 1 0),.raft (.broadcastRequestVote 1 0),.raft (.deliver 2),
   .raft (.complete 2),.raft (.fail 1),.raft (.runReceive 1 .winElect)]

/-- Clerk 2 calls `Get("k")`; its call to server 0 is lost and it retries at server 1, which
puts the get at index 2, replicates it to replica 2, commits and applies it, and replies with
the value before the put. -/
def staleGet : List ServiceAction :=
  [.invoke 2 (.get "k"),.fail 2,.deliver 3,
   .raft (.runSwitch 1),.raft (.broadcastHeartbeat 1),.raft (.fail 1),.raft (.deliver 1),.raft (.complete 1),
   .raft (.runSwitch 1),.raft (.broadcastHeartbeat 1),.raft (.fail 1),.raft (.deliver 1),.raft (.complete 1),
   .raft (.applyLog 1),.apply 1,.apply 1,.receive 3,.complete 3]

/-- With three replicas, three clerks and no snapshots, a run completes `Put("k", "x")` and later
starts a `Get("k")` that returns `""`: no order of the history keeps real time and the map. -/
theorem lost_put_breaks_linearizability :
    ∃ s : Service, Service.Reachable (fun _ => false) 3 [1,2,3] s ∧ ¬ Linearizable kvMap s.history :=
  ⟨_,Service.Reachable.replay (getAndPutStarted ++ putCompletes ++ putLost ++ staleGet) (by decide),by decide⟩

end Sentinel.RaftKV
