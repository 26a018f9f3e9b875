import Sentinel.Raft.Replica

/-! The caller's side of the three RPCs in `raft.go`: what `sendRequestVote`,
`sendAppendEntries` and `sendInstallSnapshot` do with a reply once they hold
`rf.mu` again, the commit loop, and the requests `broadcastHeartbeat` and
`broadcastRequestVote` build. A reply of `none` is a `Call` that returned false. -/

namespace Sentinel

/-- A request on the wire, as the sending goroutine built it. -/
inductive Rpc (C K : Type)
  | requestVote (args : RequestVoteArgs)
  | appendEntries (args : AppendEntriesArgs C)
  | installSnapshot (args : InstallSnapshotArgs K)
deriving DecidableEq, Repr

inductive RpcReply
  | requestVote (reply : RequestVoteReply)
  | appendEntries (reply : AppendEntriesReply)
  | installSnapshot (reply : InstallSnapshotReply)
deriving DecidableEq, Repr

namespace Raft

variable {C K : Type}

/-- The server side: the handler the RPC names. The flag is a spawned `applyLog`. -/
def handle (rf : Raft C K) : Rpc C K → Option (Raft C K × RpcReply × Bool)
  | .requestVote args => (rf.requestVote args).map fun (rf,reply) => (rf,.requestVote reply,false)
  | .appendEntries args => (rf.appendEntries args).map fun (rf,reply,spawned) => (rf,.appendEntries reply,spawned)
  | .installSnapshot args =>
    let (rf,reply) := rf.installSnapshot args
    some (rf,.installSnapshot reply,false)

/-- The processing after `Call` in `sendRequestVote`, with its deferred `persist`. -/
def sendRequestVote (rf : Raft C K) (args : RequestVoteArgs) :
    Option RequestVoteReply → Option (Raft C K)
  | none => some rf.persist
  | some reply =>
    if rf.state ≠ .candidate ∨ rf.currentTerm ≠ args.term then some rf.persist
    else if rf.currentTerm < reply.term then some (rf.stepDown reply.term).persist
    else if reply.voteGranted then
      let rf := { rf with voteCount := rf.voteCount + 1 }
      if rf.peers / 2 < rf.voteCount then
        (lastLogIndex rf.log).map fun last =>
        { rf with
          state := .leader
          nextIndex := List.replicate rf.peers (last + 1)
          matchIndex := List.replicate rf.peers 0
          chanWinElect := rf.chanWinElect + 1 }.persist
      else some rf.persist
    else some rf.persist

/-- `count` in the commit loop: the leader and every other peer whose
`matchIndex` has reached `n`. -/
def matchCount (rf : Raft C K) (n : Nat) : Nat :=
  ((List.range rf.peers).filter fun i => i ≠ rf.me ∧ n ≤ rf.matchIndex.getD i 0).length + 1

/-- The commit loop of `sendAppendEntries`, `N` running down from `n` while
`N > commitIndex` and `log[N].Term == currentTerm`: the first `N` a majority has
matched, if the loop finds one. -/
def commitScan (rf : Raft C K) (base : Nat) : Nat → Option (Option Nat)
  | 0 => some none
  | n + 1 =>
    if rf.commitIndex < n + 1 then
      (entryAt rf.log base (n + 1)).bind fun entry =>
      if entry.term = rf.currentTerm then
        if rf.peers / 2 < rf.matchCount (n + 1) then some (some (n + 1)) else rf.commitScan base n
      else some none
    else some none

/-- The `nextIndex`/`matchIndex` update of `sendAppendEntries` for a current reply. -/
def trackReply (rf : Raft C K) (server : Nat) (args : AppendEntriesArgs C) (reply : AppendEntriesReply) :
    Option (Raft C K) :=
  if reply.success then
    some (match args.entries.getLast? with
      | some entry =>
        { rf with
          nextIndex := rf.nextIndex.set server (entry.index + 1)
          matchIndex := rf.matchIndex.set server entry.index }
      | none => rf)
  else (lastLogIndex rf.log).map fun last =>
    { rf with nextIndex := rf.nextIndex.set server (min reply.nextTryIndex last) }

/-- The commit phase of `sendAppendEntries`; the flag is a spawned `applyLog`. -/
def commitPhase (rf : Raft C K) : Option (Raft C K × Bool) :=
  (baseIndex rf.log).bind fun base => (lastLogIndex rf.log).bind fun last =>
  (rf.commitScan base last).map fun
    | some n => ({ rf with commitIndex := n },true)
    | none => (rf,false)

/-- The processing after `Call` in `sendAppendEntries`. -/
def sendAppendEntries (rf : Raft C K) (server : Nat) (args : AppendEntriesArgs C) :
    Option AppendEntriesReply → Option (Raft C K × Bool)
  | none => some (rf,false)
  | some reply =>
    if rf.state ≠ .leader ∨ args.term ≠ rf.currentTerm then some (rf,false)
    else if rf.currentTerm < reply.term then some ((rf.stepDown reply.term).persist,false)
    else (rf.trackReply server args reply).bind commitPhase

/-- The processing after `Call` in `sendInstallSnapshot`. -/
def sendInstallSnapshot (rf : Raft C K) (server : Nat) (args : InstallSnapshotArgs K) :
    Option InstallSnapshotReply → Raft C K
  | none => rf
  | some reply =>
    if rf.state ≠ .leader ∨ args.term ≠ rf.currentTerm then rf
    else if rf.currentTerm < reply.term then (rf.stepDown reply.term).persist
    else { rf with
      nextIndex := rf.nextIndex.set server (args.lastIncludedIndex + 1)
      matchIndex := rf.matchIndex.set server args.lastIncludedIndex }

/-- The caller's side, by the RPC the goroutine sent. -/
def receive (rf : Raft C K) (server : Nat) : Rpc C K → Option RpcReply → Option (Raft C K × Bool)
  | .requestVote args, some (.requestVote reply) => (rf.sendRequestVote args (some reply)).map (·,false)
  | .requestVote args, _ => (rf.sendRequestVote args none).map (·,false)
  | .appendEntries args, some (.appendEntries reply) => rf.sendAppendEntries server args (some reply)
  | .appendEntries args, _ => rf.sendAppendEntries server args none
  | .installSnapshot args, some (.installSnapshot reply) => some (rf.sendInstallSnapshot server args (some reply),false)
  | .installSnapshot args, _ => some (rf.sendInstallSnapshot server args none,false)

/-- The request `broadcastHeartbeat` builds for one peer: `AppendEntries` from
`nextIndex[server]`, or `InstallSnapshot` once that is at or below `baseIndex`. -/
def heartbeatTo (rf : Raft C K) (base : Nat) (server : Nat) : Option (Rpc C K) :=
  let next := rf.nextIndex.getD server 0
  if base < next then
    (entryAt rf.log base (next - 1)).bind fun prev => (lastLogIndex rf.log).map fun last =>
    let entries := if next ≤ last then rf.log.drop (next - base) else []
    .appendEntries ⟨rf.currentTerm,rf.me,next - 1,prev.term,entries,rf.commitIndex⟩
  else (rf.log.head?).map fun sentinel =>
    .installSnapshot ⟨rf.currentTerm,rf.me,sentinel.index,sentinel.term,rf.persister.snapshot⟩

/-- `rf.broadcastHeartbeat`, all under the lock: one request per other peer while leader. -/
def broadcastHeartbeat (rf : Raft C K) : Option (List (Nat × Rpc C K)) :=
  (baseIndex rf.log).bind fun base =>
  if rf.state = .leader then
    ((List.range rf.peers).filter (· ≠ rf.me)).mapM fun server => (server,·) <$> rf.heartbeatTo base server
  else some []

theorem mapM_some_mem {α β : Type} {f : α → Option β} :
    ∀ {xs : List α} {ys : List β}, xs.mapM f = some ys → ∀ y ∈ ys, ∃ x ∈ xs, f x = some y
  | [], _, ran => by cases ran; nofun
  | x :: rest, ys, ran => by
    simp only [List.mapM_cons,bind,pure,Option.bind_eq_some,Option.some.injEq] at ran
    obtain ⟨y,found,tail,ran,rfl⟩ := ran
    refine List.forall_mem_cons.2 ⟨⟨x,.head _,found⟩,fun y' mem => ?_⟩
    obtain ⟨x',mem',found'⟩ := mapM_some_mem ran y' mem
    exact ⟨x',.tail _ mem',found'⟩

theorem mapM_pairs_mem {β : Type} {f : Nat → Option β} {servers : List Nat} {pairs : List (Nat × β)}
    (ran : servers.mapM (fun s => (s,·) <$> f s) = some pairs) : ∀ p ∈ pairs, p.1 ∈ servers ∧ f p.1 = some p.2 := by
  intro p mem
  obtain ⟨server,listed,built⟩ := mapM_some_mem ran p mem
  obtain ⟨_,found,rfl⟩ := Option.map_eq_some'.1 built
  exact ⟨listed,found⟩

/-- The locked part of `rf.broadcastRequestVote`: the arguments it sends to every peer. -/
def requestVoteArgs (rf : Raft C K) : Option RequestVoteArgs :=
  (lastLogIndex rf.log).bind fun index => (lastLogTerm rf.log).map fun term =>
  ⟨rf.currentTerm,rf.me,index,term⟩

end Raft

end Sentinel
