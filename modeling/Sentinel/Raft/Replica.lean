import Sentinel.Raft.Log

/-! One Raft replica of `raft.go`: its state, what it persists, `Make`, and the
three RPC handlers with `applyLog`, `Start` and `CreateSnapshot`. Each of these
runs under `rf.mu` in the code, so each is one atomic step here; `saveRaftState` is
the persister's own locked `SaveRaftState`, which `Run`'s unlocked `persist()` calls
with bytes it encoded earlier. `none` is a panic. The serializer is out of scope: a
blob is the value it encodes. -/

namespace Sentinel

/-- `STATE_CANDIDATE`, `STATE_FOLLOWER`, `STATE_LEADER`. -/
inductive RaftState
  | candidate
  | follower
  | leader
deriving DecidableEq, Repr

/-- A snapshot blob: the header `(lastIncludedIndex, lastIncludedTerm)` that
`CreateSnapshot` writes in front of the service's bytes `kv`. -/
structure Snapshot (K : Type) where
  lastIncludedIndex : Nat
  lastIncludedTerm : Nat
  kv : K
deriving DecidableEq, Repr

structure ApplyMsg (C K : Type) where
  commandValid : Bool
  commandIndex : Nat
  command : Option C
  useSnapshot : Bool
  snapshot : Option (Snapshot K)
deriving DecidableEq, Repr

/-- The triple `getRaftState` encodes. `votedFor = none` is the code's `-1`. -/
structure PersistentState (C : Type) where
  currentTerm : Nat
  votedFor : Option Nat
  log : List (LogEntry C)
deriving DecidableEq, Repr

/-- `Persister`; an absent blob is the code's nil slice. -/
structure Persister (C K : Type) where
  raftstate : Option (PersistentState C)
  snapshot : Option (Snapshot K)
deriving DecidableEq, Repr

structure RequestVoteArgs where
  term : Nat
  candidateId : Nat
  lastLogIndex : Nat
  lastLogTerm : Nat
deriving DecidableEq, Repr

structure RequestVoteReply where
  term : Nat
  voteGranted : Bool
deriving DecidableEq, Repr

structure AppendEntriesArgs (C : Type) where
  term : Nat
  leaderId : Nat
  prevLogIndex : Nat
  prevLogTerm : Nat
  entries : List (LogEntry C)
  leaderCommit : Nat
deriving DecidableEq, Repr

structure AppendEntriesReply where
  term : Nat
  success : Bool
  nextTryIndex : Nat
deriving DecidableEq, Repr

structure InstallSnapshotArgs (K : Type) where
  term : Nat
  leaderId : Nat
  lastIncludedIndex : Nat
  lastIncludedTerm : Nat
  data : Option (Snapshot K)
deriving DecidableEq, Repr

structure InstallSnapshotReply where
  term : Nat
deriving DecidableEq, Repr

/-- The `Raft` struct without its mutex. `peers` is `len(rf.peers)`; `chanApply`
is every message sent on the apply channel so far, in order; the other three
channels are counts of buffered signals. -/
structure Raft (C K : Type) where
  peers : Nat
  persister : Persister C K
  me : Nat
  state : RaftState
  voteCount : Nat
  currentTerm : Nat
  votedFor : Option Nat
  log : List (LogEntry C)
  commitIndex : Nat
  lastApplied : Nat
  nextIndex : List Nat
  matchIndex : List Nat
  chanApply : List (ApplyMsg C K)
  chanGrantVote : Nat
  chanWinElect : Nat
  chanHeartbeat : Nat

namespace Raft

variable {C K : Type}

/-- `rf.GetState()`. -/
def getState (rf : Raft C K) : Nat × Bool := (rf.currentTerm,rf.state = .leader)

def getRaftState (rf : Raft C K) : PersistentState C := ⟨rf.currentTerm,rf.votedFor,rf.log⟩

def persist (rf : Raft C K) : Raft C K :=
  { rf with persister := { rf.persister with raftstate := some rf.getRaftState } }

/-- `rf.persister.SaveRaftState(data)` of bytes encoded earlier. -/
def saveRaftState (rf : Raft C K) (state : PersistentState C) : Raft C K :=
  { rf with persister := { rf.persister with raftstate := some state } }

/-- `rf.persister.SaveStateAndSnapshot(rf.getRaftState(), snapshot)`. -/
def saveStateAndSnapshot (rf : Raft C K) (snapshot : Option (Snapshot K)) : Raft C K :=
  { rf with persister := ⟨some rf.getRaftState,snapshot⟩ }

/-- The step-down every handler and reply path performs on a higher term. -/
def stepDown (rf : Raft C K) (term : Nat) : Raft C K :=
  { rf with state := .follower, currentTerm := term, votedFor := none }

/-- `if args.Term > rf.currentTerm { ... }` at the head of the handlers. -/
def updateTerm (rf : Raft C K) (term : Nat) : Raft C K :=
  if rf.currentTerm < term then rf.stepDown term else rf

@[simp] theorem persist_log (rf : Raft C K) : rf.persist.log = rf.log := rfl
@[simp] theorem persist_currentTerm (rf : Raft C K) : rf.persist.currentTerm = rf.currentTerm := rfl
@[simp] theorem persist_votedFor (rf : Raft C K) : rf.persist.votedFor = rf.votedFor := rfl
@[simp] theorem persist_persister (rf : Raft C K) :
    rf.persist.persister = { rf.persister with raftstate := some rf.getRaftState } := rfl
@[simp] theorem saveStateAndSnapshot_currentTerm (rf : Raft C K) (snapshot : Option (Snapshot K)) :
    (rf.saveStateAndSnapshot snapshot).currentTerm = rf.currentTerm := rfl
@[simp] theorem saveStateAndSnapshot_votedFor (rf : Raft C K) (snapshot : Option (Snapshot K)) :
    (rf.saveStateAndSnapshot snapshot).votedFor = rf.votedFor := rfl
@[simp] theorem stepDown_log (rf : Raft C K) (term : Nat) : (rf.stepDown term).log = rf.log := rfl
@[simp] theorem stepDown_currentTerm (rf : Raft C K) (term : Nat) :
    (rf.stepDown term).currentTerm = term := rfl
@[simp] theorem stepDown_votedFor (rf : Raft C K) (term : Nat) : (rf.stepDown term).votedFor = none := rfl
@[simp] theorem updateTerm_log (rf : Raft C K) (term : Nat) : (rf.updateTerm term).log = rf.log := by
  unfold updateTerm; split <;> rfl
@[simp] theorem updateTerm_currentTerm (rf : Raft C K) (term : Nat) :
    (rf.updateTerm term).currentTerm = max rf.currentTerm term := by
  unfold updateTerm
  split
  · simp only [stepDown_currentTerm]; omega
  · omega
@[simp] theorem updateTerm_votedFor (rf : Raft C K) (term : Nat) :
    (rf.updateTerm term).votedFor = if rf.currentTerm < term then none else rf.votedFor := by
  unfold updateTerm; split <;> rfl
@[simp] theorem updateTerm_currentTerm_self (rf : Raft C K) : rf.updateTerm rf.currentTerm = rf := by
  simp [updateTerm]

def snapshotMsg (snapshot : Option (Snapshot K)) : ApplyMsg C K :=
  ⟨false,0,none,true,snapshot⟩

def readPersist (rf : Raft C K) : Option (PersistentState C) → Raft C K
  | none => rf
  | some data => { rf with currentTerm := data.currentTerm, votedFor := data.votedFor, log := data.log }

def recoverFromSnapshot (rf : Raft C K) : Option (Snapshot K) → Raft C K
  | none => rf
  | some snapshot =>
    { rf with
      lastApplied := snapshot.lastIncludedIndex
      commitIndex := snapshot.lastIncludedIndex
      log := trimLog rf.log snapshot.lastIncludedIndex snapshot.lastIncludedTerm
      chanApply := rf.chanApply ++ [snapshotMsg (some snapshot)] }

end Raft

open Raft

/-- `Make`: a follower in term 0 with the sentinel entry, then the persisted state
and snapshot, then `persist`. -/
def make {C K : Type} (peers me : Nat) (persister : Persister C K) : Raft C K :=
  let rf : Raft C K :=
    { peers, persister, me, state := .follower, voteCount := 0, currentTerm := 0,
      votedFor := none, log := [⟨0,0,none⟩], commitIndex := 0, lastApplied := 0,
      nextIndex := [], matchIndex := [], chanApply := [], chanGrantVote := 0,
      chanWinElect := 0, chanHeartbeat := 0 }
  ((rf.readPersist persister.raftstate).recoverFromSnapshot persister.snapshot).persist

namespace Raft

variable {C K : Type}

/-- `rf.RequestVote`, with its deferred `persist`. The up-to-date check runs only
when the vote is free, as `&&` short-circuits. -/
def requestVote (rf : Raft C K) (args : RequestVoteArgs) : Option (Raft C K × RequestVoteReply) :=
  if args.term < rf.currentTerm then some (rf.persist,⟨rf.currentTerm,false⟩) else
  let rf := rf.updateTerm args.term
  let refuse := some (rf.persist,⟨rf.currentTerm,false⟩)
  if rf.votedFor = none ∨ rf.votedFor = some args.candidateId then
    (lastLogTerm rf.log).bind fun term => (lastLogIndex rf.log).bind fun index =>
    if isUpToDate term index args.lastLogTerm args.lastLogIndex then
      let rf := { rf with votedFor := some args.candidateId, chanGrantVote := rf.chanGrantVote + 1 }
      some (rf.persist,⟨rf.currentTerm,true⟩)
    else refuse
  else refuse

/-- The fast-backup loop of `AppendEntries`: with `n` iterations left, `i` is
`base + n - 1`. The reply's `NextTryIndex` is one past the first index below the
conflict whose term differs, and keeps its zero value when the loop runs out. -/
def backup (log : List (LogEntry C)) (base term : Nat) : Nat → Option Nat
  | 0 => some 0
  | n + 1 => (entryAt log base (base + n)).bind fun entry =>
    if entry.term ≠ term then some (base + n + 1) else backup log base term n

/-- The `else if args.PrevLogIndex >= baseIndex-1` branch of `AppendEntries`: keep
the log up to `PrevLogIndex`, append the leader's entries whatever the log held
after it, and follow `LeaderCommit`. The flag is a spawned `go rf.applyLog()`. -/
def appendFrom (rf : Raft C K) (args : AppendEntriesArgs C) (base : Nat) :
    Option (Raft C K × AppendEntriesReply × Bool) :=
  if base ≤ args.prevLogIndex + 1 then
    (sliceTo rf.log (args.prevLogIndex + 1 - base)).bind fun kept =>
    let rf := { rf with log := kept ++ args.entries }
    let reply : AppendEntriesReply := ⟨rf.currentTerm,true,args.prevLogIndex + args.entries.length⟩
    if rf.commitIndex < args.leaderCommit then
      (lastLogIndex rf.log).map fun last => ({ rf with commitIndex := min args.leaderCommit last }.persist,reply,true)
    else some (rf.persist,reply,false)
  else some (rf.persist,⟨rf.currentTerm,false,0⟩,false)

/-- The consistency check on `PrevLogIndex` in `AppendEntries`, past the length check. -/
def checkPrev (rf : Raft C K) (args : AppendEntriesArgs C) (base : Nat) :
    Option (Raft C K × AppendEntriesReply × Bool) :=
  if base ≤ args.prevLogIndex then
    (entryAt rf.log base args.prevLogIndex).bind fun prev =>
    if args.prevLogTerm ≠ prev.term then
      (backup rf.log base prev.term (args.prevLogIndex - base)).map fun next =>
        (rf.persist,⟨rf.currentTerm,false,next⟩,false)
    else rf.appendFrom args base
  else rf.appendFrom args base

/-- `rf.AppendEntries`, with its deferred `persist`. -/
def appendEntries (rf : Raft C K) (args : AppendEntriesArgs C) :
    Option (Raft C K × AppendEntriesReply × Bool) :=
  if args.term < rf.currentTerm then
    (lastLogIndex rf.log).map fun last => (rf.persist,⟨rf.currentTerm,false,last + 1⟩,false)
  else
    let rf := { rf.updateTerm args.term with chanHeartbeat := (rf.updateTerm args.term).chanHeartbeat + 1 }
    (lastLogIndex rf.log).bind fun last =>
    if last < args.prevLogIndex then some (rf.persist,⟨rf.currentTerm,false,last + 1⟩,false)
    else (baseIndex rf.log).bind (rf.checkPrev args)

/-- `rf.applyLog`: send entries `lastApplied+1 .. commitIndex` in order. -/
def applyLog (rf : Raft C K) : Option (Raft C K) :=
  (baseIndex rf.log).bind fun base =>
  ((List.range' (rf.lastApplied + 1) (rf.commitIndex - rf.lastApplied)).mapM fun i =>
    (entryAt rf.log base i).map fun entry => (⟨true,i,entry.command,false,none⟩ : ApplyMsg C K)).map
  fun msgs => { rf with chanApply := rf.chanApply ++ msgs, lastApplied := rf.commitIndex }

/-- `rf.InstallSnapshot`. It persists only on a term change and when it installs. -/
def installSnapshot (rf : Raft C K) (args : InstallSnapshotArgs K) : Raft C K × InstallSnapshotReply :=
  if args.term < rf.currentTerm then (rf,⟨rf.currentTerm⟩) else
  let rf := if rf.currentTerm < args.term then (rf.stepDown args.term).persist else rf
  let rf := { rf with chanHeartbeat := rf.chanHeartbeat + 1 }
  if rf.commitIndex < args.lastIncludedIndex then
    let rf := { rf with
      log := trimLog rf.log args.lastIncludedIndex args.lastIncludedTerm
      lastApplied := args.lastIncludedIndex
      commitIndex := args.lastIncludedIndex }
    let rf := rf.saveStateAndSnapshot args.data
    ({ rf with chanApply := rf.chanApply ++ [snapshotMsg args.data] },⟨rf.currentTerm⟩)
  else (rf,⟨rf.currentTerm⟩)

/-- `rf.Start`: the returned index and term are `-1` off the leader. -/
def start (rf : Raft C K) (command : C) : Option (Raft C K × Int × Int × Bool) :=
  if rf.state = .leader then
    (lastLogIndex rf.log).map fun last =>
    let rf := { rf with log := rf.log ++ [(⟨last + 1,rf.currentTerm,some command⟩ : LogEntry C)] }
    (rf.persist,((last + 1 : Nat) : Int),(rf.currentTerm : Int),true)
  else some (rf,-1,-1,false)

/-- `rf.CreateSnapshot`: trim at `index` and save the header with the service's bytes. -/
def createSnapshot (rf : Raft C K) (kvSnapshot : K) (index : Nat) : Option (Raft C K) :=
  (baseIndex rf.log).bind fun base => (lastLogIndex rf.log).bind fun last =>
  if index ≤ base ∨ last < index then some rf else
  (entryAt rf.log base index).map fun entry =>
  { rf with log := trimLog rf.log index entry.term }.saveStateAndSnapshot (some ⟨index,entry.term,kvSnapshot⟩)

end Raft

end Sentinel
