import Sentinel.Raft.Commit

/-! A leader bringing one follower up to date in `raft.go`, with no other events and no losses:
in each round `broadcastHeartbeat` builds the follower's request from `nextIndex`, the follower
runs the handler and the leader processes the reply. A follower whose base lies more than one
above the leader's base answers an `AppendEntries` from the leader's base with neither branch
of the handler, so `NextTryIndex` keeps its zero value and the leader falls back to
`InstallSnapshot`; a follower that has already committed past the leader's snapshot ignores it,
and the leader moves `nextIndex` back up. `Stuck` names such a pair; one round keeps it stuck
and leaves both logs as they were, so no number of rounds brings the follower up to date. -/

namespace Sentinel

variable {C K : Type}

namespace Raft

/-- One round for peer `server`: the request `broadcastHeartbeat` builds for it, the follower's
handler, and the leader's processing of the reply. The `applyLog`s either side spawns do not
run. -/
def catchUpRound (server : Nat) (leader follower : Raft C K) : Option (Raft C K × Raft C K) :=
  leader.broadcastHeartbeat.bind fun rpcs => (rpcs.lookup server).bind fun rpc =>
  (follower.handle rpc).bind fun (follower,reply,_) =>
  (leader.receive server rpc (some reply)).map fun (leader,_) => (leader,follower)

/-- `rounds` rounds in a row; a panic ends them. -/
def catchUp (server : Nat) : Nat → Raft C K × Raft C K → Option (Raft C K × Raft C K)
  | 0, pair => some pair
  | rounds + 1, (leader,follower) => (catchUpRound server leader follower).bind (catchUp server rounds)

end Raft

/-- The starting point of the catch-up: a leader whose log keeps the representation invariant
and whose snapshot header is its first entry, and a follower in the leader's term that has
committed no more than the leader, at or above its own base, and whose entries up to its
`commitIndex` have the leader's terms wherever both hold the index. -/
def CatchUpReady (leader follower : Raft C K) : Prop :=
  leader.state = .leader ∧ LogWellFormed leader ∧
    leader.persister.snapshot.map (fun s => (s.lastIncludedIndex,s.lastIncludedTerm)) =
      leader.log.head?.map (fun e => (e.index,e.term)) ∧
    follower.currentTerm = leader.currentTerm ∧ follower.commitIndex ≤ leader.commitIndex ∧
    (∀ base ∈ baseIndex follower.log, base ≤ follower.commitIndex) ∧
    ∀ i ≤ follower.commitIndex, ∀ held ∈ leader.logAt i, ∀ copy ∈ follower.logAt i, held.term = copy.term

namespace Raft

section Requests

private theorem mapM_lookup {β : Type} {f : Nat → Option β} {servers : List Nat} (built : ∀ s ∈ servers, ∃ b, f s = some b) :
    ∃ rpcs, servers.mapM (fun s => (s,·) <$> f s) = some rpcs ∧ ∀ s ∈ servers, rpcs.lookup s = f s := by
  induction servers with
  | nil => exact ⟨[],rfl,nofun⟩
  | cons s rest ih =>
    obtain ⟨b,first⟩ := built s (.head _)
    obtain ⟨rpcs,ran,looked⟩ := ih fun s' mem => built s' (.tail _ mem)
    refine ⟨(s,b) :: rpcs,by rw [List.mapM_cons,first,ran]; rfl,fun s' mem => ?_⟩
    by_cases same : s' = s
    · simp [same,first]
    · simp [List.lookup_cons,beq_false_of_ne same,looked s' (List.mem_of_ne_of_mem same mem)]

variable {rf : Raft C K} {base server : Nat}

private theorem heartbeatTo_isSome (wf : LogWellFormed rf) (leading : rf.state = .leader)
    (based : baseIndex rf.log = some base) (peer : server < rf.peers) : ∃ rpc, rf.heartbeatTo base server = some rpc := by
  have last := wf.lastLogIndex_eq based
  have bound := wf.nextIndex leading server peer _ last
  have nonempty := List.length_pos.2 wf.nonempty
  obtain ⟨sentinel,first,-⟩ := Option.map_eq_some'.1 based
  by_cases above : base < rf.nextIndex.getD server 0
  · obtain ⟨prev,held⟩ := LogWellFormed.logAt_isSome based
      (show base ≤ rf.nextIndex.getD server 0 - 1 by omega) (by omega)
    rw [logAt,based,Option.some_bind] at held
    simp only [heartbeatTo,if_pos above,held,Option.some_bind,last,Option.map_some']
    exact ⟨_,rfl⟩
  · simp only [heartbeatTo,if_neg above,first,Option.map_some']
    exact ⟨_,rfl⟩

private theorem heartbeatTo_snapshot (based : baseIndex rf.log = some base) (below : rf.nextIndex.getD server 0 ≤ base) :
    ∃ args, rf.heartbeatTo base server = some (.installSnapshot args) ∧ args.term = rf.currentTerm ∧
      args.lastIncludedIndex = base := by
  obtain ⟨sentinel,first,rfl⟩ := Option.map_eq_some'.1 based
  simp only [heartbeatTo,if_neg (not_lt.2 below),first,Option.map_some']
  exact ⟨_,rfl,rfl,rfl⟩

private theorem heartbeatTo_from_base (wf : LogWellFormed rf) (based : baseIndex rf.log = some base)
    (next : rf.nextIndex.getD server 0 = base + 1) :
    ∃ args, rf.heartbeatTo base server = some (.appendEntries args) ∧ args.term = rf.currentTerm ∧
      args.prevLogIndex = base := by
  obtain ⟨sentinel,first,rfl⟩ := Option.map_eq_some'.1 based
  have atBase : entryAt rf.log sentinel.index sentinel.index = some sentinel := by
    simpa [entryAt,List.head?_eq_getElem?] using first
  simp only [heartbeatTo,next,if_pos (Nat.lt_succ_self _),Nat.add_sub_cancel,atBase,Option.some_bind,
    wf.lastLogIndex_eq based,Option.map_some']
  exact ⟨_,rfl,rfl,rfl⟩

private theorem broadcastHeartbeat_lookup (wf : LogWellFormed rf) (leading : rf.state = .leader)
    (based : baseIndex rf.log = some base) (peer : server < rf.peers) (other : server ≠ rf.me) :
    ∃ rpcs, rf.broadcastHeartbeat = some rpcs ∧ rpcs.lookup server = rf.heartbeatTo base server := by
  obtain ⟨rpcs,ran,looked⟩ := mapM_lookup (show ∀ s ∈ (List.range rf.peers).filter (· ≠ rf.me),
      ∃ rpc, rf.heartbeatTo base s = some rpc from fun s mem =>
    heartbeatTo_isSome wf leading based (List.mem_range.1 (List.mem_filter.1 mem).1))
  refine ⟨rpcs,?_,looked server (by simp [peer,other])⟩
  simp only [broadcastHeartbeat,based,Option.some_bind,if_pos leading]
  exact ran

end Requests

section Replies

variable {rf : Raft C K} {base server : Nat}

private theorem appendEntries_below_base {args : AppendEntriesArgs C} (wf : LogWellFormed rf)
    (based : baseIndex rf.log = some base) (term : args.term = rf.currentTerm) (below : args.prevLogIndex + 1 < base) :
    rf.appendEntries args =
      some ({ rf with chanHeartbeat := rf.chanHeartbeat + 1 }.persist,⟨rf.currentTerm,false,0⟩,false) := by
  have within : ¬ base + (rf.log.length - 1) < args.prevLogIndex := by omega
  simp [appendEntries,term,wf.lastLogIndex_eq based,within,checkPrev,based,appendFrom,
    show ¬ base ≤ args.prevLogIndex by omega,show ¬ base ≤ args.prevLogIndex + 1 by omega]

private theorem installSnapshot_committed {args : InstallSnapshotArgs K} (term : args.term = rf.currentTerm)
    (committed : args.lastIncludedIndex ≤ rf.commitIndex) :
    rf.installSnapshot args = ({ rf with chanHeartbeat := rf.chanHeartbeat + 1 },⟨rf.currentTerm⟩) := by
  simp [installSnapshot,term,not_lt.2 committed]

private theorem sendAppendEntries_rejected {args : AppendEntriesArgs C} (wf : LogWellFormed rf)
    (leading : rf.state = .leader) (based : baseIndex rf.log = some base) (committed : base ≤ rf.commitIndex + 1)
    (server : Nat) (term : args.term = rf.currentTerm) :
    ∃ commit spawned, rf.sendAppendEntries server args (some ⟨rf.currentTerm,false,0⟩) =
      some ({ rf with nextIndex := rf.nextIndex.set server 0, commitIndex := commit },spawned) ∧
      rf.commitIndex ≤ commit := by
  obtain ⟨commit,spawned,ran,raised⟩ := commitPhase_raises (wf.setNextIndex based server (Nat.zero_le _))
    fun _ found => by cases based.symm.trans found; exact committed
  have tracked : rf.trackReply server args ⟨rf.currentTerm,false,0⟩ =
      some { rf with nextIndex := rf.nextIndex.set server 0 } := by
    simp only [trackReply,Bool.false_eq_true,if_false,wf.lastLogIndex_eq based,Option.map_some',Nat.zero_min]
  refine ⟨commit,spawned,?_,raised⟩
  have current : ¬ (rf.state ≠ .leader ∨ args.term ≠ rf.currentTerm) := by simp [leading,term]
  simp only [sendAppendEntries,current,if_false,lt_irrefl,tracked,Option.some_bind]
  exact ran

end Replies

/-- A leader and a follower the catch-up cannot bring together. The leader's log keeps the
invariant and starts at `base`, its `commitIndex` is at least `base - 1`, and its `nextIndex`
for the follower is at most `base + 1`. The follower is in the leader's term, its log keeps the
invariant and starts at `ahead`, more than one above the leader's base, and it has committed
the leader's base. -/
structure Stuck (server base ahead : Nat) (leader follower : Raft C K) : Prop where
  leading : leader.state = .leader
  wf : LogWellFormed leader
  based : baseIndex leader.log = some base
  committed : base ≤ leader.commitIndex + 1
  peer : server < leader.peers
  other : server ≠ leader.me
  behind : leader.nextIndex.getD server 0 ≤ base + 1
  term : follower.currentTerm = leader.currentTerm
  followerWf : LogWellFormed follower
  followerBased : baseIndex follower.log = some ahead
  gap : base + 1 < ahead
  followerCommitted : base ≤ follower.commitIndex

section Stuck

variable {server base ahead : Nat} {leader follower : Raft C K}

private theorem catchUpRound_stuck (stuck : Stuck server base ahead leader follower) :
    ∃ leader' follower', catchUpRound server leader follower = some (leader',follower') ∧
      leader'.log = leader.log ∧ follower'.log = follower.log ∧ Stuck server base ahead leader' follower' := by
  obtain ⟨rpcs,sent,looked⟩ := broadcastHeartbeat_lookup stuck.wf stuck.leading stuck.based stuck.peer stuck.other
  have behind := stuck.behind
  have followerWf := stuck.followerWf
  rcases Nat.lt_or_ge base (leader.nextIndex.getD server 0) with above | below
  case inl =>
    obtain ⟨args,built,term,prev⟩ := heartbeatTo_from_base stuck.wf stuck.based
      (show leader.nextIndex.getD server 0 = base + 1 by omega)
    obtain ⟨commit,spawned,received,raised⟩ :=
      sendAppendEntries_rejected stuck.wf stuck.leading stuck.based stuck.committed server term
    have handled := appendEntries_below_base followerWf stuck.followerBased (term.trans stuck.term.symm)
      (prev ▸ stuck.gap)
    have leaderWf := stuck.wf.setNextIndex stuck.based server (Nat.zero_le _)
    have reset := LogWellFormed.getD_set_le leader.nextIndex server 0 server
    refine ⟨{ leader with nextIndex := leader.nextIndex.set server 0, commitIndex := commit },
      { follower with chanHeartbeat := follower.chanHeartbeat + 1 }.persist,?_,rfl,rfl,
      { stuck with
        wf := ⟨leaderWf.1,leaderWf.2,leaderWf.3,leaderWf.4,leaderWf.5⟩
        committed := by show base ≤ commit + 1; have := stuck.committed; omega
        behind := by show (leader.nextIndex.set server 0).getD server 0 ≤ base + 1; omega
        followerWf := ⟨followerWf.1,followerWf.2,followerWf.3,followerWf.4,followerWf.5⟩ }⟩
    simp [catchUpRound,sent,looked,built,handle,handled,stuck.term,receive,received]
  case inr =>
    obtain ⟨args,built,term,index⟩ := heartbeatTo_snapshot stuck.based below
    have handled := installSnapshot_committed (term.trans stuck.term.symm) (index ▸ stuck.followerCommitted)
    have received : leader.sendInstallSnapshot server args (some ⟨leader.currentTerm⟩) =
        { leader with
          nextIndex := leader.nextIndex.set server (base + 1)
          matchIndex := leader.matchIndex.set server base } := by
      have current : ¬ (leader.state ≠ .leader ∨ args.term ≠ leader.currentTerm) := by simp [stuck.leading,term]
      simp only [sendInstallSnapshot,current,if_false,lt_irrefl,index]
    have leaderWf := stuck.wf.setNextIndex stuck.based server (le_refl _)
    have reset := LogWellFormed.getD_set_le leader.nextIndex server (base + 1) server
    refine ⟨{ leader with
        nextIndex := leader.nextIndex.set server (base + 1)
        matchIndex := leader.matchIndex.set server base },
      { follower with chanHeartbeat := follower.chanHeartbeat + 1 },?_,rfl,rfl,
      { stuck with
        wf := ⟨leaderWf.1,leaderWf.2,leaderWf.3,leaderWf.4,leaderWf.5⟩
        behind := by show (leader.nextIndex.set server (base + 1)).getD server 0 ≤ base + 1; omega
        followerWf := ⟨followerWf.1,followerWf.2,followerWf.3,followerWf.4,followerWf.5⟩ }⟩
    simp [catchUpRound,sent,looked,built,handle,handled,stuck.term,receive,received]

private theorem catchUp_keeps_logs (rounds : Nat) (stuck : Stuck server base ahead leader follower) :
    ∃ leader' follower', catchUp server rounds (leader,follower) = some (leader',follower') ∧
      leader'.log = leader.log ∧ follower'.log = follower.log := by
  induction rounds generalizing leader follower with
  | zero => exact ⟨_,_,rfl,rfl,rfl⟩
  | succ rounds ih =>
    obtain ⟨leader',follower',round,leaderLog,followerLog,stuck'⟩ := catchUpRound_stuck stuck
    obtain ⟨leader'',follower'',ran,leaderLog',followerLog'⟩ := ih stuck'
    exact ⟨_,_,by rw [catchUp,round,Option.some_bind,ran],leaderLog'.trans leaderLog,followerLog'.trans followerLog⟩

end Stuck

end Raft

/-- Leader 0 of term 2 with `nextIndex[1] = next`: its log starts at a snapshot at index 1 of
term 1, holds indices 2 and 3 of term 1 and index 4 of term 2, and it has committed index 3. -/
def laggingLeader (next : Nat) : Raft Nat Unit :=
  { peers := 2, persister := ⟨none,some ⟨1,1,()⟩⟩, me := 0, state := .leader, voteCount := 2,
    currentTerm := 2, votedFor := some 0, log := [⟨1,1,none⟩,⟨2,1,some 2⟩,⟨3,1,some 3⟩,⟨4,2,some 4⟩],
    commitIndex := 3, lastApplied := 3, nextIndex := [5,next], matchIndex := [0,1], chanApply := [],
    chanGrantVote := 0, chanWinElect := 0, chanHeartbeat := 0 }

/-- Follower 1 in term 2, whose log starts at a snapshot at index 3 of term 1 that it has
committed; `heartbeats` counts the buffered heartbeat signals. -/
def aheadFollower (heartbeats : Nat) : Raft Nat Unit :=
  { peers := 2, persister := ⟨some ⟨2,some 0,[⟨3,1,none⟩]⟩,some ⟨3,1,()⟩⟩, me := 1, state := .follower,
    voteCount := 0, currentTerm := 2, votedFor := some 0, log := [⟨3,1,none⟩], commitIndex := 3,
    lastApplied := 3, nextIndex := [], matchIndex := [], chanApply := [], chanGrantVote := 0,
    chanWinElect := 0, chanHeartbeat := heartbeats }

/-- The pair meets the starting point of the catch-up, yet after any number of rounds the
follower's last index is still 3 and the leader's 4. -/
theorem catch_up_never_finishes :
    CatchUpReady (laggingLeader 2) (aheadFollower 0) ∧
      ∀ rounds, ∃ leader follower, Raft.catchUp 1 rounds (laggingLeader 2,aheadFollower 0) = some (leader,follower) ∧
        lastLogIndex follower.log ≠ lastLogIndex leader.log := by
  have wf : LogWellFormed (laggingLeader 2) := ⟨by decide,by decide,by decide,by decide,fun _ p _ last found => by
    obtain rfl : last = 4 := Option.some.inj found.symm
    revert p
    decide⟩
  have stuck : Raft.Stuck 1 1 3 (laggingLeader 2) (aheadFollower 0) :=
    ⟨rfl,wf,rfl,by decide,by decide,by decide,by decide,rfl,⟨by decide,by decide,by decide,by decide,nofun⟩,rfl,
      by decide,by decide⟩
  refine ⟨⟨rfl,wf,by decide,rfl,by decide,by decide,by decide⟩,fun rounds => ?_⟩
  obtain ⟨leader,follower,ran,leaderLog,followerLog⟩ := Raft.catchUp_keeps_logs rounds stuck
  exact ⟨leader,follower,ran,by rw [leaderLog,followerLog]; decide⟩

end Sentinel
