import Sentinel.Raft.Replication
import Mathlib.Order.Bounds.Basic

/-! The commit loop at the end of `sendAppendEntries` against the commit rule of the spec.
The loop runs `N` down from `getLastLogIndex()` and stops at the first entry of an older term.
Because terms are sorted along the log and none exceeds `currentTerm`, no index below that
entry is of the current term, so the loop finds the greatest `N` the rule allows. It reads
`rf.log[N-baseIndex]` at every `N` above `commitIndex`, which is in the log only when
`commitIndex` is at least `baseIndex - 1`; below that the loop panics. -/

namespace Sentinel

variable {C K : Type}

namespace Raft

/-- The commit rule: `N` lies above `commitIndex` and within the log, its entry is of the
current term, and a majority of peers, the leader included, has matched it. -/
def CommitCandidate (rf : Raft C K) (n : Nat) : Prop :=
  rf.commitIndex < n ∧ (∃ last ∈ lastLogIndex rf.log, n ≤ last) ∧
    (∃ entry ∈ rf.logAt n, entry.term = rf.currentTerm) ∧ rf.peers / 2 < rf.matchCount n

instance (rf : Raft C K) (n : Nat) : Decidable (rf.CommitCandidate n) :=
  inferInstanceAs (Decidable (_ ∧ _ ∧ _ ∧ _))

section Scan

variable {rf : Raft C K} {base : Nat}

private theorem commitScan_greatest (wf : LogWellFormed rf) (based : baseIndex rf.log = some base)
    (committed : base ≤ rf.commitIndex + 1) :
    ∀ n, n < base + rf.log.length →
      (∃ found, rf.commitScan base n = some (some found) ∧
        IsGreatest {m | rf.CommitCandidate m ∧ m ≤ n} found) ∨
      (rf.commitScan base n = some none ∧ ∀ m, rf.CommitCandidate m → n < m)
  | 0, _ => .inr ⟨rfl,fun _ candidate => by have := candidate.1; omega⟩
  | n + 1, inLog => by
    by_cases above : rf.commitIndex < n + 1
    case neg =>
      exact .inr ⟨by simp [commitScan,above],fun _ candidate => by have := candidate.1; omega⟩
    obtain ⟨entry,held⟩ := LogWellFormed.logAt_isSome based (by omega) inLog
    have atN : entryAt rf.log base (n + 1) = some entry := by simpa [logAt,based] using held
    have last := wf.lastLogIndex_eq based
    by_cases current : entry.term = rf.currentTerm
    case neg =>
      refine .inr ⟨by simp [commitScan,above,atN,current],fun m candidate => ?_⟩
      obtain ⟨-,-,⟨entry',held',term'⟩,-⟩ := candidate
      by_contra below
      have := wf.term_le based held' held (by omega)
      have := wf.term_le_currentTerm held
      omega
    by_cases majority : rf.peers / 2 < rf.matchCount (n + 1)
    · refine .inl ⟨n + 1,by simp [commitScan,above,atN,current,majority],⟨⟨above,?_,⟨entry,held,current⟩,majority⟩,le_refl _⟩,
        fun m candidate => candidate.2⟩
      exact ⟨_,last,by omega⟩
    · have lower : ∀ m, rf.CommitCandidate m → m ≠ n + 1 := fun m candidate same =>
        majority (same ▸ candidate.2.2.2)
      have scan : rf.commitScan base (n + 1) = rf.commitScan base n := by
        simp [commitScan,above,atN,current,majority]
      rw [scan]
      rcases commitScan_greatest wf based committed n (by omega) with ⟨found,ran,greatest⟩ | ⟨ran,none⟩
      · refine .inl ⟨found,ran,⟨greatest.1.1,by have := greatest.1.2; omega⟩,fun m ⟨candidate,le⟩ => ?_⟩
        exact greatest.2 ⟨candidate,by have := lower m candidate; omega⟩
      · exact .inr ⟨ran,fun m candidate => by have := none m candidate; have := lower m candidate; omega⟩

end Scan

/-- For a leader whose log keeps the representation invariant and whose `commitIndex` is at
least `baseIndex - 1`, and for every `matchIndex` with a slot per peer (as every reachable leader
has, `leader_slots_in_range`), the commit loop sets `commitIndex` to the greatest `N` of the commit
rule and spawns `applyLog`, or changes nothing when there is none. -/
theorem commitPhase_commit_rule {rf : Raft C K} (wf : LogWellFormed rf) (_slots : rf.matchIndex.length = rf.peers)
    (committed : ∀ base ∈ baseIndex rf.log, base ≤ rf.commitIndex + 1) :
    ∃ rf' spawned, rf.commitPhase = some (rf',spawned) ∧
      (∀ n, IsGreatest {m | rf.CommitCandidate m} n → rf' = { rf with commitIndex := n } ∧ spawned = true) ∧
      ((∀ n, ¬ rf.CommitCandidate n) → rf' = rf ∧ spawned = false) := by
  obtain ⟨base,based⟩ := wf.based
  have last := wf.lastLogIndex_eq based
  have within : ∀ m, rf.CommitCandidate m → m ≤ base + (rf.log.length - 1) := fun m candidate => by
    obtain ⟨_,found,le⟩ := candidate.2.1
    rw [last] at found
    cases found
    exact le
  have nonempty := List.length_pos.2 wf.nonempty
  rcases commitScan_greatest wf based (committed base based) _ (show base + (rf.log.length - 1) < _ by omega)
    with ⟨found,ran,greatest⟩ | ⟨ran,none⟩
  · refine ⟨{ rf with commitIndex := found },true,by simp [commitPhase,based,last,ran],fun n greatest' => ?_,
      fun never => absurd greatest.1.1 (never found)⟩
    have same : IsGreatest {m | rf.CommitCandidate m} found :=
      ⟨greatest.1.1,fun m candidate => greatest.2 ⟨candidate,within m candidate⟩⟩
    exact ⟨by rw [greatest'.unique same],rfl⟩
  · refine ⟨rf,false,by simp [commitPhase,based,last,ran],fun n greatest => ?_,fun _ => ⟨rfl,rfl⟩⟩
    have := none n greatest.1
    have := within n greatest.1
    omega

theorem commitPhase_raises {rf : Raft C K} (wf : LogWellFormed rf)
    (committed : ∀ base ∈ baseIndex rf.log, base ≤ rf.commitIndex + 1) :
    ∃ commit spawned, rf.commitPhase = some ({ rf with commitIndex := commit },spawned) ∧ rf.commitIndex ≤ commit := by
  obtain ⟨base,based⟩ := wf.based
  have nonempty := List.length_pos.2 wf.nonempty
  rcases commitScan_greatest wf based (committed base based) _ (show base + (rf.log.length - 1) < _ by omega)
    with ⟨found,ran,greatest⟩ | ⟨ran,-⟩
  · exact ⟨found,true,by simp [commitPhase,based,wf.lastLogIndex_eq based,ran],greatest.1.1.1.le⟩
  · exact ⟨rf.commitIndex,false,by simp [commitPhase,based,wf.lastLogIndex_eq based,ran],le_refl _⟩

/-- A leader of term 1 whose entry at index 1 peer 1 has matched. -/
def matchedLeader : Raft Nat Unit :=
  { peers := 3, persister := ⟨none,none⟩, me := 0, state := .leader, voteCount := 2, currentTerm := 1,
    votedFor := some 0, log := [⟨0,0,none⟩,⟨1,1,some 1⟩], commitIndex := 0, lastApplied := 0,
    nextIndex := [2,2,2], matchIndex := [0,1,0], chanApply := [], chanGrantVote := 0, chanWinElect := 0,
    chanHeartbeat := 0 }

theorem matchedLeader_commit_rule :
    LogWellFormed matchedLeader ∧ matchedLeader.matchIndex.length = matchedLeader.peers ∧
      (∀ base ∈ baseIndex matchedLeader.log, base ≤ matchedLeader.commitIndex + 1) ∧
      ∃ rf' spawned, matchedLeader.commitPhase = some (rf',spawned) ∧
        (∀ n, IsGreatest {m | matchedLeader.CommitCandidate m} n →
          rf' = { matchedLeader with commitIndex := n } ∧ spawned = true) ∧
        ((∀ n, ¬ matchedLeader.CommitCandidate n) → rf' = matchedLeader ∧ spawned = false) :=
  have wf : LogWellFormed matchedLeader := ⟨by decide,by decide,by decide,by decide,fun _ p _ last found => by
    obtain rfl : last = 1 := Option.some.inj found.symm
    revert p
    decide⟩
  have committed : ∀ base ∈ baseIndex matchedLeader.log, base ≤ matchedLeader.commitIndex + 1 := fun _ found => by
    cases found
    decide
  ⟨wf,rfl,committed,commitPhase_commit_rule wf rfl committed⟩

/-- A leader of term 1 whose log starts at a snapshot at index 2, with `commitIndex` still 0. -/
def snapshotLeader : Raft Nat Unit :=
  { peers := 3, persister := ⟨none,some ⟨2,1,()⟩⟩, me := 0, state := .leader, voteCount := 2,
    currentTerm := 1, votedFor := some 0, log := [⟨2,1,none⟩], commitIndex := 0, lastApplied := 0,
    nextIndex := [3,3,3], matchIndex := [0,0,0], chanApply := [], chanGrantVote := 0, chanWinElect := 0,
    chanHeartbeat := 0 }

/-- No `N` meets the commit rule, so the rule leaves `commitIndex` at 0; the loop instead
passes index 2, which a majority has not matched, and reads `rf.log[1-2]`. -/
theorem commit_scan_reads_below_base :
    LogWellFormed snapshotLeader ∧ snapshotLeader.state = .leader ∧
      (∀ n, ¬ snapshotLeader.CommitCandidate n) ∧ snapshotLeader.commitPhase = none := by
  refine ⟨⟨by decide,by decide,by decide,by decide,fun _ p bound last found => ?_⟩,rfl,
    fun n ⟨_,⟨last,found,le⟩,⟨entry,held,_⟩,majority⟩ => ?_,rfl⟩
  · obtain rfl : last = 2 := Option.some.inj found.symm
    revert p
    decide
  · obtain rfl : last = 2 := Option.some.inj found.symm
    have : 2 ≤ n := ((logAt_eq_some (show baseIndex snapshotLeader.log = some 2 from rfl)).1 held).1
    obtain rfl : n = 2 := by omega
    revert majority
    decide

end Raft

end Sentinel
