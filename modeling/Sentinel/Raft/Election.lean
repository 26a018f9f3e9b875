import Sentinel.Raft.Replication

/-! Elections in `raft.go`. `voteCount` is reset only when `Run`'s candidate branch
starts a term, but `Run` turns a follower into a candidate first, in the term it
already holds. A `broadcastRequestVote` spawned in an earlier term that runs in
that window asks for votes in the current term, and the replies are added to the
count of the earlier candidacy. Two replicas then set `STATE_LEADER` in one term,
and the logs they write disagree. -/

namespace Sentinel

variable {C K : Type}

/-! ### Election safety -/

/-- In every run, at most one replica sets `STATE_LEADER` while its term is `term`. -/
def ElectionSafety (C K : Type) (n : Nat) : Prop :=
  ∀ (s₀ s₁ t₀ t₁ : Cluster C K) (a b : Action C K) (i j term : Nat),
    Reachable n s₀ → s₀.step a = some s₁ → Steps s₁ t₀ → t₀.step b = some t₁ →
    BecameLeader s₀ s₁ i term → BecameLeader t₀ t₁ j term → i = j

/-- Replica 0 starts a candidacy in term 1 whose `broadcastRequestVote` has not run
yet. Replica 2 stands in terms 1 and 2, and replica 0 grants it its term-2 vote. -/
def twoCandidacies : List (Action Nat Unit) :=
  [.runSwitch 0,.runTimeout 0,.runPersist 0,.runPersist 0,.runPersist 0,.runPersist 0,.runSwitch 0,.runCandidate 0,
   .runSwitch 2,.runTimeout 2,.runPersist 2,.runPersist 2,.runPersist 2,.runPersist 2,.runSwitch 2,.runCandidate 2,
   .runTimeout 2,.runSwitch 2,.runCandidate 2,
   .broadcastRequestVote 2 1,.broadcastRequestVote 2 1,.broadcastRequestVote 2 1,
   .broadcastRequestVote 2 1,.broadcastRequestVote 2 1,.deliver 0]

/-- Replica 0 times out as a follower of term 2 and becomes a candidate without a
new term; its term-1 goroutine now asks replica 1 for a term-2 vote, which is granted. -/
def staleCandidacy : List (Action Nat Unit) :=
  [.fail 0,.runTimeout 0,.runSwitch 0,.runTimeout 0,.runPersist 0,.runPersist 0,.runPersist 0,.runPersist 0,.runSwitch 0,
   .broadcastRequestVote 0 0,.broadcastRequestVote 0 0,.broadcastRequestVote 0 0,.deliver 0]

theorem stale_vote_count_elects_two_leaders : ¬ ElectionSafety Nat Unit 3 := by
  intro safe
  have same := safe _ _ _ _ (.complete 0) (.complete 0) 2 0 2
    (Reachable.replay twoCandidacies (by decide))
    (Cluster.replay_step _ _ (by decide) (by decide))
    (Steps.replay (twoCandidacies ++ [.complete 0]) staleCandidacy (by decide) (by decide))
    (Cluster.replay_step _ _ (by decide) (by decide)) (by decide) (by decide)
  exact absurd same (by decide)

/-! ### Log matching -/

/-- Two logs that hold entries of one term at an index above both bases agree on
every index from there down to the higher base. -/
def LogMatching (s : Cluster C K) : Prop :=
  ∀ p q : Nat, ∀ a : Node C K, a ∈ s.nodes[p]? → ∀ b : Node C K, b ∈ s.nodes[q]? →
    ∀ i (ea eb : LogEntry C), max ((baseIndex a.raft.log).getD 0) ((baseIndex b.raft.log).getD 0) < i →
      a.raft.logAt i = some ea → b.raft.logAt i = some eb → ea.term = eb.term →
      ∀ j, max ((baseIndex a.raft.log).getD 0) ((baseIndex b.raft.log).getD 0) < j → j ≤ i →
        a.raft.logAt j = b.raft.logAt j

/-- Both leaders of term 2 accept a command at index 1. -/
def twoLeadersAppend : List (Action Nat Unit) := [.complete 0,.start 0 1,.start 2 2]

theorem two_leaders_break_log_matching :
    ∃ s : Cluster Nat Unit, Reachable 3 s ∧ ¬ LogMatching s := by
  refine ⟨_,Reachable.replay (twoCandidacies ++ [.complete 0] ++ staleCandidacy ++ twoLeadersAppend)
    (by decide),fun matching => ?_⟩
  have same := matching 0 2 _ (Option.get_mem (by decide)) _ (Option.get_mem (by decide)) 1 ⟨1,2,some 1⟩
    ⟨1,2,some 2⟩ (by decide) (by decide) (by decide) rfl 1 (by decide) le_rfl
  revert same
  decide

end Sentinel
