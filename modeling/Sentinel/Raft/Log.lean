import Mathlib.Data.List.Basic

/-! The replicated log of `raft.go`: entries, the accessors the handlers use and
`trimLog`. Every access that indexes `rf.log` returns `none` where the Go code
would panic with an index out of range. -/

namespace Sentinel

/-- `LogEntry`; the entry at position 0 is the snapshot sentinel, whose command is nil. -/
structure LogEntry (C : Type) where
  index : Nat
  term : Nat
  command : Option C
deriving DecidableEq, Repr

variable {C : Type}

/-- `rf.log[0].Index`. -/
def baseIndex (log : List (LogEntry C)) : Option Nat :=
  log.head?.map (·.index)

/-- `rf.getLastLogIndex()`. -/
def lastLogIndex (log : List (LogEntry C)) : Option Nat :=
  log.getLast?.map (·.index)

/-- `rf.getLastLogTerm()`. -/
def lastLogTerm (log : List (LogEntry C)) : Option Nat :=
  log.getLast?.map (·.term)

/-- `rf.log[i-baseIndex]`: a negative or too large position panics. -/
def entryAt (log : List (LogEntry C)) (base i : Nat) : Option (LogEntry C) :=
  if base ≤ i then log[i - base]? else none

/-- `rf.log[:k]`: slicing past the end panics. -/
def sliceTo (log : List (LogEntry C)) (k : Nat) : Option (List (LogEntry C)) :=
  if k ≤ log.length then some (log.take k) else none

/-- The loop of `trimLog`: scanning from the end, the entries after the last one
that carries `(lastIncludedIndex, lastIncludedTerm)`, if there is one. -/
def suffixAfter (lastIncludedIndex lastIncludedTerm : Nat) :
    List (LogEntry C) → Option (List (LogEntry C))
  | [] => none
  | entry :: rest =>
    match suffixAfter lastIncludedIndex lastIncludedTerm rest with
    | some suffix => some suffix
    | none =>
      if entry.index = lastIncludedIndex ∧ entry.term = lastIncludedTerm then some rest
      else none

/-- `rf.trimLog`: a sentinel for the snapshot point, followed by whatever the log
held after an entry matching that point. -/
def trimLog (log : List (LogEntry C)) (lastIncludedIndex lastIncludedTerm : Nat) :
    List (LogEntry C) :=
  ⟨lastIncludedIndex,lastIncludedTerm,none⟩ ::
    (suffixAfter lastIncludedIndex lastIncludedTerm log).getD []

/-- `rf.isUpToDate`, on the voter's last log term and index. -/
def isUpToDate (term index candidateTerm candidateIndex : Nat) : Bool :=
  decide (candidateTerm > term) || (decide (candidateTerm = term) && decide (candidateIndex ≥ index))

@[simp] theorem baseIndex_cons (entry : LogEntry C) (rest : List (LogEntry C)) :
    baseIndex (entry :: rest) = some entry.index := rfl

@[simp] theorem baseIndex_nil : baseIndex ([] : List (LogEntry C)) = none := rfl

@[simp] theorem lastLogIndex_nil : lastLogIndex ([] : List (LogEntry C)) = none := rfl

@[simp] theorem lastLogIndex_append_singleton (log : List (LogEntry C)) (entry : LogEntry C) :
    lastLogIndex (log ++ [entry]) = some entry.index := by
  simp [lastLogIndex]

@[simp] theorem trimLog_baseIndex (log : List (LogEntry C)) (index term : Nat) :
    baseIndex (trimLog log index term) = some index := rfl

private theorem sliceTo_eq_some {log kept : List (LogEntry C)} {k : Nat}
    (sliced : sliceTo log k = some kept) : k ≤ log.length ∧ kept = log.take k := by
  unfold sliceTo at sliced
  split at sliced
  · exact ⟨‹_›,(Option.some.inj sliced).symm⟩
  · cases sliced

@[simp] theorem sliceTo_zero (log : List (LogEntry C)) : sliceTo log 0 = some [] := by
  simp [sliceTo]

theorem entryAt_mem {log : List (LogEntry C)} {base i : Nat} {entry : LogEntry C}
    (found : entryAt log base i = some entry) : entry ∈ log := by
  unfold entryAt at found
  split at found
  · exact List.getElem?_mem found
  · cases found

theorem sliceTo_subset {log kept : List (LogEntry C)} {k : Nat} (sliced : sliceTo log k = some kept) :
    kept ⊆ log := by
  rw [(sliceTo_eq_some sliced).2]
  exact List.take_subset k log

private theorem lastLogTerm_mem {log : List (LogEntry C)} {term : Nat} (found : lastLogTerm log = some term) :
    ∃ entry ∈ log, entry.term = term := by
  obtain ⟨entry,last,rfl⟩ := Option.map_eq_some'.1 found
  exact ⟨entry,List.mem_of_getLast?_eq_some last,rfl⟩

private theorem suffixAfter_subset (index term : Nat) (log : List (LogEntry C)) :
    ∀ suffix, suffixAfter index term log = some suffix → suffix ⊆ log := by
  induction log with
  | nil => intro _ found; cases found
  | cons entry rest ih =>
    intro suffix found
    simp only [suffixAfter] at found
    split at found
    · rename_i later
      cases found
      exact List.Subset.trans (ih _ later) (List.subset_cons_self _ _)
    · split_ifs at found
      cases found
      exact List.subset_cons_self _ _

theorem mem_trimLog {log : List (LogEntry C)} {index term : Nat} {entry : LogEntry C}
    (mem : entry ∈ trimLog log index term) : entry = ⟨index,term,none⟩ ∨ entry ∈ log := by
  rcases List.mem_cons.1 mem with rfl | rest
  · exact .inl rfl
  · cases found : suffixAfter index term log with
    | none => simp [found] at rest
    | some suffix => exact .inr (suffixAfter_subset index term log suffix found (by simpa [found] using rest))

end Sentinel
