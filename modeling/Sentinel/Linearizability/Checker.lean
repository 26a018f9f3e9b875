import Sentinel.Linearizability.Events

/-! The entry points `CheckOperationsTimeout` and `CheckEventsTimeout` with no timeout. Each
splits the history with the model's partition function, starts a worker per part that sends
`checkSingle`'s verdict, and collects the verdicts in its `select` loop: it stops at the
first `false`, and after as many verdicts as there are parts. The workers finish in any
order, so an entry point is a relation between a history and the results it can return,
`none` where the loop waits forever.

With at least one part and every worker sending, the loop returns the conjunction of the
verdicts in every order. The event entry point agrees with the operation entry point on the
events of a history: `renumber` renames the operations' ids injectively onto the positions
`makeEntries` gives them, and `checkSingle` does not see the renaming. -/

namespace Sentinel.Linearizability

variable {V S : Type}

/-- `NoPartition`: the whole history is one part. -/
def noPartition (history : List (Operation V)) : List (List (Operation V)) := [history]

/-- `NoPartitionEvent`. -/
def noPartitionEvent (history : List (Event V)) : List (List (Event V)) := [history]

/-- The `select` loop of the entry points with no timeout, over the verdicts in the order
they arrive, `count` of `total` received: `ok` once it breaks, `none` while it waits. -/
def collect (total : Nat) : Nat → List Bool → Option Bool
  | _, [] => none
  | count, result :: results =>
    if !result then some false
    else if total ≤ count + 1 then some true
    else collect total (count + 1) results

/-- The verdict each worker of `CheckOperationsTimeout` sends, one per part: `checkSingle`
on the part's list, with `kill` unset until the loop has its answer; `none` for a worker
that never sends. -/
def operationVerdicts (model : Model V S) (partitions : List (List (Operation V))) : List (Option Bool) :=
  partitions.map fun subhistory => checkSingle model (makeLinkedEntries (makeEntries subhistory)) fun _ => 0

/-- The verdict each worker of `CheckEventsTimeout` sends. -/
def eventVerdicts (model : Model V S) (partitions : List (List (Event V))) : List (Option Bool) :=
  partitions.map fun subhistory =>
    checkSingle model (makeLinkedEntries (convertEntries (renumber subhistory))) fun _ => 0

/-- `CheckOperationsTimeout(model, history, 0)`, `partition` being the model's `Partition`
once `fillDefault` has run, can return `result` (`none`: it does not return): the verdicts
the workers send arrive in some order. -/
def CheckOperationsTimeout (model : Model V S) (partition : List (Operation V) → List (List (Operation V)))
    (history : List (Operation V)) (result : Option Bool) : Prop :=
  ∃ arrivals, arrivals.Perm (operationVerdicts model (partition history)).reduceOption ∧
    collect (partition history).length 0 arrivals = result

/-- `CheckEventsTimeout(model, history, 0)` can return `result`. -/
def CheckEventsTimeout (model : Model V S) (partitionEvent : List (Event V) → List (List (Event V)))
    (history : List (Event V)) (result : Option Bool) : Prop :=
  ∃ arrivals, arrivals.Perm (eventVerdicts model (partitionEvent history)).reduceOption ∧
    collect (partitionEvent history).length 0 arrivals = result

/-! ### The loop over the verdicts -/

private theorem collect_all {total : Nat} {arrivals : List Bool} (nonempty : arrivals ≠ []) {count : Nat}
    (all : count + arrivals.length = total) : collect total count arrivals = some (arrivals.all id) := by
  induction arrivals generalizing count with
  | nil => exact absurd rfl nonempty
  | cons result results ih =>
    cases result with
    | false => simp [collect]
    | true =>
      simp only [List.length_cons] at all
      by_cases last : total ≤ count + 1
      · obtain rfl : results = [] := List.eq_nil_of_length_eq_zero (by omega)
        simp [collect,last]
      · have rest : results ≠ [] := fun empty => by simp [empty] at all; omega
        simp [collect,last,ih rest (by omega : count + 1 + results.length = total)]

private theorem collect_iff {verdicts : List Bool} (nonempty : verdicts ≠ []) (result : Option Bool) :
    (∃ arrivals, arrivals.Perm verdicts ∧ collect verdicts.length 0 arrivals = result) ↔
      result = some (verdicts.all id) := by
  have same : ∀ arrivals : List Bool, arrivals.Perm verdicts →
      collect verdicts.length 0 arrivals = some (verdicts.all id) := fun arrivals perm => by
    rw [collect_all (fun empty => nonempty (List.Perm.nil_eq (empty ▸ perm)).symm)
      (by rw [perm.length_eq]; omega)]
    refine congrArg some (Bool.eq_iff_iff.2 ?_)
    simp only [List.all_eq_true]
    exact ⟨fun all x mem => all x (perm.mem_iff.2 mem),fun all x mem => all x (perm.mem_iff.1 mem)⟩
  exact ⟨fun ⟨arrivals,perm,ran⟩ => ran ▸ same arrivals perm,fun chosen => ⟨verdicts,List.Perm.refl _,
    chosen ▸ same verdicts (List.Perm.refl _)⟩⟩

private theorem reduceOption_map_some (verdicts : List Bool) : (verdicts.map some).reduceOption = verdicts := by
  simp [List.reduceOption,List.filterMap_map,Function.comp_def]

theorem checkOperations_all {model : Model V S} {partition : List (Operation V) → List (List (Operation V))}
    {history : List (Operation V)} (parts : partition history ≠ []) {verdicts : List Bool}
    (sent : operationVerdicts model (partition history) = verdicts.map some) (result : Option Bool) :
    CheckOperationsTimeout model partition history result ↔ result = some (verdicts.all id) := by
  have length : (partition history).length = verdicts.length := by
    simpa [operationVerdicts] using congrArg List.length sent
  unfold CheckOperationsTimeout
  rw [sent,reduceOption_map_some,length]
  exact collect_iff (fun empty => parts (List.eq_nil_of_length_eq_zero (by simp [length,empty]))) result

private theorem checkOperations_single {model : Model V S} {history : List (Operation V)} {verdict : Bool}
    (sent : checkSingle model (makeLinkedEntries (makeEntries history)) (fun _ => 0) = some verdict)
    (result : Option Bool) : CheckOperationsTimeout model noPartition history result ↔ result = some verdict := by
  simpa using checkOperations_all (show noPartition history ≠ [] from List.cons_ne_nil _ _)
    (show operationVerdicts model (noPartition history) = [verdict].map some by simp [operationVerdicts,noPartition,sent])
    result

/-! ### Times shared by a return and a call -/

/-- Whether each operation returned before each one was called: the real-time precedence
the checker must keep. -/
def precedence (history : List (Operation V)) : List (List Bool) :=
  history.map fun a => history.map fun b => decide (a.ret < b.call)

/-- A swap of `1` that returns `2` and a swap of `2` that returns `0`, the first returning at
the time the second is called: only the second followed by the first is accepted. -/
def tiedSwaps : List (Operation Nat) := [⟨1,0,2,5⟩,⟨2,5,0,10⟩]

/-- The same swaps, the first returning at time 6. -/
def untiedSwaps : List (Operation Nat) := [⟨1,0,2,6⟩,⟨2,5,0,10⟩]

/-- The two histories have the same operations and the same precedence, but the sort by time
keeps the tied return before the call, so the checker rejects the first and accepts the
second. -/
theorem tied_times_change_verdict :
    tiedSwaps.map (fun op => (op.input,op.output)) = untiedSwaps.map (fun op => (op.input,op.output)) ∧
      (∀ op ∈ tiedSwaps, op.call ≤ op.ret) ∧ (∀ op ∈ untiedSwaps, op.call ≤ op.ret) ∧
      precedence tiedSwaps = precedence untiedSwaps ∧
      (∀ result, CheckOperationsTimeout swapRegister noPartition tiedSwaps result ↔ result = some false) ∧
      ∀ result, CheckOperationsTimeout swapRegister noPartition untiedSwaps result ↔ result = some true :=
  ⟨by decide,by decide,by decide,by decide,checkOperations_single (by decide),checkOperations_single (by decide)⟩

/-! ### The events of a history -/

/-- `ev(history)`: the call and return events of `history` sorted by their times, the two
events of operation `i` with the id `ids i`. -/
def ev (history : List (Operation V)) (ids : Nat → Nat) : List (Event V) :=
  ((history.enum.flatMap fun p =>
      [(p.2.call,(⟨false,p.2.input,ids p.1⟩ : Event V)),(p.2.ret,⟨true,p.2.output,ids p.1⟩)]).insertionSort
    fun a b => a.1 ≤ b.1).map Prod.snd

private theorem ev_eq (history : List (Operation V)) (ids : Nat → Nat) :
    ev history ids = (makeEntries history).map fun e => ⟨e.kind,e.value,ids e.id⟩ := by
  have timed : ∀ i (history : List (Operation V)), ((history.enumFrom i).flatMap fun p =>
      [(p.2.call,(⟨false,p.2.input,ids p.1⟩ : Event V)),(p.2.ret,⟨true,p.2.output,ids p.1⟩)]) =
      (makeEntries.loop i history).map fun e => (e.time,⟨e.kind,e.value,ids e.id⟩) := by
    intro i history
    induction history generalizing i with
    | nil => rfl
    | cons op history ih => simp [List.enumFrom_cons,makeEntries.loop,ih]
  have sorted := List.map_insertionSort (fun a b : Entry V => a.time ≤ b.time) (fun a b : Int × Event V => a.1 ≤ b.1)
    (fun e => (e.time,(⟨e.kind,e.value,ids e.id⟩ : Event V))) (makeEntries.loop 0 history) fun _ _ _ _ => Iff.rfl
  rw [ev,List.enum,timed,← sorted,List.map_map]
  rfl

private theorem firstIds_ev {history : List (Operation V)} (distinct : (history.flatMap fun op => [op.call,op.ret]).Nodup)
    {ids : Nat → Nat} (injective : ∀ i < history.length, ∀ j < history.length, ids i = ids j → i = j) :
    (firstIds [] (ev history ids)).Perm ((List.range history.length).map ids) := by
  have sorted := makeEntries_sorted distinct
  refine (List.perm_ext_iff_of_nodup (firstIds_nodup List.nodup_nil _)
    ((List.nodup_range _).map_on fun i mem j mem' => injective i (List.mem_range.1 mem) j (List.mem_range.1 mem'))).2
    fun x => ?_
  simp only [mem_firstIds,ev_eq,List.not_mem_nil,false_or,List.mem_map,List.mem_range]
  constructor
  · rintro ⟨_,⟨e,mem,rfl⟩,rfl⟩
    obtain ⟨op,found,-⟩ := sorted.mem e mem
    exact ⟨e.id,(List.getElem?_eq_some_iff.1 found).1,rfl⟩
  · rintro ⟨i,bound,rfl⟩
    exact ⟨_,⟨_,sorted.complete i _ false (List.getElem?_eq_getElem bound),rfl⟩,rfl⟩

/-- `g` below `n` and the identity from `n` on: an embedding when `g` is injective below `n`
and stays below `n`. -/
def belowEmbedding (n : Nat) (g : Nat → Nat) (injective : ∀ i < n, ∀ j < n, g i = g j → i = j)
    (below : ∀ i < n, g i < n) : Nat ↪ Nat :=
  ⟨fun i => if i < n then g i else i,fun i j same => by
    by_cases hi : i < n <;> by_cases hj : j < n <;> simp only [hi,hj,if_true,if_false] at same
    · exact injective i hi j hj same
    · exact absurd (same ▸ below i hi) hj
    · exact absurd (same ▸ below j hj) hi
    · exact same⟩

/-- The event entry point agrees with the operation entry point on the events of a history
with distinct times, each operation called before it returns, whatever ids name the
operations, as long as distinct operations have distinct ids. -/
theorem checkEvents_iff_checkOperations (model : Model V S) (history : List (Operation V))
    (distinct : (history.flatMap fun op => [op.call,op.ret]).Nodup) (ordered : ∀ op ∈ history, op.call < op.ret)
    (ids : Nat → Nat) (injective : ∀ i < history.length, ∀ j < history.length, ids i = ids j → i = j)
    (result : Option Bool) :
    CheckEventsTimeout model noPartitionEvent (ev history ids) result ↔
      CheckOperationsTimeout model noPartition history result := by
  have sorted := makeEntries_sorted distinct
  set first := firstIds [] (ev history ids) with firstDef
  have perm : first.Perm ((List.range history.length).map ids) := firstIds_ev distinct injective
  have mem : ∀ i < history.length, ids i ∈ first := fun i bound =>
    perm.mem_iff.2 (List.mem_map_of_mem _ (List.mem_range.2 bound))
  have below : ∀ i < history.length, first.indexOf (ids i) < history.length := fun i bound => by
    simpa [perm.length_eq] using List.indexOf_lt_length.2 (mem i bound)
  let rename := belowEmbedding history.length (fun i => first.indexOf (ids i))
    (fun i hi j hj same => injective i hi j hj ((List.indexOf_inj (mem i hi) (mem j hj)).1 same)) below
  have renamed : Renamed rename (convertEntries (renumber (ev history ids))) (makeEntries history) := by
    rw [renumber_eq,← firstDef,ev_eq,convertEntries,List.map_map,List.map_map,Renamed,List.forall₂_map_left_iff,
      List.forall₂_same]
    intro e entry
    obtain ⟨op,found,-⟩ := sorted.mem e entry
    simp [rename,belowEmbedding,(List.getElem?_eq_some_iff.1 found).1]
  have nodes : (makeLinkedEntries (makeEntries history)).nodes.length / 2 = history.length := by
    rw [(makeLinkedEntries_links _).2.2.2,sorted.length]; omega
  have same := checkSingle_rename model rename renamed ((sorted.table ordered).wellFormed) fun x bound => by
    rw [nodes] at bound ⊢
    simpa [rename,belowEmbedding,bound] using below x bound
  simp only [CheckEventsTimeout,CheckOperationsTimeout,eventVerdicts,operationVerdicts,noPartition,
    noPartitionEvent,List.map_cons,List.map_nil,List.length_singleton,same]

/-- Two overlapping swaps named `5` and `4`. -/
theorem swaps_checkEvents_iff_checkOperations :
    (([⟨1,0,2,3⟩,⟨2,1,0,4⟩] : List (Operation Nat)).flatMap fun op => [op.call,op.ret]).Nodup ∧
      (∀ op ∈ ([⟨1,0,2,3⟩,⟨2,1,0,4⟩] : List (Operation Nat)), op.call < op.ret) ∧
      (∀ i < 2, ∀ j < 2, 5 - i = 5 - j → i = j) ∧
      (CheckEventsTimeout swapRegister noPartitionEvent (ev [⟨1,0,2,3⟩,⟨2,1,0,4⟩] fun i => 5 - i) (some true) ↔
        CheckOperationsTimeout swapRegister noPartition [⟨1,0,2,3⟩,⟨2,1,0,4⟩] (some true)) :=
  ⟨by decide,by decide,by decide,checkEvents_iff_checkOperations swapRegister _ (by decide) (by decide) _
    (by decide) _⟩

end Sentinel.Linearizability
