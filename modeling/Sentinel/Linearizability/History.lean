import Sentinel.Linearizability.Check

/-! From a history to the search. `makeEntries` lists the call and return entries of the
operations sorted by time, and `makeLinkedEntries` puts entry `k` in node `k + 1`, the
match of a call node being the first later return node of its id. When the `2 * n`
times of a history are distinct and every operation is called before it returns, the
nodes form a `Table` of the history: one call node and one later return node per
operation, every node one of them, and a return node before a call node exactly when the
return is before the call. A table is `WellFormed`, and from the start the search over
sets completes exactly when the history is `Linearizable`, so `checkSingle` decides
linearizability. -/

namespace Sentinel.Linearizability

variable {V S : Type}

/-! ### The entries of a history -/

/-- The call entry (`kind = false`) or the return entry of `op`, which has id `id`. -/
def entryOf (op : Operation V) (id : Nat) (kind : Bool) : Entry V :=
  ⟨kind,if kind then op.output else op.input,id,if kind then op.ret else op.call⟩

/-- `entries` holds the call and the return entry of each operation of `history` and
nothing else, by strictly increasing time. -/
structure SortedEntries (history : List (Operation V)) (entries : List (Entry V)) : Prop where
  strict : entries.Pairwise fun a b => a.time < b.time
  mem : ∀ entry ∈ entries, ∃ op, history[entry.id]? = some op ∧ entry = entryOf op entry.id entry.kind
  complete : ∀ k op kind, history[k]? = some op → entryOf op k kind ∈ entries
  length : entries.length = 2 * history.length

namespace makeEntries

theorem loop_mem {entry : Entry V} {i : Nat} {history : List (Operation V)}
    (mem : entry ∈ loop i history) :
    i ≤ entry.id ∧ ∃ op, history[entry.id - i]? = some op ∧ entry = entryOf op entry.id entry.kind := by
  induction history generalizing i with
  | nil => simp [loop] at mem
  | cons op history ih =>
    simp only [loop,List.mem_cons] at mem
    rcases mem with rfl | rfl | mem
    · exact ⟨le_rfl,op,by simp,rfl⟩
    · exact ⟨le_rfl,op,by simp,rfl⟩
    · obtain ⟨le,op',found,same⟩ := ih mem
      refine ⟨by omega,op',?_,same⟩
      rw [show entry.id - i = entry.id - (i + 1) + 1 by omega]
      simpa using found

theorem mem_loop (i : Nat) {k : Nat} {history : List (Operation V)} {op : Operation V}
    (found : history[k]? = some op) (kind : Bool) : entryOf op (i + k) kind ∈ loop i history := by
  induction history generalizing i k with
  | nil => simp at found
  | cons op' history ih =>
    cases k with
    | zero =>
      obtain rfl : op' = op := by simpa using found
      cases kind <;> simp [loop,entryOf]
    | succ k =>
      rw [show i + (k + 1) = i + 1 + k by omega]
      exact List.mem_cons_of_mem _ (List.mem_cons_of_mem _ (ih (i + 1) (by simpa using found)))

theorem length_loop (i : Nat) (history : List (Operation V)) : (loop i history).length = 2 * history.length := by
  induction history generalizing i with
  | nil => rfl
  | cons op history ih => simp [loop,ih]; omega

theorem times_loop (i : Nat) (history : List (Operation V)) :
    (loop i history).map Entry.time = history.flatMap fun op => [op.call,op.ret] := by
  induction history generalizing i with
  | nil => rfl
  | cons op history ih => simp [loop,ih]

end makeEntries

theorem makeEntries_sorted {history : List (Operation V)}
    (distinct : (history.flatMap fun op => [op.call,op.ret]).Nodup) :
    SortedEntries history (makeEntries history) := by
  have perm : (makeEntries history).Perm (makeEntries.loop 0 history) := List.perm_insertionSort _ _
  have total : IsTotal (Entry V) fun a b => a.time ≤ b.time := ⟨fun a b => le_total a.time b.time⟩
  have trans : IsTrans (Entry V) fun a b => a.time ≤ b.time := ⟨fun _ _ _ => le_trans⟩
  have sorted : (makeEntries history).Sorted fun a b => a.time ≤ b.time := List.sorted_insertionSort _ _
  have unequal : (makeEntries history).Pairwise fun a b => a.time ≠ b.time := by
    rw [← List.pairwise_map]
    exact (perm.map Entry.time).nodup_iff.2 (makeEntries.times_loop 0 history ▸ distinct)
  refine ⟨sorted.imp₂ (fun _ _ => lt_of_le_of_ne) unequal,fun entry mem => ?_,fun k op kind found => ?_,?_⟩
  · obtain ⟨-,op,found,same⟩ := makeEntries.loop_mem (perm.subset mem)
    exact ⟨op,by simpa using found,same⟩
  · exact perm.symm.subset (by simpa using makeEntries.mem_loop 0 found kind)
  · rw [perm.length_eq,makeEntries.length_loop]

/-! ### The nodes of a history -/

/-- The nodes of a history's list: each operation has a call node whose match is a later
return node, every node is the call or the return node of the operation of its id, a
node is fixed by its id and its kind, and a return node stands before a call node
exactly when the return is before the call. -/
structure Table (nodes : List (Node V)) (history : List (Operation V)) : Prop where
  length : nodes.length = 2 * history.length
  call : ∀ k op, history[k]? = some op → ∃ x matching, nodeAt nodes x = some ⟨op.input,some matching,k⟩ ∧
    x < matching ∧ nodeAt nodes matching = some ⟨op.output,none,k⟩
  node : ∀ x node, nodeAt nodes x = some node → ∃ op, history[node.id]? = some op ∧
    (node.«match» = none ∧ node.value = op.output ∨ ∃ matching, node.«match» = some matching ∧
      node.value = op.input ∧ x < matching ∧ nodeAt nodes matching = some ⟨op.output,none,node.id⟩)
  unique : ∀ x y (nx ny : Node V), nodeAt nodes x = some nx → nodeAt nodes y = some ny → nx.id = ny.id →
    nx.«match».isSome = ny.«match».isSome → x = y
  order : ∀ x y (call ret : Node V) opCall opRet, nodeAt nodes x = some call → call.«match».isSome →
    nodeAt nodes y = some ret → ret.«match» = none → history[call.id]? = some opCall →
    history[ret.id]? = some opRet → (y < x ↔ opRet.ret < opCall.call)

namespace SortedEntries

variable {history : List (Operation V)} {entries : List (Entry V)} {p q k : Nat} {op : Operation V}

theorem lt_iff (sorted : SortedEntries history entries) {a b : Entry V}
    (atP : entries[p]? = some a) (atQ : entries[q]? = some b) : p < q ↔ a.time < b.time := by
  obtain ⟨hp,rfl⟩ := List.getElem?_eq_some_iff.1 atP
  obtain ⟨hq,rfl⟩ := List.getElem?_eq_some_iff.1 atQ
  have pair := List.pairwise_iff_getElem.1 sorted.strict
  refine ⟨pair p q hp hq,fun lt => ?_⟩
  rcases lt_trichotomy p q with less | rfl | more
  · exact less
  · exact absurd lt (lt_irrefl _)
  · exact absurd (pair q p hq hp more) (lt_asymm lt)

theorem eq_of_getElem? (sorted : SortedEntries history entries) {a : Entry V}
    (atP : entries[p]? = some a) (atQ : entries[q]? = some a) : p = q := by
  have := sorted.lt_iff atP atQ
  have := sorted.lt_iff atQ atP
  simp only [lt_irrefl,iff_false] at *
  omega

private theorem nodeAt_return (atP : entries[p]? = some (entryOf op k true)) :
    nodeAt (makeLinkedEntries entries).nodes (p + 1) = some ⟨op.output,none,k⟩ := by
  simp [nodeAt,makeLinkedEntries_nodes,atP,entryOf]

theorem nodeAt_call (sorted : SortedEntries history entries) (ordered : ∀ op ∈ history, op.call < op.ret)
    (found : history[k]? = some op) (atP : entries[p]? = some (entryOf op k false)) :
    ∃ matching, p + 1 < matching ∧
      nodeAt (makeLinkedEntries entries).nodes (p + 1) = some ⟨op.input,some matching,k⟩ ∧
      nodeAt (makeLinkedEntries entries).nodes matching = some ⟨op.output,none,k⟩ := by
  obtain ⟨q,atQ⟩ := List.mem_iff_getElem?.1 (sorted.complete k op true found)
  have later : p < q := (sorted.lt_iff atP atQ).2 (by simpa [entryOf] using ordered op (List.getElem?_mem found))
  have inDrop : (entries.drop (p + 1))[q - (p + 1)]? = some (entryOf op k true) := by
    rw [List.getElem?_drop,show p + 1 + (q - (p + 1)) = q by omega,atQ]
  have any : ((entries.drop (p + 1)).findIdx? (isReturnOf k)).isSome := by
    rw [List.findIdx?_isSome,List.any_eq_true]
    exact ⟨_,List.getElem?_mem inDrop,by simp [isReturnOf,entryOf]⟩
  obtain ⟨i,first⟩ := Option.isSome_iff_exists.1 any
  obtain ⟨bound,isReturn,-⟩ := List.findIdx?_eq_some_iff_getElem.1 first
  have atR : entries[p + 1 + i]? = some (entries.drop (p + 1))[i] := by
    rw [← List.getElem?_drop,List.getElem?_eq_getElem bound]
  obtain ⟨op',found',same⟩ := sorted.mem _ (List.getElem?_mem atR)
  simp only [isReturnOf,Bool.and_eq_true,beq_iff_eq] at isReturn
  rw [isReturn.1,isReturn.2] at same
  rw [isReturn.2,found] at found'
  cases found'
  rw [same] at atR
  refine ⟨p + 1 + i + 1,by omega,?_,nodeAt_return atR⟩
  simp [nodeAt,makeLinkedEntries_nodes,atP,entryOf,show p + 2 = p + 1 + 1 from rfl,List.findIdx?_start_succ,first]
  omega

theorem entry_of_nodeAt (sorted : SortedEntries history entries) {x : Nat} {node : Node V}
    (found : nodeAt (makeLinkedEntries entries).nodes x = some node) :
    ∃ p op kind, x = p + 1 ∧ entries[p]? = some (entryOf op node.id kind) ∧ history[node.id]? = some op := by
  cases x with
  | zero => simp [nodeAt] at found
  | succ p =>
    simp only [nodeAt,makeLinkedEntries_nodes,Option.map_eq_some'] at found
    obtain ⟨e,atP,rfl⟩ := found
    obtain ⟨op,opFound,same⟩ := sorted.mem e (List.getElem?_mem atP)
    exact ⟨p,op,e.kind,rfl,same ▸ atP,opFound⟩

theorem match_isSome (sorted : SortedEntries history entries) (ordered : ∀ op ∈ history, op.call < op.ret)
    {node : Node V} {kind : Bool} (found : nodeAt (makeLinkedEntries entries).nodes (p + 1) = some node)
    (atP : entries[p]? = some (entryOf op k kind)) (opFound : history[k]? = some op) :
    node.«match».isSome = !kind := by
  cases kind
  · obtain ⟨_,-,callAt,-⟩ := sorted.nodeAt_call ordered opFound atP
    rw [callAt] at found; cases found; rfl
  · rw [nodeAt_return atP] at found; cases found; rfl

theorem table (sorted : SortedEntries history entries) (ordered : ∀ op ∈ history, op.call < op.ret) :
    Table (makeLinkedEntries entries).nodes history where
  length := by rw [(makeLinkedEntries_links entries).2.2.2,sorted.length]
  call k op found := by
    obtain ⟨p,atP⟩ := List.mem_iff_getElem?.1 (sorted.complete k op false found)
    obtain ⟨matching,lt,callAt,retAt⟩ := sorted.nodeAt_call ordered found atP
    exact ⟨p + 1,matching,callAt,lt,retAt⟩
  node x node found := by
    obtain ⟨p,op,kind,rfl,atP,opFound⟩ := sorted.entry_of_nodeAt found
    refine ⟨op,opFound,?_⟩
    cases kind
    · obtain ⟨matching,lt,callAt,retAt⟩ := sorted.nodeAt_call ordered opFound atP
      have same := Option.some.inj (found.symm.trans callAt)
      exact Or.inr ⟨matching,congrArg Node.«match» same,congrArg Node.value same,lt,retAt⟩
    · have same := Option.some.inj (found.symm.trans (nodeAt_return atP))
      exact Or.inl ⟨congrArg Node.«match» same,congrArg Node.value same⟩
  unique x y nx ny xFound yFound sameId sameKind := by
    obtain ⟨p,opx,kx,rfl,atP,opxFound⟩ := sorted.entry_of_nodeAt xFound
    obtain ⟨q,opy,ky,rfl,atQ,opyFound⟩ := sorted.entry_of_nodeAt yFound
    have kinds := (sorted.match_isSome ordered xFound atP opxFound).symm.trans
      (sameKind.trans (sorted.match_isSome ordered yFound atQ opyFound))
    rw [sameId,opyFound] at opxFound
    cases opxFound
    rw [sameId,Bool.not_inj kinds] at atP
    rw [sorted.eq_of_getElem? atP atQ]
  order x y call ret opCall opRet callFound isCall retFound isReturn opCallFound opRetFound := by
    obtain ⟨p,opx,kx,rfl,atP,opxFound⟩ := sorted.entry_of_nodeAt callFound
    obtain ⟨q,opy,ky,rfl,atQ,opyFound⟩ := sorted.entry_of_nodeAt retFound
    rw [opCallFound] at opxFound
    rw [opRetFound] at opyFound
    cases opxFound; cases opyFound
    have kx' := sorted.match_isSome ordered callFound atP opCallFound
    have ky' := sorted.match_isSome ordered retFound atQ opRetFound
    rw [isCall] at kx'; rw [isReturn] at ky'
    obtain rfl : kx = false := by simpa using kx'
    obtain rfl : ky = true := by simpa using ky'
    rw [Nat.add_lt_add_iff_right,sorted.lt_iff atQ atP]
    simp [entryOf]

end SortedEntries

namespace Table

variable {nodes : List (Node V)} {history : List (Operation V)}

theorem wellFormed (table : Table nodes history) : WellFormed nodes where
  later x node matching found isMatch := by
    obtain ⟨op,-,⟨none',-⟩ | ⟨m,some',-,lt,retFound⟩⟩ := table.node x node found
    · rw [isMatch] at none'; cases none'
    · rw [isMatch] at some'; cases some'
      exact ⟨lt,_,retFound,rfl⟩
  returns x node matching ret found isMatch retFound := by
    obtain ⟨op,-,⟨none',-⟩ | ⟨m,some',-,-,retFound'⟩⟩ := table.node x node found
    · rw [isMatch] at none'; cases none'
    · rw [isMatch] at some'; cases some'
      rw [retFound] at retFound'; cases retFound'; rfl
  unique := table.unique
  bounded x node found := by
    obtain ⟨op,opFound,-⟩ := table.node x node found
    have := (List.getElem?_eq_some_iff.1 opFound).1
    rw [table.length]; omega

end Table

/-! ### Linearizations -/

/-- The operations of `history` whose ids are not in `linearized`, in history order. -/
def pending (history : List (Operation V)) (linearized : Finset Nat) : List (Operation V) :=
  (history.enum.filter fun p => p.1 ∉ linearized).map Prod.snd

private theorem pending_empty (history : List (Operation V)) : pending history ∅ = history := by
  simp [pending,List.enum_map_snd]

private theorem mem_pending {history : List (Operation V)} {linearized : Finset Nat} {op : Operation V} :
    op ∈ pending history linearized ↔ ∃ k ∉ linearized, history[k]? = some op := by
  simp [pending,List.mem_enum_iff_getElem?,and_comm]

private theorem pending_enumFrom_perm {linearized : Finset Nat} {k : Nat} (unlifted : k ∉ linearized)
    {op : Operation V} : ∀ (i : Nat) (history : List (Operation V)), i ≤ k → history[k - i]? = some op →
      (((history.enumFrom i).filter fun p => p.1 ∉ linearized).map Prod.snd).Perm
        (op :: ((history.enumFrom i).filter fun p => p.1 ∉ insert k linearized).map Prod.snd)
  | _, [], _, found => by simp at found
  | i, op' :: history, le, found => by
    rw [List.enumFrom_cons]
    rcases le.lt_or_eq with lt | rfl
    · have rest := pending_enumFrom_perm unlifted (i + 1) history lt
        (by rw [show k - i = k - (i + 1) + 1 by omega] at found; simpa using found)
      by_cases mem : i ∈ linearized
      · simpa [List.filter_cons,mem] using rest
      · simpa [List.filter_cons,mem,show i ≠ k by omega] using (rest.cons op').trans (List.Perm.swap _ _ _)
    · obtain rfl : op' = op := by simpa using found
      have later : ((history.enumFrom (i + 1)).filter fun p => p.1 ∉ insert i linearized) =
          (history.enumFrom (i + 1)).filter fun p => p.1 ∉ linearized :=
        List.filter_congr fun p mem => by
          have := List.le_fst_of_mem_enumFrom mem
          simp only [Finset.mem_insert,not_or]
          simp only [show p.1 ≠ i by omega,not_false_eq_true,true_and]
      rw [List.filter_cons_of_pos (by simpa using unlifted),List.filter_cons_of_neg (by simp),later]
      rfl

private theorem pending_perm {history : List (Operation V)} {linearized : Finset Nat} {k : Nat} {op : Operation V}
    (unlifted : k ∉ linearized) (found : history[k]? = some op) :
    (pending history linearized).Perm (op :: pending history (insert k linearized)) :=
  pending_enumFrom_perm unlifted 0 history (Nat.zero_le k) (by simpa using found)

section Linearizations

variable {model : Model V S} {nodes : List (Node V)} {history : List (Operation V)}

theorem Table.ended_iff (table : Table nodes history) {linearized : Finset Nat} :
    (∀ x, 0 < x → alive nodes linearized x = false) ↔ pending history linearized = [] := by
  rw [List.eq_nil_iff_forall_not_mem]
  constructor
  · intro ended op mem
    obtain ⟨k,unlifted,found⟩ := mem_pending.1 mem
    obtain ⟨x,_,callAt,-⟩ := table.call k op found
    have pos := (nodeAt_bound callAt).1
    exact Bool.eq_false_iff.1 (ended x pos) ((alive_iff pos).2 ⟨_,callAt,unlifted⟩)
  · intro none' x pos
    refine Bool.eq_false_iff.2 fun kept => ?_
    obtain ⟨node,found,unlifted⟩ := (alive_iff pos).1 kept
    obtain ⟨op,opFound,-⟩ := table.node x node found
    exact none' op (mem_pending.2 ⟨_,unlifted,opFound⟩)

theorem Table.linearizes (table : Table nodes history) {order : List Nat} :
    ∀ {linearized : Finset Nat} {state : S}, Completes model nodes linearized state order →
      ∃ ops : List (Operation V), ops.Perm (pending history linearized) ∧
        ops.Pairwise (fun a b => ¬ b.ret < a.call) ∧ model.accepts state ops = true := by
  induction order with
  | nil => exact fun ended => ⟨[],by rw [table.ended_iff.1 ended],List.Pairwise.nil,rfl⟩
  | cons x order ih =>
    intro linearized state completes
    obtain ⟨node,matching,ret,found,isMatch,retFound,unlifted,returns,accepted,rest⟩ := completes
    obtain ⟨ops,perm,pairwise,accepts⟩ := ih rest
    obtain ⟨op,opFound,⟨none',-⟩ | ⟨m,some',input,-,retFound'⟩⟩ := table.node x node found
    · rw [isMatch] at none'; cases none'
    rw [isMatch] at some'; cases some'
    rw [retFound] at retFound'; cases retFound'
    refine ⟨op :: ops,(perm.cons op).trans (pending_perm unlifted opFound).symm,
      List.pairwise_cons.2 ⟨fun o mem before => ?_,pairwise⟩,?_⟩
    · obtain ⟨j,notLifted,jFound⟩ := mem_pending.1 (perm.subset mem)
      obtain ⟨-,y,-,-,retAt⟩ := table.call j o jFound
      have earlier := (table.order x y node _ op o found (by simp [isMatch]) retAt rfl opFound jFound).2 before
      have pos := (nodeAt_bound retAt).1
      have kept : alive nodes linearized y = true :=
        (alive_iff pos).2 ⟨_,retAt,fun lifted => notLifted (Finset.mem_insert_of_mem lifted)⟩
      obtain ⟨_,yFound,isSome⟩ := isCall_iff.1 (returns y pos earlier kept)
      rw [retAt] at yFound; cases yFound; cases isSome
    · rw [input] at accepted accepts
      simp [Model.accepts,accepted,accepts]

theorem Table.completes (table : Table nodes history) {ops : List (Operation V)} :
    ∀ {linearized : Finset Nat} {state : S}, ops.Perm (pending history linearized) →
      ops.Pairwise (fun a b => ¬ b.ret < a.call) → model.accepts state ops = true →
      Good model nodes linearized state := by
  induction ops with
  | nil => exact fun perm _ _ => ⟨[],table.ended_iff.2 perm.nil_eq.symm⟩
  | cons op ops ih =>
    intro linearized state perm pairwise accepts
    obtain ⟨k,unlifted,opFound⟩ := mem_pending.1 (perm.subset (List.mem_cons_self _ _))
    obtain ⟨x,matching,callAt,lt,retAt⟩ := table.call k op opFound
    have rest := (perm.trans (pending_perm unlifted opFound)).cons_inv
    rw [List.pairwise_cons] at pairwise
    simp only [Model.accepts,Bool.and_eq_true] at accepts
    obtain ⟨order,completes⟩ := ih rest pairwise.2 accepts.2
    refine ⟨x :: order,_,matching,_,callAt,rfl,retAt,unlifted,fun y pos before kept => ?_,accepts.1,completes⟩
    obtain ⟨ny,yFound,yUnlifted⟩ := (alive_iff pos).1 kept
    obtain ⟨oj,ojFound,⟨none',-⟩ | ⟨m,some',-⟩⟩ := table.node y ny yFound
    · have earlier := (table.order x y _ ny op oj callAt rfl yFound none' opFound ojFound).1 before
      by_cases same : ny.id = k
      · have := table.unique y matching ny _ yFound retAt same (by simp [none'])
        omega
      · exact absurd earlier
          (pairwise.1 oj (rest.symm.subset (mem_pending.2 ⟨ny.id,by simp [same,yUnlifted],ojFound⟩)))
    · exact isCall_iff.2 ⟨ny,yFound,by simp [some']⟩

theorem Table.good_iff_linearizable (table : Table nodes history) :
    Good model nodes ∅ model.init ↔ Linearizable model history := by
  have all := pending_empty history
  constructor
  · rintro ⟨order,completes⟩
    obtain ⟨ops,perm,pairwise,accepts⟩ := table.linearizes completes
    exact ⟨ops,all ▸ perm,pairwise,accepts⟩
  · rintro ⟨ops,perm,pairwise,accepts⟩
    exact table.completes (all.symm ▸ perm) pairwise accepts

end Linearizations

theorem checkSingle_decides (model : Model V S) (equalSound : ∀ a b, model.equal a b = true → a = b)
    {history : List (Operation V)} (distinct : (history.flatMap fun op => [op.call,op.ret]).Nodup)
    (ordered : ∀ op ∈ history, op.call < op.ret) :
    ∃ result, checkSingle model (makeLinkedEntries (makeEntries history)) (fun _ => 0) = some result ∧
      (result = true ↔ Linearizable model history) := by
  have table := (makeEntries_sorted distinct).table ordered
  obtain ⟨result,ran,correct⟩ := SetSearch.run_start equalSound table.wellFormed.later
  have unkilled := (checkSingle_eq_run model table.wellFormed (fun _ => 0)).resolve_right
    fun ⟨⟨_,killed⟩,_⟩ => killed rfl
  exact ⟨result,unkilled.trans ran,correct.trans table.good_iff_linearizable⟩

/-- With `kill` never set, `checkSingle` on the list of a history whose times are
distinct, each operation called before it returns, with a model whose `equal` implies
equality, returns, and returns `true` exactly when the history is linearizable. -/
theorem checkSingle_iff_linearizable (model : Model V S) (equalSound : ∀ a b, model.equal a b = true → a = b)
    (history : List (Operation V)) (distinct : (history.flatMap fun op => [op.call,op.ret]).Nodup)
    (ordered : ∀ op ∈ history, op.call < op.ret) :
    ∃ result, checkSingle model (makeLinkedEntries (makeEntries history)) (fun _ => 0) = some result ∧
      (result = true ↔ Linearizable model history) :=
  checkSingle_decides model equalSound distinct ordered

/-- A register whose operations write their input and return the value they replace. -/
def swapRegister : Model Nat Nat := ⟨0,fun state input output => (output == state,input),fun a b => a == b⟩

private theorem swapRegister_equal_sound : ∀ a b, swapRegister.equal a b = true → a = b :=
  fun a b same => by simpa [swapRegister] using same

/-- Two overlapping swaps that read `0` and `1` linearize in call order; if the second
read `5`, no order is accepted. -/
example : checkSingle swapRegister (makeLinkedEntries (makeEntries [⟨1,0,0,2⟩,⟨2,1,1,3⟩])) (fun _ => 0) =
    some true := by decide

example : checkSingle swapRegister (makeLinkedEntries (makeEntries [⟨1,0,0,2⟩,⟨2,1,5,3⟩])) (fun _ => 0) =
    some false := by decide

theorem swapRegister_checkSingle :
    (∀ a b, swapRegister.equal a b = true → a = b) ∧
    (([⟨1,0,0,1⟩,⟨2,2,1,3⟩] : List (Operation Nat)).flatMap fun op => [op.call,op.ret]).Nodup ∧
    (∀ op ∈ ([⟨1,0,0,1⟩,⟨2,2,1,3⟩] : List (Operation Nat)), op.call < op.ret) ∧
    ∃ result, checkSingle swapRegister (makeLinkedEntries (makeEntries [⟨1,0,0,1⟩,⟨2,2,1,3⟩])) (fun _ => 0) =
      some result ∧ (result = true ↔ Linearizable swapRegister [⟨1,0,0,1⟩,⟨2,2,1,3⟩]) :=
  ⟨swapRegister_equal_sound,by decide,by decide,
    checkSingle_iff_linearizable swapRegister swapRegister_equal_sound _ (by decide) (by decide)⟩

/-- Whatever `kill` reads, a `true` from `checkSingle` is right: `kill` only ever makes it
return `false`. -/
theorem checkSingle_true_linearizable (model : Model V S) (equalSound : ∀ a b, model.equal a b = true → a = b)
    (history : List (Operation V)) (distinct : (history.flatMap fun op => [op.call,op.ret]).Nodup)
    (ordered : ∀ op ∈ history, op.call < op.ret) (kill : Nat → Int)
    (accepted : checkSingle model (makeLinkedEntries (makeEntries history)) kill = some true) :
    Linearizable model history := by
  have table := (makeEntries_sorted distinct).table ordered
  obtain ⟨result,ran,correct⟩ := SetSearch.run_start equalSound table.wellFormed.later
  rcases checkSingle_eq_run model table.wellFormed kill with same | ⟨-,killed⟩
  · rw [accepted,ran,Option.some.injEq] at same
    exact table.good_iff_linearizable.1 (correct.1 same.symm)
  · rw [accepted] at killed; cases killed

theorem swapRegister_true_linearizable :
    (∀ a b, swapRegister.equal a b = true → a = b) ∧
    (([⟨1,0,0,2⟩,⟨2,1,1,3⟩] : List (Operation Nat)).flatMap fun op => [op.call,op.ret]).Nodup ∧
    (∀ op ∈ ([⟨1,0,0,2⟩,⟨2,1,1,3⟩] : List (Operation Nat)), op.call < op.ret) ∧
    checkSingle swapRegister (makeLinkedEntries (makeEntries [⟨1,0,0,2⟩,⟨2,1,1,3⟩]))
      (fun t => if t < 20 then 0 else 1) = some true ∧
    Linearizable swapRegister [⟨1,0,0,2⟩,⟨2,1,1,3⟩] :=
  ⟨swapRegister_equal_sound,by decide,by decide,by decide,
    checkSingle_true_linearizable swapRegister swapRegister_equal_sound _ (by decide) (by decide)
      (fun t => if t < 20 then 0 else 1) (by decide)⟩

theorem Linearizable.perm {model : Model V S} {history history' : List (Operation V)}
    (perm : history.Perm history') : Linearizable model history ↔ Linearizable model history' :=
  ⟨fun ⟨order,mine,rest⟩ => ⟨order,mine.trans perm,rest⟩,fun ⟨order,mine,rest⟩ => ⟨order,mine.trans perm.symm,rest⟩⟩

/-- With distinct times, each operation called before it returns, `checkSingle` gives the same
verdict whatever order the history lists its operations in: the ids `makeEntries` hands out
follow that order, but the sort by time and the search do not depend on them. -/
theorem checkSingle_order_independent (model : Model V S) (equalSound : ∀ a b, model.equal a b = true → a = b)
    {history history' : List (Operation V)} (perm : history.Perm history')
    (distinct : (history.flatMap fun op => [op.call,op.ret]).Nodup) (ordered : ∀ op ∈ history, op.call < op.ret) :
    checkSingle model (makeLinkedEntries (makeEntries history)) (fun _ => 0) =
      checkSingle model (makeLinkedEntries (makeEntries history')) (fun _ => 0) := by
  obtain ⟨result,ran,correct⟩ := checkSingle_decides model equalSound distinct ordered
  obtain ⟨result',ran',correct'⟩ := checkSingle_decides model equalSound
    ((perm.flatMap_right _).nodup_iff.1 distinct) fun op mem => ordered op (perm.mem_iff.2 mem)
  rw [ran,ran',Bool.eq_iff_iff.2 (correct.trans ((Linearizable.perm perm).trans correct'.symm))]

theorem swapRegister_order_independent :
    (∀ a b, swapRegister.equal a b = true → a = b) ∧
    ([⟨1,0,0,2⟩,⟨2,1,1,3⟩] : List (Operation Nat)).Perm [⟨2,1,1,3⟩,⟨1,0,0,2⟩] ∧
    (([⟨1,0,0,2⟩,⟨2,1,1,3⟩] : List (Operation Nat)).flatMap fun op => [op.call,op.ret]).Nodup ∧
    (∀ op ∈ ([⟨1,0,0,2⟩,⟨2,1,1,3⟩] : List (Operation Nat)), op.call < op.ret) ∧
    checkSingle swapRegister (makeLinkedEntries (makeEntries [⟨1,0,0,2⟩,⟨2,1,1,3⟩])) (fun _ => 0) =
      checkSingle swapRegister (makeLinkedEntries (makeEntries [⟨2,1,1,3⟩,⟨1,0,0,2⟩])) (fun _ => 0) :=
  ⟨swapRegister_equal_sound,List.Perm.swap _ _ _,by decide,by decide,
    checkSingle_order_independent swapRegister swapRegister_equal_sound (List.Perm.swap _ _ _) (by decide) (by decide)⟩

end Sentinel.Linearizability
