import Sentinel.Linearizability.Checker
import Mathlib.Data.Finset.Max

/-! `KvModel` of `models.go`: the model of one key's value, and the partition of a history by
key. The sequential specification of the service is the map `kvMap` of all keys.

Locality makes the partition exact: a history is linearizable for the map exactly when the
operations of each key are linearizable for the one-string model. One way round, an order
of all operations keeps its order on each key. The other way, the keys' orders merge: take,
among the operations that come first in their key's order, one called first; nothing
returned before it was called, so it may go first. With every worker returning its part's
verdict, `CheckOperationsTimeout` on a non-empty history then returns whether the history
is linearizable. On the empty history `Partition` returns no part and the loop waits
forever. -/

namespace Sentinel.Linearizability

/-- `KvInput`: `Op` is `0` for get, `1` for put and `2` for append. -/
structure KvInput where
  op : Nat
  key : String
  value : String
deriving DecidableEq, Repr

structure KvOutput where
  value : String
deriving DecidableEq, Repr

/-- The values a history of `KvModel` holds in its `interface{}` fields. -/
inductive KvValue
  | input (input : KvInput)
  | output (output : KvOutput)
deriving DecidableEq, Repr

/-- `v.Input.(KvInput).Key`; the assertion panics on another input, which the histories of
`KvModel` do not hold. -/
def keyOf (op : Operation KvValue) : String :=
  match op.input with
  | .input input => input.key
  | .output _ => ""

/-- `KvModel().Step` on the value of one key. The assertions `input.(KvInput)` and
`output.(KvOutput)` panic on other values, which do not occur; the `switch` rejects any
other `Op`. -/
def kvStep (state : String) : KvValue → KvValue → Bool × String
  | .input inp, .output out =>
    if inp.op = 0 then (out.value == state,state)
    else if inp.op = 1 then (true,inp.value)
    else if inp.op = 2 then (true,state ++ inp.value)
    else (false,state)
  | _, _ => (false,state)

/-- `KvModel()` once `fillDefault` has run: `Init` is `""` and `Equal` is `ShallowEqual`. -/
def kvModel : Model KvValue String := ⟨"",kvStep,fun a b => a == b⟩

/-- `KvModel().Partition`: for each key, its operations in history order. Go ranges over a
map, so the parts come in any order; they come here in the order of `List.dedup`, and the
entry point takes their verdicts in every order. -/
def kvPartition (history : List (Operation KvValue)) : List (List (Operation KvValue)) :=
  (history.map keyOf).dedup.map fun key => history.filter fun op => keyOf op == key

@[simp] theorem kvModel_step : kvModel.step = kvStep := rfl

/-- The sequential map of the service: a get returns its key's value, `""` if it was never
written, a put overwrites it and an append concatenates. -/
def kvMapStep (values : String → String) : KvValue → KvValue → Bool × (String → String)
  | .input inp, .output out =>
    if inp.op = 0 then (out.value == values inp.key,values)
    else if inp.op = 1 then (true,Function.update values inp.key inp.value)
    else if inp.op = 2 then (true,Function.update values inp.key (values inp.key ++ inp.value))
    else (false,values)
  | _, _ => (false,values)

/-- The map as a model: every key starts empty. `Linearizable` reads only `Init` and `Step`;
the `Equal` that never holds leaves the cache unused. -/
def kvMap : Model KvValue (String → String) := ⟨fun _ => "",kvMapStep,fun _ _ => false⟩

@[simp] theorem kvMap_step : kvMap.step = kvMapStep := rfl

private theorem kvMapStep_eq (values : String → String) (op : Operation KvValue) :
    kvMapStep values op.input op.output =
      ((kvStep (values (keyOf op)) op.input op.output).1,
        Function.update values (keyOf op) (kvStep (values (keyOf op)) op.input op.output).2) := by
  obtain ⟨input,call,output,ret⟩ := op
  cases input with
  | input inp =>
    cases output with
    | input _ => simp [kvMapStep,kvStep,keyOf]
    | output out => simp only [kvMapStep,kvStep,keyOf]; split_ifs <;> simp
  | output _ => simp [kvMapStep,kvStep,keyOf]

/-! ### Locality -/

/-- Real-time precedence: no operation of `order` returned before an earlier one was called. -/
def KeepsTime (order : List (Operation KvValue)) : Prop :=
  order.Pairwise fun a b => ¬ b.ret < a.call

private theorem kvMap_accepts_filter (key : String) :
    ∀ (values : String → String) (order : List (Operation KvValue)), kvMap.accepts values order = true →
      kvModel.accepts (values key) (order.filter fun op => keyOf op == key) = true
  | _, [], _ => rfl
  | values, op :: order, accepted => by
    simp only [Model.accepts,kvMap_step,kvMapStep_eq,Bool.and_eq_true] at accepted
    have rest := kvMap_accepts_filter key _ order accepted.2
    by_cases same : keyOf op = key
    · subst same
      rw [Function.update_same] at rest
      simp only [List.filter_cons,beq_self_eq_true,if_true,Model.accepts,kvModel_step,Bool.and_eq_true]
      exact ⟨accepted.1,rest⟩
    · simpa [List.filter_cons,same,Function.update_noteq (Ne.symm same)] using rest

/-- Orders of each key's operations of `history`, each keeping real time and accepted by the
one-string model from that key's value in `values`. -/
structure KeyOrders (history : List (Operation KvValue)) (values : String → String)
    (orders : String → List (Operation KvValue)) : Prop where
  perm : ∀ key, (orders key).Perm (history.filter fun op => keyOf op == key)
  keeps : ∀ key, KeepsTime (orders key)
  accepts : ∀ key, kvModel.accepts (values key) (orders key) = true

namespace KeyOrders

variable {history : List (Operation KvValue)} {values : String → String}
  {orders : String → List (Operation KvValue)}

theorem head (keyed : KeyOrders history values orders) {op : Operation KvValue} (mem : op ∈ history) :
    ∃ first rest, orders (keyOf op) = first :: rest ∧ first ∈ history ∧ keyOf first = keyOf op ∧
      (op = first ∨ op ∈ rest) := by
  have inOrder : op ∈ orders (keyOf op) := (keyed.perm _).mem_iff.2 (List.mem_filter.2 ⟨mem,by simp⟩)
  obtain ⟨first,rest,split⟩ := List.exists_cons_of_ne_nil (List.ne_nil_of_mem inOrder)
  have firstMem := List.mem_filter.1 ((keyed.perm _).mem_iff.1 (split ▸ List.mem_cons_self first rest))
  exact ⟨first,rest,split,firstMem.1,by simpa using firstMem.2,by simpa [split] using inOrder⟩

theorem erase (keyed : KeyOrders history values orders) {a : Operation KvValue}
    {rest : List (Operation KvValue)} (split : orders (keyOf a) = a :: rest) :
    KeyOrders (history.erase a) (Function.update values (keyOf a) (kvStep (values (keyOf a)) a.input a.output).2)
      (Function.update orders (keyOf a) rest) where
  perm key := by
    rw [← List.erase_filter]
    by_cases same : key = keyOf a
    · subst same
      simpa [split] using (keyed.perm (keyOf a)).erase a
    · rw [Function.update_noteq same,List.erase_of_not_mem (by simp [Ne.symm same])]
      exact keyed.perm key
  keeps key := by
    by_cases same : key = keyOf a
    · subst same
      rw [Function.update_same]
      exact List.Pairwise.of_cons (show KeepsTime (a :: rest) from split ▸ keyed.keeps _)
    · simpa [Function.update_noteq same] using keyed.keeps key
  accepts key := by
    have accepted := keyed.accepts (keyOf a)
    rw [split] at accepted
    simp only [Model.accepts,kvModel_step,Bool.and_eq_true] at accepted
    by_cases same : key = keyOf a
    · subst same
      simpa using accepted.2
    · simpa [Function.update_noteq same] using keyed.accepts key

end KeyOrders

private theorem merge_orders : ∀ (size : Nat) (history : List (Operation KvValue)), history.length = size →
    (∀ op ∈ history, op.call < op.ret) → ∀ (values : String → String) (orders : String → List (Operation KvValue)),
    KeyOrders history values orders → ∃ order, order.Perm history ∧ KeepsTime order ∧ kvMap.accepts values order = true
  | 0, history, size, _, _, _, _ => ⟨[],by rw [List.eq_nil_of_length_eq_zero size],List.Pairwise.nil,rfl⟩
  | size + 1, history, length, ordered, values, orders, keyed => by
    let firsts := history.filter fun op => (orders (keyOf op)).head? = some op
    obtain ⟨b,bMem⟩ := List.exists_mem_of_length_pos (show 0 < history.length by omega)
    obtain ⟨c,_,cSplit,cMem,cKey,-⟩ := keyed.head bMem
    obtain ⟨a,aFirst,least⟩ := firsts.toFinset.exists_min_image (·.call)
      ⟨c,List.mem_toFinset.2 (List.mem_filter.2 ⟨cMem,by simp [cKey,cSplit]⟩)⟩
    obtain ⟨aMem,aHead⟩ := List.mem_filter.1 (List.mem_toFinset.1 aFirst)
    obtain ⟨rest,aSplit⟩ : ∃ rest, orders (keyOf a) = a :: rest := by
      cases split : orders (keyOf a) with
      | nil => simp [split] at aHead
      | cons first rest => simp [split] at aHead; exact ⟨rest,by rw [aHead]⟩
    have first : ∀ c ∈ history, ¬ c.ret < a.call := fun c mem before => by
      obtain ⟨d,rest',split,dMem,dKey,cd⟩ := keyed.head mem
      have dLeast := least d (List.mem_toFinset.2 (List.mem_filter.2 ⟨dMem,by simp [dKey,split]⟩))
      rcases cd with rfl | later
      · have := ordered c mem; omega
      · have := List.rel_of_pairwise_cons (split ▸ keyed.keeps (keyOf c)) later
        omega
    obtain ⟨order,operm,okeeps,oaccepts⟩ := merge_orders size (history.erase a)
      (by rw [List.length_erase_of_mem aMem]; omega) (fun op mem => ordered op (List.mem_of_mem_erase mem))
      _ _ (keyed.erase aSplit)
    have accepted := keyed.accepts (keyOf a)
    rw [aSplit] at accepted
    refine ⟨a :: order,(operm.cons a).trans (List.perm_cons_erase aMem).symm,
      List.pairwise_cons.2 ⟨fun c mem => first c (List.mem_of_mem_erase (operm.subset mem)),okeeps⟩,?_⟩
    simp only [Model.accepts,kvModel_step,Bool.and_eq_true] at accepted
    simp [Model.accepts,kvMapStep_eq,accepted.1,oaccepts]

private theorem linearizable_iff_keys (history : List (Operation KvValue)) (ordered : ∀ op ∈ history, op.call < op.ret) :
    Linearizable kvMap history ↔ ∀ key, Linearizable kvModel (history.filter fun op => keyOf op == key) := by
  constructor
  · rintro ⟨order,perm,keeps,accepted⟩ key
    exact ⟨_,perm.filter _,keeps.filter _,kvMap_accepts_filter key _ order accepted⟩
  · intro keys
    choose orders perm keeps accepts using keys
    exact merge_orders _ history rfl ordered kvMap.init orders ⟨perm,keeps,accepts⟩

/-! ### The entry point on `KvModel` -/

private theorem flatMap_filter_sublist {α β : Type} (p : α → Bool) (f : α → List β) (l : List α) :
    ((l.filter p).flatMap f).Sublist (l.flatMap f) := by
  induction l with
  | nil => exact List.Sublist.slnil
  | cons a l ih =>
    by_cases keep : p a
    · simpa [List.filter_cons,keep] using ih.append_left (f a)
    · simpa [List.filter_cons,keep] using ih.trans (List.sublist_append_right (f a) _)

private theorem kvModel_equal_sound : ∀ a b, kvModel.equal a b = true → a = b :=
  fun a b same => by simpa [kvModel] using same

/-- On the empty history `Partition` returns no part: the loop waits for a verdict that no
worker sends, and `CheckOperationsTimeout` does not return. -/
theorem kvModel_empty_history_blocks :
    ∀ result, CheckOperationsTimeout kvModel kvPartition [] result ↔ result = none := by
  intro result
  simp [CheckOperationsTimeout,kvPartition,operationVerdicts,collect,List.reduceOption,eq_comm]

/-- On a non-empty history with distinct times, each operation called before it returns,
`CheckOperationsTimeout(KvModel(), history, 0)` returns the same verdict in every order the
workers finish in, and the verdict is `true` exactly when the history is linearizable for
the map. -/
theorem checkOperations_kvModel (history : List (Operation KvValue)) (nonempty : history ≠ [])
    (distinct : (history.flatMap fun op => [op.call,op.ret]).Nodup) (ordered : ∀ op ∈ history, op.call < op.ret) :
    ∃ verdict, (∀ result, CheckOperationsTimeout kvModel kvPartition history result ↔ result = some verdict) ∧
      (verdict = true ↔ Linearizable kvMap history) := by
  have decides : ∀ key, ∃ verdict, checkSingle kvModel (makeLinkedEntries (makeEntries
      (history.filter fun op => keyOf op == key))) (fun _ => 0) = some verdict ∧
      (verdict = true ↔ Linearizable kvModel (history.filter fun op => keyOf op == key)) := fun key =>
    checkSingle_decides kvModel kvModel_equal_sound
      (distinct.sublist (flatMap_filter_sublist _ _ history))
      fun op mem => ordered op (List.mem_of_mem_filter mem)
  choose verdictOf sent correct using decides
  refine ⟨((history.map keyOf).dedup.map verdictOf).all id,
    checkOperations_all (by simpa [kvPartition] using nonempty) (by simp [operationVerdicts,kvPartition,sent]),?_⟩
  rw [linearizable_iff_keys history ordered]
  simp only [List.all_eq_true,List.mem_map,List.mem_dedup,id,forall_exists_index,and_imp,forall_apply_eq_imp_iff₂]
  constructor
  · intro all key
    by_cases present : ∃ op ∈ history, keyOf op = key
    · obtain ⟨op,mem,rfl⟩ := present
      exact (correct _).1 (all op mem)
    · have empty : (history.filter fun op => keyOf op == key) = [] :=
        List.filter_eq_nil_iff.2 fun op mem same => present ⟨op,mem,by simpa using same⟩
      exact empty ▸ ⟨[],List.Perm.refl _,List.Pairwise.nil,rfl⟩
  · exact fun keys op _ => (correct _).2 (keys _)

/-- Two keys, each with an append and a get that overlap; reading `"a"` on `"x"` and `""` on
`"y"` linearizes. -/
def twoKeys : List (Operation KvValue) :=
  [⟨.input ⟨2,"x","a"⟩,0,.output ⟨""⟩,2⟩,⟨.input ⟨0,"x",""⟩,1,.output ⟨"a"⟩,3⟩,
   ⟨.input ⟨2,"y","b"⟩,4,.output ⟨""⟩,6⟩,⟨.input ⟨0,"y",""⟩,5,.output ⟨""⟩,7⟩]

theorem twoKeys_checkOperations :
    twoKeys ≠ [] ∧ (twoKeys.flatMap fun op => [op.call,op.ret]).Nodup ∧ (∀ op ∈ twoKeys, op.call < op.ret) ∧
      ∃ verdict, (∀ result, CheckOperationsTimeout kvModel kvPartition twoKeys result ↔ result = some verdict) ∧
        (verdict = true ↔ Linearizable kvMap twoKeys) :=
  ⟨by decide,by decide,by decide,checkOperations_kvModel twoKeys (by decide) (by decide) (by decide)⟩

end Sentinel.Linearizability
