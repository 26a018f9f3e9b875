import Sentinel.Linearizability.History

/-! Entry lists the search is given, and the ids they carry. `renumber` gives the ids of an
event stream the numbers `0, 1, ...` in the order they first appear, and `convertEntries`
turns events into entries of time `-1`.

The search reads ids only to tell which nodes share one. Renaming the ids of an entry list
injectively renames the ids of the nodes `makeLinkedEntries` builds and nothing else, and the
search over sets takes the same passes on the renamed nodes, so `checkSingle` returns the
same. A `Paired` list, with one call entry and one later return entry for each id below `n`,
gives `WellFormed` nodes, on which `checkSingle` returns whatever the model's `Step` and
`Equal`. -/

namespace Sentinel.Linearizability

variable {V S : Type}

/-- `Event`: `kind` is `ReturnEvent` (`true`) or `CallEvent` (`false`). -/
structure Event (V : Type) where
  kind : Bool
  value : V
  id : Nat
deriving DecidableEq, Repr

/-- The loop of `renumber`, with its map `m` from ids to new ids and the next new `id`. -/
def renumber.loop : (Nat → Option Nat) → Nat → List (Event V) → List (Event V)
  | _, _, [] => []
  | m, id, v :: events => match m v.id with
    | some r => ⟨v.kind,v.value,r⟩ :: renumber.loop m id events
    | none => ⟨v.kind,v.value,id⟩ :: renumber.loop (Function.update m v.id (some id)) (id + 1) events

def renumber (events : List (Event V)) : List (Event V) :=
  renumber.loop (fun _ => none) 0 events

/-- `convertEntries`: each event becomes an entry of its kind, value and id at time `-1`. -/
def convertEntries (events : List (Event V)) : List (Entry V) :=
  events.map fun elem => ⟨elem.kind,elem.value,elem.id,-1⟩

/-! ### `renumber` -/

/-- The ids of `events` in the order they first appear, after those of `seen`. -/
def firstIds (seen : List Nat) : List (Event V) → List Nat
  | [] => seen
  | v :: events => firstIds (if v.id ∈ seen then seen else seen ++ [v.id]) events

/-- The map of `renumber` once it has seen the ids `seen`: each to its position. -/
def positions (seen : List Nat) (x : Nat) : Option Nat :=
  if x ∈ seen then some (seen.indexOf x) else none

private theorem firstIds_prefix (seen : List Nat) (events : List (Event V)) : seen <+: firstIds seen events := by
  induction events generalizing seen with
  | nil => exact List.prefix_refl _
  | cons v events ih =>
    simp only [firstIds]
    split_ifs
    · exact ih seen
    · exact (List.prefix_append _ _).trans (ih _)

theorem mem_firstIds {seen : List Nat} {events : List (Event V)} {x : Nat} :
    x ∈ firstIds seen events ↔ x ∈ seen ∨ ∃ v ∈ events, v.id = x := by
  induction events generalizing seen with
  | nil => simp [firstIds]
  | cons v events ih =>
    by_cases seenV : v.id ∈ seen
    · simp only [firstIds,seenV,if_true,ih,List.mem_cons,exists_eq_or_imp]
      refine ⟨fun found => found.imp_right .inr,?_⟩
      rintro (mem | rfl | found)
      exacts [.inl mem,.inl seenV,.inr found]
    · simp only [firstIds,seenV,if_false,ih,List.mem_cons,exists_eq_or_imp,List.mem_append,
        List.mem_singleton,List.not_mem_nil,false_or,or_assoc,@eq_comm _ x v.id]

theorem firstIds_nodup {seen : List Nat} (nodup : seen.Nodup) (events : List (Event V)) :
    (firstIds seen events).Nodup := by
  induction events generalizing seen with
  | nil => exact nodup
  | cons v events ih =>
    simp only [firstIds]
    split_ifs with seenV
    · exact ih nodup
    · exact ih (List.nodup_append.2 ⟨nodup,List.nodup_singleton _,by simpa using seenV⟩)

theorem renumber.loop_positions (seen : List Nat) (events : List (Event V)) :
    loop (positions seen) seen.length events =
      events.map fun v => ⟨v.kind,v.value,(firstIds seen events).indexOf v.id⟩ := by
  induction events generalizing seen with
  | nil => rfl
  | cons v events ih =>
    obtain ⟨rest,prefixed⟩ := firstIds_prefix (if v.id ∈ seen then seen else seen ++ [v.id]) events
    by_cases seenV : v.id ∈ seen
    · simp only [firstIds,seenV,if_true] at prefixed ⊢
      simp only [loop,positions,seenV,if_true,List.map_cons,ih,← prefixed,
        List.indexOf_append_of_mem seenV]
    · simp only [firstIds,seenV,if_false] at prefixed ⊢
      have updated : Function.update (positions seen) v.id (some seen.length) = positions (seen ++ [v.id]) := by
        funext x
        by_cases same : x = v.id
        · subst same; simp [positions,seenV,List.indexOf_append_of_not_mem seenV]
        · simp [positions,Function.update_noteq same,same,List.indexOf_append_of_not_mem,
            List.indexOf_append_of_mem]
          split_ifs with mem
          · rw [List.indexOf_append_of_mem mem]
          · rfl
      have first : (firstIds (seen ++ [v.id]) events).indexOf v.id = seen.length := by
        rw [← prefixed,List.append_assoc,List.indexOf_append_of_not_mem seenV]
        simp
      simp only [loop,positions,seenV,if_false,List.map_cons,updated,first]
      rw [show seen.length + 1 = (seen ++ [v.id]).length by simp,ih]

theorem renumber_eq (events : List (Event V)) :
    renumber events = events.map fun v => ⟨v.kind,v.value,(firstIds [] events).indexOf v.id⟩ := by
  have empty : positions [] = fun _ => none := by funext x; simp [positions]
  simpa [renumber,empty] using renumber.loop_positions [] events

/-! ### Renaming ids -/

/-- The node with its id renamed by `f`. -/
def Node.rename (f : Nat → Nat) (node : Node V) : Node V := ⟨node.value,node.«match»,f node.id⟩

/-- `entries'` is `entries` with each id renamed by `f`, whatever the times. -/
def Renamed (f : Nat → Nat) (entries' entries : List (Entry V)) : Prop :=
  List.Forall₂ (fun e' e => e'.kind = e.kind ∧ e'.value = e.value ∧ e'.id = f e.id) entries' entries

theorem makeLinkedEntries.loop_rename {f : Nat → Nat} (injective : f.Injective)
    {entries' entries : List (Entry V)} (renamed : Renamed f entries' entries) (i : Nat) :
    (loop i entries').1 = ⟨(loop i entries).1.nodes.map (Node.rename f),(loop i entries).1.links,(loop i entries).1.root⟩ ∧
      ∀ x, (loop i entries').2 (f x) = (loop i entries).2 x := by
  induction renamed generalizing i with
  | nil => exact ⟨rfl,fun _ => rfl⟩
  | cons same _ ih =>
    obtain ⟨kind,value,id⟩ := same
    obtain ⟨built,map⟩ := ih (i + 1)
    refine ⟨?_,fun x => ?_⟩
    · simp only [loop,built,kind,value,id,map,List.map_cons,Node.rename]
    · simp only [loop,kind,id,map]
      split_ifs <;> simp [Function.update_apply,injective.eq_iff,map]

private theorem makeLinkedEntries_rename {f : Nat → Nat} (injective : f.Injective)
    {entries' entries : List (Entry V)} (renamed : Renamed f entries' entries) :
    makeLinkedEntries entries' = ⟨(makeLinkedEntries entries).nodes.map (Node.rename f),
      (makeLinkedEntries entries).links,(makeLinkedEntries entries).root⟩ :=
  (makeLinkedEntries.loop_rename injective renamed 0).1

section Rename

variable {model : Model V S} {nodes : List (Node V)}

@[simp] theorem nodeAt_rename (f : Nat → Nat) (nodes : List (Node V)) (x : Nat) :
    nodeAt (nodes.map (Node.rename f)) x = (nodeAt nodes x).map (Node.rename f) := by
  cases x <;> simp [nodeAt]

@[simp] theorem alive_rename (f : Nat ↪ Nat) (linearized : Finset Nat) (x : Nat) :
    alive (nodes.map (Node.rename f)) (linearized.map f) x = alive nodes linearized x := by
  cases found : nodeAt nodes x <;> simp [alive,found,Node.rename]

@[simp] theorem nextAlive_rename (f : Nat ↪ Nat) (linearized : Finset Nat) (x : Nat) :
    nextAlive (nodes.map (Node.rename f)) (linearized.map f) x = nextAlive nodes linearized x := by
  simp only [nextAlive,List.length_map]
  congr 1
  funext y
  exact alive_rename f linearized y

/-- The search over the renamed nodes: its sets renamed by `f`. -/
def SetSearch.rename (f : Nat ↪ Nat) (s : SetSearch S) : SetSearch S :=
  ⟨s.calls,s.state,s.linearized.map f,s.entry,s.cache.map fun seen => (seen.1.map f,seen.2)⟩

private theorem cached_rename (model : Model V S) (f : Nat ↪ Nat) (cache : List (Finset Nat × S)) (linearized : Finset Nat) (id : Nat)
    (state : S) :
    (cache.map fun seen => (seen.1.map f,seen.2)).any (fun seen =>
        decide (seen.1 = insert (f id) (linearized.map f)) && model.equal state seen.2) =
      cache.any fun seen => decide (seen.1 = insert id linearized) && model.equal state seen.2 := by
  simp only [List.any_map,Function.comp_def,← Finset.map_insert,Finset.map_inj]

private theorem SetSearch.iterate_rename (f : Nat ↪ Nat) (s : SetSearch S) :
    SetSearch.iterate model (nodes.map (Node.rename f)) (s.rename f) =
      (SetSearch.iterate model nodes s).map (Sum.map id (SetSearch.rename f)) := by
  obtain ⟨calls,state,linearized,entry,cache⟩ := s
  cases entry with
  | none => rfl
  | some x =>
    cases found : nodeAt nodes x with
    | none => simp only [SetSearch.iterate,SetSearch.rename,nodeAt_rename,found,Option.some_bind,Option.map_none',
        Option.none_bind]
    | some node =>
      cases isMatch : node.«match» with
      | some matching =>
        cases retFound : nodeAt nodes matching with
        | none => simp only [SetSearch.iterate,SetSearch.rename,nodeAt_rename,found,isMatch,retFound,Node.rename,
            Option.some_bind,Option.map_some',Option.map_none',Option.none_bind]
        | some ret =>
          have cached := cached_rename model f cache linearized node.id
            (model.step state node.value ret.value).2
          simp only [SetSearch.iterate,SetSearch.rename,nodeAt_rename,found,isMatch,retFound,Node.rename,
            Option.some_bind,Option.map_some'] at cached ⊢
          rw [cached,← Finset.map_insert]
          split_ifs <;> simp [SetSearch.rename,-Finset.map_insert]
      | none =>
        cases calls with
        | nil => simp only [SetSearch.iterate,SetSearch.rename,nodeAt_rename,found,isMatch,Node.rename,
            Option.some_bind,Option.map_some',Sum.map_inl,id]
        | cons frame calls =>
          obtain ⟨call,before⟩ := frame
          cases topFound : nodeAt nodes call with
          | none => simp only [SetSearch.iterate,SetSearch.rename,nodeAt_rename,found,isMatch,topFound,Node.rename,
              Option.some_bind,Option.map_some',Option.map_none',Option.none_bind]
          | some top =>
            simp only [SetSearch.iterate,SetSearch.rename,nodeAt_rename,found,isMatch,topFound,Node.rename,
              Option.some_bind,Option.map_some']
            rw [← Finset.map_erase]
            simp [SetSearch.rename,-Finset.map_erase]

private theorem SetSearch.run_rename (f : Nat ↪ Nat) (fuel : Nat) (s : SetSearch S) :
    SetSearch.run model (nodes.map (Node.rename f)) fuel (s.rename f) = SetSearch.run model nodes fuel s := by
  induction fuel generalizing s with
  | zero => rfl
  | succ fuel ih =>
    rw [SetSearch.run,SetSearch.run,show (s.rename f).linearized = s.linearized.map f from rfl,nextAlive_rename,
      SetSearch.iterate_rename]
    cases SetSearch.iterate model nodes s with
    | none => simp only [Option.map_none',Option.none_bind]
    | some r => cases r <;> simp only [Option.map_some',Option.some_bind,Sum.map_inl,Sum.map_inr,Sum.elim_inl,
        Sum.elim_inr,id,ih]

private theorem SetSearch.start_rename (f : Nat ↪ Nat) :
    SetSearch.start model (nodes.map (Node.rename f)) = (SetSearch.start model nodes).rename f := by
  simp only [SetSearch.start,SetSearch.rename,Finset.map_empty,List.map_nil]
  rw [← Finset.map_empty f,nextAlive_rename,Finset.map_empty]

theorem WellFormed.rename {nodes : List (Node V)} (wf : WellFormed nodes) {f : Nat → Nat} (injective : f.Injective)
    (bounded : ∀ x < nodes.length / 2, f x < nodes.length / 2) : WellFormed (nodes.map (Node.rename f)) where
  later x node matching found isMatch := by
    obtain ⟨node,found',rfl⟩ := Option.map_eq_some'.1 ((nodeAt_rename f nodes x).symm.trans found)
    obtain ⟨lt,ret,retFound,same⟩ := wf.later x node matching found' isMatch
    exact ⟨lt,ret.rename f,by simp [retFound],by simp [Node.rename,same]⟩
  returns x node matching ret found isMatch retFound := by
    obtain ⟨node,found',rfl⟩ := Option.map_eq_some'.1 ((nodeAt_rename f nodes x).symm.trans found)
    obtain ⟨ret,retFound',rfl⟩ := Option.map_eq_some'.1 ((nodeAt_rename f nodes matching).symm.trans retFound)
    exact wf.returns x node matching ret found' isMatch retFound'
  unique x y nx ny xFound yFound same kinds := by
    obtain ⟨nx,xFound',rfl⟩ := Option.map_eq_some'.1 ((nodeAt_rename f nodes x).symm.trans xFound)
    obtain ⟨ny,yFound',rfl⟩ := Option.map_eq_some'.1 ((nodeAt_rename f nodes y).symm.trans yFound)
    exact wf.unique x y nx ny xFound' yFound' (injective same) kinds
  bounded x node found := by
    obtain ⟨node,found',rfl⟩ := Option.map_eq_some'.1 ((nodeAt_rename f nodes x).symm.trans found)
    simpa using bounded _ (wf.bounded x node found')

end Rename

theorem checkSingle_rename (model : Model V S) (f : Nat ↪ Nat) {entries' entries : List (Entry V)}
    (renamed : Renamed f entries' entries) (wf : WellFormed (makeLinkedEntries entries).nodes)
    (bounded : ∀ x < (makeLinkedEntries entries).nodes.length / 2, f x < (makeLinkedEntries entries).nodes.length / 2) :
    checkSingle model (makeLinkedEntries entries') (fun _ => 0) = checkSingle model (makeLinkedEntries entries) (fun _ => 0) := by
  have same := makeLinkedEntries_rename f.injective renamed
  have wf' : WellFormed (makeLinkedEntries entries').nodes := same ▸ wf.rename f.injective bounded
  have unkilled : ∀ entries : List (Entry V), WellFormed (makeLinkedEntries entries).nodes →
      checkSingle model (makeLinkedEntries entries) (fun _ => 0) = SetSearch.run model (makeLinkedEntries entries).nodes
        (((makeLinkedEntries entries).nodes.length + 2) ^ ((makeLinkedEntries entries).nodes.length + 1) + 1)
        (SetSearch.start model (makeLinkedEntries entries).nodes) := fun entries wf =>
    (checkSingle_eq_run model wf fun _ => 0).resolve_right fun ⟨⟨_,killed⟩,_⟩ => killed rfl
  rw [unkilled _ wf',unkilled _ wf,same]
  simp only [List.length_map,SetSearch.start_rename,SetSearch.run_rename]

/-! ### Paired entry lists -/

theorem makeLinkedEntries_match {entries : List (Entry V)} {x matching : Nat} {node : Node V}
    (found : nodeAt (makeLinkedEntries entries).nodes x = some node) (isMatch : node.«match» = some matching) :
    x < matching ∧ ∃ value, nodeAt (makeLinkedEntries entries).nodes matching = some ⟨value,none,node.id⟩ := by
  cases x with
  | zero => simp [nodeAt] at found
  | succ k =>
    simp only [nodeAt,makeLinkedEntries_nodes,Option.map_eq_some'] at found
    obtain ⟨e,atK,rfl⟩ := found
    cases kind : e.kind
    · simp only [kind,Bool.false_eq_true,if_false,show k + 2 = k + 1 + 1 from rfl,List.findIdx?_start_succ,
        Option.map_eq_some'] at isMatch
      obtain ⟨i,first,rfl⟩ := isMatch
      obtain ⟨bound,isReturn,-⟩ := List.findIdx?_eq_some_iff_getElem.1 first
      simp only [isReturnOf,Bool.and_eq_true,beq_iff_eq] at isReturn
      obtain ⟨r,atR,isR⟩ : ∃ r, entries[k + 1 + i]? = some r ∧ r.kind = true ∧ r.id = e.id :=
        ⟨_,by rw [← List.getElem?_drop,List.getElem?_eq_getElem bound],isReturn⟩
      refine ⟨by omega,r.value,?_⟩
      rw [show i + (k + 1 + 1) = k + 1 + i + 1 by omega]
      simp [nodeAt,makeLinkedEntries_nodes,atR,isR.1,isR.2]
    · simp [kind] at isMatch

private theorem makeLinkedEntries_matchesLater (entries : List (Entry V)) : MatchesLater (makeLinkedEntries entries).nodes :=
  fun _ _ _ found isMatch =>
    let ⟨lt,_,retFound⟩ := makeLinkedEntries_match found isMatch
    ⟨lt,_,retFound,rfl⟩

/-- `entries` holds one call entry and one return entry for each id below `n` and nothing
else, so the ids of its operations are a bijection onto `0..n-1`, and no return entry
stands before the call entry of its id. -/
structure Paired (entries : List (Entry V)) (n : Nat) : Prop where
  pairs : (entries.map fun e => (e.id,e.kind)).Perm ((List.range n).flatMap fun id => [(id,false),(id,true)])
  callFirst : entries.Pairwise fun a b => ¬ (a.kind = true ∧ b.kind = false ∧ a.id = b.id)

instance (entries : List (Entry V)) (n : Nat) : Decidable (Paired entries n) :=
  decidable_of_iff ((entries.map fun e => (e.id,e.kind)).Perm ((List.range n).flatMap fun id => [(id,false),(id,true)]) ∧
      entries.Pairwise fun a b => ¬ (a.kind = true ∧ b.kind = false ∧ a.id = b.id))
    ⟨fun ⟨pairs,callFirst⟩ => ⟨pairs,callFirst⟩,fun ⟨pairs,callFirst⟩ => ⟨pairs,callFirst⟩⟩

private theorem pairs_nodup (n : Nat) : ((List.range n).flatMap fun id => [(id,false),(id,true)]).Nodup :=
  List.nodup_flatMap.2 ⟨fun _ _ => by simp,(List.nodup_range n).imp fun ne => by simp [Function.onFun,ne,Ne.symm ne]⟩

private theorem pairs_length (n : Nat) : ((List.range n).flatMap fun id => [(id,false),(id,true)]).length = 2 * n := by
  induction n with
  | zero => rfl
  | succ n ih => simp only [List.range_succ,List.flatMap_append,List.length_append,ih]; simp; omega

namespace Paired

variable {entries : List (Entry V)} {n : Nat}

theorem mem_iff (paired : Paired entries n) (id : Nat) (kind : Bool) :
    (id,kind) ∈ entries.map (fun e => (e.id,e.kind)) ↔ id < n := by
  rw [paired.pairs.mem_iff]
  cases kind <;> simp

theorem id_lt (paired : Paired entries n) {e : Entry V} (mem : e ∈ entries) : e.id < n :=
  (paired.mem_iff e.id e.kind).1 (List.mem_map_of_mem _ mem)

theorem findIdx?_isSome (paired : Paired entries n) {k : Nat} {e : Entry V} (atK : entries[k]? = some e)
    (call : e.kind = false) : ((entries.drop (k + 1)).findIdx? (isReturnOf e.id)).isSome := by
  have mem := List.getElem?_mem atK
  obtain ⟨r,rMem,same⟩ := List.mem_map.1 ((paired.mem_iff e.id true).2 (paired.id_lt mem))
  simp only [Prod.mk.injEq] at same
  obtain ⟨q,atQ⟩ := List.mem_iff_getElem?.1 rMem
  have later : k < q := by
    rcases Nat.lt_trichotomy k q with lt | rfl | gt
    · exact lt
    · rw [atK] at atQ; cases atQ; simp [call] at same
    · obtain ⟨hq,rfl⟩ := List.getElem?_eq_some_iff.1 atQ
      obtain ⟨hk,rfl⟩ := List.getElem?_eq_some_iff.1 atK
      exact absurd ⟨same.2,call,same.1⟩ (List.pairwise_iff_getElem.1 paired.callFirst q k hq hk gt)
  rw [List.findIdx?_isSome,List.any_eq_true]
  refine ⟨r,?_,by simp [isReturnOf,same.1,same.2]⟩
  have : (entries.drop (k + 1))[q - (k + 1)]? = some r := by
    rw [List.getElem?_drop,show k + 1 + (q - (k + 1)) = q by omega,atQ]
  exact List.getElem?_mem this

theorem match_isSome (paired : Paired entries n) {k : Nat} {node : Node V} {e : Entry V}
    (found : nodeAt (makeLinkedEntries entries).nodes (k + 1) = some node) (atK : entries[k]? = some e) :
    node.«match».isSome = !e.kind := by
  simp only [nodeAt,makeLinkedEntries_nodes,atK,Option.map_some',Option.some.injEq] at found
  subst found
  cases kind : e.kind
  · simpa [show k + 2 = k + 1 + 1 from rfl,List.findIdx?_start_succ] using paired.findIdx?_isSome atK kind
  · rfl

theorem wellFormed (paired : Paired entries n) : WellFormed (makeLinkedEntries entries).nodes where
  later := makeLinkedEntries_matchesLater entries
  returns x node matching ret found isMatch retFound := by
    obtain ⟨-,value,retFound'⟩ := makeLinkedEntries_match found isMatch
    rw [retFound] at retFound'; cases retFound'; rfl
  unique x y nx ny xFound yFound same kinds := by
    obtain ⟨p,rfl⟩ : ∃ p, x = p + 1 := ⟨x - 1,by have := (nodeAt_bound xFound).1; omega⟩
    obtain ⟨q,rfl⟩ : ∃ q, y = q + 1 := ⟨y - 1,by have := (nodeAt_bound yFound).1; omega⟩
    obtain ⟨a,atP,rfl⟩ := Option.map_eq_some'.1 (by simpa [nodeAt,makeLinkedEntries_nodes] using xFound)
    obtain ⟨b,atQ,rfl⟩ := Option.map_eq_some'.1 (by simpa [nodeAt,makeLinkedEntries_nodes] using yFound)
    have kind : a.kind = b.kind := by
      simpa using (paired.match_isSome xFound atP).symm.trans (kinds.trans (paired.match_isSome yFound atQ))
    have key : (entries.map fun e => (e.id,e.kind))[p]? = (entries.map fun e => (e.id,e.kind))[q]? := by
      simp [atP,atQ,kind,show a.id = b.id from same]
    have nodup := paired.pairs.nodup_iff.2 (pairs_nodup n)
    have bound := (List.getElem?_eq_some_iff.1 atQ).1
    have bound' := (List.getElem?_eq_some_iff.1 atP).1
    rcases Nat.lt_trichotomy p q with lt | rfl | gt
    · exact absurd key (List.nodup_iff_getElem?_ne_getElem?.1 nodup p q lt (by simpa using bound))
    · rfl
    · exact absurd key.symm (List.nodup_iff_getElem?_ne_getElem?.1 nodup q p gt (by simpa using bound'))
  bounded x node found := by
    obtain ⟨p,rfl⟩ : ∃ p, x = p + 1 := ⟨x - 1,by have := (nodeAt_bound found).1; omega⟩
    obtain ⟨e,atP,rfl⟩ := Option.map_eq_some'.1 (by simpa [nodeAt,makeLinkedEntries_nodes] using found)
    have length : entries.length = 2 * n := by simpa using paired.pairs.length_eq.trans (pairs_length n)
    have := paired.id_lt (List.getElem?_mem atP)
    rw [(makeLinkedEntries_links entries).2.2.2,length]
    simp only; omega

end Paired

/-- Whatever the model's `Step` and `Equal`, `checkSingle` with `kill` never set returns on
the list of a paired entry list: its loop ends, and it never dereferences `nil`. -/
theorem checkSingle_returns (model : Model V S) {entries : List (Entry V)} {n : Nat} (paired : Paired entries n) :
    ∃ result, checkSingle model (makeLinkedEntries entries) (fun _ => 0) = some result := by
  have wf := paired.wellFormed
  rw [(checkSingle_eq_run model wf fun _ => 0).resolve_right fun ⟨⟨_,killed⟩,_⟩ => killed rfl]
  exact SetSearch.run_start_returns model wf.later

/-- A counter whose `Equal` holds of any two states, so that the cache prunes any pair whose
set was seen before. -/
def lumpedCounter : Model Nat Nat := ⟨0,fun state input _ => (true,state + input),fun _ _ => true⟩

/-- Two overlapping operations whose entries are not in call order. -/
def overlappingEntries : List (Entry Nat) := [⟨false,1,1,0⟩,⟨false,2,0,0⟩,⟨true,0,1,0⟩,⟨true,0,0,0⟩]

theorem lumpedCounter_checkSingle_returns :
    Paired overlappingEntries 2 ∧
      ∃ result, checkSingle lumpedCounter (makeLinkedEntries overlappingEntries) (fun _ => 0) = some result :=
  ⟨by decide,checkSingle_returns lumpedCounter (show Paired overlappingEntries 2 by decide)⟩

end Sentinel.Linearizability
