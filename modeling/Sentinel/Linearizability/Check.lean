import Sentinel.Linearizability.Bitset
import Sentinel.Linearizability.Search

/-! `checkSingle`: the loop of the linearizability search on the linked list, the
bitset `linearized`, the `cache` map keyed by `hash` and the stack `calls`.

Its variables refine those of `SetSearch`: the bitset represents the set of lifted
ids, the cache holds exactly the cached pairs (each under its hash), the links thread
the nodes still in the list, and unlifting the frames in stack order gives back the
links of the sets below. Each pass of the loop then takes the pass the search over
sets takes, so `checkSingle` returns what that search returns. -/

namespace Sentinel.Linearizability

variable {V S : Type}

structure CacheEntry (S : Type) where
  linearized : Bitset
  state : S

/-- `callsEntry`: a lifted call node and the state before it. -/
structure CallsEntry (S : Type) where
  entry : Nat
  state : S

def cacheContains (model : Model V S) (cache : UInt64 → List (CacheEntry S)) (entry : CacheEntry S) : Bool :=
  (cache entry.linearized.hash).any fun elem =>
    entry.linearized.equals elem.linearized && model.equal entry.state elem.state

/-- The variables of `checkSingle`'s loop; the top of `calls` is its head, and the
head of the list is node `0`. -/
structure Search (S : Type) where
  links : Links
  linearized : Bitset
  cache : UInt64 → List (CacheEntry S)
  calls : List (CallsEntry S)
  state : S
  entry : Option Nat

namespace Search

variable (model : Model V S) (nodes : List (Node V))

/-- The body of the loop after the `kill` check. `none` where the code dereferences
`nil` or indexes past the bitset, `.inl` where it returns. -/
def iterate (s : Search S) : Option (Bool ⊕ Search S) :=
  s.entry.bind fun entry => (nodeAt nodes entry).bind fun node =>
  match node.«match» with
  | some matching => (nodeAt nodes matching).bind fun ret =>
    let step := model.step s.state node.value ret.value
    if step.1 then
      (s.linearized.clone.set node.id).bind fun newLinearized =>
      let newCacheEntry : CacheEntry S := ⟨newLinearized,step.2⟩
      if !cacheContains model s.cache newCacheEntry then
        let hash := newLinearized.hash
        (s.linearized.set node.id).bind fun linearized =>
        (lift s.links entry matching).map fun links =>
        .inr ⟨links,linearized,Function.update s.cache hash (s.cache hash ++ [newCacheEntry]),
          ⟨entry,s.state⟩ :: s.calls,step.2,links.next 0⟩
      else some (.inr { s with entry := s.links.next entry })
    else some (.inr { s with entry := s.links.next entry })
  | none => match s.calls with
    | [] => some (.inl false)
    | callsTop :: calls => (nodeAt nodes callsTop.entry).bind fun node =>
      (s.linearized.clear node.id).bind fun linearized =>
      node.«match».bind fun matching => (unlift s.links callsTop.entry matching).map fun links =>
      .inr ⟨links,linearized,s.cache,calls,callsTop.state,links.next callsTop.entry⟩

/-- The loop `for headEntry.next != nil`, for at most `fuel` passes; `kill t` is the
value `atomic.LoadInt32(kill)` reads in pass `t`. -/
def run (kill : Nat → Int) : Nat → Nat → Search S → Option Bool
  | 0, _, _ => none
  | fuel + 1, t, s =>
    if s.links.next 0 = none then some true
    else if kill t ≠ 0 then some false
    else (iterate model nodes s).bind (Sum.elim some (run kill fuel (t + 1)))

end Search

/-- `checkSingle(model, subhistory, kill)`, with the head as node `0` of the arena. The
loop is given `(nodes + 2) ^ (nodes + 1) + 1` passes, more than it ever takes. -/
def checkSingle (model : Model V S) (subhistory : LinkedEntries V) (kill : Nat → Int) : Option Bool :=
  (length subhistory.links subhistory.root (subhistory.nodes.length + 1)).bind fun len =>
  let n := len / 2
  let headEntry := insertBefore subhistory.links 0 subhistory.root
  Search.run model subhistory.nodes kill ((subhistory.nodes.length + 2) ^ (subhistory.nodes.length + 1) + 1) 0
    ⟨headEntry,newBitset n,fun _ => [],[],model.init,subhistory.root⟩

/-! ### Refinement of the search over sets -/

/-- The nodes of a list built from a history: a call node's match is the later return
node of its id, there is one call node and one return node per id, and every id is
below half the number of nodes. -/
structure WellFormed (nodes : List (Node V)) : Prop where
  later : MatchesLater nodes
  returns : ∀ x node matching ret, nodeAt nodes x = some node → node.«match» = some matching →
    nodeAt nodes matching = some ret → ret.«match» = none
  unique : ∀ x y (nx ny : Node V), nodeAt nodes x = some nx → nodeAt nodes y = some ny → nx.id = ny.id →
    nx.«match».isSome = ny.«match».isSome → x = y
  bounded : ∀ x node, nodeAt nodes x = some node → node.id < nodes.length / 2

theorem WellFormed.alive_insert {nodes : List (Node V)} (wf : WellFormed nodes) {linearized : Finset Nat}
    {x matching : Nat} {node : Node V} (found : nodeAt nodes x = some node)
    (isMatch : node.«match» = some matching) (y : Nat) :
    alive nodes (insert node.id linearized) y = true ↔
      (alive nodes linearized y = true ∧ y ≠ x) ∧ y ≠ matching := by
  obtain ⟨lt,ret,retFound,same⟩ := wf.later x node matching found isMatch
  have pos := (nodeAt_bound found).1
  rcases Nat.eq_zero_or_pos y with rfl | ypos
  · simp; omega
  rw [alive_iff ypos,alive_iff ypos]
  constructor
  · rintro ⟨ny,yFound,unlifted⟩
    rw [Finset.mem_insert,not_or] at unlifted
    refine ⟨⟨⟨ny,yFound,unlifted.2⟩,?_⟩,?_⟩ <;> rintro rfl
    · rw [found] at yFound; cases yFound; exact unlifted.1 rfl
    · rw [retFound] at yFound; cases yFound; exact unlifted.1 same
  · rintro ⟨⟨⟨ny,yFound,unlifted⟩,notCall⟩,notMatch⟩
    refine ⟨ny,yFound,Finset.mem_insert.not.2 (not_or.2 ⟨fun sameId => ?_,unlifted⟩)⟩
    cases kind : ny.«match».isSome
    · exact notMatch (wf.unique y matching ny ret yFound retFound (sameId.trans same.symm)
        (by rw [kind,wf.returns x node matching ret found isMatch retFound]; rfl))
    · exact notCall (wf.unique y x ny node yFound found sameId (by rw [kind,isMatch]; rfl))

/-- Unlifting the frames of `calls` in stack order gives back, frame by frame, links that
thread the list of the set below the frame. -/
def Stacked (nodes : List (Node V)) : Links → List (Nat × S) → Finset Nat → Prop
  | _, [], _ => True
  | links, (call,_) :: calls, linearized => ∃ node matching below, nodeAt nodes call = some node ∧
      node.«match» = some matching ∧ unlift links call matching = some below ∧
      Threads (alive nodes (linearized.erase node.id) · = true) below ∧
      Stacked nodes below calls (linearized.erase node.id)

/-- The variables of the loop refine those of the search over sets, with bitsets of
`size` words. -/
structure Refines (nodes : List (Node V)) (size : Nat) (c : Search S) (a : SetSearch S) : Prop where
  calls : c.calls.map (fun e => (e.entry,e.state)) = a.calls
  state : c.state = a.state
  entry : c.entry = a.entry
  linearized : c.linearized.Represents size a.linearized
  links : Threads (alive nodes a.linearized · = true) c.links
  stacked : Stacked nodes c.links a.calls a.linearized
  hashed : ∀ h, ∀ e ∈ c.cache h, e.linearized.hash = h
  cache : ∀ b t, (∃ h, (⟨b,t⟩ : CacheEntry S) ∈ c.cache h) ↔ ∃ B, (B,t) ∈ a.cache ∧ b.Represents size B

section Refines

variable {model : Model V S} {nodes : List (Node V)} {size : Nat}

theorem Refines.cached {c : Search S} {a : SetSearch S} (ref : Refines nodes size c a)
    {b : Bitset} {B : Finset Nat} (rep : b.Represents size B) (t : S) :
    cacheContains model c.cache ⟨b,t⟩ = a.cache.any (fun seen => decide (seen.1 = B) && model.equal t seen.2) := by
  rw [Bool.eq_iff_iff]
  show (List.any _ _) = true ↔ List.any _ _ = true
  rw [List.any_eq_true,List.any_eq_true]
  constructor
  · rintro ⟨⟨b',t'⟩,mem,same⟩
    simp only [Bool.and_eq_true,Bitset.equals_iff] at same
    obtain ⟨rfl,equal⟩ := same
    obtain ⟨B',cached,rep'⟩ := (ref.cache b t').1 ⟨_,mem⟩
    exact ⟨(B',t'),cached,by simp [equal,(rep.eq_iff rep').1 rfl]⟩
  · rintro ⟨⟨B',t'⟩,cached,same⟩
    simp only [Bool.and_eq_true,decide_eq_true_eq] at same
    obtain ⟨rfl,equal⟩ := same
    obtain ⟨h,mem⟩ := (ref.cache b t').2 ⟨B',cached,rep⟩
    obtain rfl := ref.hashed h _ mem
    exact ⟨⟨b,t'⟩,mem,by simp [equal,Bitset.equals_iff]⟩

theorem Refines.advance {c : Search S} {a : SetSearch S} (ref : Refines nodes size c a) {x : Nat}
    (kept : alive nodes a.linearized x = true) :
    Refines nodes size { c with entry := c.links.next x } { a with entry := nextAlive nodes a.linearized x } :=
  { ref with entry := (ref.links x kept).1.unique (nextAlive_isNext nodes a.linearized x) }

private theorem mem_update_append {cache : UInt64 → List (CacheEntry S)} {key h : UInt64} {new e : CacheEntry S} :
    e ∈ Function.update cache key (cache key ++ [new]) h ↔ e ∈ cache h ∨ h = key ∧ e = new := by
  rw [Function.update_apply]
  split_ifs with same
  · subst same; simp
  · simp [same]

theorem Refines.push {c : Search S} {a : SetSearch S} (ref : Refines nodes size c a)
    {x matching : Nat} {node : Node V} (found : nodeAt nodes x = some node)
    (isMatch : node.«match» = some matching) (unlifted : node.id ∉ a.linearized)
    {b : Bitset} (rep : b.Represents size (insert node.id a.linearized)) {links : Links}
    (threads : Threads (alive nodes (insert node.id a.linearized) · = true) links)
    (undone : unlift links x matching = some c.links) (t : S) :
    Refines nodes size ⟨links,b,Function.update c.cache b.hash (c.cache b.hash ++ [⟨b,t⟩]),⟨x,c.state⟩ :: c.calls,
        t,links.next 0⟩
      ⟨(x,a.state) :: a.calls,t,insert node.id a.linearized,nextAlive nodes (insert node.id a.linearized) 0,
        (insert node.id a.linearized,t) :: a.cache⟩ := by
  have erase : (insert node.id a.linearized).erase node.id = a.linearized := Finset.erase_insert unlifted
  refine ⟨by simp [ref.calls,ref.state],rfl,(threads 0 rfl).1.unique (nextAlive_isNext _ _ 0),rep,threads,
    ⟨node,matching,c.links,found,isMatch,undone,by rw [erase]; exact ref.links,by rw [erase]; exact ref.stacked⟩,
    fun h e mem => ?_,fun b' t' => ?_⟩
  · rcases mem_update_append.1 mem with old | ⟨same,rfl⟩
    · exact ref.hashed h e old
    · exact same.symm
  · constructor
    · rintro ⟨h,mem⟩
      rcases mem_update_append.1 mem with old | ⟨-,new⟩
      · obtain ⟨B,cached,rep'⟩ := (ref.cache b' t').1 ⟨_,old⟩
        exact ⟨B,List.mem_cons_of_mem _ cached,rep'⟩
      · cases new
        exact ⟨_,List.mem_cons_self _ _,rep⟩
    · rintro ⟨B,cached,rep'⟩
      rcases List.mem_cons.1 cached with new | old
      · cases new
        obtain rfl := (rep'.eq_iff rep).2 rfl
        exact ⟨b'.hash,mem_update_append.2 (Or.inr ⟨rfl,rfl⟩)⟩
      · obtain ⟨h,mem⟩ := (ref.cache b' t').2 ⟨B,old,rep'⟩
        exact ⟨h,mem_update_append.2 (Or.inl mem)⟩

theorem Refines.pop {c : Search S} {a : SetSearch S} (ref : Refines nodes size c a)
    {top : CallsEntry S} {calls : List (CallsEntry S)} (stack : c.calls = top :: calls)
    {node : Node V} {matching : Nat} {below : Links} (found : nodeAt nodes top.entry = some node)
    (isMatch : node.«match» = some matching) (undone : unlift c.links top.entry matching = some below)
    {b : Bitset} (rep : b.Represents size (a.linearized.erase node.id)) :
    Refines nodes size ⟨below,b,c.cache,calls,top.state,below.next top.entry⟩
      ⟨calls.map (fun e => (e.entry,e.state)),top.state,a.linearized.erase node.id,
        nextAlive nodes (a.linearized.erase node.id) top.entry,a.cache⟩ := by
  have stacked := ref.stacked
  rw [← ref.calls,stack] at stacked
  obtain ⟨node',matching',below',found',isMatch',undone',threads,stacked⟩ := stacked
  rw [found] at found'; cases found'; rw [isMatch] at isMatch'; cases isMatch'
  rw [undone] at undone'; cases undone'
  have kept : alive nodes (a.linearized.erase node.id) top.entry = true :=
    (alive_iff (nodeAt_bound found).1).2 ⟨node,found,Finset.not_mem_erase _ _⟩
  exact ⟨rfl,rfl,(threads _ kept).1.unique (nextAlive_isNext _ _ _),rep,threads,stacked,ref.hashed,ref.cache⟩

theorem Refines.iterate (wf : WellFormed nodes) (fits : nodes.length / 2 ≤ 64 * size)
    {c : Search S} {a : SetSearch S} (ref : Refines nodes size c a) (shape : Shape nodes a)
    {r : Bool ⊕ SetSearch S} (stepped : SetSearch.iterate model nodes a = some r) :
    ∃ r', Search.iterate model nodes c = some r' ∧ Sum.LiftRel (· = ·) (Refines nodes size) r' r := by
  obtain ⟨x,cursor⟩ : ∃ x, a.entry = some x := by
    cases cursor : a.entry with
    | some x => exact ⟨x,rfl⟩
    | none => rw [SetSearch.iterate,cursor,Option.none_bind] at stepped; cases stepped
  obtain ⟨links,linearized,cache,frames,state,entry⟩ := c
  obtain rfl : state = a.state := ref.state
  obtain ⟨pos,kept⟩ := shape.entry x cursor
  obtain ⟨node,found,unlifted⟩ := (alive_iff pos).1 kept
  obtain rfl : entry = some x := ref.entry.trans cursor
  have bound := (wf.bounded x node found).trans_le fits
  cases isMatch : node.«match» with
  | some matching =>
    obtain ⟨lt,ret,retFound,same⟩ := wf.later x node matching found isMatch
    obtain ⟨b,setOk,rep⟩ := ref.linearized.set bound
    simp only [SetSearch.iterate,cursor,found,isMatch,retFound,Option.some_bind,Option.map_some',
      Option.some.injEq] at stepped
    subst stepped
    simp only [Search.iterate,found,isMatch,retFound,Option.some_bind,Bitset.clone,setOk,
      ref.cached rep,Bool.not_eq_true',← Bool.not_eq_true,ite_not]
    split_ifs
    · exact ⟨_,rfl,.inr (ref.advance kept)⟩
    · have keptMatch : alive nodes a.linearized matching = true :=
        (alive_iff (by omega)).2 ⟨ret,retFound,same ▸ unlifted⟩
      obtain ⟨lifted,liftOk,threads,undone⟩ := lift_threads ref.links kept keptMatch pos lt
      exact ⟨_,by rw [liftOk]; rfl,.inr (ref.push found isMatch unlifted rep
        (threads.congr fun y => (wf.alive_insert found isMatch y).symm) undone _)⟩
    · exact ⟨_,rfl,.inr (ref.advance kept)⟩
  | none =>
    have sameCalls : frames.map (fun e => (e.entry,e.state)) = a.calls := ref.calls
    have stacked : Stacked nodes links a.calls a.linearized := ref.stacked
    cases stack : a.calls with
    | nil =>
      rw [stack,List.map_eq_nil_iff] at sameCalls
      simp only [SetSearch.iterate,cursor,found,isMatch,stack,Option.some_bind,Option.some.injEq] at stepped
      subst stepped sameCalls
      exact ⟨_,by simp only [Search.iterate,Option.some_bind,found,isMatch],.inl rfl⟩
    | cons frame rest =>
      obtain ⟨call,before⟩ := frame
      rw [stack,List.map_eq_cons_iff] at sameCalls
      obtain ⟨top,tail,rfl,⟨⟩,rfl⟩ := sameCalls
      rw [stack] at stacked
      obtain ⟨top',matching,below,topFound,topMatch,undone,-⟩ := stacked
      obtain ⟨b,clearOk,rep⟩ := ref.linearized.clear ((wf.bounded _ top' topFound).trans_le fits)
      simp only [SetSearch.iterate,cursor,found,isMatch,stack,topFound,Option.some_bind,Option.map_some',
        Option.some.injEq] at stepped
      subst stepped
      exact ⟨_,by simp only [Search.iterate,Option.some_bind,found,isMatch,topFound,clearOk,topMatch,undone,
        Option.map_some'],
        .inr (ref.pop rfl topFound topMatch undone rep)⟩

theorem Refines.run (wf : WellFormed nodes) (fits : nodes.length / 2 ≤ 64 * size) (kill : Nat → Int)
    {c : Search S} {a : SetSearch S} (ref : Refines nodes size c a) (shape : Shape nodes a) (fuel t : Nat) :
    Search.run model nodes kill fuel t c = SetSearch.run model nodes fuel a ∨
      (∃ t, kill t ≠ 0) ∧ Search.run model nodes kill fuel t c = some false := by
  induction fuel generalizing c a t with
  | zero => exact Or.inl rfl
  | succ fuel ih =>
    have head : c.links.next 0 = nextAlive nodes a.linearized 0 :=
      (ref.links 0 alive_zero).1.unique (nextAlive_isNext _ _ 0)
    by_cases ended : nextAlive nodes a.linearized 0 = none
    · exact Or.inl (by simp [Search.run,SetSearch.run,head,ended])
    by_cases killed : kill t = 0
    · obtain ⟨r,stepped⟩ := shape.iterate_isSome model wf.later ended
      obtain ⟨r',concrete,related⟩ := ref.iterate wf fits shape stepped
      cases related with
      | inl same => subst same; exact Or.inl (by simp [Search.run,SetSearch.run,head,ended,killed,stepped,concrete])
      | inr ref' =>
        simpa [Search.run,SetSearch.run,head,ended,killed,stepped,concrete] using
          ih ref' (shape.next wf.later stepped).1 (t + 1)
    · exact Or.inr ⟨⟨t,killed⟩,by simp [Search.run,head,ended,killed]⟩

end Refines

private theorem refines_start (model : Model V S) (entries : List (Entry V)) :
    Refines (makeLinkedEntries entries).nodes (newBitset (entries.length / 2)).length
      ⟨insertBefore (makeLinkedEntries entries).links 0 (makeLinkedEntries entries).root,
        newBitset (entries.length / 2),fun _ => [],[],model.init,(makeLinkedEntries entries).root⟩
      (SetSearch.start model (makeLinkedEntries entries).nodes) := by
  obtain ⟨root,-,-,count⟩ := makeLinkedEntries_links entries
  have threads : Threads (alive (makeLinkedEntries entries).nodes ∅ · = true)
      (insertBefore (makeLinkedEntries entries).links 0 (makeLinkedEntries entries).root) :=
    (threads_head entries).congr fun x => by rw [alive_empty,count]
  refine ⟨rfl,rfl,?_,Bitset.represents_newBitset _,threads,trivial,fun _ _ => nofun,fun _ _ => by simp [SetSearch.start]⟩
  show _ = nextAlive _ ∅ 0
  rw [← (threads 0 alive_zero).1.unique (nextAlive_isNext _ _ 0),(insertBefore_head entries).1,root]
  split_ifs <;> first | rfl | omega

theorem checkSingle_eq_run (model : Model V S) {entries : List (Entry V)} (wf : WellFormed (makeLinkedEntries entries).nodes) (kill : Nat → Int) :
    checkSingle model (makeLinkedEntries entries) kill =
      SetSearch.run model (makeLinkedEntries entries).nodes
        (((makeLinkedEntries entries).nodes.length + 2) ^ ((makeLinkedEntries entries).nodes.length + 1) + 1)
        (SetSearch.start model (makeLinkedEntries entries).nodes) ∨
      (∃ t, kill t ≠ 0) ∧ checkSingle model (makeLinkedEntries entries) kill = some false := by
  obtain ⟨-,-,-,count⟩ := makeLinkedEntries_links entries
  have fits : (makeLinkedEntries entries).nodes.length / 2 ≤ 64 * (newBitset (entries.length / 2)).length := by
    simp only [newBitset,List.length_replicate,count]
    split_ifs <;> omega
  simp only [checkSingle,length_makeLinkedEntries,Option.some_bind]
  exact (refines_start model entries).run wf fits kill SetSearch.start_invariant.shape _ 0

end Sentinel.Linearizability
