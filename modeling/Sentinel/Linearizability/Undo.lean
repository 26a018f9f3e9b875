import Sentinel.Linearizability.Events

/-! The dancing-links undo of `checkSingle`, as runs of `lift` and `unlift` calls on the list
`makeLinkedEntries` builds behind the head node. A run is in stack order when it lifts only
call nodes still in the list and unlifts only the latest outstanding lift.

Along such a run the links thread the nodes of the list, and unlifting the outstanding frames
one by one gives back, frame by frame, links threading the list below. So `lift` removes
exactly the call node and its match, a block of lifts and unlifts that closes every lift it
opens leaves every link as it found it, and the list depends only on the set of outstanding
lifts. All of it rests on no two call nodes sharing a match, which holds for every list built
from a history; with two calls of one id before its returns, a later `lift` rewires the list
through a node already out of it. -/

namespace Sentinel.Linearizability

variable {V : Type}

/-- The match of node `x`: `none` for the head, a return node or past the arena. -/
def matchOf (nodes : List (Node V)) (x : Nat) : Option Nat := (nodeAt nodes x).bind (·.«match»)

@[simp] theorem matchOf_zero (nodes : List (Node V)) : matchOf nodes 0 = none := rfl

private theorem matchOf_bound {nodes : List (Node V)} {x m : Nat} (found : matchOf nodes x = some m) :
    0 < x ∧ x ≤ nodes.length := by
  obtain ⟨_,nodeFound,-⟩ := Option.bind_eq_some.1 found
  exact nodeAt_bound nodeFound

/-- A call of `lift(entry)` or `unlift(entry)`. -/
inductive LinkOp
  | lift (entry : Nat)
  | unlift (entry : Nat)
deriving DecidableEq, Repr

/-- The calls `ops` made in order from `links`; each reads `entry.match` from the node, so a
call on a node without one dereferences `nil`. -/
def runLinkOps (nodes : List (Node V)) (links : Links) : List LinkOp → Option Links
  | [] => some links
  | .lift entry :: ops => (matchOf nodes entry).bind fun m => (lift links entry m).bind (runLinkOps nodes · ops)
  | .unlift entry :: ops => (matchOf nodes entry).bind fun m => (unlift links entry m).bind (runLinkOps nodes · ops)

/-- The lifts still outstanding after `ops`, the latest first: a lift pushes, an unlift pops. -/
def LinkOp.stackAfter : List Nat → List LinkOp → List Nat
  | stack, [] => stack
  | stack, .lift entry :: ops => stackAfter (entry :: stack) ops
  | stack, .unlift _ :: ops => stackAfter stack.tail ops

open LinkOp (stackAfter)

/-- Node `x` is in the list while the calls of `stack` are lifted: the head or a node of the
arena that is neither a lifted call nor its match. -/
def InList (nodes : List (Node V)) (stack : List Nat) (x : Nat) : Prop :=
  x ≤ nodes.length ∧ x ∉ stack ∧ ∀ e ∈ stack, matchOf nodes e ≠ some x

instance (nodes : List (Node V)) (stack : List Nat) (x : Nat) : Decidable (InList nodes stack x) :=
  inferInstanceAs (Decidable (x ≤ nodes.length ∧ x ∉ stack ∧ ∀ e ∈ stack, matchOf nodes e ≠ some x))

/-- `ops` lifts only call nodes in the list and unlifts only the latest outstanding lift. -/
def StackOrder (nodes : List (Node V)) : List Nat → List LinkOp → Prop
  | _, [] => True
  | stack, .lift entry :: ops => InList nodes stack entry ∧ (matchOf nodes entry).isSome ∧
      StackOrder nodes (entry :: stack) ops
  | stack, .unlift entry :: ops => stack.head? = some entry ∧ StackOrder nodes stack.tail ops

instance decidableStackOrder (nodes : List (Node V)) : ∀ stack ops, Decidable (StackOrder nodes stack ops)
  | _, [] => isTrue trivial
  | stack, .lift entry :: ops =>
    have := decidableStackOrder nodes (entry :: stack) ops
    inferInstanceAs (Decidable (InList nodes stack entry ∧ (matchOf nodes entry).isSome ∧
      StackOrder nodes (entry :: stack) ops))
  | stack, .unlift entry :: ops =>
    have := decidableStackOrder nodes stack.tail ops
    inferInstanceAs (Decidable (stack.head? = some entry ∧ StackOrder nodes stack.tail ops))

/-- A block of calls that closes every lift it opens, each by the unlift of the same node. -/
inductive Balanced : List LinkOp → Prop
  | nil : Balanced []
  | block {entry : Nat} {inner rest : List LinkOp} :
      Balanced inner → Balanced rest → Balanced (.lift entry :: inner ++ .unlift entry :: rest)

/-- No two call nodes have the same match. -/
def DistinctMatches (nodes : List (Node V)) : Prop :=
  ∀ x ≤ nodes.length, ∀ y ≤ nodes.length, (matchOf nodes x).isSome → matchOf nodes x = matchOf nodes y → x = y

instance (nodes : List (Node V)) : Decidable (DistinctMatches nodes) :=
  inferInstanceAs (Decidable (∀ x ≤ nodes.length, ∀ y ≤ nodes.length,
    (matchOf nodes x).isSome → matchOf nodes x = matchOf nodes y → x = y))

theorem DistinctMatches.eq {nodes : List (Node V)} (distinct : DistinctMatches nodes) {x y m : Nat}
    (xFound : matchOf nodes x = some m) (yFound : matchOf nodes y = some m) : x = y :=
  distinct x (matchOf_bound xFound).2 y (matchOf_bound yFound).2 (by simp [xFound]) (xFound.trans yFound.symm)

theorem WellFormed.distinctMatches {nodes : List (Node V)} (wf : WellFormed nodes) : DistinctMatches nodes := by
  intro x _ y _ isCall same
  obtain ⟨m,xFound⟩ := Option.isSome_iff_exists.1 isCall
  obtain ⟨nx,xAt,xMatch⟩ := Option.bind_eq_some.1 xFound
  obtain ⟨ny,yAt,yMatch⟩ := Option.bind_eq_some.1 (same ▸ xFound)
  obtain ⟨-,ret,retAt,xId⟩ := wf.later x nx m xAt xMatch
  obtain ⟨-,ret',retAt',yId⟩ := wf.later y ny m yAt yMatch
  rw [retAt] at retAt'
  cases retAt'
  exact wf.unique x y nx ny xAt yAt (xId.symm.trans yId) (by rw [xMatch,yMatch])

/-- What the undo needs of the nodes: a call node's match is a later return node of the
arena, and no two call nodes share one. -/
structure Matched (nodes : List (Node V)) : Prop where
  later : ∀ x m, matchOf nodes x = some m → x < m ∧ m ≤ nodes.length ∧ matchOf nodes m = none
  distinct : DistinctMatches nodes

private theorem makeLinkedEntries_matched {entries : List (Entry V)} (distinct : DistinctMatches (makeLinkedEntries entries).nodes) :
    Matched (makeLinkedEntries entries).nodes where
  later x m found := by
    obtain ⟨node,nodeAt,isMatch⟩ := Option.bind_eq_some.1 found
    obtain ⟨lt,_,retAt⟩ := makeLinkedEntries_match nodeAt isMatch
    exact ⟨lt,(nodeAt_bound retAt).2,by simp [matchOf,retAt]⟩
  distinct := distinct

/-! ### Runs in stack order -/

section Runs

variable {nodes : List (Node V)} {stack stack' : List Nat} {links : Links} {entry m x : Nat}

private theorem inList_cons (found : matchOf nodes entry = some m) :
    InList nodes (entry :: stack) x ↔ (InList nodes stack x ∧ x ≠ entry) ∧ x ≠ m := by
  simp only [InList,List.mem_cons,not_or,or_imp,forall_and,forall_eq,found,ne_eq,Option.some.injEq,
    @eq_comm _ m x]
  tauto

private theorem inList_congr (same : ∀ x, x ∈ stack ↔ x ∈ stack') : InList nodes stack x ↔ InList nodes stack' x := by
  simp only [InList,same]

/-- The links thread the nodes in the list, and the head has no `prev`. -/
structure Threaded (nodes : List (Node V)) (stack : List Nat) (links : Links) : Prop where
  threads : Threads (InList nodes stack) links
  headPrev : links.prev 0 = none

/-- Unlifting the frames of `stack` in order gives back, frame by frame, links that thread
the list below the frame. -/
inductive Unlifts (nodes : List (Node V)) : Links → List Nat → Prop
  | nil (links : Links) : Unlifts nodes links []
  | cons {links below : Links} {entry m : Nat} {stack : List Nat} : matchOf nodes entry = some m →
      unlift links entry m = some below → Threaded nodes stack below → Unlifts nodes below stack →
      Unlifts nodes links (entry :: stack)

theorem Unlifts.isCall {links : Links} {stack : List Nat} (frames : Unlifts nodes links stack) :
    ∀ e ∈ stack, (matchOf nodes e).isSome := by
  induction frames with
  | nil => exact fun _ => False.elim ∘ List.not_mem_nil _
  | cons found _ _ _ calls => exact List.forall_mem_cons.2 ⟨by simp [found],calls⟩

theorem Matched.inList (matched : Matched nodes) (frames : Unlifts nodes links stack)
    (kept : InList nodes stack entry) (found : matchOf nodes entry = some m) : InList nodes stack m := by
  obtain ⟨-,bound,ret⟩ := matched.later entry m found
  refine ⟨bound,fun lifted => ?_,fun e lifted same => kept.2.1 ?_⟩
  · simpa [ret] using frames.isCall m lifted
  · rwa [← matched.distinct.eq same found]

theorem Threaded.congr (threaded : Threaded nodes stack links) (same : ∀ x, x ∈ stack ↔ x ∈ stack') :
    Threaded nodes stack' links :=
  ⟨threaded.threads.congr fun _ => inList_congr same,threaded.headPrev⟩

theorem Threaded.links_eq {links' : Links} (threaded : Threaded nodes stack links)
    (threaded' : Threaded nodes stack links') (kept : InList nodes stack x) :
    links.next x = links'.next x ∧ links.prev x = links'.prev x := by
  refine ⟨(threaded.threads x kept).1.unique (threaded'.threads x kept).1,?_⟩
  rcases Nat.eq_zero_or_pos x with rfl | pos
  · rw [threaded.headPrev,threaded'.headPrev]
  · obtain ⟨y,found,prev⟩ := (threaded.threads x kept).2 pos
    obtain ⟨y',found',prev'⟩ := (threaded'.threads x kept).2 pos
    rw [found,found',prev.unique prev']

theorem Threaded.lift (matched : Matched nodes) (threaded : Threaded nodes stack links)
    (frames : Unlifts nodes links stack) (kept : InList nodes stack entry) (found : matchOf nodes entry = some m) :
    ∃ links', lift links entry m = some links' ∧ Threaded nodes (entry :: stack) links' ∧
      unlift links' entry m = some links := by
  obtain ⟨order,-,-⟩ := matched.later entry m found
  have keptMatch := matched.inList frames kept found
  have pos : 0 < entry := (matchOf_bound found).1
  obtain ⟨links',lifted,threads,unlifted⟩ := lift_threads threaded.threads kept keptMatch pos order
  exact ⟨links',lifted,⟨threads.congr fun _ => (inList_cons found).symm,
    (lift_prev_zero threaded.threads kept keptMatch pos order lifted).trans threaded.headPrev⟩,unlifted⟩

private theorem stackAfter_append (ops ops' : List LinkOp) (stack : List Nat) :
    stackAfter stack (ops ++ ops') = stackAfter (stackAfter stack ops) ops' := by
  induction ops generalizing stack with
  | nil => rfl
  | cons op ops ih => cases op <;> exact ih _

private theorem stackOrder_append {ops ops' : List LinkOp} :
    StackOrder nodes stack (ops ++ ops') ↔ StackOrder nodes stack ops ∧ StackOrder nodes (stackAfter stack ops) ops' := by
  induction ops generalizing stack with
  | nil => simp [StackOrder,stackAfter]
  | cons op ops ih => cases op <;> simp [StackOrder,stackAfter,ih,and_assoc]

private theorem runLinkOps_append (ops ops' : List LinkOp) (links : Links) :
    runLinkOps nodes links (ops ++ ops') = (runLinkOps nodes links ops).bind (runLinkOps nodes · ops') := by
  induction ops generalizing links with
  | nil => rfl
  | cons op ops ih => cases op <;> simp [runLinkOps,ih,Option.bind_assoc]

theorem Threaded.run (matched : Matched nodes) {ops : List LinkOp} :
    ∀ {stack links}, StackOrder nodes stack ops → Threaded nodes stack links → Unlifts nodes links stack →
      ∃ links', runLinkOps nodes links ops = some links' ∧ Threaded nodes (stackAfter stack ops) links' ∧
        Unlifts nodes links' (stackAfter stack ops) := by
  induction ops with
  | nil => exact fun _ threaded frames => ⟨_,rfl,threaded,frames⟩
  | cons op ops ih =>
    intro stack links order threaded frames
    cases op with
    | lift entry =>
      obtain ⟨kept,isCall,order⟩ := order
      obtain ⟨m,found⟩ := Option.isSome_iff_exists.1 isCall
      obtain ⟨links',lifted,threaded',unlifted⟩ := threaded.lift matched frames kept found
      obtain ⟨links'',ran,rest⟩ := ih order threaded' (.cons found unlifted threaded frames)
      exact ⟨links'',by simp [runLinkOps,found,lifted,ran],rest⟩
    | unlift entry =>
      obtain ⟨top,order⟩ := order
      cases frames with
      | nil => cases top
      | cons found unlifted below frames =>
        cases top
        obtain ⟨links',ran,rest⟩ := ih order below frames
        exact ⟨links',by simp [runLinkOps,found,unlifted,ran],rest⟩

theorem Balanced.stackAfter {ops : List LinkOp} (balanced : Balanced ops) (stack : List Nat) :
    stackAfter stack ops = stack := by
  induction balanced generalizing stack with
  | nil => rfl
  | block _ _ inner rest => simp [LinkOp.stackAfter,stackAfter_append,inner,rest]

theorem Balanced.run (matched : Matched nodes) {ops : List LinkOp} (balanced : Balanced ops) :
    ∀ {stack links}, StackOrder nodes stack ops → Threaded nodes stack links → Unlifts nodes links stack →
      runLinkOps nodes links ops = some links := by
  induction balanced with
  | nil => exact fun _ _ _ => rfl
  | @block entry inner rest innerBalanced _ innerRun restRun =>
    intro stack links order threaded frames
    rw [List.cons_append] at order ⊢
    obtain ⟨kept,isCall,order⟩ := order
    rw [stackOrder_append,innerBalanced.stackAfter] at order
    obtain ⟨innerOrder,-,restOrder⟩ := order
    obtain ⟨m,found⟩ := Option.isSome_iff_exists.1 isCall
    obtain ⟨links',lifted,threaded',unlifted⟩ := threaded.lift matched frames kept found
    simp only [runLinkOps,found,lifted,Option.some_bind,runLinkOps_append,
      innerRun innerOrder threaded' (.cons found unlifted threaded frames),unlifted]
    exact restRun restOrder threaded frames

end Runs

private theorem threaded_head (entries : List (Entry V)) :
    Threaded (makeLinkedEntries entries).nodes []
      (insertBefore (makeLinkedEntries entries).links 0 (makeLinkedEntries entries).root) where
  threads := (threads_head entries).congr fun _ => by simp [InList,(makeLinkedEntries_links entries).2.2.2]
  headPrev := by simp [(insertBefore_head entries).2]

/-- On the list `makeLinkedEntries` builds behind the head, when no two call nodes share a
match: (a) after a run in stack order, `lift(entry)` takes out exactly `entry` and its match,
both in the list, and threads the rest; (b) the `unlift` that closes a lift, with a balanced
block between them, gives back every link as it was before the lift; (c) two runs in stack
order with the same set of outstanding lifts agree on every node of the list. -/
theorem lift_unlift_undo_exact (entries : List (Entry V)) (distinct : DistinctMatches (makeLinkedEntries entries).nodes) :
    let nodes := (makeLinkedEntries entries).nodes
    let start := insertBefore (makeLinkedEntries entries).links 0 (makeLinkedEntries entries).root
    (∀ pre entry m, StackOrder nodes [] (pre ++ [.lift entry]) → matchOf nodes entry = some m →
      ∃ links links', runLinkOps nodes start pre = some links ∧ runLinkOps nodes start (pre ++ [.lift entry]) = some links' ∧
        InList nodes (stackAfter [] pre) entry ∧ InList nodes (stackAfter [] pre) m ∧
        Threads (InList nodes (stackAfter [] pre)) links ∧
        Threads (fun x => (InList nodes (stackAfter [] pre) x ∧ x ≠ entry) ∧ x ≠ m) links') ∧
    (∀ pre entry mid, StackOrder nodes [] (pre ++ (.lift entry :: mid ++ [.unlift entry])) → Balanced mid →
      ∃ links, runLinkOps nodes start pre = some links ∧
        runLinkOps nodes start (pre ++ (.lift entry :: mid ++ [.unlift entry])) = some links) ∧
    (∀ ops ops', StackOrder nodes [] ops → StackOrder nodes [] ops' → (∀ x, x ∈ stackAfter [] ops ↔ x ∈ stackAfter [] ops') →
      ∃ links links', runLinkOps nodes start ops = some links ∧ runLinkOps nodes start ops' = some links' ∧
        ∀ x, InList nodes (stackAfter [] ops) x → links.next x = links'.next x ∧ links.prev x = links'.prev x) := by
  intro nodes start
  have matched : Matched nodes := makeLinkedEntries_matched distinct
  have run : ∀ {ops}, StackOrder nodes [] ops → ∃ links, runLinkOps nodes start ops = some links ∧
      Threaded nodes (stackAfter [] ops) links ∧ Unlifts nodes links (stackAfter [] ops) :=
    fun order => Threaded.run matched order (threaded_head entries) (.nil _)
  refine ⟨fun pre entry m order found => ?_,fun pre entry mid order balanced => ?_,fun ops ops' order order' same => ?_⟩
  · obtain ⟨before,⟨kept,-,-⟩⟩ := stackOrder_append.1 order
    obtain ⟨links,ran,threaded,frames⟩ := run before
    obtain ⟨links',lifted,threaded',-⟩ := threaded.lift matched frames kept found
    exact ⟨links,links',ran,by simp [runLinkOps_append,ran,runLinkOps,found,lifted],kept,
      matched.inList frames kept found,threaded.threads,threaded'.threads.congr fun _ => inList_cons found⟩
  · obtain ⟨before,block⟩ := stackOrder_append.1 order
    obtain ⟨links,ran,threaded,frames⟩ := run before
    exact ⟨links,ran,by rw [runLinkOps_append,ran,Option.some_bind,(Balanced.block balanced .nil).run matched block threaded frames]⟩
  · obtain ⟨links,ran,threaded,-⟩ := run order
    obtain ⟨links',ran',threaded',-⟩ := run order'
    exact ⟨links,links',ran,ran',fun x kept => threaded.links_eq (threaded'.congr fun y => (same y).symm) kept⟩

/-- Two overlapping operations, `0` and `1`: their calls, then their returns. -/
def twoCalls : List (Entry Nat) := [⟨false,0,0,0⟩,⟨false,0,1,0⟩,⟨true,0,0,0⟩,⟨true,0,1,0⟩]

/-- Lifting both calls, the second nested in the first, and unlifting them gives back the
links of the list. -/
theorem twoCalls_nested_undo :
    DistinctMatches (makeLinkedEntries twoCalls).nodes ∧
    ∃ links, runLinkOps (makeLinkedEntries twoCalls).nodes
        (insertBefore (makeLinkedEntries twoCalls).links 0 (makeLinkedEntries twoCalls).root) [] = some links ∧
      runLinkOps (makeLinkedEntries twoCalls).nodes
        (insertBefore (makeLinkedEntries twoCalls).links 0 (makeLinkedEntries twoCalls).root)
        [.lift 1,.lift 2,.unlift 2,.unlift 1] = some links :=
  have distinct : DistinctMatches (makeLinkedEntries twoCalls).nodes := (Paired.wellFormed (show Paired twoCalls 2 by decide)).distinctMatches
  ⟨distinct,(lift_unlift_undo_exact twoCalls distinct).2.1 [] 1 [.lift 2,.unlift 2] (by decide)
    (@Balanced.block 2 [] [] .nil .nil)⟩

/-- Two calls of id `0` before its two returns: both call nodes have node `3` as match. -/
def sharedReturn : List (Entry Nat) := [⟨false,0,0,0⟩,⟨false,0,0,0⟩,⟨true,0,0,0⟩,⟨true,0,0,0⟩]

/-- After `lift(1)`, node `2` is a call node in the list, but its match is already out: its
`lift` leaves node `4` pointing back at node `2`, which is out of the list, and its `unlift`
links node `3` back where `lift(1)` had taken it out. -/
theorem shared_match_breaks_undo :
    let nodes := (makeLinkedEntries sharedReturn).nodes
    let start := insertBefore (makeLinkedEntries sharedReturn).links 0 (makeLinkedEntries sharedReturn).root
    ¬ DistinctMatches nodes ∧ StackOrder nodes [] [.lift 1,.lift 2,.unlift 2] ∧
      InList nodes [2,1] 4 ∧ ¬ InList nodes [2,1] 2 ∧
      (runLinkOps nodes start [.lift 1,.lift 2]).map (·.prev 4) = some (some 2) ∧
      (runLinkOps nodes start [.lift 1]).map (·.next 2) = some (some 4) ∧
      (runLinkOps nodes start [.lift 1,.lift 2,.unlift 2]).map (·.next 2) = some (some 3) := by
  decide

end Sentinel.Linearizability
