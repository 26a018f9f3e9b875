import Sentinel.Linearizability.LinkedList
import Mathlib.Data.Finset.Card

/-! The search of `checkSingle` over sets: the loop with the bitset `linearized` as the
set of lifted operation ids, the cache as a list of (set, state) pairs, and the list
as the nodes whose operation is not lifted. `Completes` says what the search looks
for: call nodes that can be linearized one after the other, each with no unlifted
return before it, until no node is left.

The loop keeps an `Invariant`. The frames of `calls` were each lifted with nothing
but refuted calls before them; every unlifted call before the cursor is refuted; and
every cached pair is on the stack or has no completion. So a return at the cursor
refutes the top frame, the cache prunes only refuted branches, and the search ends
with `true` exactly when a completion exists. Each pass raises the stack of cursor
positions, read as digits, which bounds the passes. -/

namespace Sentinel.Linearizability

variable {V S : Type}

/-- Node `x` is in the list once the operations in `linearized` are lifted: the head,
or a node whose operation is not lifted. -/
def alive (nodes : List (Node V)) (linearized : Finset Nat) (x : Nat) : Bool :=
  x == 0 || (nodeAt nodes x).any fun node => node.id ∉ linearized

/-- Node `x` is a call node: it has a `match`. -/
def isCall (nodes : List (Node V)) (x : Nat) : Bool :=
  (nodeAt nodes x).any fun node => node.«match».isSome

/-- The first of the `k` nodes after `x` that `alive` keeps. -/
def seek (alive : Nat → Bool) (x : Nat) : Nat → Option Nat
  | 0 => none
  | k + 1 => if alive (x + 1) then some (x + 1) else seek alive (x + 1) k

/-- The node after `x` in the list. -/
def nextAlive (nodes : List (Node V)) (linearized : Finset Nat) (x : Nat) : Option Nat :=
  seek (alive nodes linearized) x (nodes.length - x)

/-- The variables of `checkSingle`'s loop, with sets for bitsets: the stack `calls` of
lifted call nodes with the state before each, `state`, `linearized`, the cursor
`entry`, and the cached pairs. -/
structure SetSearch (S : Type) where
  calls : List (Nat × S)
  state : S
  linearized : Finset Nat
  entry : Option Nat
  cache : List (Finset Nat × S)

section Nodes

variable {nodes : List (Node V)} {linearized : Finset Nat} {x : Nat}

theorem nodeAt_bound {node : Node V} (found : nodeAt nodes x = some node) : 0 < x ∧ x ≤ nodes.length := by
  cases x with
  | zero => simp [nodeAt] at found
  | succ x => exact ⟨by omega,(List.getElem?_eq_some_iff.1 found).1⟩

@[simp] theorem alive_zero : alive nodes linearized 0 = true := rfl

theorem alive_iff (pos : 0 < x) :
    alive nodes linearized x = true ↔ ∃ node, nodeAt nodes x = some node ∧ node.id ∉ linearized := by
  cases found : nodeAt nodes x <;> simp [alive,Nat.pos_iff_ne_zero.1 pos,found]

private theorem alive_bound (kept : alive nodes linearized x = true) : x ≤ nodes.length := by
  rcases Nat.eq_zero_or_pos x with rfl | pos
  · omega
  · obtain ⟨_,found,_⟩ := (alive_iff pos).1 kept
    exact (nodeAt_bound found).2

theorem alive_empty : alive nodes ∅ x = true ↔ x ≤ nodes.length := by
  rcases Nat.eq_zero_or_pos x with rfl | pos
  · simp
  · rw [alive_iff pos]
    refine ⟨fun ⟨_,found,_⟩ => (nodeAt_bound found).2,fun bound => ?_⟩
    obtain ⟨x,rfl⟩ := Nat.exists_eq_succ_of_ne_zero pos.ne'
    exact ⟨_,List.getElem?_eq_getElem (by omega),Finset.not_mem_empty _⟩

theorem isCall_iff : isCall nodes x = true ↔ ∃ node, nodeAt nodes x = some node ∧ node.«match».isSome := by
  cases found : nodeAt nodes x <;> simp [isCall,found]

private theorem seek_isNext (keep : Nat → Bool) (x k : Nat) (bound : ∀ z, keep z → z ≤ x + k) :
    IsNext (keep · = true) x (seek keep x k) := by
  induction k generalizing x with
  | zero => exact fun z lt kept => by have := bound z kept; omega
  | succ k ih =>
    simp only [seek]
    split_ifs with kept
    · exact ⟨by omega,kept,fun z lt lt' => by omega⟩
    · have next := ih (x + 1) fun z kept => by have := bound z kept; omega
      cases found : seek keep (x + 1) k with
      | none =>
        rw [found] at next
        exact fun z lt => if same : z = x + 1 then same ▸ kept else next z (by omega)
      | some y =>
        rw [found] at next
        exact ⟨by have := next.1; omega,next.2.1,fun z lt lt' =>
          if same : z = x + 1 then same ▸ kept else next.2.2 z (by omega) lt'⟩

theorem nextAlive_isNext (nodes : List (Node V)) (linearized : Finset Nat) (x : Nat) :
    IsNext (alive nodes linearized · = true) x (nextAlive nodes linearized x) :=
  seek_isNext _ x _ fun z kept => by have := alive_bound kept; omega

end Nodes

/-- Every call node's `match` is a later node of the same operation. -/
def MatchesLater (nodes : List (Node V)) : Prop :=
  ∀ x node matching, nodeAt nodes x = some node → node.«match» = some matching →
    x < matching ∧ ∃ ret, nodeAt nodes matching = some ret ∧ ret.id = node.id

theorem MatchesLater.next_isSome {nodes : List (Node V)} (later : MatchesLater nodes)
    {linearized : Finset Nat} {x matching : Nat} {node : Node V} (found : nodeAt nodes x = some node)
    (call : node.«match» = some matching) (unlifted : node.id ∉ linearized) :
    ∃ y, nextAlive nodes linearized x = some y := by
  obtain ⟨lt,ret,retFound,same⟩ := later x node matching found call
  have next := nextAlive_isNext nodes linearized x
  cases found' : nextAlive nodes linearized x with
  | none =>
    rw [found'] at next
    exact absurd ((alive_iff (by omega)).2 ⟨ret,retFound,same ▸ unlifted⟩) (next matching lt)
  | some y => exact ⟨y,rfl⟩

namespace SetSearch

variable (model : Model V S) (nodes : List (Node V))

/-- One pass of the loop body. `none` where the code dereferences `nil`, `.inl` where it
returns. -/
def iterate (s : SetSearch S) : Option (Bool ⊕ SetSearch S) :=
  s.entry.bind fun entry => (nodeAt nodes entry).bind fun node =>
  match node.«match» with
  | some matching => (nodeAt nodes matching).map fun ret =>
    let step := model.step s.state node.value ret.value
    let linearized := insert node.id s.linearized
    if step.1 then
      if s.cache.any fun seen => decide (seen.1 = linearized) && model.equal step.2 seen.2 then
        .inr { s with entry := nextAlive nodes s.linearized entry }
      else .inr ⟨(entry,s.state) :: s.calls,step.2,linearized,nextAlive nodes linearized 0,
        (linearized,step.2) :: s.cache⟩
    else .inr { s with entry := nextAlive nodes s.linearized entry }
  | none => match s.calls with
    | [] => some (.inl false)
    | (call,state) :: calls => (nodeAt nodes call).map fun node =>
      let linearized := s.linearized.erase node.id
      .inr { s with calls, state, linearized, entry := nextAlive nodes linearized call }

/-- The loop, for at most `fuel` passes: it ends with `true` once the list is empty. -/
def run : Nat → SetSearch S → Option Bool
  | 0, _ => none
  | fuel + 1, s =>
    if nextAlive nodes s.linearized 0 = none then some true
    else (iterate model nodes s).bind (Sum.elim some (run fuel))

/-- The search before its first pass. -/
def start : SetSearch S := ⟨[],model.init,∅,nextAlive nodes ∅ 0,[]⟩

end SetSearch

/-! ### What the search looks for -/

section Spec

variable (model : Model V S) (nodes : List (Node V))

/-- `order` lists call nodes that linearize one after the other from `linearized` and
`state`: each is an unlifted call node with no unlifted return before it, which the
model accepts, and the list ends once every node is lifted. -/
def Completes (linearized : Finset Nat) (state : S) : List Nat → Prop
  | [] => ∀ x, 0 < x → alive nodes linearized x = false
  | call :: order => ∃ node matching ret, nodeAt nodes call = some node ∧ node.«match» = some matching ∧
      nodeAt nodes matching = some ret ∧ node.id ∉ linearized ∧
      (∀ y, 0 < y → y < call → alive nodes linearized y → isCall nodes y) ∧
      (model.step state node.value ret.value).1 ∧
      Completes (insert node.id linearized) (model.step state node.value ret.value).2 order

def Good (linearized : Finset Nat) (state : S) : Prop :=
  ∃ order, Completes model nodes linearized state order

/-- Lifting the call node `call` from `linearized` and `state` leads to no completion. -/
def Refuted (linearized : Finset Nat) (state : S) (call : Nat) : Prop :=
  ∀ node matching ret, nodeAt nodes call = some node → node.«match» = some matching →
    nodeAt nodes matching = some ret → (model.step state node.value ret.value).1 →
    ¬ Good model nodes (insert node.id linearized) (model.step state node.value ret.value).2

/-- The frames of `calls`, top first: each call node was lifted from the set below it,
accepted from the state it records, with only refuted calls and no return before it. -/
def Frames : List (Nat × S) → S → Finset Nat → Prop
  | [], state, linearized => state = model.init ∧ linearized = ∅
  | (call,before) :: calls, state, linearized => ∃ node matching ret,
      nodeAt nodes call = some node ∧ node.«match» = some matching ∧ nodeAt nodes matching = some ret ∧
      node.id ∈ linearized ∧ Frames calls before (linearized.erase node.id) ∧
      (model.step before node.value ret.value).1 ∧ (model.step before node.value ret.value).2 = state ∧
      ∀ y, 0 < y → y < call → alive nodes (linearized.erase node.id) y →
        isCall nodes y ∧ Refuted model nodes (linearized.erase node.id) before y

/-- `seen` is the pair of the current frame or of one below it. -/
def OnStack : List (Nat × S) → S → Finset Nat → Finset Nat × S → Prop
  | [], state, linearized, seen => seen = (linearized,state)
  | (call,before) :: calls, state, linearized, seen => seen = (linearized,state) ∨
      ∃ node, nodeAt nodes call = some node ∧ OnStack calls before (linearized.erase node.id) seen

structure Invariant (s : SetSearch S) : Prop where
  frames : Frames model nodes s.calls s.state s.linearized
  entry : ∀ x, s.entry = some x → 0 < x ∧ alive nodes s.linearized x ∧
    ∀ y, 0 < y → y < x → alive nodes s.linearized y →
      isCall nodes y ∧ Refuted model nodes s.linearized s.state y
  ended : s.entry = none → ∀ x, 0 < x → alive nodes s.linearized x = false
  cache : ∀ seen ∈ s.cache, OnStack nodes s.calls s.state s.linearized seen ∨ ¬ Good model nodes seen.1 seen.2

/-- The frames of `calls` as the loop builds them, whatever the model: each is a call
node of the arena whose operation is lifted over the frames below it. -/
def Lifted : List (Nat × S) → Finset Nat → Prop
  | [], _ => True
  | (call,_) :: calls, linearized => ∃ node matching, nodeAt nodes call = some node ∧
      node.«match» = some matching ∧ node.id ∈ linearized ∧ Lifted calls (linearized.erase node.id)

/-- What the loop keeps for every `Step` and `Equal`: lifted frames, and a cursor on a
node of the list, `nil` only once the list is empty. -/
structure Shape (s : SetSearch S) : Prop where
  frames : Lifted nodes s.calls s.linearized
  entry : ∀ x, s.entry = some x → 0 < x ∧ alive nodes s.linearized x
  ended : s.entry = none → ∀ x, 0 < x → alive nodes s.linearized x = false

end Spec

/-! ### The invariant -/

section Invariant

variable {model : Model V S} {nodes : List (Node V)}

private theorem unlifted_of_alive {linearized : Finset Nat} {x : Nat} {node : Node V} (pos : 0 < x)
    (kept : alive nodes linearized x = true) (found : nodeAt nodes x = some node) : node.id ∉ linearized := by
  obtain ⟨node',found',unlifted⟩ := (alive_iff pos).1 kept
  rw [found] at found'; cases found'; exact unlifted

theorem Frames.onStack_subset {calls : List (Nat × S)} {state : S} {linearized : Finset Nat}
    (frames : Frames model nodes calls state linearized) {seen : Finset Nat × S}
    (onStack : OnStack nodes calls state linearized seen) : seen.1 ⊆ linearized := by
  induction calls generalizing state linearized with
  | nil => cases onStack; exact subset_rfl
  | cons frame calls ih =>
    obtain ⟨call,before⟩ := frame
    obtain ⟨node,_,_,found,_,_,_,frames,_⟩ := frames
    rcases onStack with rfl | ⟨node',found',onStack⟩
    · exact subset_rfl
    · rw [found] at found'; cases found'
      exact (ih frames onStack).trans (Finset.erase_subset _ _)

theorem Frames.completes {calls : List (Nat × S)} {state : S} {linearized : Finset Nat}
    (frames : Frames model nodes calls state linearized) {order : List Nat}
    (completes : Completes model nodes linearized state order) :
    Completes model nodes ∅ model.init ((calls.map (·.1)).reverse ++ order) := by
  induction calls generalizing state linearized order with
  | nil => obtain ⟨rfl,rfl⟩ := frames; exact completes
  | cons frame calls ih =>
    obtain ⟨call,before⟩ := frame
    obtain ⟨node,matching,ret,found,isMatch,retFound,mem,frames,accepted,stepped,earlier⟩ := frames
    have restored : insert node.id (linearized.erase node.id) = linearized := Finset.insert_erase mem
    have top : Completes model nodes (linearized.erase node.id) before (call :: order) :=
      ⟨node,matching,ret,found,isMatch,retFound,Finset.not_mem_erase _ _,
        fun y pos lt kept => (earlier y pos lt kept).1,accepted,by rw [stepped,restored]; exact completes⟩
    simpa using ih frames top

theorem Invariant.not_good {s : SetSearch S} (inv : Invariant model nodes s) {x : Nat} {node : Node V}
    (cursor : s.entry = some x) (found : nodeAt nodes x = some node) (isReturn : node.«match» = none) :
    ¬ Good model nodes s.linearized s.state := by
  obtain ⟨pos,kept,before⟩ := inv.entry x cursor
  rintro ⟨_ | ⟨call,order⟩,completes⟩
  · exact absurd (completes x pos) (by simp [kept])
  · obtain ⟨node',matching,ret,found',isMatch,retFound,unlifted,first,accepted,rest⟩ := completes
    have lt : call < x := by
      rcases Nat.lt_trichotomy call x with lt | rfl | gt
      · exact lt
      · rw [found] at found'; cases found'; simp [isReturn] at isMatch
      · have := first x pos gt kept; simp [isCall_iff,found,isReturn] at this
    have pos' := (nodeAt_bound found').1
    exact (before call pos' lt ((alive_iff pos').2 ⟨node',found',unlifted⟩)).2 node' matching ret found'
      isMatch retFound accepted ⟨order,rest⟩

theorem Invariant.refuted_of_cached (equalSound : ∀ a b, model.equal a b = true → a = b)
    {s : SetSearch S} (inv : Invariant model nodes s) {x matching : Nat} {node ret : Node V}
    (cursor : s.entry = some x) (found : nodeAt nodes x = some node) (isMatch : node.«match» = some matching)
    (retFound : nodeAt nodes matching = some ret)
    (cached : s.cache.any (fun seen => decide (seen.1 = insert node.id s.linearized) &&
      model.equal (model.step s.state node.value ret.value).2 seen.2) = true) :
    Refuted model nodes s.linearized s.state x := by
  obtain ⟨pos,kept,_⟩ := inv.entry x cursor
  intro node' matching' ret' found' isMatch' retFound' _
  rw [found] at found'; cases found'; rw [isMatch] at isMatch'; cases isMatch'
  rw [retFound] at retFound'; cases retFound'
  obtain ⟨seen,mem,same⟩ := List.any_eq_true.1 cached
  simp only [Bool.and_eq_true,decide_eq_true_eq] at same
  rcases inv.cache seen mem with onStack | bad
  · exact absurd (inv.frames.onStack_subset onStack (same.1 ▸ Finset.mem_insert_self _ _))
      (unlifted_of_alive pos kept found)
  · rwa [same.1,← equalSound _ _ same.2] at bad

theorem Invariant.advance (later : MatchesLater nodes) {s : SetSearch S} (inv : Invariant model nodes s)
    {x matching : Nat} {node : Node V} (cursor : s.entry = some x) (found : nodeAt nodes x = some node)
    (isMatch : node.«match» = some matching) (refuted : Refuted model nodes s.linearized s.state x) :
    Invariant model nodes { s with entry := nextAlive nodes s.linearized x } := by
  obtain ⟨pos,kept,before⟩ := inv.entry x cursor
  obtain ⟨y,next⟩ := later.next_isSome found isMatch (unlifted_of_alive pos kept found)
  have isNext := nextAlive_isNext nodes s.linearized x
  rw [next] at isNext
  refine ⟨inv.frames,fun y' found' => ?_,fun ended => by simp [next] at ended,inv.cache⟩
  obtain rfl : y = y' := Option.some.inj (next.symm.trans found')
  refine ⟨by have := isNext.1; omega,isNext.2.1,fun z pos' lt kept' => ?_⟩
  rcases Nat.lt_trichotomy z x with lt' | rfl | gt
  · exact before z pos' lt' kept'
  · exact ⟨isCall_iff.2 ⟨node,found,by simp [isMatch]⟩,refuted⟩
  · exact absurd kept' (isNext.2.2 z gt lt)

theorem Invariant.push {s : SetSearch S} (inv : Invariant model nodes s) {x matching : Nat}
    {node ret : Node V} (cursor : s.entry = some x) (found : nodeAt nodes x = some node)
    (isMatch : node.«match» = some matching) (retFound : nodeAt nodes matching = some ret)
    (accepted : (model.step s.state node.value ret.value).1) :
    Invariant model nodes ⟨(x,s.state) :: s.calls,(model.step s.state node.value ret.value).2,
      insert node.id s.linearized,nextAlive nodes (insert node.id s.linearized) 0,
      (insert node.id s.linearized,(model.step s.state node.value ret.value).2) :: s.cache⟩ := by
  obtain ⟨pos,kept,before⟩ := inv.entry x cursor
  have erase : (insert node.id s.linearized).erase node.id = s.linearized :=
    Finset.erase_insert (unlifted_of_alive pos kept found)
  have isNext := nextAlive_isNext nodes (insert node.id s.linearized) 0
  refine ⟨⟨node,matching,ret,found,isMatch,retFound,Finset.mem_insert_self _ _,
    by rw [erase]; exact inv.frames,accepted,rfl,by rw [erase]; exact before⟩,fun y found' => ?_,
    fun ended z pos' => ?_,fun seen mem => ?_⟩
  · rw [show nextAlive nodes (insert node.id s.linearized) 0 = some y from found'] at isNext
    exact ⟨isNext.1,isNext.2.1,fun z pos' lt kept' => absurd kept' (isNext.2.2 z pos' lt)⟩
  · rw [show nextAlive nodes (insert node.id s.linearized) 0 = none from ended] at isNext
    simpa using isNext z pos'
  · rcases List.mem_cons.1 mem with rfl | old
    · exact .inl (.inl rfl)
    · rcases inv.cache seen old with onStack | bad
      · exact .inl (.inr ⟨node,found,by rw [erase]; exact onStack⟩)
      · exact .inr bad

theorem Invariant.pop (later : MatchesLater nodes) {s : SetSearch S} (inv : Invariant model nodes s)
    {x call : Nat} {node top : Node V} {before : S} {calls : List (Nat × S)}
    (cursor : s.entry = some x) (found : nodeAt nodes x = some node) (isReturn : node.«match» = none)
    (stack : s.calls = (call,before) :: calls) (topFound : nodeAt nodes call = some top) :
    Invariant model nodes ⟨calls,before,s.linearized.erase top.id,
      nextAlive nodes (s.linearized.erase top.id) call,s.cache⟩ := by
  have bad := inv.not_good cursor found isReturn
  have frames := inv.frames
  rw [stack] at frames
  obtain ⟨top',matching,ret,topFound',isMatch,retFound,mem,frames,accepted,stepped,earlier⟩ := frames
  rw [topFound] at topFound'; cases topFound'
  have restored : insert top.id (s.linearized.erase top.id) = s.linearized := Finset.insert_erase mem
  obtain ⟨y,next⟩ := later.next_isSome topFound isMatch (Finset.not_mem_erase _ _)
  have isNext := nextAlive_isNext nodes (s.linearized.erase top.id) call
  rw [next] at isNext
  refine ⟨frames,fun y' found' => ?_,fun ended => by simp [next] at ended,fun seen mem' => ?_⟩
  · obtain rfl : y = y' := Option.some.inj (next.symm.trans found')
    refine ⟨by have := isNext.1; omega,isNext.2.1,fun z pos' lt kept' => ?_⟩
    rcases Nat.lt_trichotomy z call with lt' | rfl | gt
    · exact earlier z pos' lt' kept'
    · refine ⟨isCall_iff.2 ⟨top,topFound,by simp [isMatch]⟩,fun node' matching' ret' found' isMatch'
        retFound' _ => ?_⟩
      rw [topFound] at found'; cases found'; rw [isMatch] at isMatch'; cases isMatch'
      rw [retFound] at retFound'; cases retFound'
      rwa [restored,stepped]
    · exact absurd kept' (isNext.2.2 z gt lt)
  · rcases inv.cache seen mem' with onStack | notGood
    · rw [stack] at onStack
      rcases onStack with rfl | ⟨top',topFound',onStack⟩
      · exact .inr bad
      · rw [topFound] at topFound'; cases topFound'; exact .inl onStack
    · exact .inr notGood

end Invariant

/-! ### The shape of a search -/

section Shape

variable {model : Model V S} {nodes : List (Node V)}

theorem Frames.lifted {calls : List (Nat × S)} {state : S} {linearized : Finset Nat}
    (frames : Frames model nodes calls state linearized) : Lifted nodes calls linearized := by
  induction calls generalizing state linearized with
  | nil => trivial
  | cons frame calls ih =>
    obtain ⟨call,before⟩ := frame
    obtain ⟨node,matching,_,found,isMatch,_,mem,frames,_⟩ := frames
    exact ⟨node,matching,found,isMatch,mem,ih frames⟩

theorem Invariant.shape {s : SetSearch S} (inv : Invariant model nodes s) : Shape nodes s :=
  ⟨inv.frames.lifted,fun x cursor => ⟨(inv.entry x cursor).1,(inv.entry x cursor).2.1⟩,inv.ended⟩

theorem Lifted.nodup {calls : List (Nat × S)} {linearized : Finset Nat} (lifted : Lifted nodes calls linearized) :
    (calls.map (·.1)).Nodup ∧ ∀ call ∈ calls.map (·.1), ∃ node, nodeAt nodes call = some node ∧ node.id ∈ linearized := by
  induction calls generalizing linearized with
  | nil => simp
  | cons frame calls ih =>
    obtain ⟨call,before⟩ := frame
    obtain ⟨node,_,found,_,mem,lifted⟩ := lifted
    obtain ⟨nodup,below⟩ := ih lifted
    refine ⟨List.nodup_cons.2 ⟨fun mem' => ?_,nodup⟩,?_⟩
    · obtain ⟨node',found',mem'⟩ := below call mem'
      rw [found] at found'; cases found'
      exact Finset.not_mem_erase _ _ mem'
    · simp only [List.map_cons,List.mem_cons,forall_eq_or_imp]
      exact ⟨⟨node,found,mem⟩,fun call' mem' => (below call' mem').imp fun _ found' =>
        ⟨found'.1,Finset.mem_of_mem_erase found'.2⟩⟩

private theorem Shape.of_next {s : SetSearch S} (frames : Lifted nodes s.calls s.linearized) {y : Nat}
    (moved : s.entry = nextAlive nodes s.linearized y) (goesOn : y = 0 ∨ s.entry ≠ none) : Shape nodes s := by
  have isNext := nextAlive_isNext nodes s.linearized y
  rw [← moved] at isNext
  refine ⟨frames,fun x cursor => ?_,fun ended x pos => ?_⟩
  · rw [cursor] at isNext
    exact ⟨by have := isNext.1; omega,isNext.2.1⟩
  · rcases goesOn with rfl | going
    · rw [ended] at isNext
      simpa using isNext x pos
    · exact absurd ended going

theorem Shape.cursor {s : SetSearch S} (shape : Shape nodes s) (running : nextAlive nodes s.linearized 0 ≠ none) :
    ∃ x, s.entry = some x := by
  cases cursor : s.entry with
  | some x => exact ⟨x,rfl⟩
  | none =>
    obtain ⟨y,first⟩ := Option.ne_none_iff_exists'.1 running
    have isNext := nextAlive_isNext nodes s.linearized 0
    rw [first] at isNext
    exact absurd isNext.2.1 (by simp [shape.ended cursor y isNext.1])

private theorem SetSearch.iterate_eq_some {s : SetSearch S} {r : Bool ⊕ SetSearch S}
    (stepped : SetSearch.iterate model nodes s = some r) :
    ∃ x node, s.entry = some x ∧ nodeAt nodes x = some node ∧
      ((∃ matching ret, node.«match» = some matching ∧ nodeAt nodes matching = some ret ∧
        (((model.step s.state node.value ret.value).1 = true →
            s.cache.any (fun seen => decide (seen.1 = insert node.id s.linearized) &&
              model.equal (model.step s.state node.value ret.value).2 seen.2) = true) ∧
          r = .inr { s with entry := nextAlive nodes s.linearized x } ∨
        (model.step s.state node.value ret.value).1 = true ∧
          s.cache.any (fun seen => decide (seen.1 = insert node.id s.linearized) &&
            model.equal (model.step s.state node.value ret.value).2 seen.2) = false ∧
          r = .inr ⟨(x,s.state) :: s.calls,(model.step s.state node.value ret.value).2,
            insert node.id s.linearized,nextAlive nodes (insert node.id s.linearized) 0,
            (insert node.id s.linearized,(model.step s.state node.value ret.value).2) :: s.cache⟩)) ∨
      node.«match» = none ∧ (s.calls = [] ∧ r = .inl false ∨
        ∃ call before calls top, s.calls = (call,before) :: calls ∧ nodeAt nodes call = some top ∧
          r = .inr ⟨calls,before,s.linearized.erase top.id,nextAlive nodes (s.linearized.erase top.id) call,
            s.cache⟩)) := by
  simp only [SetSearch.iterate,Option.bind_eq_some] at stepped
  obtain ⟨x,cursor,node,found,stepped⟩ := stepped
  refine ⟨x,node,cursor,found,?_⟩
  split at stepped
  · rename_i matching isMatch
    simp only [Option.map_eq_some'] at stepped
    obtain ⟨ret,retFound,stepped⟩ := stepped
    refine .inl ⟨matching,ret,isMatch,retFound,?_⟩
    split_ifs at stepped with accepted cached <;> subst stepped
    · exact .inl ⟨fun _ => cached,rfl⟩
    · exact .inr ⟨accepted,by simpa using cached,rfl⟩
    · exact .inl ⟨fun accepted' => absurd accepted' accepted,rfl⟩
  · rename_i isReturn
    refine .inr ⟨isReturn,?_⟩
    split at stepped
    · rename_i stack
      exact .inl ⟨stack,(Option.some.inj stepped).symm⟩
    · rename_i call before calls stack
      obtain ⟨top,topFound,stepped⟩ := Option.map_eq_some'.1 stepped
      exact .inr ⟨call,before,calls,top,stack,topFound,stepped.symm⟩

theorem Shape.iterate_isSome (model : Model V S) (later : MatchesLater nodes) {s : SetSearch S}
    (shape : Shape nodes s) (running : nextAlive nodes s.linearized 0 ≠ none) :
    ∃ r, SetSearch.iterate model nodes s = some r := by
  obtain ⟨x,cursor⟩ := shape.cursor running
  obtain ⟨pos,kept⟩ := shape.entry x cursor
  obtain ⟨node,found,-⟩ := (alive_iff pos).1 kept
  cases isMatch : node.«match» with
  | some matching =>
    obtain ⟨-,ret,retFound,-⟩ := later x node matching found isMatch
    simp only [SetSearch.iterate,cursor,found,isMatch,retFound,Option.some_bind,Option.map_some']
    exact ⟨_,rfl⟩
  | none =>
    cases stack : s.calls with
    | nil => simp only [SetSearch.iterate,cursor,found,isMatch,stack,Option.some_bind,exists_apply_eq_apply']
    | cons frame calls =>
      obtain ⟨call,before⟩ := frame
      have frames := shape.frames
      rw [stack] at frames
      obtain ⟨top,-,topFound,-⟩ := frames
      simp only [SetSearch.iterate,cursor,found,isMatch,stack,topFound,Option.some_bind,Option.map_some']
      exact ⟨_,rfl⟩

end Shape

/-! ### Termination -/

/-- `digits` read in base `base` as the leading digits of a numeral of `width` digits. -/
def weigh (base : Nat) : List Nat → Nat → Nat
  | [], _ => 0
  | d :: ds, width => d * base ^ (width - 1) + weigh base ds (width - 1)

/-- The positions of a search as digits: the call node of each frame from the bottom,
then the cursor, `nodes.length + 1` once it is `nil`. -/
def SetSearch.digits (nodes : List (Node V)) (s : SetSearch S) : List Nat :=
  (s.calls.map (·.1)).reverse ++ [s.entry.getD (nodes.length + 1)]

section Weigh

variable {base width : Nat}

private theorem weigh_append (ds es : List Nat) (width : Nat) :
    weigh base (ds ++ es) width = weigh base ds width + weigh base es (width - ds.length) := by
  induction ds generalizing width with
  | nil => simp [weigh]
  | cons d ds ih =>
    have shift : width - 1 - ds.length = width - (ds.length + 1) := by omega
    rw [List.cons_append,weigh,weigh,ih,List.length_cons,shift,Nat.add_assoc]

theorem weigh_lt {ds : List Nat} (pos : 0 < base) (digits : ∀ d ∈ ds, d < base) (fits : ds.length ≤ width) :
    weigh base ds width < base ^ width := by
  induction ds generalizing width with
  | nil => simpa [weigh] using Nat.pos_pow_of_pos width pos
  | cons d ds ih =>
    cases width with
    | zero => simp at fits
    | succ width =>
    have rest : weigh base ds width < base ^ width :=
      ih (fun d mem => digits d (List.mem_cons_of_mem _ mem)) (by simp at fits; omega)
    have top : (d + 1) * base ^ width ≤ base * base ^ width :=
      Nat.mul_le_mul_right _ (digits d (List.mem_cons_self _ _))
    simp only [weigh,Nat.add_sub_cancel,pow_succ] at rest ⊢
    rw [Nat.succ_mul] at top
    rw [Nat.mul_comm (base ^ width) base]
    omega

private theorem weigh_push (pre : List Nat) (x y : Nat) (pos : 0 < base) (digit : 0 < y) :
    weigh base (pre ++ [x]) width < weigh base (pre ++ [x,y]) width := by
  simp only [weigh_append,weigh,Nat.add_zero]
  have := Nat.mul_pos digit (Nat.pos_pow_of_pos (width - pre.length - 1 - 1) pos)
  omega

private theorem weigh_advance (pre : List Nat) {x x' : Nat} (lt : x < x') (pos : 0 < base) :
    weigh base (pre ++ [x]) width < weigh base (pre ++ [x']) width := by
  simp only [weigh_append,weigh,Nat.add_zero]
  have := Nat.mul_lt_mul_of_pos_right lt (Nat.pos_pow_of_pos (width - pre.length - 1) pos)
  omega

private theorem weigh_pop (pre : List Nat) {c c' x : Nat} (lt : c < c') (digit : x < base) (fits : pre.length + 2 ≤ width) :
    weigh base (pre ++ [c,x]) width < weigh base (pre ++ [c']) width := by
  simp only [weigh_append,weigh,Nat.add_zero]
  obtain ⟨k,hk⟩ : ∃ k, width - pre.length - 1 = k + 1 := ⟨width - pre.length - 2,by omega⟩
  rw [hk,Nat.add_sub_cancel,pow_succ]
  have small := Nat.mul_lt_mul_of_pos_right digit (Nat.pos_pow_of_pos k (by omega : 0 < base))
  have large := Nat.mul_le_mul_right (base ^ k * base) (Nat.succ_le_of_lt lt)
  rw [Nat.succ_mul] at large
  rw [Nat.mul_comm base (base ^ k)] at small
  omega

end Weigh

section Progress

variable {model : Model V S} {nodes : List (Node V)}

theorem Shape.depth {s : SetSearch S} (shape : Shape nodes s) : s.calls.length ≤ nodes.length := by
  obtain ⟨nodup,lifted⟩ := shape.frames.nodup
  have sub : (s.calls.map (·.1)).toFinset ⊆ (Finset.range (nodes.length + 1)).erase 0 := fun c mem => by
    obtain ⟨_,found,_⟩ := lifted c (List.mem_toFinset.1 mem)
    have := nodeAt_bound found
    simp only [Finset.mem_erase,Finset.mem_range]; omega
  have := Finset.card_le_card sub
  rw [List.toFinset_card_of_nodup nodup,Finset.card_erase_of_mem (by simp),Finset.card_range,
    List.length_map] at this
  omega

theorem Shape.digits_lt {s : SetSearch S} (shape : Shape nodes s) :
    ∀ d ∈ s.digits nodes, d < nodes.length + 2 := by
  intro d mem
  simp only [SetSearch.digits,List.mem_append,List.mem_reverse,List.mem_singleton] at mem
  rcases mem with frame | rfl
  · obtain ⟨_,found,_⟩ := shape.frames.nodup.2 d frame
    have := nodeAt_bound found; omega
  · cases cursor : s.entry with
    | none => simp
    | some x =>
      have := alive_bound (shape.entry x cursor).2
      simp; omega

theorem Shape.weigh_lt {s : SetSearch S} (shape : Shape nodes s) :
    weigh (nodes.length + 2) (s.digits nodes) (nodes.length + 1) < (nodes.length + 2) ^ (nodes.length + 1) :=
  Linearizability.weigh_lt (by omega) shape.digits_lt (by simp [SetSearch.digits]; have := shape.depth; omega)

theorem Shape.next (later : MatchesLater nodes) {s s' : SetSearch S} (shape : Shape nodes s)
    (stepped : SetSearch.iterate model nodes s = some (.inr s')) :
    Shape nodes s' ∧ weigh (nodes.length + 2) (s.digits nodes) (nodes.length + 1) <
      weigh (nodes.length + 2) (s'.digits nodes) (nodes.length + 1) := by
  obtain ⟨x,node,cursor,found,⟨matching,ret,isMatch,-,⟨-,moved⟩ | ⟨-,-,moved⟩⟩ |
    ⟨isReturn,⟨-,moved⟩ | ⟨call,before,calls,top,stack,topFound,moved⟩⟩⟩ := SetSearch.iterate_eq_some stepped
  all_goals cases moved
  all_goals
    obtain ⟨pos,kept⟩ := shape.entry x cursor
    have pre : s.digits nodes = (s.calls.map (·.1)).reverse ++ [x] := by simp [SetSearch.digits,cursor]
    have depth := shape.depth
  · obtain ⟨y,next⟩ := later.next_isSome found isMatch (unlifted_of_alive pos kept found)
    have isNext := nextAlive_isNext nodes s.linearized x
    rw [next] at isNext
    refine ⟨Shape.of_next shape.frames rfl (.inr (by simp [next])),?_⟩
    rw [pre]
    simp only [SetSearch.digits,next,Option.getD_some]
    exact weigh_advance _ isNext.1 (by omega)
  · have erase : (insert node.id s.linearized).erase node.id = s.linearized :=
      Finset.erase_insert (unlifted_of_alive pos kept found)
    refine ⟨Shape.of_next ⟨node,matching,found,isMatch,Finset.mem_insert_self _ _,
      by dsimp only; rw [erase]; exact shape.frames⟩ rfl
      (.inl rfl),?_⟩
    rw [pre]
    simp only [SetSearch.digits,List.map_cons,List.reverse_cons,List.append_assoc,List.singleton_append]
    refine weigh_push _ _ _ (by omega) ?_
    cases first : nextAlive nodes (insert node.id s.linearized) 0 with
    | none => simp
    | some z =>
      have isNext := nextAlive_isNext nodes (insert node.id s.linearized) 0
      rw [first] at isNext
      exact isNext.1
  · have frames := shape.frames
    rw [stack] at frames
    obtain ⟨top',matching,topFound',topMatch,-,lifted⟩ := frames
    rw [topFound] at topFound'; cases topFound'
    obtain ⟨y,next⟩ := later.next_isSome topFound topMatch (Finset.not_mem_erase top.id s.linearized)
    have isNext := nextAlive_isNext nodes (s.linearized.erase top.id) call
    rw [next] at isNext
    refine ⟨Shape.of_next lifted rfl (.inr (by simp [next])),?_⟩
    rw [stack] at pre depth
    rw [pre]
    simp only [SetSearch.digits,next,Option.getD_some,List.map_cons,List.reverse_cons,
      List.append_assoc,List.singleton_append]
    refine weigh_pop _ isNext.1 ?_ ?_
    · have := alive_bound kept; omega
    · simp at depth ⊢; omega

private theorem run_of_keeps (later : MatchesLater nodes) (keep : SetSearch S → Prop) (answer : Bool → Prop)
    (shape : ∀ s, keep s → Shape nodes s)
    (keeps : ∀ s r, keep s → SetSearch.iterate model nodes s = some r → Sum.elim answer keep r)
    (done : ∀ s, keep s → nextAlive nodes s.linearized 0 = none → answer true)
    {s : SetSearch S} (kept : keep s) {fuel : Nat}
    (enough : (nodes.length + 2) ^ (nodes.length + 1) <
      weigh (nodes.length + 2) (s.digits nodes) (nodes.length + 1) + fuel) :
    ∃ result, SetSearch.run model nodes fuel s = some result ∧ answer result := by
  induction fuel generalizing s with
  | zero => have := (shape s kept).weigh_lt; omega
  | succ fuel ih =>
    by_cases ended : nextAlive nodes s.linearized 0 = none
    · exact ⟨true,by simp [SetSearch.run,ended],done s kept ended⟩
    obtain ⟨r,stepped⟩ := (shape s kept).iterate_isSome model later ended
    have kept' := keeps s r kept stepped
    cases r with
    | inl result => exact ⟨result,by simp [SetSearch.run,ended,stepped],kept'⟩
    | inr s' =>
      have up := ((shape s kept).next later stepped).2
      obtain ⟨result,ran,correct⟩ := ih kept' (by omega)
      exact ⟨result,by simp [SetSearch.run,ended,stepped,ran],correct⟩

theorem Shape.run (later : MatchesLater nodes) {s : SetSearch S} (shape : Shape nodes s) {fuel : Nat}
    (enough : (nodes.length + 2) ^ (nodes.length + 1) <
      weigh (nodes.length + 2) (s.digits nodes) (nodes.length + 1) + fuel) :
    ∃ result, SetSearch.run model nodes fuel s = some result := by
  obtain ⟨result,ran,-⟩ := run_of_keeps later (Shape nodes) (fun _ => True) (fun _ shape => shape)
    (fun _ r shape stepped => by cases r with
      | inl _ => trivial
      | inr _ => exact (shape.next later stepped).1)
    (fun _ _ _ => trivial) shape enough
  exact ⟨result,ran⟩

theorem Invariant.iterate (equalSound : ∀ a b, model.equal a b = true → a = b) (later : MatchesLater nodes)
    {s : SetSearch S} (inv : Invariant model nodes s) {r : Bool ⊕ SetSearch S}
    (stepped : SetSearch.iterate model nodes s = some r) :
    Sum.elim (fun result => result = true ↔ Good model nodes ∅ model.init) (Invariant model nodes) r := by
  obtain ⟨x,node,cursor,found,⟨matching,ret,isMatch,retFound,⟨cached,rfl⟩ | ⟨accepted,-,rfl⟩⟩ |
    ⟨isReturn,⟨stack,rfl⟩ | ⟨call,before,calls,top,stack,topFound,rfl⟩⟩⟩ := SetSearch.iterate_eq_some stepped
  · refine inv.advance later cursor found isMatch fun node' matching' ret' found' isMatch' retFound' accepted => ?_
    rw [found] at found'; cases found'; rw [isMatch] at isMatch'; cases isMatch'
    rw [retFound] at retFound'; cases retFound'
    exact inv.refuted_of_cached equalSound cursor found isMatch retFound (cached accepted) node matching ret
      found isMatch retFound accepted
  · exact inv.push cursor found isMatch retFound accepted
  · obtain ⟨init,empty⟩ : s.state = model.init ∧ s.linearized = ∅ := by
      have := inv.frames; rw [stack] at this; exact this
    have bad := inv.not_good cursor found isReturn
    rw [init,empty] at bad
    simpa using bad
  · exact inv.pop later cursor found isReturn stack topFound

theorem Invariant.good_of_ended {s : SetSearch S} (inv : Invariant model nodes s)
    (ended : nextAlive nodes s.linearized 0 = none) : Good model nodes ∅ model.init := by
  have isNext := nextAlive_isNext nodes s.linearized 0
  rw [ended] at isNext
  have empty : Completes model nodes s.linearized s.state [] := fun x pos => by simpa using isNext x pos
  exact ⟨_,inv.frames.completes empty⟩

theorem Invariant.run (equalSound : ∀ a b, model.equal a b = true → a = b) (later : MatchesLater nodes)
    {s : SetSearch S} (inv : Invariant model nodes s) {fuel : Nat}
    (enough : (nodes.length + 2) ^ (nodes.length + 1) <
      weigh (nodes.length + 2) (s.digits nodes) (nodes.length + 1) + fuel) :
    ∃ result, SetSearch.run model nodes fuel s = some result ∧ (result = true ↔ Good model nodes ∅ model.init) :=
  run_of_keeps later (Invariant model nodes) _ (fun _ inv => inv.shape)
    (fun _ _ inv stepped => inv.iterate equalSound later stepped)
    (fun _ inv ended => by simpa using inv.good_of_ended ended) inv enough

theorem SetSearch.start_invariant : Invariant model nodes (SetSearch.start model nodes) := by
  have isNext := nextAlive_isNext nodes ∅ 0
  refine ⟨⟨rfl,rfl⟩,fun x first => ?_,fun ended x pos => ?_,by simp [SetSearch.start]⟩
  · rw [show nextAlive nodes ∅ 0 = some x from first] at isNext
    exact ⟨isNext.1,isNext.2.1,fun y pos lt kept => absurd kept (isNext.2.2 y pos lt)⟩
  · rw [show nextAlive nodes ∅ 0 = none from ended] at isNext
    simpa using isNext x pos

theorem SetSearch.run_start (equalSound : ∀ a b, model.equal a b = true → a = b) (later : MatchesLater nodes) :
    ∃ result, SetSearch.run model nodes ((nodes.length + 2) ^ (nodes.length + 1) + 1)
      (SetSearch.start model nodes) = some result ∧ (result = true ↔ Good model nodes ∅ model.init) :=
  SetSearch.start_invariant.run equalSound later (by omega)

theorem SetSearch.run_start_returns (model : Model V S) (later : MatchesLater nodes) :
    ∃ result, SetSearch.run model nodes ((nodes.length + 2) ^ (nodes.length + 1) + 1)
      (SetSearch.start model nodes) = some result :=
  SetSearch.start_invariant.shape.run later (by omega)

end Progress

end Sentinel.Linearizability
