import Sentinel.Linearizability.Model

/-! The doubly linked list of entries that `checkSingle` searches, on an arena: a
pointer is the index of a node, `none` is `nil`. Node `i + 1` holds `entries[i]`, and
node `0` is the head `checkSingle` inserts before the first entry. The fields a node
never changes are a `Node`; its `next` and `prev` are `Links`, which `insertBefore`,
`lift` and `unlift` rewrite, and which are `none` where the code dereferences `nil`.

`Threads keep links` says the links chain the `keep` nodes in index order. `lift`
keeps it with the lifted pair left out, and `unlift` restores every link `lift`
wrote, so undoing in stack order is exact. -/

namespace Sentinel.Linearizability

variable {V : Type}

/-- A `node` without its links. `match` is the return node of a call node and `none`
in a return node. -/
structure Node (V : Type) where
  value : V
  «match» : Option Nat
  id : Nat
deriving DecidableEq, Repr

/-- Node `x` of the arena whose nodes from `1` are `nodes`; the head has no entry. -/
def nodeAt (nodes : List (Node V)) : Nat → Option (Node V)
  | 0 => none
  | x + 1 => nodes[x]?

/-- The `next` and `prev` fields of all nodes. -/
structure Links where
  next : Nat → Option Nat
  prev : Nat → Option Nat

namespace Links

def setNext (links : Links) (x : Nat) (next : Option Nat) : Links :=
  { links with next := Function.update links.next x next }

def setPrev (links : Links) (x : Nat) (prev : Option Nat) : Links :=
  { links with prev := Function.update links.prev x prev }

@[simp] theorem setNext_next (links : Links) (x : Nat) (next : Option Nat) :
    (links.setNext x next).next = Function.update links.next x next := rfl

@[simp] theorem setNext_prev (links : Links) (x : Nat) (next : Option Nat) :
    (links.setNext x next).prev = links.prev := rfl

@[simp] theorem setPrev_next (links : Links) (x : Nat) (prev : Option Nat) :
    (links.setPrev x prev).next = links.next := rfl

@[simp] theorem setPrev_prev (links : Links) (x : Nat) (prev : Option Nat) :
    (links.setPrev x prev).prev = Function.update links.prev x prev := rfl

/-- `if x != nil { x.prev = prev }`. -/
def setPrevOf (links : Links) : Option Nat → Option Nat → Links
  | some x, prev => links.setPrev x prev
  | none, _ => links

@[simp] theorem setPrevOf_some (links : Links) (x : Nat) (prev : Option Nat) :
    links.setPrevOf (some x) prev = links.setPrev x prev := rfl

@[simp] theorem setPrevOf_none (links : Links) (prev : Option Nat) : links.setPrevOf none prev = links := rfl

theorem ext' {links links' : Links} (next : links.next = links'.next) (prev : links.prev = links'.prev) :
    links = links' := by
  cases links; cases links'; simp_all

end Links

/-- `insertBefore(n, mark)`. -/
def insertBefore (links : Links) (n : Nat) : Option Nat → Links
  | none => links
  | some mark =>
    let beforeMark := links.prev mark
    let links := (links.setPrev mark (some n)).setNext n (some mark)
    match beforeMark with
    | some beforeMark => (links.setPrev n (some beforeMark)).setNext beforeMark (some n)
    | none => links

/-- What `makeLinkedEntries` builds: the nodes from node `1`, their links, and the
first node. -/
structure LinkedEntries (V : Type) where
  nodes : List (Node V)
  links : Links
  root : Option Nat

/-- The loop of `makeLinkedEntries` over the entries from index `i` on, which it runs
before the earlier ones, with its map `match` from ids to return nodes. -/
def makeLinkedEntries.loop : Nat → List (Entry V) → LinkedEntries V × (Nat → Option Nat)
  | _, [] => (⟨[],⟨fun _ => none,fun _ => none⟩,none⟩,fun _ => none)
  | i, elem :: entries =>
    let built := makeLinkedEntries.loop (i + 1) entries
    let entry := i + 1
    let node : Node V := ⟨elem.value,if elem.kind then none else built.2 elem.id,elem.id⟩
    (⟨node :: built.1.nodes,insertBefore built.1.links entry built.1.root,some entry⟩,
      if elem.kind then Function.update built.2 elem.id (some entry) else built.2)

def makeLinkedEntries (entries : List (Entry V)) : LinkedEntries V :=
  (makeLinkedEntries.loop 0 entries).1

/-- `length(n)`, following `next` for at most `fuel` nodes (`none` past them). -/
def length (links : Links) : Option Nat → Nat → Option Nat
  | none, _ => some 0
  | some _, 0 => none
  | some n, fuel + 1 => (length links (links.next n) fuel).map (· + 1)

/-- `lift(entry)`, where `entryMatch` is `entry.match`. -/
def lift (links : Links) (entry entryMatch : Nat) : Option Links :=
  (links.prev entry).bind fun prev =>
  let links := links.setNext prev (links.next entry)
  (links.next entry).bind fun next =>
  let links := links.setPrev next (links.prev entry)
  (links.prev entryMatch).map fun matchPrev =>
  let links := links.setNext matchPrev (links.next entryMatch)
  links.setPrevOf (links.next entryMatch) (links.prev entryMatch)

/-- `unlift(entry)`, where `entryMatch` is `entry.match`. -/
def unlift (links : Links) (entry entryMatch : Nat) : Option Links :=
  (links.prev entryMatch).bind fun matchPrev =>
  let links := links.setNext matchPrev (some entryMatch)
  let links := links.setPrevOf (links.next entryMatch) (some entryMatch)
  (links.prev entry).bind fun prev =>
  let links := links.setNext prev (some entry)
  (links.next entry).map fun next => links.setPrev next (some entry)

/-! ### The list `makeLinkedEntries` builds -/

theorem makeLinkedEntries.loop_links (i : Nat) (entries : List (Entry V)) :
    (loop i entries).1.root = (if entries.length = 0 then none else some (i + 1)) ∧
    (∀ x, (loop i entries).1.links.next x =
      if i + 1 ≤ x ∧ x < i + entries.length then some (x + 1) else none) ∧
    (∀ x, (loop i entries).1.links.prev x =
      if i + 2 ≤ x ∧ x ≤ i + entries.length then some (x - 1) else none) ∧
    (loop i entries).1.nodes.length = entries.length := by
  induction entries generalizing i with
  | nil =>
    refine ⟨rfl,fun x => ?_,fun x => ?_,rfl⟩ <;> simp only [loop,List.length_nil] <;> split_ifs <;>
      first | rfl | omega
  | cons elem entries ih =>
    obtain ⟨root,next,prev,count⟩ := ih (i + 1)
    simp only [loop,List.length_cons,count,Nat.add_one_ne_zero,if_false,true_and,and_true]
    by_cases empty : entries.length = 0
    · rw [if_pos empty] at root
      simp only [root,insertBefore]
      refine ⟨fun x => ?_,fun x => ?_⟩ <;> simp only [next,prev,empty] <;> split_ifs <;> first | rfl | omega
    · rw [if_neg empty] at root
      have before : (loop (i + 1) entries).1.links.prev (i + 1 + 1) = none := by rw [prev]; simp
      simp only [root,insertBefore,before]
      refine ⟨fun x => ?_,fun x => ?_⟩ <;>
        simp only [Links.setPrev_next,Links.setNext_next,Links.setNext_prev,Links.setPrev_prev,
          Function.update_apply,next,prev] <;> split_ifs <;> first | rfl | omega | (simp; omega)

theorem makeLinkedEntries_links (entries : List (Entry V)) :
    (makeLinkedEntries entries).root = (if entries.length = 0 then none else some 1) ∧
    (∀ x, (makeLinkedEntries entries).links.next x =
      if 1 ≤ x ∧ x < entries.length then some (x + 1) else none) ∧
    (∀ x, (makeLinkedEntries entries).links.prev x =
      if 2 ≤ x ∧ x ≤ entries.length then some (x - 1) else none) ∧
    (makeLinkedEntries entries).nodes.length = entries.length := by
  simpa using makeLinkedEntries.loop_links 0 entries

/-- `entry` is a return entry of `id`. -/
def isReturnOf (id : Nat) (entry : Entry V) : Bool := entry.kind && entry.id == id

theorem makeLinkedEntries.loop_nodes (i : Nat) (entries : List (Entry V)) :
    (∀ id, (loop i entries).2 id = entries.findIdx? (isReturnOf id) (i + 1)) ∧
    ∀ k : Nat, (loop i entries).1.nodes[k]? = entries[k]?.map fun e => (⟨e.value,
      if e.kind then none else (entries.drop (k + 1)).findIdx? (isReturnOf e.id) (i + k + 2),e.id⟩ : Node V) := by
  induction entries generalizing i with
  | nil => exact ⟨fun _ => rfl,fun _ => rfl⟩
  | cons elem entries ih =>
    obtain ⟨map,nodes⟩ := ih (i + 1)
    refine ⟨fun id => ?_,fun k => ?_⟩
    · by_cases same : id = elem.id
      · cases kind : elem.kind <;> simp [loop,List.findIdx?_cons,isReturnOf,kind,same,map,-List.findIdx?_start_succ]
      · cases kind : elem.kind <;> simp [loop,List.findIdx?_cons,isReturnOf,kind,same,Ne.symm same,map,
          Function.update_apply,-List.findIdx?_start_succ]
    · cases k with
      | zero => simp [loop,map]
      | succ k => simp [loop,nodes,show i + 1 + k + 2 = i + (k + 1) + 2 by omega]

theorem makeLinkedEntries_nodes (entries : List (Entry V)) (k : Nat) :
    (makeLinkedEntries entries).nodes[k]? = entries[k]?.map fun e => (⟨e.value,
      if e.kind then none else (entries.drop (k + 1)).findIdx? (isReturnOf e.id) (k + 2),e.id⟩ : Node V) := by
  simpa using (makeLinkedEntries.loop_nodes 0 entries).2 k

private theorem length_consecutive (links : Links) (count : Nat)
    (next : ∀ x, 1 ≤ x → x ≤ count → links.next x = if x < count then some (x + 1) else none)
    (x fuel : Nat) (first : 1 ≤ x) (last : x ≤ count) (enough : count - x < fuel) :
    length links (some x) fuel = some (count - x + 1) := by
  induction fuel generalizing x with
  | zero => omega
  | succ fuel ih =>
    simp only [length,next x first last]
    split_ifs with lt
    · rw [ih (x + 1) (by omega) lt (by omega)]; simp; omega
    · simp [length]; omega

theorem length_makeLinkedEntries (entries : List (Entry V)) :
    length (makeLinkedEntries entries).links (makeLinkedEntries entries).root
      ((makeLinkedEntries entries).nodes.length + 1) = some entries.length := by
  obtain ⟨root,next,-,count⟩ := makeLinkedEntries_links entries
  rw [root,count]
  split_ifs with empty
  · simp [length,empty]
  · rw [length_consecutive _ entries.length (fun x first last => by rw [next]; split_ifs <;> first | rfl | omega)
      1 _ le_rfl (by omega) (by omega)]
    simp; omega

theorem insertBefore_head (entries : List (Entry V)) :
    (∀ x, (insertBefore (makeLinkedEntries entries).links 0 (makeLinkedEntries entries).root).next x =
      if x < entries.length then some (x + 1) else none) ∧
    (∀ x, (insertBefore (makeLinkedEntries entries).links 0 (makeLinkedEntries entries).root).prev x =
      if 1 ≤ x ∧ x ≤ entries.length then some (x - 1) else none) := by
  obtain ⟨root,next,prev,-⟩ := makeLinkedEntries_links entries
  rw [root]
  split_ifs with empty
  · refine ⟨fun x => ?_,fun x => ?_⟩ <;> simp only [insertBefore,next,prev,empty] <;> split_ifs <;>
      first | rfl | omega
  · have before : (makeLinkedEntries entries).links.prev 1 = none := by rw [prev]; simp
    simp only [insertBefore,before]
    refine ⟨fun x => ?_,fun x => ?_⟩ <;>
      simp only [Links.setPrev_next,Links.setNext_next,Links.setNext_prev,Links.setPrev_prev,
        Function.update_apply,next,prev] <;> split_ifs <;> first | rfl | omega | (simp; omega)

/-! ### Neighbours among the kept nodes -/

/-- `y` is the first `keep` node after `x`; `none`: there is none. -/
def IsNext (keep : Nat → Prop) (x : Nat) : Option Nat → Prop
  | some y => x < y ∧ keep y ∧ ∀ z, x < z → z < y → ¬ keep z
  | none => ∀ z, x < z → ¬ keep z

/-- `y` is the last `keep` node before `x`. -/
def IsPrev (keep : Nat → Prop) (x y : Nat) : Prop :=
  y < x ∧ keep y ∧ ∀ z, y < z → z < x → ¬ keep z

/-- The links chain the `keep` nodes in index order. -/
def Threads (keep : Nat → Prop) (links : Links) : Prop :=
  ∀ x, keep x → IsNext keep x (links.next x) ∧ (0 < x → ∃ y, links.prev x = some y ∧ IsPrev keep x y)

section Neighbours

variable {keep keep' : Nat → Prop} {x y z : Nat} {a b : Option Nat}

theorem IsNext.unique (first : IsNext keep x a) (second : IsNext keep x b) : a = b := by
  cases a <;> cases b <;> simp only [IsNext] at first second
  · rfl
  · exact absurd second.2.1 (first _ second.1)
  · exact absurd first.2.1 (second _ first.1)
  · rename_i y y'
    rcases Nat.lt_trichotomy y y' with lt | rfl | gt
    · exact absurd first.2.1 (second.2.2 _ first.1 lt)
    · rfl
    · exact absurd second.2.1 (first.2.2 _ second.1 gt)

theorem IsPrev.unique (first : IsPrev keep x y) (second : IsPrev keep x z) : y = z := by
  rcases Nat.lt_trichotomy y z with lt | rfl | gt
  · exact absurd second.2.1 (first.2.2 _ lt second.1)
  · rfl
  · exact absurd first.2.1 (second.2.2 _ gt first.1)

theorem IsPrev.isNext (prev : IsPrev keep x y) (kept : keep x) : IsNext keep y (some x) :=
  ⟨prev.1,kept,prev.2.2⟩

theorem IsNext.isPrev (next : IsNext keep x (some y)) (kept : keep x) : IsPrev keep y x :=
  ⟨next.1,kept,next.2.2⟩

theorem IsNext.lt (next : IsNext keep x (some y)) : x < y := next.1

theorem IsNext.mono (next : IsNext keep x a) (sub : ∀ z, keep' z → keep z)
    (kept : ∀ y, a = some y → keep' y) : IsNext keep' x a := by
  cases a with
  | none => exact fun z lt k => next z lt (sub z k)
  | some y => exact ⟨next.1,kept y rfl,fun z lt lt' k => next.2.2 z lt lt' (sub z k)⟩

theorem IsPrev.mono (prev : IsPrev keep x y) (sub : ∀ z, keep' z → keep z) (kept : keep' y) :
    IsPrev keep' x y :=
  ⟨prev.1,kept,fun z lt lt' k => prev.2.2 z lt lt' (sub z k)⟩

theorem IsNext.skip (next : IsNext keep x (some c)) (after : IsNext keep c a)
    (sub : ∀ z, keep' z → keep z ∧ z ≠ c) (kept : ∀ y, a = some y → keep' y) : IsNext keep' x a := by
  cases a with
  | none => exact fun z lt k => if lt' : z < c then next.2.2 z lt lt' (sub z k).1
      else after z (by have := (sub z k).2; omega) (sub z k).1
  | some y =>
    refine ⟨next.1.trans after.1,kept y rfl,fun z lt lt' k => ?_⟩
    rcases Nat.lt_trichotomy z c with below | rfl | above
    · exact next.2.2 z lt below (sub z k).1
    · exact (sub z k).2 rfl
    · exact after.2.2 z above lt' (sub z k).1

theorem IsPrev.skip (prev : IsPrev keep x c) (before : IsPrev keep c y)
    (sub : ∀ z, keep' z → keep z ∧ z ≠ c) (kept : keep' y) : IsPrev keep' x y := by
  refine ⟨before.1.trans prev.1,kept,fun z lt lt' k => ?_⟩
  rcases Nat.lt_trichotomy z c with below | rfl | above
  · exact before.2.2 z lt below (sub z k).1
  · exact (sub z k).2 rfl
  · exact prev.2.2 z above lt' (sub z k).1

theorem Threads.congr {links : Links} (threads : Threads keep links) (same : ∀ x, keep x ↔ keep' x) :
    Threads keep' links := by
  obtain rfl : keep = keep' := funext fun x => propext (same x)
  exact threads

theorem Threads.next_isSome {links : Links} (threads : Threads keep links) (keepX : keep x) (keepY : keep y)
    (lt : x < y) : (links.next x).isSome := by
  have next := (threads x keepX).1
  cases found : links.next x with
  | none => rw [found] at next; exact absurd keepY (next y lt)
  | some _ => rfl

end Neighbours

/-! ### Lifting and unlifting -/

/-- Unlinking node `x`: `lift` does it to the call node, then to its match. -/
def unlink (links : Links) (x : Nat) : Option Links :=
  (links.prev x).map fun prev =>
  let links := links.setNext prev (links.next x)
  links.setPrevOf (links.next x) (links.prev x)

/-- Linking node `x` back in: `unlift` does it to the match, then to the call node. -/
def relink (links : Links) (x : Nat) : Option Links :=
  (links.prev x).map fun prev =>
  let links := links.setNext prev (some x)
  links.setPrevOf (links.next x) (some x)

theorem threads_head (entries : List (Entry V)) :
    Threads (· ≤ entries.length)
      (insertBefore (makeLinkedEntries entries).links 0 (makeLinkedEntries entries).root) := by
  obtain ⟨next,prev⟩ := insertBefore_head entries
  intro x kept
  refine ⟨?_,fun pos => ⟨x - 1,by rw [prev,if_pos ⟨pos,kept⟩],by omega,by omega,fun z _ _ => by omega⟩⟩
  rw [next]
  split_ifs with more
  · exact ⟨by omega,more,fun z _ _ => by omega⟩
  · exact fun z _ => by omega

private theorem unlink_threads {keep : Nat → Prop} {links : Links} (threads : Threads keep links)
    {x : Nat} (kept : keep x) (pos : 0 < x) :
    ∃ links', unlink links x = some links' ∧ Threads (fun y => keep y ∧ y ≠ x) links' ∧
      links'.next x = links.next x ∧ relink links' x = some links := by
  obtain ⟨nextX,prevX⟩ := threads x kept
  obtain ⟨p,hp,pPrev⟩ := prevX pos
  have px : x ≠ p := by have := pPrev.1; omega
  have pnext : links.next p = some x := (threads p pPrev.2.1).1.unique (pPrev.isNext kept)
  generalize ht : links.next x = t at nextX
  have after : ∀ z, t = some z → keep z ∧ z ≠ x := fun z found => by
    subst found; exact ⟨nextX.2.1,by have := nextX.1; omega⟩
  refine ⟨⟨Function.update links.next p t,fun y => if t = some y then some p else links.prev y⟩,?_,?_,?_,?_⟩
  · cases t <;> simp only [unlink,hp,Option.map_some',Links.setNext_next,Function.update_apply,px,
      if_false,ht,Option.some.injEq,Links.setPrevOf_none,Links.setPrevOf_some] <;> apply Links.ext' <;>
      funext y <;> simp [Function.update_apply,eq_comm,hp]
  · intro y ⟨ky,yx⟩
    constructor
    · show IsNext _ y (Function.update links.next p t y)
      rw [Function.update_apply]
      split_ifs with yp
      · subst yp; exact (pPrev.isNext kept).skip nextX (fun _ => id) after
      · have next := (threads y ky).1
        refine next.mono (fun _ => And.left) fun z found => ⟨?_,?_⟩
        · rw [found] at next; exact next.2.1
        · rintro rfl; rw [found] at next; exact yp (pPrev.unique (next.isPrev ky)).symm
    · intro ypos
      by_cases ty : t = some y
      · subst ty; exact ⟨p,if_pos rfl,(nextX.isPrev kept).skip pPrev (fun _ => id) ⟨pPrev.2.1,px.symm⟩⟩
      · obtain ⟨w,hw,wPrev⟩ := (threads y ky).2 ypos
        refine ⟨w,by simp [ty,hw],wPrev.mono (fun _ => And.left) ⟨wPrev.2.1,fun wx => ty ?_⟩⟩
        subst wx; exact nextX.unique (wPrev.isNext ky)
  · simp [Function.update_apply,px,ht]
  · have notX : ¬ t = some x := fun h => (after x h).2 rfl
    cases t with
    | none =>
      simp only [relink,Links.setNext_next,Function.update_apply,px,hp,ht,notX,if_false,Option.map_some',
        Option.some.injEq,Links.setPrevOf_none]
      apply Links.ext' <;> funext y
      · by_cases yp : y = p <;> simp [Function.update_apply,yp,pnext]
      · rfl
    | some s =>
      have sprev : links.prev s = some x := by
        obtain ⟨w,hw,wPrev⟩ := (threads s (after s rfl).1).2 (by have := nextX.1; omega)
        rw [hw,wPrev.unique (nextX.isPrev kept)]
      simp only [relink,Links.setNext_next,Function.update_apply,px,hp,ht,notX,if_false,Option.map_some',
        Option.some.injEq,Links.setPrevOf_some]
      apply Links.ext' <;> funext y
      · by_cases yp : y = p <;> simp [Function.update_apply,yp,pnext]
      · rcases eq_or_ne y s with rfl | ys
        · simp [Function.update_apply,sprev]
        · simp [Function.update_apply,ys,Ne.symm ys]

private theorem lift_eq (links : Links) (entry entryMatch : Nat) (hasNext : (links.next entry).isSome) :
    lift links entry entryMatch = (unlink links entry).bind (unlink · entryMatch) := by
  obtain ⟨next,found⟩ := Option.isSome_iff_exists.1 hasNext
  cases hp : links.prev entry with
  | none => simp [lift,unlink,hp]
  | some prev =>
    have read : Function.update links.next prev (some next) entry = some next := by
      rw [Function.update_apply]; split_ifs <;> simp_all
    simp [lift,unlink,hp,found,read]

private theorem unlift_eq {links mid : Links} {entry entryMatch : Nat} (first : relink links entryMatch = some mid)
    (hasNext : (mid.next entry).isSome) : unlift links entry entryMatch = relink mid entry := by
  obtain ⟨next,found⟩ := Option.isSome_iff_exists.1 hasNext
  cases hp : links.prev entryMatch with
  | none => simp [relink,hp] at first
  | some matchPrev =>
    simp only [relink,hp,Option.map_some',Option.some.injEq] at first
    simp only [unlift,hp,Option.some_bind,first,relink]
    cases mid.prev entry with
    | none => rfl
    | some prev =>
      have read : Function.update mid.next prev (some entry) entry =
          some (if entry = prev then entry else next) := by
        rw [Function.update_apply]; split_ifs <;> simp_all
      simp [read]

theorem lift_threads {keep : Nat → Prop} {links : Links} (threads : Threads keep links)
    {entry entryMatch : Nat} (keepEntry : keep entry) (keepMatch : keep entryMatch)
    (pos : 0 < entry) (order : entry < entryMatch) :
    ∃ links', lift links entry entryMatch = some links' ∧
      Threads (fun x => (keep x ∧ x ≠ entry) ∧ x ≠ entryMatch) links' ∧
      unlift links' entry entryMatch = some links := by
  obtain ⟨first,unlinked,threadsFirst,sameNext,relinked⟩ := unlink_threads threads keepEntry pos
  obtain ⟨second,unlinked',threadsSecond,-,relinked'⟩ :=
    unlink_threads threadsFirst ⟨keepMatch,by omega⟩ (by omega)
  have hasNext := threads.next_isSome keepEntry keepMatch order
  refine ⟨second,?_,threadsSecond,?_⟩
  · rw [lift_eq _ _ _ hasNext,unlinked]; exact unlinked'
  · rw [unlift_eq relinked' (sameNext ▸ hasNext)]; exact relinked

private theorem unlink_prev_zero {keep : Nat → Prop} {links links' : Links} (threads : Threads keep links) {x : Nat}
    (kept : keep x) (unlinked : unlink links x = some links') : links'.prev 0 = links.prev 0 := by
  have next := (threads x kept).1
  obtain ⟨p,-,rfl⟩ := Option.map_eq_some'.1 unlinked
  cases found : links.next x with
  | none => simp [found,Function.update_apply]
  | some y =>
    rw [found] at next
    have : 0 ≠ y := by have := next.1; omega
    simp [found,Function.update_apply,this]

theorem lift_prev_zero {keep : Nat → Prop} {links links' : Links} (threads : Threads keep links)
    {entry entryMatch : Nat} (keepEntry : keep entry) (keepMatch : keep entryMatch)
    (pos : 0 < entry) (order : entry < entryMatch) (lifted : lift links entry entryMatch = some links') :
    links'.prev 0 = links.prev 0 := by
  obtain ⟨first,unlinked,threadsFirst,-,-⟩ := unlink_threads threads keepEntry pos
  rw [lift_eq _ _ _ (threads.next_isSome keepEntry keepMatch order),unlinked,Option.some_bind] at lifted
  rw [unlink_prev_zero threadsFirst ⟨keepMatch,by omega⟩ lifted,unlink_prev_zero threads keepEntry unlinked]

end Sentinel.Linearizability
