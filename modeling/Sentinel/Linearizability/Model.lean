import Mathlib.Data.List.Sort
import Mathlib.Data.List.Permutation

/-! Histories of the linearizability checker and what it decides. An `Operation` is
one completed call: its input and output, and the times of its call and its return.
A `Model` is the sequential specification `checkSingle` runs. A history is
`Linearizable` when some order of its operations keeps every real-time precedence and
is accepted by folding the model's `Step` from `Init`. `makeEntries` turns a history
into its call and return entries, sorted by time, as the search reads them. -/

namespace Sentinel.Linearizability

variable {V S : Type}

/-- `Operation`. `Input` and `Output` are `interface{}` values, here of one type `V`;
`Call` and `Return` are `int64` times. -/
structure Operation (V : Type) where
  input : V
  call : Int
  output : V
  ret : Int
deriving DecidableEq, Repr

/-- The functions of a `Model` that `checkSingle` calls, once `fillDefault` has given
it an `Equal`. `Init` takes no argument and is a value here. -/
structure Model (V S : Type) where
  init : S
  step : S → V → V → Bool × S
  equal : S → S → Bool

namespace Model

/-- Folding `step` over `ops` from `state`: every op is accepted. -/
def accepts (model : Model V S) : S → List (Operation V) → Bool
  | _, [] => true
  | state, op :: ops => (model.step state op.input op.output).1 &&
      model.accepts (model.step state op.input op.output).2 ops

end Model

/-- Some permutation of `history` places `a` before `b` whenever `a` returned before `b`
was called (no pair stands the other way round), and folding `step` from `init`
accepts it. -/
def Linearizable (model : Model V S) (history : List (Operation V)) : Prop :=
  ∃ order : List (Operation V), order.Perm history ∧
    order.Pairwise (fun a b => ¬ b.ret < a.call) ∧ model.accepts model.init order = true

private theorem linearizable_iff_permutations (model : Model V S) (history : List (Operation V)) :
    Linearizable model history ↔ ∃ order ∈ history.permutations',
      order.Pairwise (fun a b => ¬ b.ret < a.call) ∧ model.accepts model.init order = true := by
  simp only [Linearizable,List.mem_permutations']

/-- A finite history is decided by trying each of its orders. -/
instance (model : Model V S) (history : List (Operation V)) : Decidable (Linearizable model history) :=
  decidable_of_iff _ (linearizable_iff_permutations model history).symm

/-- `entry`: `kind` is `returnEntry` (`true`) or `callEntry` (`false`); `value` is the
operation's input in a call entry and its output in a return entry. -/
structure Entry (V : Type) where
  kind : Bool
  value : V
  id : Nat
  time : Int
deriving DecidableEq, Repr

/-- The loop of `makeEntries`, with `id` the index of the first operation of `history`. -/
def makeEntries.loop : Nat → List (Operation V) → List (Entry V)
  | _, [] => []
  | id, elem :: history => ⟨false,elem.input,id,elem.call⟩ :: ⟨true,elem.output,id,elem.ret⟩ ::
      makeEntries.loop (id + 1) history

/-- `makeEntries`, with `sort.Sort(byTime(entries))` as a sort by time. -/
def makeEntries (history : List (Operation V)) : List (Entry V) :=
  (makeEntries.loop 0 history).insertionSort fun a b => a.time ≤ b.time

end Sentinel.Linearizability
