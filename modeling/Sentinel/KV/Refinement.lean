import Sentinel.KV.Service

/-! The server's `applyOp` against the checker's `KvModel`. Along a sequence of gets, puts and
appends in which each client's request ids rise, `isDuplicated` never holds, so every put and
append is written; an absent key reads as `""` on both sides, and an append to it starts from
`""` on both. The server's value at each key is then the state `KvModel`'s `Step` reaches on
that key's ops, and every get returns it, which `Step` accepts. -/

namespace Sentinel.RaftKV

open Linearizability

/-- The commands the clerks send. -/
def Op.IsCommand (op : Op) : Prop := op.command = "get" ∨ op.command = "put" ∨ op.command = "append"

instance : DecidablePred Op.IsCommand := fun _ => inferInstanceAs (Decidable (_ ∨ _))

/-- Each client's `RequestId`s rise strictly along `ops`. -/
def RequestsRise (ops : List Op) : Prop :=
  ops.Pairwise fun a b => a.clientId = b.clientId → a.requestId < b.requestId

instance (ops : List Op) : Decidable (RequestsRise ops) := inferInstanceAs (Decidable (List.Pairwise _ _))

namespace KVServer

/-- What the checker records as `Run` applies `ops` from `kv`: each op's input, with the value
of its result as output. -/
def record (kv : KVServer) : List Op → List (KvInput × KvOutput)
  | [] => []
  | op :: ops => (inputOf op,⟨(kv.applyOp op).2.value⟩) :: (kv.applyOp op).1.record ops

end KVServer

/-- The state `KvModel`'s `Step` reaches from `Init` along the recorded ops of `key`. -/
def keyState (key : String) (record : List (KvInput × KvOutput)) : String :=
  (record.filter (·.1.key = key)).foldl (fun state io => (kvModel.step state (.input io.1) (.output io.2)).2)
    kvModel.init

private theorem keyState_append (key : String) (record : List (KvInput × KvOutput)) (input : KvInput) (output : KvOutput) :
    keyState key (record ++ [(input,output)]) =
      if input.key = key then (kvStep (keyState key record) (.input input) (.output output)).2
      else keyState key record := by
  by_cases same : input.key = key <;> simp [keyState,same]

section Apply

variable {kv : KVServer} {op : Op}

theorem applyOp_get_value (get : op.command = "get") : (kv.applyOp op).2.value = (kv.data op.key).getD "" := by
  unfold KVServer.applyOp
  cases found : kv.data op.key <;> simp [get,found]

private theorem applyOp_getD (command : op.IsCommand) (fresh : kv.isDuplicated op = false) (key : String) :
    ((kv.applyOp op).1.data key).getD "" =
      if op.key = key then (kvStep ((kv.data key).getD "") (.input (inputOf op)) (.output ⟨(kv.applyOp op).2.value⟩)).2
      else (kv.data key).getD "" := by
  rw [KVServer.applyOp_data,fresh,if_neg Bool.false_ne_true]
  rcases command with get | written | written
  · split_ifs <;> simp [KVServer.write,get,inputOf,kvStep]
  all_goals
    by_cases same : op.key = key
    · subst same
      simp [KVServer.write,written,inputOf,kvStep]
    · simp [KVServer.write,written,same,Function.update_apply,Ne.symm same]

end Apply

/-- Every value the server holds is what `KvModel` reaches on the key's ops in `record`. -/
def Tracks (kv : KVServer) (record : List (KvInput × KvOutput)) : Prop :=
  ∀ key, (kv.data key).getD "" = keyState key record

/-- No op of `ops` has an id at or below the one `ack` holds for its client. -/
def AckedBelow (kv : KVServer) (ops : List Op) : Prop :=
  ∀ op ∈ ops, ∀ last, kv.ack op.clientId = some last → last < op.requestId

theorem AckedBelow.fresh {kv : KVServer} {op : Op} {ops : List Op} (acked : AckedBelow kv (op :: ops)) :
    kv.isDuplicated op = false := by
  unfold KVServer.isDuplicated
  cases found : kv.ack op.clientId with
  | none => rfl
  | some last => simpa using acked op (.head _) last found

private theorem applyOps_tracks {before rest : List Op} (commands : ∀ op ∈ before, op.IsCommand)
    (rising : RequestsRise (before ++ rest)) :
    ∀ {kv : KVServer} {record}, Tracks kv record → AckedBelow kv (before ++ rest) →
      Tracks (kv.applyOps before) (record ++ kv.record before) ∧ AckedBelow (kv.applyOps before) rest := by
  induction before with
  | nil => exact fun tracks acked => ⟨by simpa [KVServer.record] using tracks,acked⟩
  | cons op before ih =>
    intro kv record tracks acked
    rw [List.cons_append,RequestsRise,List.pairwise_cons] at rising
    have fresh := acked.fresh
    show Tracks ((kv.applyOp op).1.applyOps before)
      (record ++ (inputOf op,⟨(kv.applyOp op).2.value⟩) :: (kv.applyOp op).1.record before) ∧ _
    rw [List.append_cons]
    refine ih (fun op mem => commands op (.tail _ mem)) rising.2 (fun key => ?_) fun later mem last found => ?_
    · rw [applyOp_getD (commands op (.head _)) fresh,keyState_append,tracks]
      rfl
    · rw [KVServer.applyOp_ack,Function.update_apply] at found
      split_ifs at found with same
      · cases found
        exact rising.1 later mem same.symm
      · exact acked later (.tail _ mem) last found

/-- Applied in order from the empty maps, with each client's request ids rising, every get
returns the value `KvModel`'s `Step` reaches on its key along the earlier ops, and `Step`
accepts it. -/
theorem get_returns_kvModel_state (ops : List Op) (commands : ∀ op ∈ ops, op.IsCommand) (rising : RequestsRise ops)
    (before : List Op) (op : Op) (after : List Op) (split : ops = before ++ op :: after) (get : op.command = "get") :
    ((KVServer.empty.applyOps before).applyOp op).2.value = keyState op.key (KVServer.empty.record before) ∧
      (kvModel.step (keyState op.key (KVServer.empty.record before)) (.input (inputOf op))
        (.output ⟨((KVServer.empty.applyOps before).applyOp op).2.value⟩)).1 = true := by
  subst split
  obtain ⟨tracks,-⟩ := applyOps_tracks (fun op mem => commands op (List.mem_append_left _ mem)) rising
    (show Tracks KVServer.empty [] from fun _ => rfl) fun _ _ _ found => by cases found
  have value : ((KVServer.empty.applyOps before).applyOp op).2.value = keyState op.key (KVServer.empty.record before) := by
    rw [applyOp_get_value get,tracks]
    rfl
  exact ⟨value,by simp [value,kvStep,inputOf,get]⟩

/-- A put of `"x"` to `"k"` and then a get of it by the same client. -/
theorem put_then_get_returns_state :
    ((KVServer.empty.applyOps [⟨"put",1,1,"k","x"⟩]).applyOp ⟨"get",1,2,"k",""⟩).2.value =
        keyState "k" (KVServer.empty.record [⟨"put",1,1,"k","x"⟩]) ∧
      (kvModel.step (keyState "k" (KVServer.empty.record [⟨"put",1,1,"k","x"⟩])) (.input (inputOf ⟨"get",1,2,"k",""⟩))
        (.output ⟨((KVServer.empty.applyOps [⟨"put",1,1,"k","x"⟩]).applyOp ⟨"get",1,2,"k",""⟩).2.value⟩)).1 = true :=
  get_returns_kvModel_state [⟨"put",1,1,"k","x"⟩,⟨"get",1,2,"k",""⟩] (by decide) (by decide) [⟨"put",1,1,"k","x"⟩] _ []
    rfl rfl

end Sentinel.RaftKV
