import Sentinel.KV.Provenance
import Sentinel.KV.Refinement

/-! What the data of `raftkv` holds. `applyOp` writes a key only for a put (its value) or an
append (the old value, `""` when absent, then its value), and `Run` applies only ops clerks sent
and decodes into its maps only snapshots of maps `Run` made. So every value of any server's data
map is the value of a put or an append on that key followed by the values of appends on that key,
all sent by clerks, and a get that completes returns `""` or such a value: the service invents no data,
across crashes, snapshots and retries. Which writes a value is made of, and in what order, is
not fixed here: a lost put (`lost_put_breaks_linearizability`) and an append applied twice
(`stale_retry_appends_twice`) show that it need not be an order the history explains. -/

namespace Sentinel.RaftKV

open Linearizability

/-- `v` is the value of a put or an append on `key`, then the values of appends on `key`, all of
them ops of `ops`, in the order `applyOp` joins them. -/
def Written (ops : List Op) (key v : String) : Prop :=
  ∃ ws : List Op, ws ≠ [] ∧ (∀ w ∈ ws, w ∈ ops ∧ w.key = key ∧ (w.command = "put" ∨ w.command = "append")) ∧
    (∀ w ∈ ws.tail, w.command = "append") ∧ v = ws.foldl (fun v w => v ++ w.value) ""

section Written

variable {ops ops' : List Op} {key v : String} {op : Op}

theorem Written.mono (written : Written ops key v) (grown : ∀ op ∈ ops, op ∈ ops') : Written ops' key v :=
  let ⟨ws,nonempty,each,appends,joined⟩ := written
  ⟨ws,nonempty,fun w mem => let ⟨sent,rest⟩ := each w mem; ⟨grown w sent,rest⟩,appends,joined⟩

private theorem written_first (sent : op ∈ ops) (command : op.command = "put" ∨ op.command = "append") :
    Written ops op.key op.value :=
  ⟨[op],List.cons_ne_nil _ _,by simpa [sent] using command,by simp,rfl⟩

theorem Written.append (written : Written ops key v) (sent : op ∈ ops) (append : op.command = "append")
    (same : op.key = key) : Written ops key (v ++ op.value) := by
  obtain ⟨ws,nonempty,each,appends,rfl⟩ := written
  refine ⟨ws ++ [op],by simp,fun w mem => ?_,fun w mem => ?_,by simp⟩
  · rcases List.mem_append.1 mem with old | new
    · exact each w old
    · cases List.mem_singleton.1 new
      exact ⟨sent,same,.inr append⟩
  · rw [List.tail_append_of_ne_nil nonempty] at mem
    rcases List.mem_append.1 mem with old | new
    · exact appends w old
    · cases List.mem_singleton.1 new
      exact append

end Written

/-- Every value of the data map is written by ops of `ops`. -/
def KVServer.DataIn (ops : List Op) (kv : KVServer) : Prop := ∀ key v, kv.data key = some v → Written ops key v

namespace KVServer

variable {ops ops' : List Op} {kv : KVServer}

theorem DataIn.mono (data : kv.DataIn ops) (grown : ∀ op ∈ ops, op ∈ ops') : kv.DataIn ops' :=
  fun key v found => (data key v found).mono grown

theorem DataIn.applyOp (data : kv.DataIn ops) {op : Op} (sent : op ∈ ops) : (kv.applyOp op).1.DataIn ops := by
  intro key v found
  rw [applyOp_data] at found
  by_cases duplicated : kv.isDuplicated op
  · rw [if_pos duplicated] at found
    exact data key v found
  rw [if_neg duplicated] at found
  by_cases written : (op.command = "put" ∨ op.command = "append") ∧ key = op.key
  · obtain ⟨command,rfl⟩ := written
    unfold write at found
    rcases command with put | append
    · rw [if_pos put,Function.update_same,Option.some.injEq] at found
      exact found ▸ written_first sent (.inl put)
    · rw [if_neg (by rw [append]; decide),if_pos append,Function.update_same,Option.some.injEq] at found
      subst found
      cases old : kv.data op.key with
      | none => exact written_first sent (.inr append)
      | some w => exact (data _ w old).append sent append rfl
  · have kept : write kv.data op key = kv.data key := by
      unfold write
      split_ifs with put append
      · exact Function.update_noteq (fun same => written ⟨.inl put,same⟩) _ _
      · exact Function.update_noteq (fun same => written ⟨.inr append,same⟩) _ _
      · rfl
    exact data key v (kept ▸ found)

private theorem empty_dataIn (ops : List Op) : empty.DataIn ops := nofun

theorem DataIn.load (data : kv.DataIn ops) {snapshot : KVServer} (loaded : snapshot.DataIn ops) :
    (kv.load snapshot).DataIn ops :=
  fun key v found => (load_data found).elim (loaded key v) (data key v)

private theorem dataIn_closed : Closed DataIn :=
  ⟨empty_dataIn,fun _ _ _ data sent => data.applyOp sent,fun _ _ _ data loaded => data.load loaded,
    fun _ _ _ data grown => data.mono grown⟩

end KVServer

theorem Service.Reachable.repliesWritten {oversized : Persister Op KVServer → Bool} {n : Nat} {clients : List Int}
    (distinct : clients.Nodup) {s : Service} (reached : Service.Reachable oversized n clients s) :
    s.RepliesApplied (KVServer.DataIn s.ops) := by
  induction reached with
  | init => exact Service.init_repliesApplied n clients
  | step _ reached stepped inv =>
    exact (inv.step reached.replays (fun kv mem => ((reached.mapsWithin KVServer.dataIn_closed distinct).servers kv mem).1)
      stepped).mono fun _ data => data.mono (Service.step_ops stepped)

theorem Service.Reachable.historyWritten {oversized : Persister Op KVServer → Bool} {n : Nat} {clients : List Int}
    (distinct : clients.Nodup) {s : Service} (reached : Service.Reachable oversized n clients s) :
    s.HistoryApplied (KVServer.DataIn s.ops) := by
  induction reached with
  | init => exact fun _ mem => by cases mem
  | step _ reached stepped applied =>
    exact (applied.step (reached.requestIds distinct) (reached.repliesWritten distinct) reached.clerksWellFormed
      stepped).mono fun _ data => data.mono (Service.step_ops stepped)

/-- When the clients have distinct ids, in every state any interleaving of the service reaches
(crashes of replicas and servers, snapshots installed or recovered, lost and late calls,
retries), every value a server's data map holds for a key is the value of a put or an append on
that key followed by the values of appends on that key, all ops clerks sent: no server stores a
value no clerk wrote. -/
theorem stored_values_were_written {oversized : Persister Op KVServer → Bool} {n : Nat} {clients : List Int}
    (distinct : clients.Nodup) {s : Service} (reached : Service.Reachable oversized n clients s) :
    ∀ kv ∈ s.servers, ∀ key v, kv.kv.data key = some v → Written s.ops key v :=
  fun kv mem => ((reached.mapsWithin KVServer.dataIn_closed distinct).servers kv mem).1

theorem putCompletes_stored_values_were_written :
    [(1 : Int),2,3].Nodup ∧
      ∀ kv ∈ (Service.replay (fun _ => false) 3 [1,2,3] (getAndPutStarted ++ putCompletes) (by decide)).servers,
      ∀ key v, kv.kv.data key = some v →
        Written (Service.replay (fun _ => false) 3 [1,2,3] (getAndPutStarted ++ putCompletes) (by decide)).ops key v :=
  ⟨by decide,stored_values_were_written (by decide) (Service.Reachable.replay _ _)⟩

/-- When the clients have distinct ids, in every state any interleaving of the service reaches,
every get in the history of completed ops returned `""` or a value of its key that is the value
of a put or an append on that key followed by the values of appends on that key, all ops clerks
sent: no clerk reads a value no clerk wrote. -/
theorem completed_gets_return_written_values {oversized : Persister Op KVServer → Bool} {n : Nat}
    {clients : List Int} (distinct : clients.Nodup) {s : Service} (reached : Service.Reachable oversized n clients s) :
    ∀ h ∈ s.history, ∀ key value v, h.input = .input ⟨0,key,value⟩ → h.output = .output ⟨v⟩ →
      v = "" ∨ Written s.ops key v := by
  intro h mem key value v input output
  obtain ⟨op,-,same,-,-,kv,-,data,returned⟩ := reached.historyWritten distinct h mem
  rw [input] at same
  rw [output] at returned
  simp only [KvValue.input.injEq,inputOf,KvInput.mk.injEq] at same
  obtain ⟨zero,rfl,-⟩ := same
  have get : op.command = "get" := by
    by_contra other
    rw [if_neg other] at zero
    split_ifs at zero
  simp only [KvValue.output.injEq,KvOutput.mk.injEq,applyOp_get_value get] at returned
  cases found : kv.data op.key with
  | none => exact .inl (by rw [returned,found]; rfl)
  | some w => exact .inr (by rw [returned,found]; exact data op.key w found)

theorem putCompletes_completed_gets_return_written_values :
    [(1 : Int),2,3].Nodup ∧
      ∀ h ∈ (Service.replay (fun _ => false) 3 [1,2,3] (getAndPutStarted ++ putCompletes) (by decide)).history,
      ∀ key value v, h.input = .input ⟨0,key,value⟩ → h.output = .output ⟨v⟩ →
        v = "" ∨
          Written (Service.replay (fun _ => false) 3 [1,2,3] (getAndPutStarted ++ putCompletes) (by decide)).ops key v :=
  ⟨by decide,completed_gets_return_written_values (by decide) (Service.Reachable.replay _ _)⟩

end Sentinel.RaftKV
