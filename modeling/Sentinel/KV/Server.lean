import Mathlib.Data.List.Basic

/-! The key/value state machine of the `raftkv` server: `applyOp` and
`isDuplicated`, run over the commands the apply channel delivers. `ack` records
each client's last request id, and a put or append is skipped when its id is at
or below that record; `applyOp` then stores the op's id over the record. -/

namespace Sentinel.RaftKV

/-- `Op`. `ClientId` and `RequestId` are `int64`; no run comes near their bounds. -/
structure Op where
  command : String
  clientId : Int
  requestId : Int
  key : String
  value : String
deriving DecidableEq, Repr

/-- `OK` and `ErrNoKey` of `common.go`; the empty string is `Err`'s zero value. -/
def OK : String := "OK"

def ErrNoKey : String := "ErrNoKey"

structure Result where
  command : String
  ok : Bool
  clientId : Int
  requestId : Int
  wrongLeader : Bool
  err : String
  value : String
deriving DecidableEq, Repr

/-- The two maps `applyOp` reads and writes; an absent key is `none`. -/
structure KVServer where
  data : String → Option String
  ack : Int → Option Int

namespace KVServer

/-- `StartKVServer`'s empty maps. -/
def empty : KVServer := ⟨fun _ => none,fun _ => none⟩

/-- `kv.isDuplicated(op)`. -/
def isDuplicated (kv : KVServer) (op : Op) : Bool :=
  match kv.ack op.clientId with
  | some lastRequestId => decide (op.requestId ≤ lastRequestId)
  | none => false

/-- The write `applyOp` makes to `data` for a put or append that is not a duplicate. -/
def write (data : String → Option String) (op : Op) : String → Option String :=
  if op.command = "put" then Function.update data op.key (some op.value)
  else if op.command = "append" then Function.update data op.key (some ((data op.key).getD "" ++ op.value))
  else data

/-- `kv.applyOp(op)`: the `switch` on the command, then `ack[ClientId] = RequestId`. -/
def applyOp (kv : KVServer) (op : Op) : KVServer × Result :=
  let result : Result := ⟨op.command,true,op.clientId,op.requestId,false,"",""⟩
  let (data,result) :=
    if op.command = "put" ∨ op.command = "append" then
      ((if kv.isDuplicated op then kv.data else write kv.data op),{ result with err := OK })
    else if op.command = "get" then
      match kv.data op.key with
      | some value => (kv.data,{ result with err := OK, value := value })
      | none => (kv.data,{ result with err := ErrNoKey })
    else (kv.data,result)
  (⟨data,Function.update kv.ack op.clientId (some op.requestId)⟩,result)

/-- `d.Decode(&kv.data)` and `d.Decode(&kv.ack)` of a snapshot: gob decodes a map into the map it
is given, so the snapshot's entries are stored over the server's and its other keys stay. -/
def load (kv snapshot : KVServer) : KVServer :=
  ⟨fun key => (snapshot.data key).or (kv.data key),fun id => (snapshot.ack id).or (kv.ack id)⟩

theorem load_data {kv snapshot : KVServer} {key v : String} (found : (kv.load snapshot).data key = some v) :
    snapshot.data key = some v ∨ kv.data key = some v := by
  cases stored : snapshot.data key <;> simp only [load,stored,Option.or_some,Option.none_or] at found
  exacts [.inr found,.inl found]

theorem load_ack {kv snapshot : KVServer} {clientId requestId : Int} (found : (kv.load snapshot).ack clientId = some requestId) :
    snapshot.ack clientId = some requestId ∨ kv.ack clientId = some requestId := by
  cases stored : snapshot.ack clientId <;> simp only [load,stored,Option.or_some,Option.none_or] at found
  exacts [.inr found,.inl found]

/-- The state after `Run` applies `ops` in order. -/
def applyOps (kv : KVServer) (ops : List Op) : KVServer :=
  ops.foldl (fun kv op => (kv.applyOp op).1) kv

@[simp] theorem applyOp_ack (kv : KVServer) (op : Op) :
    (kv.applyOp op).1.ack = Function.update kv.ack op.clientId (some op.requestId) := by
  unfold applyOp; split_ifs <;> (try split) <;> rfl

theorem applyOp_data (kv : KVServer) (op : Op) :
    (kv.applyOp op).1.data = if kv.isDuplicated op then kv.data else write kv.data op := by
  unfold applyOp write
  split_ifs <;> (try split) <;> simp_all

end KVServer

/-! ### Effectively-once application -/

/-- Where `op` stands among its client's requests: it is a first copy, and every
earlier first copy of that client has a smaller id, or it is a later copy, equal to
the first copy of its request. `seen` is the ops before it. -/
def RetryOrder (seen : List Op) (op : Op) : Prop :=
  (∀ earlier ∈ seen, earlier.clientId = op.clientId → earlier.requestId = op.requestId → earlier = op) ∧
  ((∀ earlier ∈ seen, earlier.clientId = op.clientId → earlier.requestId ≠ op.requestId) →
    ∀ earlier ∈ seen, earlier.clientId = op.clientId → earlier.requestId < op.requestId)

instance (seen : List Op) (op : Op) : Decidable (RetryOrder seen op) :=
  inferInstanceAs (Decidable (_ ∧ _))

/-- A sequence of applied ops as retries produce them: each op stands in
`RetryOrder` to the ops before it. -/
def RetrySequence (ops : List Op) : Prop :=
  ∀ k (bound : k < ops.length), RetryOrder (ops.take k) ops[k]

instance (ops : List Op) : Decidable (RetrySequence ops) :=
  inferInstanceAs (Decidable (∀ k (_ : k < ops.length), _))

/-- The reference map of the effectively-once property: only the first copy of each
`(ClientId, RequestId)` put or append is applied, in order. -/
def firstCopiesData (data : String → Option String) (seen : List Op) : List Op → String → Option String
  | [] => data
  | op :: rest =>
    let first := seen.all fun earlier => !(earlier.clientId = op.clientId ∧ earlier.requestId = op.requestId)
    firstCopiesData (if first then KVServer.write data op else data) (seen ++ [op]) rest

/-- Client 1 appends `"x"` (request 1) and `"y"` (request 2) to key `"k"`, and a
retried copy of each request is committed again after both. -/
def retriedAppends : List Op :=
  [⟨"append",1,1,"k","x"⟩,⟨"append",1,2,"k","y"⟩,⟨"append",1,1,"k","x"⟩,⟨"append",1,2,"k","y"⟩]

/-- The stale copy of request 1 lowers `ack[1]` to 1, so the copy of request 2 is
applied a second time. -/
theorem stale_retry_appends_twice :
    RetrySequence retriedAppends ∧ (KVServer.empty.applyOps retriedAppends).data "k" = some "xyy" ∧
      firstCopiesData (fun _ => none) [] retriedAppends "k" = some "xy" := by
  decide

end Sentinel.RaftKV
