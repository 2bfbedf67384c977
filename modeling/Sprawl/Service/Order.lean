import Mathlib.Logic.Function.Basic
import Mathlib.Data.List.Nodup

/-! # The order service: `OrderService.Create` and `OrderService.Delete` -/

namespace Sprawl.Service

/-- A Go `[]byte`. -/
abbrev Bytes := List UInt8

/-- `pb.State`. -/
inductive State where
  | OPEN
  | LOCKED
deriving DecidableEq, Repr

/-- `google.protobuf.Timestamp`. -/
structure Timestamp where
  seconds : Int
  nanos : Int
deriving DecidableEq, Repr

/-- `pb.CreateRequest`. The `double` price is kept as its bits: `Create` only copies it. -/
structure CreateRequest where
  asset : Bytes
  counterAsset : Bytes
  amount : UInt64
  price : UInt64
deriving DecidableEq, Repr

/-- `pb.Order`. -/
structure Order where
  id : Bytes
  created : Timestamp
  asset : Bytes
  counterAsset : Bytes
  amount : UInt64
  price : UInt64
  state : State
  signature : Bytes
deriving DecidableEq, Repr

/-- `pb.OrderSpecificRequest`, by the one field `Delete` reads. -/
structure OrderSpecificRequest where
  id : Bytes
deriving DecidableEq, Repr

/-- The library functions `Create` calls: `String()` of a request and of a timestamp, as bytes,
`proto.Marshal` of an order, and HMAC-SHA256 of a message under a key. -/
structure Codec where
  requestText : CreateRequest → Bytes
  timestampText : Timestamp → Bytes
  marshal : Order → Bytes
  hmacSha256 : Bytes → Bytes → Bytes

/-- The store behind `interfaces.Storage`: the value under each key. -/
abbrev Storage := Bytes → Option Bytes

/-- `storage.Put(key, value)`. -/
def Storage.put (s : Storage) (key value : Bytes) : Storage := Function.update s key (some value)

/-- `storage.Delete(key)`. -/
def Storage.delete (s : Storage) (key : Bytes) : Storage := Function.update s key none

/-- `[]byte(secret)` for `secret := "mysecret"`, an ASCII string. -/
def secret : Bytes := "mysecret".toList.map (·.toNat.toUInt8)

/-- The id `Create` gives an order: the HMAC of the request's text and the clock's. -/
def orderId (c : Codec) (req : CreateRequest) (now : Timestamp) : Bytes :=
  c.hmacSha256 secret (c.requestText req ++ c.timestampText now)

def newOrder (c : Codec) (req : CreateRequest) (now : Timestamp) : Order :=
  ⟨orderId c req now, now, req.asset, req.counterAsset, req.amount, req.price, .OPEN, []⟩

/-- `OrderService.Create(ctx, in)`, with `now` what `ptypes.TimestampNow()` returned: the store
after it, and the order of its response. -/
def create (c : Codec) (s : Storage) (req : CreateRequest) (now : Timestamp) : Storage × Order :=
  let order := newOrder c req now
  (s.put order.id (c.marshal order), order)

/-- `OrderService.Delete(ctx, in)`: the store after it. -/
def delete (s : Storage) (req : OrderSpecificRequest) : Storage := s.delete req.id

/-- `Create` called with each request and clock reading in turn: the store after them, and the
orders they returned. -/
def createAll (c : Codec) (s : Storage) : List (CreateRequest × Timestamp) → Storage × List Order
  | [] => (s, [])
  | (req, now) :: rest =>
    let r := create c s req now
    let rs := createAll c r.1 rest
    (rs.1, r.2 :: rs.2)

@[simp] theorem newOrder_id (c : Codec) (req : CreateRequest) (now : Timestamp) :
    (newOrder c req now).id = orderId c req now := rfl

@[simp] theorem newOrder_state (c : Codec) (req : CreateRequest) (now : Timestamp) :
    (newOrder c req now).state = .OPEN := rfl

@[simp] theorem create_order (c : Codec) (s : Storage) (req : CreateRequest) (now : Timestamp) :
    (create c s req now).2 = newOrder c req now := rfl

@[simp] theorem create_storage (c : Codec) (s : Storage) (req : CreateRequest) (now : Timestamp) :
    (create c s req now).1 = s.put (orderId c req now) (c.marshal (newOrder c req now)) := rfl

/-- A codec to run the model on: the texts are raw fields, `proto.Marshal` keeps the id, and the
HMAC returns its message, which is injective. -/
def Codec.plain : Codec :=
  ⟨fun r => r.asset, fun t => [t.seconds.toNat.toUInt8], fun o => o.id, fun _ m => m⟩

/-! ## `Delete` after `Create` -/

/-- `Create` stores the order under its id, and `Delete` of that id undoes it. -/
theorem delete_undoes_create (c : Codec) (s : Storage) (req : CreateRequest) (now : Timestamp)
    (h : s (create c s req now).2.id = none) :
    (create c s req now).1 (create c s req now).2.id = some (c.marshal (create c s req now).2) ∧
      delete (create c s req now).1 ⟨(create c s req now).2.id⟩ = s := by
  refine ⟨by simp [Storage.put], funext fun k => ?_⟩
  by_cases hk : k = orderId c req now
  · subst hk; simpa [delete, Storage.delete] using h.symm
  · simp [delete, Storage.delete, Storage.put, hk]

theorem delete_undoes_create_on_empty :
    (create Codec.plain (fun _ => none) ⟨[1], [2], 3, 4⟩ ⟨5, 0⟩).1 [1, 5] = some [1, 5] ∧
      delete (create Codec.plain (fun _ => none) ⟨[1], [2], 3, 4⟩ ⟨5, 0⟩).1 ⟨[1, 5]⟩ =
        fun _ => none :=
  delete_undoes_create Codec.plain (fun _ => none) _ _ rfl

/-! ## Many `Create` calls -/

def callIds (c : Codec) (calls : List (CreateRequest × Timestamp)) : List Bytes :=
  calls.map fun p => orderId c p.1 p.2

theorem createAll_orders (c : Codec) (s : Storage) (calls : List (CreateRequest × Timestamp)) :
    (createAll c s calls).2 = calls.map fun p => newOrder c p.1 p.2 := by
  induction calls generalizing s with
  | nil => rfl
  | cons p calls ih => simp [createAll, ih]

theorem createAll_frame (c : Codec) (s : Storage) (calls : List (CreateRequest × Timestamp))
    {k : Bytes} (hk : k ∉ callIds c calls) : (createAll c s calls).1 k = s k := by
  induction calls generalizing s with
  | nil => rfl
  | cons p calls ih =>
    simp only [callIds, List.map_cons, List.mem_cons, not_or] at hk
    simp [createAll, ih _ hk.2, Storage.put, hk.1]

theorem createAll_stored (c : Codec) (s : Storage) (calls : List (CreateRequest × Timestamp))
    (hn : (callIds c calls).Nodup) :
    ∀ o ∈ (createAll c s calls).2, (createAll c s calls).1 o.id = some (c.marshal o) := by
  induction calls generalizing s with
  | nil => simp [createAll]
  | cons p calls ih =>
    simp only [callIds, List.map_cons, List.nodup_cons] at hn
    intro o ho
    simp only [createAll, List.mem_cons] at ho
    rcases ho with rfl | ho
    · simp [createAll, createAll_frame c _ calls hn.1, Storage.put]
    · exact ih _ hn.2 o ho

/-- `Create` calls with distinct HMAC inputs store one `OPEN` record each. -/
theorem creates_store_each_order (c : Codec) (hinj : Function.Injective (c.hmacSha256 secret))
    (s : Storage) (calls : List (CreateRequest × Timestamp))
    (hcalls : (calls.map fun p => c.requestText p.1 ++ c.timestampText p.2).Nodup) :
    (createAll c s calls).2.length = calls.length ∧
      ((createAll c s calls).2.map (·.id)).Nodup ∧
      (∀ o ∈ (createAll c s calls).2,
        o.state = .OPEN ∧ (createAll c s calls).1 o.id = some (c.marshal o)) ∧
      ∀ k, k ∉ (createAll c s calls).2.map (·.id) → (createAll c s calls).1 k = s k := by
  have hids : (createAll c s calls).2.map (·.id) = callIds c calls := by
    simp [createAll_orders, callIds]
  have hn : (callIds c calls).Nodup := by
    simpa [callIds, orderId, List.map_map, Function.comp_def] using hcalls.map hinj
  refine ⟨by simp [createAll_orders], hids ▸ hn, fun o ho => ⟨?_, createAll_stored c s calls hn o ho⟩,
    fun k hk => createAll_frame c s calls (hids ▸ hk)⟩
  rw [createAll_orders] at ho
  obtain ⟨p, -, rfl⟩ := List.mem_map.mp ho
  rfl

theorem creates_store_each_order_two_clocks :
    ((createAll Codec.plain (fun _ => none)
      [(⟨[1], [2], 3, 4⟩, ⟨5, 0⟩), (⟨[1], [2], 3, 4⟩, ⟨6, 0⟩)]).2.map (·.id)).Nodup :=
  (creates_store_each_order Codec.plain (fun _ _ h => h) _ _ (by decide)).2.1

theorem createAll_repeat (c : Codec) (s : Storage) (req : CreateRequest) (now : Timestamp) :
    (createAll c s [(req, now), (req, now)]).1 = (createAll c s [(req, now)]).1 := by
  funext k
  by_cases hk : k = orderId c req now <;> simp [createAll, Storage.put, hk]

theorem same_clock_one_record :
    (createAll Codec.plain (fun _ => none) [(⟨[1], [2], 3, 4⟩, ⟨5, 0⟩), (⟨[1], [2], 3, 4⟩, ⟨5, 0⟩)]).1 =
        (createAll Codec.plain (fun _ => none) [(⟨[1], [2], 3, 4⟩, ⟨5, 0⟩)]).1 ∧
      ¬ ((createAll Codec.plain (fun _ => none)
        [(⟨[1], [2], 3, 4⟩, ⟨5, 0⟩), (⟨[1], [2], 3, 4⟩, ⟨5, 0⟩)]).2.map (·.id)).Nodup :=
  ⟨createAll_repeat _ _ _ _, by decide⟩

/-! ## Deleting what was created -/

def deleteAll (s : Storage) (reqs : List OrderSpecificRequest) : Storage := reqs.foldl delete s

theorem deleteAll_apply (s : Storage) (reqs : List OrderSpecificRequest) (k : Bytes) :
    deleteAll s reqs k = if k ∈ reqs.map (·.id) then none else s k := by
  induction reqs generalizing s with
  | nil => simp [deleteAll]
  | cons req reqs ih =>
    simp only [deleteAll, List.foldl_cons] at ih ⊢
    rw [ih]
    by_cases hk : k = req.id
    · subst hk; simp [delete, Storage.delete]
    · simp [delete, Storage.delete, hk]

theorem deletes_undo_creates (c : Codec) (s : Storage) (calls : List (CreateRequest × Timestamp))
    (hfresh : ∀ o ∈ (createAll c s calls).2, s o.id = none) (reqs : List OrderSpecificRequest)
    (hreqs : reqs.map (·.id) ⊆ (createAll c s calls).2.map (·.id) ∧
      (createAll c s calls).2.map (·.id) ⊆ reqs.map (·.id)) :
    deleteAll (createAll c s calls).1 reqs = s := by
  have hids : (createAll c s calls).2.map (·.id) = callIds c calls := by
    simp [createAll_orders, callIds]
  funext k
  rw [deleteAll_apply, if_congr ⟨@hreqs.1 k, @hreqs.2 k⟩ rfl rfl]
  split
  · obtain ⟨o, ho, rfl⟩ := List.mem_map.mp ‹_›
    exact (hfresh o ho).symm
  · exact createAll_frame c s calls (hids ▸ ‹_›)

theorem deletes_undo_creates_reversed :
    deleteAll (createAll Codec.plain (fun _ => none)
        [(⟨[1], [2], 3, 4⟩, ⟨5, 0⟩), (⟨[1], [2], 3, 4⟩, ⟨6, 0⟩)]).1 [⟨[1, 6]⟩, ⟨[1, 5]⟩, ⟨[1, 6]⟩] =
      fun _ => none :=
  deletes_undo_creates Codec.plain (fun _ => none) _ (fun _ _ => rfl) _ (by decide)

end Sprawl.Service
