import Mathlib.Data.List.Basic

/-! # Bytes, errors, and what the p2p code does that others can see -/

namespace Sprawl.P2p

/-- A Go `[]byte`. -/
abbrev Bytes := List UInt8

/-- A Go `error`, by its message. -/
abbrev GoError := String

/-- A libp2p `peer.ID`. It is a Go `string`, and `AddrInfo.ID` is the only part of a peer the
code reads. -/
abbrev PeerId := String

/-- `byte('\n')`, the delimiter of every frame. -/
def newline : UInt8 := 10

/-- `errors.E(errors.Op(op), cause)`. -/
structure OpError where
  op : String
  cause : Option GoError
deriving DecidableEq, Repr

def nilDereference : GoError := "invalid memory address or nil pointer dereference"

def indexOutOfRange : GoError := "index out of range"

/-- What the p2p code does that another party can see, in the order it does it. -/
inductive Effect where
  /-- `host.NewStream(ctx, peer, protocol)`. -/
  | newStream (peer : PeerId)
  /-- `writeData` wrote `data` to the new stream to `peer` and flushed it. -/
  | sent (peer : PeerId) (data : Bytes)
  /-- `go readData(reader)` on the new stream to `peer`. -/
  | spawnReader (peer : PeerId)
  /-- `fmt.Println(text)`. -/
  | println (text : String)
  /-- `fmt.Printf("\x1b[32m%s\x1b[0m> ", frame)`. -/
  | printFrame (frame : Bytes)
  /-- `panic(cause)`. Nothing recovers, so the process stops here. -/
  | panic (cause : GoError)
deriving DecidableEq, Repr

namespace Effect

def isPanic : Effect → Bool
  | panic _ => true
  | _ => false

def sentTo (data : Bytes) : Effect → Option PeerId
  | sent p d => if d = data then some p else none
  | _ => none

end Effect

/-- A run that returns: no effect of it is a panic. -/
def Returns (fx : List Effect) : Prop := ∀ e ∈ fx, e.isPanic = false

instance (fx : List Effect) : Decidable (Returns fx) :=
  inferInstanceAs (Decidable (∀ e ∈ fx, _))

/-- `fx`, and then `k` if `fx` returned: a panic ends the goroutine. -/
def andThen (fx k : List Effect) : List Effect := if Returns fx then fx ++ k else fx

/-- The peers a run sent `data` to, in order. -/
def sentTo (data : Bytes) (fx : List Effect) : List PeerId := fx.filterMap (Effect.sentTo data)

/-- The peers a run called `host.NewStream` for, in order. -/
def dialled (fx : List Effect) : List PeerId :=
  fx.filterMap fun | .newStream p => some p | _ => none

@[simp] theorem returns_nil : Returns [] := by simp [Returns]

@[simp] theorem returns_cons (e : Effect) (fx : List Effect) :
    Returns (e :: fx) ↔ e.isPanic = false ∧ Returns fx := by
  simp [Returns]

@[simp] theorem returns_append (fx gx : List Effect) :
    Returns (fx ++ gx) ↔ Returns fx ∧ Returns gx := by
  simp only [Returns, List.mem_append]
  exact ⟨fun h => ⟨fun e he => h e (.inl he), fun e he => h e (.inr he)⟩,
    fun h e he => he.elim (h.1 e) (h.2 e)⟩

theorem andThen_of_returns {fx : List Effect} (h : Returns fx) (k : List Effect) :
    andThen fx k = fx ++ k := if_pos h

theorem andThen_of_not_returns {fx : List Effect} (h : ¬ Returns fx) (k : List Effect) :
    andThen fx k = fx := if_neg h

@[simp] theorem returns_andThen (fx k : List Effect) :
    Returns (andThen fx k) ↔ Returns fx ∧ Returns k := by
  by_cases h : Returns fx <;> simp [andThen, h]

@[simp] theorem sentTo_nil (data : Bytes) : sentTo data [] = [] := rfl

@[simp] theorem sentTo_cons (data : Bytes) (e : Effect) (fx : List Effect) :
    sentTo data (e :: fx) = (e.sentTo data).toList ++ sentTo data fx := by
  cases h : e.sentTo data <;> simp [sentTo, List.filterMap_cons, h]

@[simp] theorem sentTo_append (data : Bytes) (fx gx : List Effect) :
    sentTo data (fx ++ gx) = sentTo data fx ++ sentTo data gx := by
  simp [sentTo, List.filterMap_append]

@[simp] theorem dialled_nil : dialled [] = [] := rfl

@[simp] theorem dialled_cons (e : Effect) (fx : List Effect) :
    dialled (e :: fx) = (match e with | .newStream p => [p] | _ => []) ++ dialled fx := by
  cases e <;> rfl

@[simp] theorem dialled_append (fx gx : List Effect) :
    dialled (fx ++ gx) = dialled fx ++ dialled gx := by
  simp [dialled, List.filterMap_append]

/-! ## Runs

A run takes one step per action, `List.foldlM` of the step function, and stops at the first
step that cannot be taken (`Option`) or that panics (`Except`).
-/

section runs

variable {σ α ε : Type} {P : σ → Prop}

theorem foldlM_option_inv {f : σ → α → Option σ}
    (hstep : ∀ {s s' : σ} {a : α}, P s → f s a = some s' → P s') :
    ∀ (as : List α) {s s' : σ}, P s → as.foldlM f s = some s' → P s'
  | [], _, _, hs, h => by cases h; exact hs
  | a :: as, s, s', hs, h => by
    simp only [List.foldlM_cons, Option.bind_eq_bind, Option.bind_eq_some] at h
    obtain ⟨m, hm, h⟩ := h
    exact foldlM_option_inv hstep as (hstep hs hm) h

theorem foldlM_option_length_le {f : σ → α → Option σ} {μ : σ → Nat}
    (hstep : ∀ {s s' : σ} {a : α}, f s a = some s' → μ s' < μ s) :
    ∀ (as : List α) {s s' : σ}, as.foldlM f s = some s' → as.length + μ s' ≤ μ s
  | [], _, _, h => by cases h; simp
  | a :: as, s, s', h => by
    simp only [List.foldlM_cons, Option.bind_eq_bind, Option.bind_eq_some] at h
    obtain ⟨m, hm, h⟩ := h
    have := foldlM_option_length_le hstep as h
    have := hstep hm
    simp only [List.length_cons]
    omega

theorem foldlM_except_inv {f : σ → α → Except ε σ}
    (hstep : ∀ {s s' : σ} {a : α}, P s → f s a = .ok s' → P s') :
    ∀ (as : List α) {s s' : σ}, P s → as.foldlM f s = .ok s' → P s'
  | [], _, _, hs, h => by cases h; exact hs
  | a :: as, s, s', hs, h => by
    rw [List.foldlM_cons] at h
    cases hm : f s a with
    | error e => rw [hm] at h; cases h
    | ok m => rw [hm] at h; exact foldlM_except_inv hstep as (hstep hs hm) h

end runs

end Sprawl.P2p
