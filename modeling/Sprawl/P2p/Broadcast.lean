import Sprawl.P2p.Framing

/-! # Broadcast and the discovery listener: `sendToPeers` and `listenPeers` -/

namespace Sprawl.P2p

/-- A peer received from `peerChan`, with the network's answers to the calls made for it:
`host.NewStream` (`none` when the stream opens), then the `Write` and `Flush` of `writeData`. -/
structure Discovered where
  peer : PeerId
  newStream : Option GoError
  writes : WriteAnswers
deriving DecidableEq, Repr

/-- `for peer := range peerChan { body }`, over the peers the channel yields before it is
closed. -/
def rangeLoop (body : Discovered → List Effect) : List Discovered → List Effect
  | [] => []
  | d :: ds => andThen (body d) (rangeLoop body ds)

/-- The body of the loop of `sendToPeers`, for the host `self`. -/
def sendStep (self : PeerId) (input : Bytes) (d : Discovered) : List Effect :=
  if d.peer = self then []
  else
    .newStream d.peer ::
      match d.newStream with
      | some _ => []
      | none => writeData d.peer d.writes input

/-- `p2p.sendToPeers(ctx, config, host, peerChan, input)`, which `SendToPeers(input)` calls. -/
def sendToPeers (self : PeerId) (input : Bytes) : List Discovered → List Effect :=
  rangeLoop (sendStep self input)

/-- The body of the loop of `listenPeers`, for the host `self`. -/
def listenStep (self : PeerId) (d : Discovered) : List Effect :=
  if d.peer = self then []
  else
    .newStream d.peer ::
      match d.newStream with
      | some _ => []
      | none => [.spawnReader d.peer]

/-- `p2p.listenPeers()`, which `Run` calls once discovery is set up. -/
def listenPeers (self : PeerId) : List Discovered → List Effect :=
  rangeLoop (listenStep self)

/-! ## The loop -/

section rangeLoop

variable {body : Discovered → List Effect}

theorem rangeLoop_append {xs : List Discovered} (h : Returns (rangeLoop body xs))
    (ys : List Discovered) : rangeLoop body (xs ++ ys) = rangeLoop body xs ++ rangeLoop body ys := by
  induction xs with
  | nil => rfl
  | cons x xs ih =>
    simp only [rangeLoop, returns_andThen] at h
    rw [List.cons_append, rangeLoop, rangeLoop, andThen_of_returns h.1, andThen_of_returns h.1,
      ih h.2, List.append_assoc]

theorem returns_rangeLoop (ds : List Discovered) :
    Returns (rangeLoop body ds) ↔ ∀ d ∈ ds, Returns (body d) := by
  induction ds with
  | nil => simp [rangeLoop]
  | cons d ds ih => simp [rangeLoop, ih]

theorem rangeLoop_of_returns {ds : List Discovered} (h : ∀ d ∈ ds, Returns (body d)) :
    rangeLoop body ds = ds.flatMap body := by
  induction ds with
  | nil => rfl
  | cons d ds ih =>
    simp only [List.forall_mem_cons] at h
    rw [rangeLoop, andThen_of_returns h.1, ih h.2, List.flatMap_cons]

theorem rangeLoop_stops {pre post : List Discovered} {d : Discovered}
    (hpre : ∀ e ∈ pre, Returns (body e)) (hd : ¬ Returns (body d)) :
    rangeLoop body (pre ++ d :: post) = pre.flatMap body ++ body d := by
  rw [rangeLoop_append ((returns_rangeLoop pre).mpr hpre), rangeLoop_of_returns hpre, rangeLoop,
    andThen_of_not_returns hd]

theorem dialled_rangeLoop_isPrefix (ds : List Discovered) :
    dialled (rangeLoop body ds) <+: dialled (ds.flatMap body) := by
  induction ds with
  | nil => exact List.prefix_refl _
  | cons d ds ih =>
    by_cases h : Returns (body d)
    · simpa [rangeLoop, andThen_of_returns h] using ih
    · simp [rangeLoop, andThen_of_not_returns h, List.prefix_append]

end rangeLoop

/-! ## One turn -/

theorem returns_writeData (peer : PeerId) (a : WriteAnswers) (input : Bytes) :
    Returns (writeData peer a input) ↔ bufFlush a input = none := by
  cases h : bufFlush a input with
  | none => simp [writeData_of_bufFlush h, Effect.isPanic]
  | some e => simp [writeData_of_bufFlush_some h, Effect.isPanic]

theorem dialled_writeData (peer : PeerId) (a : WriteAnswers) (input : Bytes) :
    dialled (writeData peer a input) = [] := by
  cases h : bufFlush a input with
  | none => simp [writeData_of_bufFlush h]
  | some e => simp [writeData_of_bufFlush_some h]

/-- A peer whose stream `sendToPeers` opens, and whose write of `input` then fails. -/
def WriteFails (self : PeerId) (input : Bytes) (d : Discovered) : Prop :=
  d.peer ≠ self ∧ d.newStream = none ∧ bufFlush d.writes input ≠ none

instance (self : PeerId) (input : Bytes) (d : Discovered) : Decidable (WriteFails self input d) :=
  inferInstanceAs (Decidable (_ ∧ _ ∧ _))

/-- The peers, other than `self`, whose stream opens. -/
def opened (self : PeerId) (ds : List Discovered) : List PeerId :=
  (ds.filter fun d => d.peer != self && d.newStream.isNone).map (·.peer)

theorem returns_sendStep (self : PeerId) (input : Bytes) (d : Discovered) :
    Returns (sendStep self input d) ↔ ¬ WriteFails self input d := by
  rcases d with ⟨p, _ | e, a⟩ <;> by_cases hp : p = self <;>
    simp [sendStep, WriteFails, hp, returns_writeData, Effect.isPanic]

theorem sentTo_sendStep {self : PeerId} {input : Bytes} {d : Discovered}
    (h : ¬ WriteFails self input d) : sentTo input (sendStep self input d) = opened self [d] := by
  rcases d with ⟨p, _ | e, a⟩
  · by_cases hp : p = self
    · simp [sendStep, opened, hp]
    · have ha : bufFlush a input = none := by simpa [WriteFails, hp] using h
      simp [sendStep, opened, hp, writeData_of_bufFlush ha, Effect.sentTo]
  · by_cases hp : p = self <;> simp [sendStep, opened, hp, Effect.sentTo]

theorem dialled_sendStep (self : PeerId) (input : Bytes) (d : Discovered) :
    dialled (sendStep self input d) = if d.peer = self then [] else [d.peer] := by
  rcases d with ⟨p, _ | e, a⟩ <;> by_cases hp : p = self <;>
    simp [sendStep, dialled_writeData, hp]

theorem dialled_listenStep (self : PeerId) (d : Discovered) :
    dialled (listenStep self d) = if d.peer = self then [] else [d.peer] := by
  rcases d with ⟨p, _ | e, a⟩ <;> by_cases hp : p = self <;> simp [listenStep, hp]

theorem returns_listenStep (self : PeerId) (d : Discovered) : Returns (listenStep self d) := by
  rcases d with ⟨p, _ | e, a⟩ <;> by_cases hp : p = self <;>
    simp [listenStep, hp, Effect.isPanic]

/-! ## Whole runs -/

theorem dialled_flatMap {step : Discovered → List Effect} {self : PeerId}
    (h : ∀ d, dialled (step d) = if d.peer = self then [] else [d.peer]) (ds : List Discovered) :
    dialled (ds.flatMap step) = (ds.map (·.peer)).filter (· ≠ self) := by
  induction ds with
  | nil => rfl
  | cons d ds ih =>
    by_cases hp : d.peer = self <;> simp [h, ih, hp, List.filter_cons]

theorem sentTo_sendToPeers {self : PeerId} {input : Bytes} {ds : List Discovered}
    (h : ∀ d ∈ ds, ¬ WriteFails self input d) :
    sentTo input (sendToPeers self input ds) = opened self ds := by
  rw [sendToPeers, rangeLoop_of_returns fun d hd => (returns_sendStep self input d).mpr (h d hd)]
  induction ds with
  | nil => rfl
  | cons d ds ih =>
    simp only [List.forall_mem_cons] at h
    rw [List.flatMap_cons, sentTo_append, sentTo_sendStep h.1, ih h.2]
    simp only [opened, List.filter_cons]
    split_ifs <;> simp

theorem opened_of_newStream {self : PeerId} {ds : List Discovered}
    (h : ∀ d ∈ ds, d.newStream = none) : opened self ds = (ds.map (·.peer)).filter (· ≠ self) := by
  rw [opened, List.filter_map]
  exact congrArg _ <| List.filter_congr fun d hd => by
    by_cases hp : d.peer = self <;> simp [h d hd, hp]

/-- `sendToPeers` writes to every opened peer but `self` up to its first failed write. -/
theorem broadcast_stops_at_failed_write (self : PeerId) (input : Bytes) (ds : List Discovered) :
    (Returns (sendToPeers self input ds) ↔ ∀ d ∈ ds, ¬ WriteFails self input d) ∧
      ((∀ d ∈ ds, ¬ WriteFails self input d) →
        sentTo input (sendToPeers self input ds) = opened self ds) ∧
      ∀ pre d post e, ds = pre ++ d :: post → (∀ x ∈ pre, ¬ WriteFails self input x) →
        d.peer ≠ self → d.newStream = none → bufFlush d.writes input = some e →
        sendToPeers self input ds = sendToPeers self input pre ++
          [.newStream d.peer, .println (if defaultBufSize < input.length then
            "Error writing to buffer" else "Error flushing buffer"), .panic e] := by
  refine ⟨?_, sentTo_sendToPeers, ?_⟩
  · simp only [sendToPeers, returns_rangeLoop, returns_sendStep]
  · rintro pre d post e rfl hpre hp hs he
    have hpre' : ∀ x ∈ pre, Returns (sendStep self input x) :=
      fun x hx => (returns_sendStep self input x).mpr (hpre x hx)
    have hd : ¬ Returns (sendStep self input d) := by
      rw [returns_sendStep, not_not]
      exact ⟨hp, hs, by simp [he]⟩
    rw [sendToPeers, rangeLoop_stops hpre' hd, ← rangeLoop_of_returns hpre']
    simp [sendStep, hp, hs, writeData_of_bufFlush_some he]

theorem failed_write_escapes :
    sendToPeers "self" [1] [⟨"a", none, ⟨none, some "broken pipe"⟩⟩, ⟨"b", none, .ok⟩] =
      [.newStream "a", .println "Error flushing buffer", .panic "broken pipe"] := by
  decide

/-- Neither loop dials the host itself. -/
theorem never_dials_self (self : PeerId) (input : Bytes) (ds : List Discovered) :
    self ∉ dialled (sendToPeers self input ds) ∧ self ∉ dialled (listenPeers self ds) ∧
      ((∀ d ∈ ds, d.newStream = none ∧ d.writes = .ok) →
        sentTo input (sendToPeers self input ds) = (ds.map (·.peer)).filter (· ≠ self)) := by
  refine ⟨fun h => ?_, ?_, fun h => ?_⟩
  · have := (dialled_rangeLoop_isPrefix ds).subset h
    simp [dialled_flatMap (dialled_sendStep self input)] at this
  · rw [listenPeers, rangeLoop_of_returns fun d _ => returns_listenStep self d,
      dialled_flatMap (dialled_listenStep self)]
    simp
  · rw [sentTo_sendToPeers fun d hd hf => hf.2.2 (by simp [(h d hd).2]),
      opened_of_newStream fun d hd => (h d hd).1]

theorem never_dials_self_two_peers :
    sentTo [1] (sendToPeers "self" [1] [⟨"a", none, .ok⟩, ⟨"self", none, .ok⟩, ⟨"b", none, .ok⟩]) =
      ["a", "b"] :=
  (never_dials_self "self" [1] _).2.2 (by decide)

end Sprawl.P2p
