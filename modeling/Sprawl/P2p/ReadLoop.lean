import Sprawl.P2p.Framing

/-! # The read loops: `Stream.receiveStream` and `readData` -/

namespace Sprawl.P2p

/-- A receiver, by what it answers to `Receive(data)` given the frames it received before:
`none` for an empty error. -/
structure Receiver where
  receive : List Bytes → Bytes → Option GoError

def Receiver.accepting : Receiver := ⟨fun _ _ => none⟩

@[simp] theorem Receiver.accepting_receive (got : List Bytes) (data : Bytes) :
    Receiver.accepting.receive got data = none := rfl

/-- An inbound stream: the bytes it delivers, then the error its reader returns (`io.EOF` when
the other side closed it). -/
structure Inbound where
  bytes : Bytes
  stop : GoError

/-- How `receiveStream` ended: the frames it passed to `Receive`, in order, whether it closed the
stream, and the error it returned (`none` for `nil`). -/
structure ReceiveRun where
  received : List Bytes
  closed : Bool
  result : Option OpError
deriving DecidableEq, Repr

def readFailed (stop : GoError) : OpError := ⟨"Reading bytes from stream", some stop⟩

def noReceiver : OpError := ⟨"No receiver defined for stream.receiveStream", none⟩

def receiverFailed (e : GoError) : OpError := ⟨"Passing data from stream to receiver", some e⟩

/-! ## `receiveStream` -/

/-- The loop of `receiveStream`, after it passed the frames `got` to `Receive`, on the bytes still
to come. -/
def receiveLoop (receiver : Option Receiver) (stop : GoError) (got : List Bytes) (bs : Bytes) :
    ReceiveRun :=
  match h : readBytes newline bs with
  | (_, none) => ⟨got, false, some (readFailed stop)⟩
  | (data, some rest) =>
    match receiver with
    | none => ⟨got, false, some noReceiver⟩
    | some r =>
      match r.receive got data with
      | some e => ⟨got ++ [data], false, some (receiverFailed e)⟩
      | none =>
        if data = [] then ⟨got ++ [data], true, none⟩
        else receiveLoop receiver stop (got ++ [data]) rest
termination_by bs.length
decreasing_by exact readBytes_rest_lt h

/-- `stream.receiveStream(reader, receiver)`, which `P2p.handleStream` starts on every inbound
stream. -/
def receiveStream (receiver : Option Receiver) (input : Inbound) : ReceiveRun :=
  receiveLoop receiver input.stop [] input.bytes

section receiveLoop

variable {receiver : Option Receiver} {stop : GoError} {got : List Bytes} {bs data rest : Bytes}

theorem receiveLoop_of_end (h : readBytes newline bs = (data, none)) :
    receiveLoop receiver stop got bs = ⟨got, false, some (readFailed stop)⟩ := by
  rw [receiveLoop]
  split <;> simp_all

theorem receiveLoop_of_frame (h : readBytes newline bs = (data, some rest)) :
    receiveLoop receiver stop got bs =
      match receiver with
      | none => ⟨got, false, some noReceiver⟩
      | some r =>
        match r.receive got data with
        | some e => ⟨got ++ [data], false, some (receiverFailed e)⟩
        | none => receiveLoop receiver stop (got ++ [data]) rest := by
  rw [receiveLoop]
  split
  · simp_all
  · rename_i h'
    simp only [h, Prod.mk.injEq, Option.some.injEq] at h'
    obtain ⟨rfl, rfl⟩ := h'
    simp [ne_nil_of_readBytes_some h]

end receiveLoop

/-! ## The loop one frame at a time -/

/-- What `receiveStream` does with the frames of its stream: `Receive` each in turn until one
fails, and return the read error when they run out. -/
def deliver (receiver : Option Receiver) (stop : GoError) (got : List Bytes) :
    List Bytes → ReceiveRun
  | [] => ⟨got, false, some (readFailed stop)⟩
  | f :: fs =>
    match receiver with
    | none => ⟨got, false, some noReceiver⟩
    | some r =>
      match r.receive got f with
      | some e => ⟨got ++ [f], false, some (receiverFailed e)⟩
      | none => deliver receiver stop (got ++ [f]) fs

theorem receiveLoop_eq_deliver (receiver : Option Receiver) (stop : GoError) (got : List Bytes)
    (bs : Bytes) : receiveLoop receiver stop got bs = deliver receiver stop got (frames bs) := by
  induction got, bs using receiveLoop.induct receiver stop with
  | case1 got bs data h => rw [receiveLoop_of_end h, frames_of_readBytes_none h]; rfl
  | case2 got bs data rest h hr =>
    subst hr; rw [receiveLoop_of_frame h, frames_of_readBytes_some h]; rfl
  | case3 got bs data rest h r hr e he =>
    subst hr; simp [receiveLoop_of_frame h, frames_of_readBytes_some h, deliver, he]
  | case4 got bs rest r hr h he => exact absurd rfl (ne_nil_of_readBytes_some h)
  | case5 got bs data rest h r hr he _ ih =>
    subst hr; simp [receiveLoop_of_frame h, frames_of_readBytes_some h, deliver, he, ih]

theorem deliver_accepting (stop : GoError) (got fs : List Bytes) :
    deliver (some .accepting) stop got fs = ⟨got ++ fs, false, some (readFailed stop)⟩ := by
  induction fs generalizing got with
  | nil => simp [deliver]
  | cons f fs ih => simp [deliver, ih]

def accepts (r : Receiver) : List Bytes → List Bytes → Bool
  | _, [] => true
  | got, f :: fs => (r.receive got f).isNone && accepts r (got ++ [f]) fs

theorem deliver_append {r : Receiver} {got pre : List Bytes} (h : accepts r got pre = true)
    (stop : GoError) (fs : List Bytes) :
    deliver (some r) stop got (pre ++ fs) = deliver (some r) stop (got ++ pre) fs := by
  induction pre generalizing got with
  | nil => simp
  | cons f pre ih =>
    simp only [accepts, Bool.and_eq_true, Option.isNone_iff_eq_none] at h
    simp [deliver, h.1, ih h.2]

/-! ## `readData` -/

/-- Whether `readData` prints a frame: its first byte is not the newline. -/
def shown (frame : Bytes) : Bool := frame[0]? != some newline

/-- The loop of `readData`, on the bytes still to come. `ReadBytes` returns a slice made by `make`,
never `nil`, so the `bytes == nil` return is never taken. -/
def readDataLoop (stop : GoError) (bs : Bytes) : List Effect :=
  match h : readBytes newline bs with
  | (_, none) => [.println "Error reading from buffer", .panic stop]
  | (data, some rest) =>
    match data[0]? with
    | none => [.panic indexOutOfRange]
    | some b => (if b ≠ newline then [.printFrame data] else []) ++ readDataLoop stop rest
termination_by bs.length
decreasing_by exact readBytes_rest_lt h

/-- `readData(reader)`, which `handleStream` and `listenPeers` start on every stream. -/
def readData (input : Inbound) : List Effect := readDataLoop input.stop input.bytes

theorem readDataLoop_eq (stop : GoError) (bs : Bytes) :
    readDataLoop stop bs =
      ((frames bs).filter shown).map .printFrame ++
        [.println "Error reading from buffer", .panic stop] := by
  induction bs using readDataLoop.induct stop with
  | case1 bs data h =>
    rw [readDataLoop]
    split
    · simp [frames_of_readBytes_none h]
    · simp_all
  | case2 bs data rest h h0 => exact absurd h0 (by simpa using ne_nil_of_readBytes_some h)
  | case3 bs data rest h b h0 ih =>
    rw [readDataLoop]
    split
    · simp_all
    · rename_i h'
      simp only [h, Prod.mk.injEq, Option.some.injEq] at h'
      obtain ⟨rfl, rfl⟩ := h'
      by_cases hb : b = newline <;> simp [h0, ih, frames_of_readBytes_some h, shown, hb]


/-! ## Both loops on the streams the writers produce -/

/-- Written messages are read back as the frames of their concatenation, in order. -/
theorem frames_delivered_in_order (a : WriteAnswers) (ms : List Bytes) (fs : List Frame)
    (stop : GoError) (p : PeerId) (hms : ∀ m ∈ ms, bufFlush a m = none)
    (hfs : ∀ f ∈ fs, bufFlush a f.bytes = none) :
    (receiveStream (some .accepting) ⟨writeAll a [] ms, stop⟩).received = frames ms.flatten ∧
      (receiveStream (some .accepting) ⟨writeAll a [] (fs.map Frame.bytes), stop⟩).received =
        fs.map Frame.bytes ∧
      (receiveStream (some .accepting) ⟨writeAll a [] (fs.map Frame.bytes), stop⟩).result =
        some (readFailed stop) ∧
      readData ⟨wireTo p ((fs.map Frame.bytes).flatMap (writeData p a)), stop⟩ =
        ((fs.map Frame.bytes).filter shown).map .printFrame ++
          [.println "Error reading from buffer", .panic stop] := by
  have hfs' : ∀ m ∈ fs.map Frame.bytes, bufFlush a m = none := by simpa using hfs
  simp only [receiveStream, receiveLoop_eq_deliver, deliver_accepting, writeAll_eq _ hms,
    writeAll_eq _ hfs', readData, readDataLoop_eq, wireTo_writeData _ hfs', frames_flatten,
    List.nil_append, and_self]

theorem frames_delivered_two_frames :
    (receiveStream (some .accepting) ⟨writeAll .ok [] [[65, 10], [66, 10]], "EOF"⟩).received =
      [[65, 10], [66, 10]] :=
  (frames_delivered_in_order .ok [[65, 10], [66, 10]] [] "EOF" "p" (fun m _ => bufFlush_ok m)
    (fun f _ => bufFlush_ok f.bytes)).1

theorem message_with_newline_split :
    (receiveStream (some .accepting) ⟨writeAll .ok [] [[65, 10, 66]], "EOF"⟩).received ≠
      [[65, 10, 66]] := by
  simp only [receiveStream, receiveLoop_eq_deliver, deliver_accepting,
    writeAll_eq _ fun m _ => bufFlush_ok m]
  decide

theorem receiveStream_stops_at_refusal (r : Receiver) (input : Inbound) (pre : List Bytes)
    (f : Bytes) (post : List Bytes) (e : GoError) (hf : frames input.bytes = pre ++ f :: post)
    (hpre : accepts r [] pre = true) (he : r.receive pre f = some e) :
    receiveStream (some r) input = ⟨pre ++ [f], false, some (receiverFailed e)⟩ := by
  rw [receiveStream, receiveLoop_eq_deliver, hf, deliver_append hpre]
  simp [deliver, he]

theorem receiveStream_stops_at_second_frame :
    receiveStream (some ⟨fun got _ => if got.length = 1 then some "full" else none⟩)
        ⟨[65, 10, 66, 10, 67, 10], "EOF"⟩ =
      ⟨[[65, 10], [66, 10]], false, some (receiverFailed "full")⟩ :=
  receiveStream_stops_at_refusal _ _ [[65, 10]] [66, 10] [[67, 10]] "full" (by decide) rfl rfl

/-! ## What the read loops lose -/

/-- `receiveStream` passes on every byte up to the last newline, once and in order. -/
theorem receiveStream_round_trip (input : Inbound) :
    (∃ fs : List Frame, ∃ tail, newline ∉ tail ∧
      (receiveStream (some .accepting) input).received = fs.map Frame.bytes ∧
      input.bytes = (fs.map Frame.bytes).flatten ++ tail) ∧
      readData input =
        ((receiveStream (some .accepting) input).received.filter shown).map .printFrame ++
          [.println "Error reading from buffer", .panic input.stop] := by
  have hrecv : (receiveStream (some .accepting) input).received = frames input.bytes := by
    simp [receiveStream, receiveLoop_eq_deliver, deliver_accepting]
  obtain ⟨fs, tail, ht, hbs, hfs⟩ := frames_decompose input.bytes
  exact ⟨⟨fs, tail, ht, hrecv.trans hfs, hbs⟩, by rw [hrecv, readData, readDataLoop_eq]⟩

end Sprawl.P2p
