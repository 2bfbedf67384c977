import Sprawl.P2p.Basic

/-! # Newline framing: the writers, `ReadBytes`, and the frames of a stream -/

namespace Sprawl.P2p

/-! ## The writers

Both writers go through a `bufio.Writer` whose buffer is empty: `Write` of an input longer than
the buffer sends it to the stream at once, a shorter one only fills the buffer, and `Flush` sends
what is buffered. A failed write stays in the writer, and `Flush` returns it again.
-/

/-- The size of the buffer of `bufio.NewWriter`. -/
def defaultBufSize : Nat := 4096

/-- How the stream answers the writes a `bufio.Writer` makes to it: the one `Write` makes at once,
and the one `Flush` makes. `none` for success; an error means the stream took none of the
bytes. -/
structure WriteAnswers where
  write : Option GoError
  flush : Option GoError
deriving DecidableEq, Repr

def WriteAnswers.ok : WriteAnswers := ⟨none, none⟩

/-- What `Write(input)` returns. -/
def bufWrite (a : WriteAnswers) (input : Bytes) : Option GoError :=
  if defaultBufSize < input.length then a.write else none

/-- What the `Flush` after `Write(input)` returns: with nothing buffered, `nil`. -/
def bufFlush (a : WriteAnswers) (input : Bytes) : Option GoError :=
  if defaultBufSize < input.length then a.write else if input = [] then none else a.flush

@[simp] theorem bufFlush_ok (input : Bytes) : bufFlush .ok input = none := by
  by_cases h : defaultBufSize < input.length <;> simp [bufFlush, WriteAnswers.ok]

theorem bufWrite_of_bufFlush {a : WriteAnswers} {input : Bytes} (h : bufFlush a input = none) :
    bufWrite a input = none := by
  by_cases hl : defaultBufSize < input.length <;> simp_all [bufFlush, bufWrite]

/-- `stream.writeToStream(data)`, on the bytes `wire` the stream carried before. `Flush`'s error
overwrites `Write`'s, which `Flush` returns again. -/
def writeToStream (a : WriteAnswers) (wire data : Bytes) : Bytes × Option GoError :=
  match bufFlush a data with
  | some e => (wire, some e)
  | none => (wire ++ data, none)

/-- `writeToStream` of each message in turn, on a stream that answers every write by `a`: the
bytes on the wire. A failed write sticks in the writer, so every later call fails and sends
nothing. -/
def writeAll (a : WriteAnswers) (wire : Bytes) : List Bytes → Bytes
  | [] => wire
  | m :: ms =>
    match writeToStream a wire m with
    | (w, none) => writeAll a w ms
    | (w, some _) => w

theorem writeAll_eq {a : WriteAnswers} (wire : Bytes) {ms : List Bytes}
    (h : ∀ m ∈ ms, bufFlush a m = none) : writeAll a wire ms = wire ++ ms.flatten := by
  induction ms generalizing wire with
  | nil => simp [writeAll]
  | cons m ms ih =>
    rw [List.forall_mem_cons] at h
    simp [writeAll, writeToStream, h.1, ih _ h.2]

/-- `writeData(writer, input)` on a new `bufio.Writer` of the stream to `peer`. -/
def writeData (peer : PeerId) (a : WriteAnswers) (input : Bytes) : List Effect :=
  match bufWrite a input with
  | some e => [.println "Error writing to buffer", .panic e]
  | none =>
    match bufFlush a input with
    | some e => [.println "Error flushing buffer", .panic e]
    | none => [.sent peer input]

theorem writeData_of_bufFlush {peer : PeerId} {a : WriteAnswers} {input : Bytes}
    (h : bufFlush a input = none) : writeData peer a input = [.sent peer input] := by
  simp [writeData, bufWrite_of_bufFlush h, h]

@[simp] theorem writeData_ok (peer : PeerId) (input : Bytes) :
    writeData peer .ok input = [.sent peer input] :=
  writeData_of_bufFlush (bufFlush_ok input)

theorem writeData_of_bufFlush_some {peer : PeerId} {a : WriteAnswers} {input : Bytes}
    {e : GoError} (h : bufFlush a input = some e) :
    writeData peer a input =
      [.println (if defaultBufSize < input.length then "Error writing to buffer"
        else "Error flushing buffer"), .panic e] := by
  by_cases hl : defaultBufSize < input.length
  · simp only [bufFlush, if_pos hl] at h
    simp [writeData, bufWrite, hl, h]
  · simp [writeData, bufWrite, hl, h]

/-- The bytes a run sent to `peer`, in order. -/
def wireTo (peer : PeerId) (fx : List Effect) : Bytes :=
  (fx.filterMap fun | .sent q d => if q = peer then some d else none | _ => none).flatten

theorem wireTo_writeData (peer : PeerId) {a : WriteAnswers} {ms : List Bytes}
    (h : ∀ m ∈ ms, bufFlush a m = none) :
    wireTo peer (ms.flatMap (writeData peer a)) = ms.flatten := by
  induction ms with
  | nil => rfl
  | cons m ms ih =>
    rw [List.forall_mem_cons] at h
    simp only [wireTo, List.flatMap_cons, List.filterMap_append, List.flatten_append] at ih ⊢
    simp [writeData_of_bufFlush h.1, ih h.2]

/-! ## `ReadBytes` -/

/-- `bufio.Reader.ReadBytes(delim)` on the bytes still to come: the bytes up to and including the
first `delim`, and `some` of what follows. When the stream ends first, `ReadBytes` returns what
was left together with the stream's error: the rest is then `none`. -/
def readBytes (delim : UInt8) : Bytes → Bytes × Option Bytes
  | [] => ([], none)
  | b :: bs =>
    if b = delim then ([b], some bs)
    else
      let r := readBytes delim bs
      (b :: r.1, r.2)

theorem readBytes_of_not_mem {delim : UInt8} {bs : Bytes} (h : delim ∉ bs) :
    readBytes delim bs = (bs, none) := by
  induction bs with
  | nil => rfl
  | cons b bs ih =>
    simp only [List.mem_cons, not_or] at h
    simp [readBytes, Ne.symm h.1, ih h.2]

theorem readBytes_append {delim : UInt8} {body : Bytes} (h : delim ∉ body) (rest : Bytes) :
    readBytes delim (body ++ delim :: rest) = (body ++ [delim], some rest) := by
  induction body with
  | nil => simp [readBytes]
  | cons b body ih =>
    simp only [List.mem_cons, not_or] at h
    simp [readBytes, Ne.symm h.1, ih h.2]

theorem split_first (delim : UInt8) :
    ∀ bs : Bytes, delim ∉ bs ∨ ∃ body rest, delim ∉ body ∧ bs = body ++ delim :: rest
  | [] => .inl (List.not_mem_nil _)
  | b :: bs => by
    by_cases hb : b = delim
    · exact .inr ⟨[], bs, List.not_mem_nil _, by simp [hb]⟩
    · rcases split_first delim bs with h | ⟨body, rest, hn, rfl⟩
      · exact .inl (by simp [h, Ne.symm hb])
      · exact .inr ⟨b :: body, rest, by simp [hn, Ne.symm hb], rfl⟩

theorem readBytes_cases (delim : UInt8) (bs : Bytes) :
    (delim ∉ bs ∧ readBytes delim bs = (bs, none)) ∨
    ∃ body rest, delim ∉ body ∧ bs = body ++ delim :: rest ∧
      readBytes delim bs = (body ++ [delim], some rest) := by
  rcases split_first delim bs with h | ⟨body, rest, hn, rfl⟩
  · exact .inl ⟨h, readBytes_of_not_mem h⟩
  · exact .inr ⟨body, rest, hn, rfl, readBytes_append hn rest⟩

theorem readBytes_rest_lt {delim : UInt8} {bs data rest : Bytes}
    (h : readBytes delim bs = (data, some rest)) : rest.length < bs.length := by
  rcases readBytes_cases delim bs with ⟨-, h'⟩ | ⟨body, rest', -, rfl, h'⟩
  · simp [h'] at h
  · simp only [h', Prod.mk.injEq, Option.some.injEq] at h
    simp only [← h.2, List.length_append, List.length_cons]
    omega

/-! ## Frames -/

/-- The frames of a stream after `carry`, the bytes already read of an unfinished frame. -/
def framesFrom (carry : Bytes) : Bytes → List Bytes
  | [] => []
  | b :: bs =>
    if b = newline then (carry ++ [b]) :: framesFrom [] bs else framesFrom (carry ++ [b]) bs

/-- The frames a byte stream carries: every run of bytes up to and including a newline. The
bytes after the last newline make no frame. -/
def frames (bs : Bytes) : List Bytes := framesFrom [] bs

theorem framesFrom_of_not_mem {bs : Bytes} (h : newline ∉ bs) (carry : Bytes) :
    framesFrom carry bs = [] := by
  induction bs generalizing carry with
  | nil => rfl
  | cons b bs ih =>
    simp only [List.mem_cons, not_or] at h
    simp [framesFrom, Ne.symm h.1, ih h.2]

theorem framesFrom_append {body : Bytes} (h : newline ∉ body) (carry rest : Bytes) :
    framesFrom carry (body ++ newline :: rest) = (carry ++ body ++ [newline]) :: frames rest := by
  induction body generalizing carry with
  | nil => simp [framesFrom, frames]
  | cons b body ih =>
    simp only [List.mem_cons, not_or] at h
    simp [framesFrom, Ne.symm h.1, ih h.2]

theorem frames_of_readBytes_none {bs data : Bytes} (h : readBytes newline bs = (data, none)) :
    frames bs = [] := by
  rcases readBytes_cases newline bs with ⟨hn, -⟩ | ⟨body, rest, -, -, h'⟩
  · exact framesFrom_of_not_mem hn []
  · simp [h'] at h

theorem frames_of_readBytes_some {bs data rest : Bytes}
    (h : readBytes newline bs = (data, some rest)) : frames bs = data :: frames rest := by
  rcases readBytes_cases newline bs with ⟨-, h'⟩ | ⟨body, rest', hn, rfl, h'⟩
  · simp [h'] at h
  · simp only [h', Prod.mk.injEq, Option.some.injEq] at h
    rw [← h.1, ← h.2, frames, framesFrom_append hn]
    rfl

theorem ne_nil_of_readBytes_some {bs data rest : Bytes}
    (h : readBytes newline bs = (data, some rest)) : data ≠ [] := by
  rcases readBytes_cases newline bs with ⟨-, h'⟩ | ⟨body, rest', -, -, h'⟩
  · simp [h'] at h
  · simp only [h', Prod.mk.injEq] at h
    simp [← h.1]

/-- A message that is exactly one frame: a body with no newline, then the newline. -/
structure Frame where
  body : Bytes
  body_no_newline : newline ∉ body
deriving DecidableEq

def Frame.bytes (f : Frame) : Bytes := f.body ++ [newline]

theorem frames_frame_append (f : Frame) (rest : Bytes) :
    frames (f.bytes ++ rest) = f.bytes :: frames rest := by
  simpa [Frame.bytes, frames] using framesFrom_append f.body_no_newline [] rest

theorem frames_flatten (fs : List Frame) : frames (fs.map Frame.bytes).flatten = fs.map Frame.bytes := by
  induction fs with
  | nil => rfl
  | cons f fs ih => simp [frames_frame_append, ih]

theorem frames_decompose (bs : Bytes) :
    ∃ fs : List Frame, ∃ tail, newline ∉ tail ∧ bs = (fs.map Frame.bytes).flatten ++ tail ∧
      frames bs = fs.map Frame.bytes := by
  rcases split_first newline bs with h | ⟨body, rest, hn, hbs⟩
  · exact ⟨[], bs, h, rfl, framesFrom_of_not_mem h []⟩
  · obtain ⟨fs, tail, ht, hrest, hfs⟩ := frames_decompose rest
    subst hbs
    refine ⟨⟨body, hn⟩ :: fs, tail, ht, ?_, ?_⟩
    · simp [Frame.bytes, hrest]
    · simp [frames, framesFrom_append hn, ← hfs, Frame.bytes]
termination_by bs.length
decreasing_by simp [hbs]; omega

end Sprawl.P2p
