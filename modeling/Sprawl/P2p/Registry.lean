import Sprawl.P2p.Basic
import Mathlib.Logic.Function.Basic
import Mathlib.Data.List.Nodup

/-! # The stream registry: `OpenStream` and `CloseStream` -/

namespace Sprawl.P2p

/-- A stream the host opened: its number, and the peer-id string `OpenStream` opened it for. -/
structure Conduit where
  id : Nat
  peer : String
deriving DecidableEq, Repr

/-- `Stream` as `OpenStream` builds it. Its buffered writer wraps the same stream, so the stream
stands for both. -/
structure Stream where
  stream : Conduit
deriving DecidableEq, Repr

/-- `p2p.streams`, with the host's record of the streams it opened for `OpenStream` (oldest
first, numbered from 0) and of the numbers of those closed since. -/
structure Registry where
  streams : String → Option Stream
  opened : List Conduit
  closed : List Nat

def Registry.empty : Registry := ⟨fun _ => none, [], []⟩

/-- A stream the host opened and nobody closed. -/
def Registry.Live (r : Registry) (c : Conduit) : Prop := c ∈ r.opened ∧ c.id ∉ r.closed

/-- `p2p.OpenStream(peerIDString)`, with `answer` the outcome of `host.NewStream` (`none` when the
stream opens). `p2p.Logger` is taken as set, as the `p2p.Logger(log)` option of `NewP2p` sets it:
with a `nil` Logger the unguarded `Errorf` or `Debugf` call would panic. -/
def openStream (answer : Option GoError) (key : String) (r : Registry) : Registry × Option GoError :=
  match answer with
  | some e => (r, some e)
  | none =>
    let c : Conduit := ⟨r.opened.length, key⟩
    ({ r with streams := Function.update r.streams key (some ⟨c⟩), opened := r.opened ++ [c] },
      none)

/-- `p2p.CloseStream(peerIDString)`, with `answer` the outcome of `Close`. A key with no stream
reads the zero `Stream`, and `Close` on its `nil` stream panics. -/
def closeStream (answer : Option GoError) (key : String) (r : Registry) :
    Except GoError (Registry × Option GoError) :=
  match r.streams key with
  | none => .error nilDereference
  | some s =>
    .ok ({ r with streams := Function.update r.streams key none, closed := r.closed ++ [s.stream.id] },
      answer)

inductive Call where
  | openStream (key : String) (answer : Option GoError)
  | closeStream (key : String) (answer : Option GoError)
deriving DecidableEq, Repr

/-- One call: the registry after it, or the panic it ends in. -/
def Call.apply : Call → Registry → Except GoError Registry
  | .openStream key answer, r => .ok (P2p.openStream answer key r).1
  | .closeStream key answer, r => (P2p.closeStream answer key r).map (·.1)

def runCalls (r : Registry) (calls : List Call) : Except GoError Registry :=
  calls.foldlM (fun r c => c.apply r) r

theorem closeStream_of_unregistered {r : Registry} {key : String} (h : r.streams key = none)
    (answer : Option GoError) : closeStream answer key r = .error nilDereference := by
  simp [closeStream, h]

theorem closeStream_eq_ok {r r' : Registry} {key : String} {answer e : Option GoError}
    (h : closeStream answer key r = .ok (r', e)) :
    ∃ s, r.streams key = some s ∧ e = answer ∧
      r' = { r with streams := Function.update r.streams key none,
                    closed := r.closed ++ [s.stream.id] } := by
  simp only [closeStream] at h
  split at h
  · cases h
  · cases h; exact ⟨_, ‹_›, rfl, rfl⟩

@[simp] theorem openStream_streams (key : String) (r : Registry) :
    (openStream none key r).1.streams =
      Function.update r.streams key (some ⟨⟨r.opened.length, key⟩⟩) := rfl

@[simp] theorem openStream_opened (key : String) (r : Registry) :
    (openStream none key r).1.opened = r.opened ++ [⟨r.opened.length, key⟩] := rfl

@[simp] theorem openStream_closed (key : String) (r : Registry) :
    (openStream none key r).1.closed = r.closed := rfl

theorem update_eq_some {f : String → Option Stream} {key k : String} {v : Option Stream}
    {s : Stream} (h : Function.update f key v k = some s) :
    (k = key ∧ v = some s) ∨ (k ≠ key ∧ f k = some s) := by
  by_cases hk : k = key
  · subst hk; exact .inl ⟨rfl, by simpa using h⟩
  · exact .inr ⟨hk, by rwa [Function.update_noteq hk] at h⟩

/-! ## What the registry keeps -/

/-- The registry holds only open streams, each under the key it was opened for, and a stream
that is open but not held was replaced by a later stream for its key. -/
structure Tracked (r : Registry) : Prop where
  ids : r.opened.map (·.id) = List.range r.opened.length
  closed_lt : ∀ i ∈ r.closed, i < r.opened.length
  held_live : ∀ k s, r.streams k = some s → r.Live s.stream
  held_key : ∀ k s, r.streams k = some s → s.stream.peer = k
  replaced : ∀ c, r.Live c →
    (∃ k, r.streams k = some ⟨c⟩) ∨ ∃ c' ∈ r.opened, c'.peer = c.peer ∧ c.id < c'.id

theorem tracked_empty : Tracked Registry.empty :=
  ⟨rfl, by simp [Registry.empty], by simp [Registry.empty], by simp [Registry.empty],
    by simp [Registry.Live, Registry.empty]⟩

section Tracked

variable {r : Registry} (hr : Tracked r)
include hr

theorem Tracked.id_lt {c : Conduit} (hc : c ∈ r.opened) : c.id < r.opened.length := by
  have : c.id ∈ r.opened.map (·.id) := List.mem_map_of_mem _ hc
  simpa [hr.ids] using this

theorem Tracked.eq_of_id {c c' : Conduit} (hc : c ∈ r.opened) (hc' : c' ∈ r.opened)
    (h : c.id = c'.id) : c = c' := by
  obtain ⟨i, hi, rfl⟩ := List.getElem_of_mem hc
  obtain ⟨j, hj, rfl⟩ := List.getElem_of_mem hc'
  have hm : ∀ k (hk : k < r.opened.length), r.opened[k].id = k := fun k hk => by
    simpa [List.getElem?_eq_getElem hk, List.getElem?_range hk] using congrArg (·[k]?) hr.ids
  rw [hm i hi, hm j hj] at h
  subst h; rfl

theorem Tracked.openStream (key : String) : Tracked (openStream none key r).1 := by
  refine ⟨by simp [hr.ids, List.range_succ], fun i hi => ?_, fun k s hs => ?_, fun k s hs => ?_,
    fun c hc => ?_⟩
  · simpa using Nat.lt_succ_of_lt (hr.closed_lt i (by simpa using hi))
  · simp only [Registry.Live, openStream_streams, openStream_opened, openStream_closed] at hs ⊢
    rcases update_eq_some hs with ⟨-, hs⟩ | ⟨-, hs⟩
    · cases hs
      exact ⟨by simp, fun h => absurd (hr.closed_lt _ h) (lt_irrefl _)⟩
    · exact ⟨List.mem_append_left _ (hr.held_live k s hs).1, (hr.held_live k s hs).2⟩
  · rcases update_eq_some hs with ⟨rfl, hs⟩ | ⟨-, hs⟩
    · cases hs; rfl
    · exact hr.held_key k s hs
  · simp only [Registry.Live, openStream_streams, openStream_opened, openStream_closed] at hc ⊢
    obtain ⟨hc, hcl⟩ := hc
    rcases List.mem_append.mp hc with hold | hnew
    · rcases hr.replaced c ⟨hold, hcl⟩ with ⟨k, hk⟩ | ⟨c', hc', hp, hlt⟩
      · by_cases hkk : k = key
        · subst hkk
          refine .inr ⟨⟨r.opened.length, k⟩, by simp, ?_, hr.id_lt hold⟩
          simpa using (hr.held_key k _ hk).symm
        · exact .inl ⟨k, by rw [Function.update_noteq hkk]; exact hk⟩
      · exact .inr ⟨c', List.mem_append_left _ hc', hp, hlt⟩
    · rw [List.mem_singleton] at hnew
      subst hnew
      exact .inl ⟨key, by simp⟩

theorem Tracked.closeStream {key : String} {answer : Option GoError} {r' : Registry}
    {e : Option GoError} (h : closeStream answer key r = .ok (r', e)) : Tracked r' := by
  obtain ⟨s, hs, -, rfl⟩ := closeStream_eq_ok h
  have hlive := hr.held_live key s hs
  -- what the registry still holds was held before, under another key
  have hheld : ∀ k s', Function.update r.streams key none k = some s' →
      k ≠ key ∧ r.streams k = some s' := fun k s' h' => by
    simpa using update_eq_some h'
  -- a stream held under another key is another stream, with another number
  have hne : ∀ k s', k ≠ key → r.streams k = some s' → s'.stream.id ≠ s.stream.id := by
    intro k s' hk hs' hid
    have := hr.eq_of_id (hr.held_live k s' hs').1 hlive.1 hid
    exact hk (by rw [← hr.held_key k s' hs', this, hr.held_key key s hs])
  refine ⟨hr.ids, fun i hi => ?_, fun k s' hs' => ?_, fun k s' hs' => ?_, fun c hc => ?_⟩
  · rcases List.mem_append.mp hi with hi | hi
    · exact hr.closed_lt i hi
    · rw [List.mem_singleton.mp hi]; exact hr.id_lt hlive.1
  · obtain ⟨hk, hs'⟩ := hheld k s' hs'
    refine ⟨(hr.held_live k s' hs').1, ?_⟩
    simp [(hr.held_live k s' hs').2, hne k s' hk hs']
  · exact hr.held_key k s' (hheld k s' hs').2
  · obtain ⟨hc, hcl⟩ := hc
    simp only [List.mem_append, List.mem_singleton, not_or] at hcl
    rcases hr.replaced c ⟨hc, hcl.1⟩ with ⟨k, hk⟩ | h'
    · have hkk : k ≠ key := fun hkk => hcl.2 (by subst hkk; rw [hs] at hk; cases hk; rfl)
      exact .inl ⟨k, by dsimp only; rw [Function.update_noteq hkk]; exact hk⟩
    · exact .inr h'

theorem Tracked.apply {call : Call} {r' : Registry} (h : call.apply r = .ok r') : Tracked r' := by
  cases call with
  | openStream key answer =>
    cases answer with
    | some e => cases h; exact hr
    | none => cases h; exact hr.openStream key
  | closeStream key answer =>
    simp only [Call.apply] at h
    cases hc : P2p.closeStream answer key r with
    | error e => rw [hc] at h; cases h
    | ok p =>
      rw [hc] at h
      cases h
      exact hr.closeStream hc

end Tracked

theorem tracked_runCalls {r r' : Registry} (calls : List Call) (hr : Tracked r)
    (h : runCalls r calls = .ok r') : Tracked r' :=
  foldlM_except_inv (fun hr h => Tracked.apply hr h) calls hr h

theorem apply_cases {r r' : Registry} {call : Call} (h : call.apply r = .ok r') :
    r' = r ∨ (∃ key, call = .openStream key none ∧ r' = (openStream none key r).1) ∨
      ∃ key answer s, call = .closeStream key answer ∧ r.streams key = some s ∧
        r' = { r with streams := Function.update r.streams key none,
                      closed := r.closed ++ [s.stream.id] } := by
  cases call with
  | openStream key answer =>
    cases answer with
    | some e => cases h; exact .inl rfl
    | none => cases h; exact .inr (.inl ⟨key, rfl, rfl⟩)
  | closeStream key answer =>
    simp only [Call.apply] at h
    cases hc : P2p.closeStream answer key r with
    | error e => rw [hc] at h; cases h
    | ok p =>
      rw [hc] at h
      cases h
      obtain ⟨s, hs, -, hp⟩ := closeStream_eq_ok hc
      exact .inr (.inr ⟨key, answer, s, rfl, hs, hp⟩)

theorem closed_nodup_apply {r r' : Registry} {call : Call} (hr : Tracked r)
    (hn : r.closed.Nodup) (h : call.apply r = .ok r') : r'.closed.Nodup := by
  rcases apply_cases h with rfl | ⟨key, -, rfl⟩ | ⟨key, answer, s, -, hs, rfl⟩
  · exact hn
  · simpa using hn
  · simpa [List.nodup_append, hn] using (hr.held_live key s hs).2

theorem closed_nodup_runCalls {r r' : Registry} (calls : List Call) (hr : Tracked r)
    (hn : r.closed.Nodup) (h : runCalls r calls = .ok r') : r'.closed.Nodup :=
  (foldlM_except_inv (P := fun r => Tracked r ∧ r.closed.Nodup)
    (fun hr h => ⟨hr.1.apply h, closed_nodup_apply hr.1 hr.2 h⟩) calls ⟨hr, hn⟩ h).2

theorem leaked_apply {r r' : Registry} {call : Call} (hr : Tracked r) {c : Conduit}
    (hlive : r.Live c) (hfree : ∀ k, r.streams k ≠ some ⟨c⟩) (h : call.apply r = .ok r') :
    r'.Live c ∧ ∀ k, r'.streams k ≠ some ⟨c⟩ := by
  rcases apply_cases h with rfl | ⟨key, -, rfl⟩ | ⟨key, answer, s, -, hs, rfl⟩
  · exact ⟨hlive, hfree⟩
  · refine ⟨⟨by simp [hlive.1], by simpa using hlive.2⟩, fun k hk => ?_⟩
    simp only [openStream_streams] at hk
    rcases update_eq_some hk with ⟨-, hc⟩ | ⟨-, hk⟩
    · -- the new stream is numbered past every opened one
      have := hr.id_lt hlive.1
      cases hc
      exact lt_irrefl _ this
    · exact hfree k hk
  · refine ⟨⟨hlive.1, ?_⟩, fun k hk => ?_⟩
    · simp only [List.mem_append, List.mem_singleton, not_or]
      refine ⟨hlive.2, fun hid => hfree key ?_⟩
      rw [hs, hr.eq_of_id hlive.1 (hr.held_live key s hs).1 hid]
    · rcases update_eq_some hk with ⟨-, hc⟩ | ⟨-, hk⟩
      · cases hc
      · exact hfree k hk

theorem leaked_runCalls {c : Conduit} {r r' : Registry} (calls : List Call) (hr : Tracked r)
    (hlive : r.Live c) (hfree : ∀ k, r.streams k ≠ some ⟨c⟩) (h : runCalls r calls = .ok r') :
    r'.Live c ∧ ∀ k, r'.streams k ≠ some ⟨c⟩ :=
  (foldlM_except_inv (P := fun r => Tracked r ∧ r.Live c ∧ ∀ k, r.streams k ≠ some ⟨c⟩)
    (fun hr h => ⟨hr.1.apply h, leaked_apply hr.1 hr.2.1 hr.2.2 h⟩) calls ⟨hr, hlive, hfree⟩ h).2

/-! ## Every sequence of calls -/

theorem registry_holds_open_streams (calls : List Call) (r : Registry)
    (h : runCalls Registry.empty calls = .ok r) :
    ∀ k s, r.streams k = some s → r.Live s.stream ∧ s.stream.peer = k := by
  have hr := tracked_runCalls calls tracked_empty h
  exact fun k s hs => ⟨hr.held_live k s hs, hr.held_key k s hs⟩

theorem registry_holds_open_streams_after_close :
    ∃ r, runCalls Registry.empty
        [.openStream "a" none, .openStream "b" none, .closeStream "a" none] = .ok r ∧
      ∀ k s, r.streams k = some s → r.Live s.stream ∧ s.stream.peer = k :=
  ⟨_, rfl, registry_holds_open_streams
    [.openStream "a" none, .openStream "b" none, .closeStream "a" none] _ rfl⟩

theorem closeStream_closeStream {r r' : Registry} {key : String} {answer : Option GoError}
    {e : Option GoError} (h : closeStream answer key r = .ok (r', e)) (answer' : Option GoError) :
    closeStream answer' key r' = .error nilDereference := by
  obtain ⟨s, -, -, rfl⟩ := closeStream_eq_ok h
  exact closeStream_of_unregistered (by simp) answer'

/-- A second `CloseStream` of a key panics. -/
theorem double_close_panics :
    runCalls Registry.empty [.openStream "a" none, .closeStream "a" none, .closeStream "a" none] =
        .error nilDereference ∧
      ∀ (r r' : Registry) (key : String) (answer answer' e : Option GoError),
        closeStream answer key r = .ok (r', e) → closeStream answer' key r' = .error nilDereference :=
  ⟨rfl, fun _ _ _ _ answer' _ h => closeStream_closeStream h answer'⟩

theorem streams_closed_once (calls : List Call) (r : Registry)
    (h : runCalls Registry.empty calls = .ok r) :
    r.closed.Nodup ∧ ∀ i ∈ r.closed, ∃ c ∈ r.opened, c.id = i := by
  have hr := tracked_runCalls calls tracked_empty h
  refine ⟨closed_nodup_runCalls calls tracked_empty List.nodup_nil h, fun i hi => ?_⟩
  have : i ∈ r.opened.map (·.id) := by simpa [hr.ids] using hr.closed_lt i hi
  simpa using this

theorem streams_closed_once_after_reopen :
    ∃ r, runCalls Registry.empty
        [.openStream "a" none, .openStream "a" none, .closeStream "a" none,
          .openStream "a" none, .closeStream "a" none] = .ok r ∧
      r.closed.Nodup ∧ ∀ i ∈ r.closed, ∃ c ∈ r.opened, c.id = i :=
  ⟨_, rfl, streams_closed_once
    [.openStream "a" none, .openStream "a" none, .closeStream "a" none,
      .openStream "a" none, .closeStream "a" none] _ rfl⟩

theorem leaked_stream_stays_open (calls : List Call) (r : Registry)
    (h : runCalls Registry.empty calls = .ok r) (c : Conduit) (hlive : r.Live c)
    (hfree : ∀ k, r.streams k ≠ some ⟨c⟩) (more : List Call) (r' : Registry)
    (h' : runCalls r more = .ok r') :
    r'.Live c ∧ ∀ k, r'.streams k ≠ some ⟨c⟩ :=
  leaked_runCalls more (tracked_runCalls calls tracked_empty h) hlive hfree h'

theorem leaked_stream_stays_open_after_close :
    ∃ r r', runCalls Registry.empty [.openStream "a" none, .openStream "a" none] = .ok r ∧
      runCalls r [.closeStream "a" none, .openStream "a" none, .closeStream "a" none] = .ok r' ∧
      r'.Live ⟨0, "a"⟩ :=
  ⟨_, _, rfl, rfl, (leaked_stream_stays_open [.openStream "a" none, .openStream "a" none] _ rfl
    ⟨0, "a"⟩ (by simp [Registry.Live, Registry.empty]) (fun k => by
      by_cases hk : k = "a"
      · subst hk; simp
      · simp [Function.update_noteq hk, Registry.empty])
    [.closeStream "a" none, .openStream "a" none, .closeStream "a" none] _ rfl).1⟩

end Sprawl.P2p
