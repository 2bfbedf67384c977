import Sprawl.P2p.Basic
import Mathlib.Data.List.Nodup

/-! # Bootstrapping: `getPeerAddresses` and its `WaitGroup`

One goroutine per configured seed dereferences `peerinfo` and calls `host.Connect`; the main
goroutine waits on the `WaitGroup` for all of them. What `Connect` answers only changes what the
goroutine prints.
-/

namespace Sprawl.P2p

/-- A configured bootstrap address, with what `peer.AddrInfoFromP2pAddr` makes of it: the peer,
or `none` when it fails and `peerinfo` is `nil`. -/
structure Seed where
  addr : String
  info : Option PeerId
deriving DecidableEq, Repr

/-- Where the goroutine started for one seed is. -/
inductive Phase where
  /-- Started, and `Connect` not called yet. -/
  | started
  /-- `Connect` returned and its result was printed; the deferred `wg.Done()` is still to run. -/
  | connected
  /-- `wg.Done()` ran. -/
  | finished
deriving DecidableEq, Repr

/-- `getPeerAddresses` while it runs: how many seeds the loop went through, the `WaitGroup`
counter, the goroutine of each of those seeds, the seeds `Connect` was called for, in order, and
whether `wg.Wait()` returned or a panic crashed the process. -/
structure Boot where
  next : Nat
  counter : Nat
  workers : List Phase
  attempts : List Nat
  returned : Bool
  crashed : Bool
deriving DecidableEq, Repr

def Boot.init : Boot := ⟨0, 0, [], [], false, false⟩

inductive BootAction where
  /-- One turn of the loop: `AddrInfoFromP2pAddr`, `wg.Add(1)`, and `go func() {...}()`. -/
  | spawn
  /-- The goroutine of seed `i` dereferences `peerinfo` and calls `Connect`. -/
  | connect (i : Nat)
  /-- The goroutine of seed `i` runs its deferred `wg.Done()`. -/
  | done (i : Nat)
  /-- `wg.Wait()` returns, once the loop is over and the counter is zero. -/
  | wait
deriving DecidableEq, Repr

/-- One step of `getPeerAddresses` and its goroutines, or `none` when it cannot be taken. -/
def bootStep (seeds : List Seed) (b : Boot) : BootAction → Option Boot
  | .spawn =>
    if b.crashed ∨ seeds.length ≤ b.next then none
    else some { b with next := b.next + 1, counter := b.counter + 1,
                       workers := b.workers ++ [.started] }
  | .connect i =>
    match b.crashed, b.workers[i]?, seeds[i]? with
    | false, some .started, some s =>
      match s.info with
      -- `*peerinfo` on a `nil` pointer panics. Go still runs the deferred `wg.Done()` while the
      -- panic unwinds, so `wg.Wait()` may return in the moment before the process exits; the
      -- model stops everything at the panic, and so counts such a run as never returning.
      | none => some { b with crashed := true }
      | some _ => some { b with workers := b.workers.set i .connected, attempts := b.attempts ++ [i] }
    | _, _, _ => none
  | .done i =>
    match b.crashed, b.workers[i]? with
    | false, some .connected =>
      some { b with counter := b.counter - 1, workers := b.workers.set i .finished }
    | _, _ => none
  | .wait =>
    if b.crashed ∨ b.next < seeds.length ∨ b.counter ≠ 0 ∨ b.returned then none
    else some { b with returned := true }

def bootRun (seeds : List Seed) (b : Boot) (as : List BootAction) : Option Boot :=
  as.foldlM (bootStep seeds) b

/-- `p2p.getPeerAddresses()` for the configured `seeds`, with its goroutines run in the order
`as`. -/
def getPeerAddresses (seeds : List Seed) (as : List BootAction) : Option Boot :=
  bootRun seeds Boot.init as

/-! ## The invariant -/

/-- The counter counts the goroutines not yet done, and `Connect` was called once for each
goroutine past its start, for a seed whose address converted. -/
structure BootInv (seeds : List Seed) (b : Boot) : Prop where
  next_eq : b.next = b.workers.length
  next_le : b.next ≤ seeds.length
  counter_eq : b.counter = b.workers.countP (· != .finished)
  attempts_nodup : b.attempts.Nodup
  mem_attempts : ∀ i, i ∈ b.attempts ↔ ∃ p, b.workers[i]? = some p ∧ p ≠ .started
  attempt_converted : ∀ i ∈ b.attempts, ∃ s, seeds[i]? = some s ∧ s.info.isSome
  returned_done : b.returned → b.next = seeds.length ∧ b.counter = 0
  crashed_bad : b.crashed → ∃ s ∈ seeds, s.info = none

theorem bootInv_init (seeds : List Seed) : BootInv seeds Boot.init :=
  ⟨rfl, Nat.zero_le _, rfl, List.nodup_nil, by simp [Boot.init], by simp [Boot.init],
    by simp [Boot.init], by simp [Boot.init]⟩

theorem bootStep_cases {seeds : List Seed} {b b' : Boot} {a : BootAction}
    (h : bootStep seeds b a = some b') :
    b.crashed = false ∧
      ((a = .spawn ∧ b.next < seeds.length ∧
          b' = { b with next := b.next + 1, counter := b.counter + 1,
                        workers := b.workers ++ [.started] }) ∨
        (∃ i s, a = .connect i ∧ b.workers[i]? = some .started ∧ seeds[i]? = some s ∧
          s.info = none ∧ b' = { b with crashed := true }) ∨
        (∃ i s p, a = .connect i ∧ b.workers[i]? = some .started ∧ seeds[i]? = some s ∧
          s.info = some p ∧
          b' = { b with workers := b.workers.set i .connected, attempts := b.attempts ++ [i] }) ∨
        (∃ i, a = .done i ∧ b.workers[i]? = some .connected ∧
          b' = { b with counter := b.counter - 1, workers := b.workers.set i .finished }) ∨
        (a = .wait ∧ seeds.length ≤ b.next ∧ b.counter = 0 ∧ b.returned = false ∧
          b' = { b with returned := true })) := by
  cases a with
  | spawn =>
    obtain ⟨hc, ⟨⟩⟩ := Option.ite_none_left_eq_some.mp h
    simp only [not_or, not_le, Bool.not_eq_true] at hc
    exact ⟨hc.1, .inl ⟨rfl, hc.2, rfl⟩⟩
  | connect i =>
    simp only [bootStep] at h
    split at h
    · rename_i s hc hw hs
      split at h <;> cases h
      · exact ⟨hc, .inr (.inl ⟨i, s, rfl, hw, hs, ‹_›, rfl⟩)⟩
      · exact ⟨hc, .inr (.inr (.inl ⟨i, s, _, rfl, hw, hs, ‹_›, rfl⟩))⟩
    · cases h
  | done i =>
    simp only [bootStep] at h
    split at h
    · cases h
      exact ⟨‹_›, .inr (.inr (.inr (.inl ⟨i, rfl, ‹_›, rfl⟩)))⟩
    · cases h
  | wait =>
    obtain ⟨hc, ⟨⟩⟩ := Option.ite_none_left_eq_some.mp h
    simp only [not_or, not_lt, not_not, Bool.not_eq_true] at hc
    exact ⟨hc.1, .inr (.inr (.inr (.inr ⟨rfl, hc.2.1, hc.2.2.1, hc.2.2.2, rfl⟩)))⟩

theorem countP_set_of_eq (p : Phase → Bool) {l : List Phase} {i : Nat} {x y : Phase}
    (hx : l[i]? = some x) (hp : p x = p y) : (l.set i y).countP p = l.countP p := by
  obtain ⟨hi, rfl⟩ := List.getElem?_eq_some_iff.mp hx
  rw [List.countP_set _ _ _ _ hi, ← hp]
  have : (if p l[i] then 1 else 0) ≤ l.countP p := List.boole_getElem_le_countP p l i hi
  omega

theorem bootInv_step {seeds : List Seed} {b b' : Boot} {a : BootAction} (hi : BootInv seeds b)
    (h : bootStep seeds b a = some b') : BootInv seeds b' := by
  obtain ⟨-, ⟨rfl, hlt, rfl⟩ | ⟨i, s, rfl, hw, hs, hn, rfl⟩ | ⟨i, s, p, rfl, hw, hs, hp, rfl⟩ |
    ⟨i, rfl, hw, rfl⟩ | ⟨rfl, hle, hc0, -, rfl⟩⟩ := bootStep_cases h
  · -- `spawn`: one more goroutine, at its start
    refine ⟨by simp [hi.next_eq], by simp only; omega, by simp [hi.counter_eq], hi.attempts_nodup,
      fun j => ?_, hi.attempt_converted, fun hr => absurd (hi.returned_done hr).1 (by omega),
      hi.crashed_bad⟩
    rw [hi.mem_attempts j]
    by_cases hj : j < b.workers.length
    · simp [List.getElem?_append_left hj]
    · rw [List.getElem?_eq_none (not_lt.mp hj), List.getElem?_append_right (not_lt.mp hj)]
      cases h0 : j - b.workers.length <;> simp
  · -- `connect` on a seed that did not convert: the process crashes
    exact { hi with crashed_bad := fun _ => ⟨s, List.getElem?_mem hs, hn⟩ }
  · -- `connect` on a seed that converted
    have hni : i ∉ b.attempts := by simp [hi.mem_attempts, hw]
    refine ⟨by simp [hi.next_eq], hi.next_le, ?_, ?_, fun j => ?_, fun j hj => ?_,
      hi.returned_done, hi.crashed_bad⟩
    · rw [hi.counter_eq]; exact (countP_set_of_eq (· != .finished) (y := .connected) hw rfl).symm
    · simpa [List.nodup_append, hi.attempts_nodup] using hni
    · simp only [List.mem_append, List.mem_singleton, hi.mem_attempts j]
      by_cases hij : j = i
      · subst hij
        simp [List.getElem?_set_self (List.getElem?_eq_some_iff.mp hw).1]
      · simp [List.getElem?_set_ne (Ne.symm hij), hij]
    · rcases List.mem_append.mp hj with hj | hj
      · exact hi.attempt_converted j hj
      · rw [List.mem_singleton.mp hj]; exact ⟨s, hs, by simp [hp]⟩
  · -- `done`: the goroutine leaves the count
    have hpos : 0 < b.counter := by
      rw [hi.counter_eq, List.countP_pos_iff]
      exact ⟨.connected, List.getElem?_mem hw, rfl⟩
    refine ⟨by simp [hi.next_eq], hi.next_le, ?_, hi.attempts_nodup, fun j => ?_,
      hi.attempt_converted, fun hr => absurd (hi.returned_done hr).2 (by omega),
      hi.crashed_bad⟩
    · obtain ⟨hlt, hwi⟩ := List.getElem?_eq_some_iff.mp hw
      simp only [hi.counter_eq, List.countP_set _ _ _ _ hlt, hwi]
      rfl
    · rw [hi.mem_attempts j]
      by_cases hij : j = i
      · subst hij
        simp [List.getElem?_set_self (List.getElem?_eq_some_iff.mp hw).1, hw]
      · simp [List.getElem?_set_ne (Ne.symm hij)]
  · -- `wait` returns
    exact { hi with returned_done := fun _ => ⟨le_antisymm hi.next_le hle, hc0⟩ }

theorem bootInv_run {seeds : List Seed} {b b' : Boot} (as : List BootAction)
    (hi : BootInv seeds b) (h : bootRun seeds b as = some b') : BootInv seeds b' :=
  foldlM_option_inv bootInv_step as hi h

theorem BootInv.returned_all {seeds : List Seed} {b : Boot} (hi : BootInv seeds b)
    (hr : b.returned) :
    b.workers = List.replicate seeds.length .finished ∧ ∀ i < seeds.length, i ∈ b.attempts := by
  obtain ⟨hn, hc⟩ := hi.returned_done hr
  have hall : ∀ w ∈ b.workers, w = .finished := by
    simpa [hi.counter_eq] using hc
  have hw : b.workers = List.replicate seeds.length .finished :=
    List.eq_replicate_iff.mpr ⟨by rw [← hi.next_eq, hn], hall⟩
  refine ⟨hw, fun i hi' => (hi.mem_attempts i).mpr ⟨.finished, ?_, by decide⟩⟩
  simp [hw, hi']

/-! ## Every interleaving -/

theorem bootstrap_waits_for_all (seeds : List Seed) (as : List BootAction) (b : Boot)
    (h : getPeerAddresses seeds as = some b) :
    b.attempts.Nodup ∧ (∀ i ∈ b.attempts, ∃ s, seeds[i]? = some s ∧ s.info.isSome) ∧
      (b.returned → b.workers = List.replicate seeds.length .finished ∧
        ∀ i < seeds.length, i ∈ b.attempts) := by
  have hi := bootInv_run as (bootInv_init seeds) h
  exact ⟨hi.attempts_nodup, hi.attempt_converted, hi.returned_all⟩

theorem bootstrap_waits_for_all_two_seeds :
    ∃ b, getPeerAddresses [⟨"a", some "A"⟩, ⟨"b", some "B"⟩]
        [.spawn, .spawn, .connect 1, .connect 0, .done 0, .done 1, .wait] = some b ∧
      b.attempts.Nodup ∧ b.workers = List.replicate 2 .finished :=
  let h := bootstrap_waits_for_all [⟨"a", some "A"⟩, ⟨"b", some "B"⟩]
    [.spawn, .spawn, .connect 1, .connect 0, .done 0, .done 1, .wait] _ rfl
  ⟨_, rfl, h.1, (h.2.2 rfl).1⟩

theorem BootInv.not_crashed {seeds : List Seed} {b : Boot} (hi : BootInv seeds b)
    (hs : ∀ s ∈ seeds, s.info.isSome) : b.crashed = false := by
  cases hc : b.crashed
  · rfl
  · obtain ⟨s, hm, hn⟩ := hi.crashed_bad hc
    simpa [hn] using hs s hm

theorem bootstrap_never_crashes (seeds : List Seed) (hs : ∀ s ∈ seeds, s.info.isSome)
    (as : List BootAction) (b : Boot) (h : getPeerAddresses seeds as = some b) :
    b.crashed = false :=
  (bootInv_run as (bootInv_init seeds) h).not_crashed hs

theorem bootstrap_never_crashes_one_seed :
    ∃ b, getPeerAddresses [⟨"a", some "A"⟩] [.spawn, .connect 0, .done 0, .wait] = some b ∧
      b.crashed = false :=
  ⟨_, rfl, bootstrap_never_crashes [⟨"a", some "A"⟩] (by decide)
    [.spawn, .connect 0, .done 0, .wait] _ rfl⟩

/-- A seed whose address does not convert makes `getPeerAddresses` panic, never return. -/
theorem unconverted_seed_crashes :
    getPeerAddresses [⟨"/ip4/127.0.0.1/tcp/4001", none⟩] [.spawn, .connect 0] =
        some ⟨1, 1, [.started], [], false, true⟩ ∧
      ∀ as b, getPeerAddresses [⟨"/ip4/127.0.0.1/tcp/4001", none⟩] as = some b →
        b.returned = false := by
  refine ⟨rfl, fun as b h => ?_⟩
  have hi := bootInv_run as (bootInv_init _) h
  cases hr : b.returned
  · rfl
  · obtain ⟨s, hs, hconv⟩ := hi.attempt_converted 0 ((hi.returned_all hr).2 0 (by decide))
    simp only [List.getElem?_cons_zero, Option.some.injEq] at hs
    simp [← hs] at hconv

/-! ## Runs end -/

/-- The steps left at most: start the other goroutines, run each to its end, and return from
`wg.Wait()` or crash. -/
def Boot.work (n : Nat) (b : Boot) : Nat :=
  3 * (n - b.next) + 2 * b.workers.count .started + b.workers.count .connected +
    (if b.returned then 0 else 1) + (if b.crashed then 0 else 1)

theorem count_set_phase {l : List Phase} {i : Nat} {p : Phase} (h : l[i]? = some p) (q r : Phase) :
    (l.set i q).count r + (if p == r then 1 else 0) = l.count r + (if q == r then 1 else 0) := by
  obtain ⟨hi, rfl⟩ := List.getElem?_eq_some_iff.mp h
  rw [List.count_set _ _ _ _ hi]
  have : (if l[i] == r then 1 else 0) ≤ l.count r := List.boole_getElem_le_countP (· == r) l i hi
  omega

theorem work_step {seeds : List Seed} {b b' : Boot} {a : BootAction}
    (h : bootStep seeds b a = some b') : b'.work seeds.length < b.work seeds.length := by
  obtain ⟨hc, ⟨-, hlt, rfl⟩ | ⟨i, s, -, hw, -, -, rfl⟩ | ⟨i, s, p, -, hw, -, -, rfl⟩ |
    ⟨i, -, hw, rfl⟩ | ⟨-, -, -, hr, rfl⟩⟩ := bootStep_cases h
  · simp only [Boot.work, List.count_append, hc]
    simp; omega
  · simp [Boot.work, hc]
  · have := count_set_phase hw .connected .started
    have := count_set_phase hw .connected .connected
    simp only [Boot.work] at *
    simp at *; omega
  · have := count_set_phase hw .finished .started
    have := count_set_phase hw .finished .connected
    simp only [Boot.work] at *
    simp at *; omega
  · simp [Boot.work, hr]

theorem bootRun_length_le {seeds : List Seed} {b b' : Boot} (as : List BootAction)
    (h : bootRun seeds b as = some b') : as.length + b'.work seeds.length ≤ b.work seeds.length :=
  @foldlM_option_length_le Boot BootAction (bootStep seeds) (Boot.work seeds.length) work_step
    as b b' h

theorem bootStep_enabled {seeds : List Seed} {b : Boot} (hi : BootInv seeds b)
    (hr : b.returned = false) (hc : b.crashed = false) : ∃ a b', bootStep seeds b a = some b' := by
  by_cases hn : b.next < seeds.length
  · exact ⟨.spawn, by simp [bootStep, hc, hn]⟩
  have hlen : b.workers.length = seeds.length := by have := hi.next_le; rw [← hi.next_eq]; omega
  by_cases hs : Phase.started ∈ b.workers
  · -- the goroutine of a seed that has not called `Connect`
    obtain ⟨i, hw⟩ := List.mem_iff_getElem?.mp hs
    have hlt : i < seeds.length := hlen ▸ (List.getElem?_eq_some_iff.mp hw).1
    have hsi : seeds[i]? = some seeds[i] := List.getElem?_eq_getElem hlt
    refine ⟨.connect i, ?_⟩
    simp only [bootStep, hc, hw, hsi]
    split <;> exact ⟨_, rfl⟩
  by_cases hd : Phase.connected ∈ b.workers
  · -- the goroutine of a seed that has yet to run `wg.Done()`
    obtain ⟨i, hw⟩ := List.mem_iff_getElem?.mp hd
    exact ⟨.done i, by simp [bootStep, hc, hw]⟩
  · -- every goroutine has finished, so the counter is zero
    have h0 : b.counter = 0 := by
      rw [hi.counter_eq, List.countP_eq_zero]
      intro w hw
      cases w <;> simp_all
    exact ⟨.wait, by simp [bootStep, hc, hr, hn, h0]⟩

theorem bootstrap_terminates (seeds : List Seed) (as : List BootAction) (b : Boot)
    (h : getPeerAddresses seeds as = some b) :
    as.length ≤ 3 * seeds.length + 2 ∧
      ((∀ a, bootStep seeds b a = none) → b.returned = true ∨ b.crashed = true) ∧
      ((∀ s ∈ seeds, s.info.isSome) → (∀ a, bootStep seeds b a = none) → b.returned = true) := by
  have hi := bootInv_run as (bootInv_init seeds) h
  have hstuck : (∀ a, bootStep seeds b a = none) → b.returned = true ∨ b.crashed = true := by
    intro hs
    by_contra hb
    simp only [not_or, Bool.not_eq_true] at hb
    obtain ⟨a, b', h'⟩ := bootStep_enabled hi hb.1 hb.2
    simp [hs a] at h'
  refine ⟨?_, hstuck, fun hconv hs => (hstuck hs).resolve_right (by simp [hi.not_crashed hconv])⟩
  have := bootRun_length_le as h
  simp [Boot.work, Boot.init] at this
  omega

theorem bootstrap_terminates_two_seeds :
    ∃ b, getPeerAddresses [⟨"a", some "A"⟩, ⟨"b", some "B"⟩]
        [.spawn, .spawn, .connect 1, .connect 0, .done 0, .done 1, .wait] = some b ∧
      b.returned = true :=
  ⟨_, rfl, (bootstrap_terminates [⟨"a", some "A"⟩, ⟨"b", some "B"⟩]
    [.spawn, .spawn, .connect 1, .connect 0, .done 0, .done 1, .wait] _ rfl).2.2 (by decide)
    fun a => by rcases a with _ | (_ | _ | i) | (_ | _ | i) | _ <;> rfl⟩

/-! ## Every order of `Connect` calls -/

theorem bootRun_cons (seeds : List Seed) (b : Boot) (a : BootAction) (as : List BootAction) :
    bootRun seeds b (a :: as) = (bootStep seeds b a).bind fun b' => bootRun seeds b' as := rfl

theorem bootRun_append (seeds : List Seed) (b : Boot) (as as' : List BootAction) :
    bootRun seeds b (as ++ as') = (bootRun seeds b as).bind fun b' => bootRun seeds b' as' :=
  List.foldlM_append _ _ _ _

theorem set_phases (n i : Nat) (f : Nat → Phase) (p : Phase) :
    ((List.range n).map f).set i p = (List.range n).map (Function.update f i p) := by
  apply List.ext_getElem (by simp)
  intro j h1 h2
  rw [List.getElem_set, List.getElem_map, List.getElem_map, List.getElem_range,
    Function.update_apply]
  by_cases hij : i = j
  · simp [hij]
  · simp [hij, Ne.symm hij]

theorem getElem?_phases {n i : Nat} (hi : i < n) (f : Nat → Phase) :
    ((List.range n).map f)[i]? = some (f i) := by
  simp [List.getElem?_range hi]

theorem update_then_mark (f : Nat → Phase) (i : Nat) (l : List Nat) (p : Phase) :
    (fun j => if j ∈ l then p else Function.update f i p j) =
      fun j => if j ∈ i :: l then p else f j := by
  funext j
  by_cases hj : j ∈ l
  · simp [hj]
  · by_cases hji : j = i
    · subst hji; simp
    · simp [hj, hji, Function.update_noteq hji]

section schedule

variable {seeds : List Seed}

theorem bootRun_spawns {k : Nat} : ∀ m, k + m ≤ seeds.length →
    bootRun seeds ⟨k, k, List.replicate k .started, [], false, false⟩ (List.replicate m .spawn) =
      some ⟨k + m, k + m, List.replicate (k + m) .started, [], false, false⟩
  | 0, _ => rfl
  | m + 1, h => by
    have hk : ¬ (false = true ∨ seeds.length ≤ k) := by simp; omega
    rw [List.replicate_succ, bootRun_cons, bootStep, if_neg hk, Option.some_bind]
    simp only [← List.replicate_succ']
    rw [bootRun_spawns m (by omega), show k + 1 + m = k + (m + 1) by omega]

theorem bootRun_connects (hs : ∀ s ∈ seeds, s.info.isSome) {c : Nat} :
    ∀ (l attempts : List Nat) (f : Nat → Phase), l.Nodup →
      (∀ i ∈ l, i < seeds.length ∧ f i = .started) →
      bootRun seeds ⟨seeds.length, c, (List.range seeds.length).map f, attempts, false, false⟩
          (l.map .connect) =
        some ⟨seeds.length, c, (List.range seeds.length).map fun j => if j ∈ l then .connected else f j,
          attempts ++ l, false, false⟩
  | [], attempts, f, _, _ => by simp [bootRun]
  | i :: l, attempts, f, hn, hl => by
    obtain ⟨hi, hl⟩ := List.forall_mem_cons.mp hl
    obtain ⟨hil, hn⟩ := List.nodup_cons.mp hn
    obtain ⟨p, hp⟩ := Option.isSome_iff_exists.mp (hs _ (List.getElem_mem hi.1))
    have hstep : bootStep seeds ⟨seeds.length, c, (List.range seeds.length).map f, attempts, false,
        false⟩ (.connect i) = some ⟨seeds.length, c,
          (List.range seeds.length).map (Function.update f i .connected), attempts ++ [i], false,
          false⟩ := by
      simp [bootStep, getElem?_phases hi.1, hi.2, List.getElem?_eq_getElem hi.1, hp, set_phases]
    have hl' : ∀ j ∈ l, j < seeds.length ∧ Function.update f i .connected j = .started :=
      fun j hj => ⟨(hl j hj).1, by
        rw [Function.update_noteq (by rintro rfl; exact hil hj)]; exact (hl j hj).2⟩
    rw [List.map_cons, bootRun_cons, hstep, Option.some_bind, bootRun_connects hs l _ _ hn hl',
      update_then_mark]
    simp

theorem bootRun_dones {attempts : List Nat} :
    ∀ (l : List Nat) (c : Nat) (f : Nat → Phase), l.Nodup →
      (∀ i ∈ l, i < seeds.length ∧ f i = .connected) →
      bootRun seeds ⟨seeds.length, c, (List.range seeds.length).map f, attempts, false, false⟩
          (l.map .done) =
        some ⟨seeds.length, c - l.length,
          (List.range seeds.length).map (fun j => if j ∈ l then .finished else f j), attempts,
          false, false⟩
  | [], c, f, _, _ => by simp [bootRun]
  | i :: l, c, f, hn, hl => by
    obtain ⟨hi, hl⟩ := List.forall_mem_cons.mp hl
    obtain ⟨hil, hn⟩ := List.nodup_cons.mp hn
    have hstep : bootStep seeds ⟨seeds.length, c, (List.range seeds.length).map f, attempts, false,
        false⟩ (.done i) = some ⟨seeds.length, c - 1,
          (List.range seeds.length).map (Function.update f i .finished), attempts, false,
          false⟩ := by
      simp [bootStep, getElem?_phases hi.1, hi.2, set_phases]
    have hl' : ∀ j ∈ l, j < seeds.length ∧ Function.update f i .finished j = .connected :=
      fun j hj => ⟨(hl j hj).1, by
        rw [Function.update_noteq (by rintro rfl; exact hil hj)]; exact (hl j hj).2⟩
    rw [List.map_cons, bootRun_cons, hstep, Option.some_bind, bootRun_dones l _ _ hn hl',
      update_then_mark, Nat.sub_sub, List.length_cons, Nat.add_comm 1]

end schedule

/-- Every order of the `Connect` calls and of the `wg.Done()` calls is taken by some run. -/
theorem bootstrap_any_order (seeds : List Seed) (hs : ∀ s ∈ seeds, s.info.isSome)
    (connects dones : List Nat) (hc : List.Perm connects (List.range seeds.length))
    (hd : List.Perm dones (List.range seeds.length)) :
    ∃ b, getPeerAddresses seeds
        (List.replicate seeds.length .spawn ++ connects.map .connect ++ dones.map .done ++ [.wait]) =
        some b ∧ b.attempts = connects ∧ b.returned = true := by
  have hcm : ∀ i ∈ connects, i < seeds.length :=
    fun i hi => List.mem_range.mp (hc.mem_iff.mp hi)
  have hdm : ∀ i ∈ dones, i < seeds.length := fun i hi => List.mem_range.mp (hd.mem_iff.mp hi)
  -- after the loop every goroutine is at its start
  have hloop : bootRun seeds Boot.init (List.replicate seeds.length .spawn) =
      some ⟨seeds.length, seeds.length, (List.range seeds.length).map fun _ => .started, [], false,
        false⟩ := by
    simpa using @bootRun_spawns seeds 0 seeds.length (by omega)
  -- every goroutine calls `Connect`, in the order `connects`
  have hconn := @bootRun_connects seeds hs seeds.length connects [] (fun _ => .started)
    (hc.nodup_iff.mpr (List.nodup_range _)) fun i hi => ⟨hcm i hi, rfl⟩
  -- every goroutine runs `wg.Done()`, in the order `dones`
  have hdone := @bootRun_dones seeds ([] ++ connects) dones seeds.length
    (fun j => if j ∈ connects then .connected else .started)
    (hd.nodup_iff.mpr (List.nodup_range _))
    fun i hi => ⟨hdm i hi, if_pos (hc.mem_iff.mpr (List.mem_range.mpr (hdm i hi)))⟩
  rw [getPeerAddresses, bootRun_append, bootRun_append, bootRun_append, hloop, Option.some_bind,
    hconn, Option.some_bind, hdone, Option.some_bind, hd.length_eq, List.length_range, Nat.sub_self]
  simp [bootRun, bootStep]

theorem bootstrap_any_order_reversed :
    ∃ b, getPeerAddresses [⟨"a", some "A"⟩, ⟨"b", some "B"⟩]
        [.spawn, .spawn, .connect 1, .connect 0, .done 0, .done 1, .wait] = some b ∧
      b.attempts = [1, 0] ∧ b.returned = true :=
  bootstrap_any_order [⟨"a", some "A"⟩, ⟨"b", some "B"⟩] (by decide) [1, 0] [0, 1] (by decide)
    (by decide)

end Sprawl.P2p
