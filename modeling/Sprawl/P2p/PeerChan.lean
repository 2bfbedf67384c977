import Sprawl.P2p.Broadcast

/-! # `listenPeers` and concurrent `SendToPeers` calls on the one `peerChan`

`Run` starts `listenPeers`, and every `SendToPeers` call ranges over the same `p2p.peerChan`.
A Go channel hands each value to one receiver, so the loops share out the discovered peers.
-/

namespace Sprawl.P2p

/-- A goroutine that receives from `peerChan`: the `listenPeers` loop of `Run`, or the `i`-th
`SendToPeers` call. -/
inductive Consumer where
  | listen
  | send (i : Nat)
deriving DecidableEq, Repr

/-- The node while discovery runs. `pending` is what discovery has yet to yield, `chan` what it
yielded that no loop has received. `log` records which loop received which value, in order, and
`fx` what each loop has done. `crashed` is set by a panic, after which nothing runs. -/
structure Node where
  pending : List Discovered
  chan : List Discovered
  log : List (Consumer × Discovered)
  fx : Consumer → List Effect
  crashed : Bool

def Node.init (disc : List Discovered) : Node := ⟨disc, [], [], fun _ => [], false⟩

inductive Action where
  /-- Discovery sends its next peer on `peerChan`. -/
  | yield
  /-- Loop `c` receives the oldest value on `peerChan` and runs its body on it. -/
  | receive (c : Consumer)
deriving DecidableEq, Repr

/-- The body of each loop, for the host `self`, with `inputs i` the input of the `i`-th call. -/
def body (self : PeerId) (inputs : Nat → Bytes) : Consumer → Discovered → List Effect
  | .listen => listenStep self
  | .send i => sendStep self (inputs i)

/-- One step, or `none` when it cannot be taken: discovery is done, the channel is empty, or the
process has crashed. -/
def step (self : PeerId) (inputs : Nat → Bytes) (n : Node) : Action → Option Node
  | .yield =>
    match n.crashed, n.pending with
    | false, d :: ds => some { n with pending := ds, chan := n.chan ++ [d] }
    | _, _ => none
  | .receive c =>
    match n.crashed, n.chan with
    | false, d :: rest =>
      let e := body self inputs c d
      some { n with chan := rest, log := n.log ++ [(c, d)],
                    fx := Function.update n.fx c (n.fx c ++ e), crashed := !decide (Returns e) }
    | _, _ => none

def run (self : PeerId) (inputs : Nat → Bytes) (n : Node) (as : List Action) : Option Node :=
  as.foldlM (step self inputs) n

/-- The values loop `c` received, in order. -/
def takenBy (c : Consumer) (log : List (Consumer × Discovered)) : List Discovered :=
  (log.filter (·.1 = c)).map (·.2)

/-! ## The invariant -/

/-- Every value discovery yielded is in the log or in the channel, once and in order, and every
loop has done exactly what its own loop does over the values it received. -/
structure Inv (host : PeerId) (inputs : Nat → Bytes) (disc : List Discovered) (n : Node) :
    Prop where
  conserved : n.log.map (·.2) ++ n.chan ++ n.pending = disc
  loops : ∀ c, n.fx c = rangeLoop (body host inputs c) (takenBy c n.log)
  alive : n.crashed = false → ∀ c, Returns (n.fx c)

theorem inv_init (self : PeerId) (inputs : Nat → Bytes) (disc : List Discovered) :
    Inv self inputs disc (Node.init disc) :=
  ⟨rfl, fun _ => rfl, fun _ _ => returns_nil⟩

theorem rangeLoop_concat {body : Discovered → List Effect} {xs : List Discovered}
    (h : Returns (rangeLoop body xs)) (d : Discovered) :
    rangeLoop body (xs ++ [d]) = rangeLoop body xs ++ body d := by
  rw [rangeLoop_append h, rangeLoop, rangeLoop]
  by_cases hd : Returns (body d)
  · rw [andThen_of_returns hd, List.append_nil]
  · rw [andThen_of_not_returns hd]

theorem takenBy_concat (c c' : Consumer) (log : List (Consumer × Discovered)) (d : Discovered) :
    takenBy c (log ++ [(c', d)]) = takenBy c log ++ if c' = c then [d] else [] := by
  by_cases h : c' = c <;> simp [takenBy, h]

theorem step_cases {self : PeerId} {inputs : Nat → Bytes} {n n' : Node} {a : Action}
    (h : step self inputs n a = some n') :
    n.crashed = false ∧
      ((∃ d ds, n.pending = d :: ds ∧ n' = { n with pending := ds, chan := n.chan ++ [d] }) ∨
        ∃ c d rest, n.chan = d :: rest ∧
          n' = { n with chan := rest, log := n.log ++ [(c, d)],
                        fx := Function.update n.fx c (n.fx c ++ body self inputs c d),
                        crashed := !decide (Returns (body self inputs c d)) }) := by
  cases a with
  | yield =>
    simp only [step] at h
    split at h
    · cases h; exact ⟨‹_›, .inl ⟨_, _, ‹_›, rfl⟩⟩
    · cases h
  | receive c =>
    simp only [step] at h
    split at h
    · cases h; exact ⟨‹_›, .inr ⟨c, _, _, ‹_›, rfl⟩⟩
    · cases h

theorem inv_step {self : PeerId} {inputs : Nat → Bytes} {disc : List Discovered} {n n' : Node}
    {a : Action} (hi : Inv self inputs disc n) (h : step self inputs n a = some n') :
    Inv self inputs disc n' := by
  obtain ⟨hc, ⟨d, ds, hp, rfl⟩ | ⟨c, d, rest, hch, rfl⟩⟩ := step_cases h
  · exact ⟨by simp [← hi.conserved, hp], hi.loops, hi.alive⟩
  · refine ⟨by simp [← hi.conserved, hch], fun c' => ?_, fun hc' c' => ?_⟩
    · by_cases hcc : c' = c
      · subst hcc
        simp [takenBy_concat, hi.loops c', rangeLoop_concat (hi.loops c' ▸ hi.alive hc c')]
      · simp [Function.update_noteq hcc, takenBy_concat, Ne.symm hcc, hi.loops c']
    · simp only [Bool.not_eq_false', decide_eq_true_eq] at hc'
      by_cases hcc : c' = c
      · subst hcc; simp [hi.alive hc c', hc']
      · simp [Function.update_noteq hcc, hi.alive hc c']

theorem inv_run {self : PeerId} {inputs : Nat → Bytes} {disc : List Discovered} {n n' : Node}
    (as : List Action) (hi : Inv self inputs disc n) (h : run self inputs n as = some n') :
    Inv self inputs disc n' :=
  foldlM_option_inv inv_step as hi h

/-! ## Every interleaving -/

theorem step_measure_lt {self : PeerId} {inputs : Nat → Bytes} {n n' : Node} {a : Action}
    (h : step self inputs n a = some n') :
    2 * n'.pending.length + n'.chan.length < 2 * n.pending.length + n.chan.length := by
  obtain ⟨-, ⟨d, ds, hp, rfl⟩ | ⟨c, d, rest, hch, rfl⟩⟩ := step_cases h
  · simp only [hp, List.length_cons, List.length_append, List.length_nil]
    omega
  · simp only [hch, List.length_cons]
    omega

theorem run_length_le {self : PeerId} {inputs : Nat → Bytes} {n n' : Node} (as : List Action)
    (h : run self inputs n as = some n') :
    as.length + (2 * n'.pending.length + n'.chan.length) ≤ 2 * n.pending.length + n.chan.length :=
  @foldlM_option_length_le Node Action (step self inputs)
    (fun n => 2 * n.pending.length + n.chan.length) step_measure_lt as n n' h

theorem stuck_drained {self : PeerId} {inputs : Nat → Bytes} {n : Node}
    (h : ∀ a, step self inputs n a = none) (hc : n.crashed = false) :
    n.pending = [] ∧ n.chan = [] := by
  constructor
  · cases hp : n.pending with
    | nil => rfl
    | cons d ds => simpa [step, hc, hp] using h .yield
  · cases hch : n.chan with
    | nil => rfl
    | cons d rest => simpa [step, hc, hch] using h (.receive .listen)

theorem every_peer_received (self : PeerId) (inputs : Nat → Bytes) (disc : List Discovered)
    (as : List Action) (n : Node) (h : run self inputs (Node.init disc) as = some n) :
    as.length ≤ 2 * disc.length ∧
      ((∀ a, step self inputs n a = none) → n.crashed = false → n.log.map (·.2) = disc) := by
  refine ⟨by simpa [Node.init] using (run_length_le as h).trans' (Nat.le_add_right _ _),
    fun hstuck hc => ?_⟩
  obtain ⟨hp, hch⟩ := stuck_drained hstuck hc
  simpa [hp, hch] using (inv_run as (inv_init self inputs disc) h).conserved

theorem every_peer_received_two_loops :
    ∃ n, run "h" (fun _ => [1]) (Node.init [⟨"p", none, .ok⟩, ⟨"q", none, .ok⟩])
        [.yield, .yield, .receive .listen, .receive (.send 0)] = some n ∧
      n.log.map (·.2) = [⟨"p", none, .ok⟩, ⟨"q", none, .ok⟩] :=
  ⟨_, rfl, (every_peer_received "h" (fun _ => [1]) [⟨"p", none, .ok⟩, ⟨"q", none, .ok⟩]
    [.yield, .yield, .receive .listen, .receive (.send 0)] _ rfl).2 (fun a => by cases a <;> rfl)
    rfl⟩

/-! ## No peer dialled twice -/

theorem takenBy_cons (c : Consumer) (x : Consumer × Discovered)
    (log : List (Consumer × Discovered)) :
    takenBy c (x :: log) = if x.1 = c then x.2 :: takenBy c log else takenBy c log := by
  by_cases h : x.1 = c <;> simp [takenBy, List.filter_cons, h]

theorem flatMap_takenBy_cons {cs : List Consumer} (hcs : cs.Nodup) (x : Consumer × Discovered)
    (log : List (Consumer × Discovered)) :
    List.Perm (cs.flatMap (takenBy · (x :: log)))
      ((if x.1 ∈ cs then [x.2] else []) ++ cs.flatMap (takenBy · log)) := by
  induction cs with
  | nil => simp
  | cons c cs ih =>
    obtain ⟨hc, hcs⟩ := List.nodup_cons.mp hcs
    have ih := ih hcs
    simp only [List.flatMap_cons, List.mem_cons]
    rw [takenBy_cons]
    by_cases hx : x.1 = c
    · -- `c` received it, and no other loop of `cs` can have
      rw [if_neg (hx ▸ hc : x.1 ∉ cs), List.nil_append] at ih
      rw [if_pos hx, if_pos (.inl hx)]
      exact (ih.append_left (takenBy c log)).cons x.2
    · simp only [hx, if_false, false_or]
      refine (ih.append_left _).trans ?_
      simp only [← List.append_assoc]
      exact List.perm_append_comm.append_right _

theorem flatMap_takenBy_perm {cs : List Consumer} (hcs : cs.Nodup)
    (log : List (Consumer × Discovered)) :
    List.Perm (cs.flatMap (takenBy · log)) ((log.filter (·.1 ∈ cs)).map (·.2)) := by
  induction log with
  | nil => simp [takenBy]
  | cons x log ih =>
    refine (flatMap_takenBy_cons hcs x log).trans ?_
    by_cases hx : x.1 ∈ cs
    · simpa [List.filter_cons, hx] using ih.cons x.2
    · simpa [List.filter_cons, hx] using ih

theorem flatMap_sublist_flatMap {cs : List Consumer} {f g : Consumer → List PeerId}
    (h : ∀ c ∈ cs, List.Sublist (f c) (g c)) : List.Sublist (cs.flatMap f) (cs.flatMap g) := by
  induction cs with
  | nil => exact List.Sublist.refl _
  | cons c cs ih =>
    simp only [List.forall_mem_cons] at h
    exact h.1.append (ih h.2)

theorem dialled_body (self : PeerId) (inputs : Nat → Bytes) (c : Consumer) (d : Discovered) :
    dialled (body self inputs c d) = if d.peer = self then [] else [d.peer] := by
  cases c
  · exact dialled_listenStep self d
  · exact dialled_sendStep self _ d

section dials

variable {self : PeerId} {inputs : Nat → Bytes} {disc : List Discovered} {n : Node}

theorem Inv.log_sublist (hi : Inv self inputs disc n) : List.Sublist (n.log.map (·.2)) disc := by
  rw [← hi.conserved, List.append_assoc]
  exact List.sublist_append_left _ _

theorem Inv.log_of_stuck (hi : Inv self inputs disc n) (hstuck : ∀ a, step self inputs n a = none)
    (hc : n.crashed = false) : n.log.map (·.2) = disc := by
  obtain ⟨hp, hch⟩ := stuck_drained hstuck hc
  simpa [hp, hch] using hi.conserved

theorem dialled_fx_sublist (hi : Inv self inputs disc n) (c : Consumer) :
    List.Sublist (dialled (n.fx c)) (((takenBy c n.log).map (·.peer)).filter (· ≠ self)) := by
  rw [hi.loops c, ← dialled_flatMap (dialled_body self inputs c)]
  exact (dialled_rangeLoop_isPrefix _).sublist

theorem dialled_fx_of_alive (hi : Inv self inputs disc n) (hc : n.crashed = false)
    (c : Consumer) :
    dialled (n.fx c) = ((takenBy c n.log).map (·.peer)).filter (· ≠ self) := by
  have hr := hi.alive hc c
  rw [hi.loops c] at hr ⊢
  rw [rangeLoop_of_returns ((returns_rangeLoop _).mp hr),
    dialled_flatMap (dialled_body self inputs c)]

end dials

theorem no_peer_dialled_twice (self : PeerId) (inputs : Nat → Bytes) (disc : List Discovered)
    (as : List Action) (n : Node) (h : run self inputs (Node.init disc) as = some n)
    (cs : List Consumer) (hcs : cs.Nodup) :
    (∀ c, List.Sublist (dialled (n.fx c)) (((takenBy c n.log).map (·.peer)).filter (· ≠ self))) ∧
      List.Subperm (cs.flatMap fun c => dialled (n.fx c)) ((disc.map (·.peer)).filter (· ≠ self)) ∧
      ((∀ x ∈ n.log, x.1 ∈ cs) → n.crashed = false →
        List.Perm (cs.flatMap fun c => dialled (n.fx c))
          (((n.log.map (·.2)).map (·.peer)).filter (· ≠ self))) ∧
      ((∀ x ∈ n.log, x.1 ∈ cs) → n.crashed = false → (∀ a, step self inputs n a = none) →
        List.Perm (cs.flatMap fun c => dialled (n.fx c)) ((disc.map (·.peer)).filter (· ≠ self))) := by
  have hi := inv_run as (inv_init self inputs disc) h
  have hpeers : ∀ {xs ys : List Discovered}, List.Sublist xs ys →
      List.Sublist ((xs.map (·.peer)).filter (· ≠ self)) ((ys.map (·.peer)).filter (· ≠ self)) :=
    fun h => (h.map _).filter _
  -- the shares of `cs`, as peers, are a permutation of the peers `cs` received
  have hshare : List.Perm (cs.flatMap fun c => ((takenBy c n.log).map (·.peer)).filter (· ≠ self))
      ((((n.log.filter (·.1 ∈ cs)).map (·.2)).map (·.peer)).filter (· ≠ self)) := by
    simpa only [List.map_flatMap, List.filter_flatMap] using
      ((flatMap_takenBy_perm hcs n.log).map (·.peer)).filter (· ≠ self)
  have hperm : (∀ x ∈ n.log, x.1 ∈ cs) → n.crashed = false →
      List.Perm (cs.flatMap fun c => dialled (n.fx c))
        (((n.log.map (·.2)).map (·.peer)).filter (· ≠ self)) := fun hcov hc => by
    have hf : n.log.filter (·.1 ∈ cs) = n.log :=
      List.filter_eq_self.mpr fun x hx => decide_eq_true (hcov x hx)
    rw [hf] at hshare
    simpa only [dialled_fx_of_alive hi hc] using hshare
  refine ⟨dialled_fx_sublist hi, ?_, hperm,
    fun hcov hc hstuck => by simpa only [hi.log_of_stuck hstuck hc] using hperm hcov hc⟩
  exact ((flatMap_sublist_flatMap fun c _ => dialled_fx_sublist hi c).subperm.trans
    hshare.subperm).trans (hpeers (((List.filter_sublist _).map _).trans hi.log_sublist)).subperm

theorem no_peer_dialled_twice_two_loops :
    ∃ n, run "h" (fun _ => [1])
        (Node.init [⟨"p", none, .ok⟩, ⟨"h", none, .ok⟩, ⟨"q", some "refused", .ok⟩])
        [.yield, .yield, .yield, .receive .listen, .receive (.send 0), .receive (.send 0)] = some n ∧
      List.Perm ([Consumer.listen, .send 0].flatMap fun c => dialled (n.fx c)) ["p", "q"] :=
  ⟨_, rfl, (no_peer_dialled_twice "h" (fun _ => [1])
    [⟨"p", none, .ok⟩, ⟨"h", none, .ok⟩, ⟨"q", some "refused", .ok⟩]
    [.yield, .yield, .yield, .receive .listen, .receive (.send 0), .receive (.send 0)] _ rfl
    [.listen, .send 0] (by decide)).2.2.2 (by decide) rfl fun a => by cases a <;> rfl⟩

end Sprawl.P2p
