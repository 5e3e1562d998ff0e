import BitBridge.Health.Monitor
import Mathlib.Data.List.Chain

/-!
# The rounds of the checker

The handler of the round timer probes every service and arms the timer again, so
the probes of a run are whole rounds, one behind the other.  A probe has a timer
of its own, and its connect does not outlive the handler of that timer.

* `probeAll_eq_ok`: **a round** launches one probe of every service, in order,
  each with its timer; `exists_probeAll` says when it does.
* `InRounds`: the probes are rounds that are at least an interval apart, and
  while the checker runs the next one is due.
* `Guarded`: a connect that waits has a timer that will close its socket.
* `rounds_of_run`: both hold in every run.
* `failures_take_time`: **no service is unhealthy before its time**: a count of
  `n` failures takes `n` intervals.
-/

namespace BitBridge.Health

open Proactor Steps

/-! ### Times that are apart -/

theorem isChain_concat {d s t : Nat} {l : List Nat}
    (h : (s :: l).IsChain fun a b => a + d ≤ b) (ht : l.getLastD s + d ≤ t) :
    (s :: (l ++ [t])).IsChain fun a b => a + d ≤ b := by
  induction l generalizing s with
  | nil => exact List.isChain_pair.mpr ht
  | cons a l ih =>
    obtain ⟨hsa, hal⟩ := List.isChain_cons_cons.mp h
    rw [List.getLastD_cons] at ht
    exact List.isChain_cons_cons.mpr ⟨hsa, ih hal ht⟩

theorem length_mul_le {d s : Nat} {l : List Nat} (h : (s :: l).IsChain fun a b => a + d ≤ b) :
    s + l.length * d ≤ l.getLastD s := by
  induction l generalizing s with
  | nil => simp
  | cons a l ih =>
    obtain ⟨hsa, hal⟩ := List.isChain_cons_cons.mp h
    have hl := ih hal
    rw [List.length_cons, Nat.succ_mul, List.getLastD_cons]
    omega

/-! ### One round -/

/-- The probes of a round over `n` services that begins at `t`. -/
def launched (config : HealthCheckConfig) (n t : Nat) : List Probe :=
  (List.range n).map fun i => ⟨i, t + config.timeoutMs.toNat⟩

/-- What a round starts whose first probe is `first`. -/
def startedBy (first n : Nat) : List (Pending Op) :=
  (List.range n).flatMap fun i =>
    [⟨.timeout (first + i), .waiting⟩, ⟨.connect (first + i) i, .waiting⟩]

theorem mem_startedBy {first n : Nat} {p : Pending Op} : p ∈ startedBy first n ↔
    ∃ i < n, p = ⟨.timeout (first + i), .waiting⟩ ∨ p = ⟨.connect (first + i) i, .waiting⟩ := by
  simp [startedBy]

theorem count_isRound_startedBy (first n : Nat) : count Op.isRound (startedBy first n) = 0 := by
  refine List.countP_eq_zero.mpr ?_
  intro p hp
  obtain ⟨i, -, rfl | rfl⟩ := mem_startedBy.mp hp <;> exact Bool.false_ne_true

namespace HealthChecker

variable {isIpLiteral : Bytes → Bool} {now : Nat} {pool : ServicePool} {c c' : HealthChecker}

def afterRound (c : HealthChecker) (now n : Nat) : HealthChecker :=
  { c with
    probes := c.probes ++ launched c.config n now
    pending := c.pending ++ startedBy c.probes.length n }

theorem probeOne_eq_ok {index : Nat} (h : c.probeOne isIpLiteral now pool index = .ok c') :
    c' = { c with
      probes := c.probes ++ [⟨index, now + c.config.timeoutMs.toNat⟩]
      pending := c.pending ++ [⟨.timeout c.probes.length, .waiting⟩,
        ⟨.connect c.probes.length index, .waiting⟩] } := by
  unfold probeOne at h
  split at h
  · cases h
  · dsimp only at h
    split at h
    · cases h
      simp
    · cases h

/-- **A round that ends** has launched one probe of every service, in order. -/
theorem probeAll_eq_ok (h : c.probeAll isIpLiteral now pool = .ok c') :
    c' = c.afterRound now pool.getSize := by
  have hrange : ∀ n c', (List.range n).foldlM (probeOne isIpLiteral now pool) c = .ok c' →
      c' = c.afterRound now n := by
    intro n
    induction n with
    | zero =>
      intro c' h
      cases h
      simp [afterRound, launched, startedBy]
    | succ n ih =>
      intro c' h
      rw [List.range_succ, List.foldlM_append] at h
      cases hn : (List.range n).foldlM (probeOne isIpLiteral now pool) c with
      | error c₁ =>
        rw [hn] at h
        cases h
      | ok c₁ =>
        rw [hn] at h
        obtain rfl := ih c₁ hn
        cases hone : (c.afterRound now n).probeOne isIpLiteral now pool n with
        | error c₂ =>
          simp only [List.foldlM_cons, bind, Except.bind, hone] at h
          cases h
        | ok c₂ =>
          simp only [List.foldlM_cons, List.foldlM_nil, bind, Except.bind, hone] at h
          cases h
          rw [probeOne_eq_ok hone]
          simp [afterRound, launched, startedBy, List.range_succ]
  exact hrange _ c' h

theorem exists_probeAll (now : Nat)
    (hip : ∀ i svc, pool.getService i = some svc → isIpLiteral svc.node.ip = true)
    (c : HealthChecker) : ∃ c', c.probeAll isIpLiteral now pool = .ok c' := by
  have hlist : ∀ (l : List Nat) (c : HealthChecker), (∀ i ∈ l, i < pool.getSize) →
      ∃ c', l.foldlM (probeOne isIpLiteral now pool) c = .ok c' := by
    intro l
    induction l with
    | nil => exact fun c _ => ⟨c, rfl⟩
    | cons i l ih =>
      intro c hl
      obtain ⟨svc, hsvc⟩ := ServicePool.exists_getService (hl i List.mem_cons_self)
      obtain ⟨c₁, hc₁⟩ : ∃ c₁, c.probeOne isIpLiteral now pool i = .ok c₁ := by
        rw [probeOne, hsvc]
        exact ⟨_, if_pos (hip i svc hsvc)⟩
      obtain ⟨c', hc'⟩ := ih c₁ fun j hj => hl j (List.mem_cons_of_mem _ hj)
      exact ⟨c', by rw [List.foldlM_cons, hc₁]; exact hc'⟩
  exact hlist _ c fun i hi => List.mem_range.mp hi

theorem mayComplete_of_step {op : Op} {ec : ErrorCode} {t : Turn}
    (h : c.step isIpLiteral now pool (.complete op ec) = some t) :
    c.mayComplete now op ec = true := by
  rw [step, Option.ite_none_right_eq_some] at h
  exact h.1.2

end HealthChecker

/-! ### Whole rounds -/

/-- The rounds began at `times`, the run at `start`. -/
structure InRounds (n start now : Nat) (times : List Nat) (c : HealthChecker) : Prop where
  probes : c.probes = times.flatMap (launched c.config n)
  apart : (start :: times).IsChain fun s t => s + c.config.intervalMs.toNat ≤ t
  past : times.getLastD start ≤ now
  expiry : c.expiry = times.getLastD start + c.config.intervalMs.toNat
  one : c.stopped = false → count Op.isRound c.pending = 1
  success : c.stopped = false → ∀ {ec k}, ⟨.round, .queued ec k⟩ ∈ c.pending → ec = .success
  due : ∀ {k}, ⟨.round, .queued .success k⟩ ∈ c.pending → c.expiry ≤ now

namespace InRounds

variable {isIpLiteral : Bytes → Bool} {n start now : Nat} {times : List Nat} {pool : ServicePool}
  {c c' : HealthChecker}

theorem congr (h : InRounds n start now times c) (hconfig : c'.config = c.config)
    (hprobes : c'.probes = c.probes) (hexpiry : c'.expiry = c.expiry)
    (hstopped : c'.stopped = c.stopped)
    (hcount : count Op.isRound c'.pending = count Op.isRound c.pending)
    (hmem : ∀ {ec k}, ⟨.round, .queued ec k⟩ ∈ c'.pending → ⟨.round, .queued ec k⟩ ∈ c.pending) :
    InRounds n start now times c' where
  probes := by rw [hprobes, hconfig]; exact h.probes
  apart := by rw [hconfig]; exact h.apart
  past := h.past
  expiry := by rw [hexpiry, hconfig]; exact h.expiry
  one hs := hcount.trans (h.one (hstopped ▸ hs))
  success hs {_ _} hm := h.success (hstopped ▸ hs) (hmem hm)
  due hm := by rw [hexpiry]; exact h.due (hmem hm)

theorem tick (h : InRounds n start now times c) : InRounds n start (now + 1) times c :=
  { h with
    past := Nat.le_succ_of_le h.past
    due := fun hm => Nat.le_succ_of_le (h.due hm) }

theorem cancel (h : InRounds n start now times c) {f : Op → Bool} (hf : f .round = false) :
    InRounds n start now times { c with pending := Proactor.cancel f c.pending } := by
  refine h.congr rfl rfl rfl rfl (count_cancel _ _ _) ?_
  intro ec k hm
  rcases mem_cancel hm with ⟨hm, -⟩ | ⟨q, -, hq, hfq, -⟩
  · exact hm
  · exact absurd (hf.symm.trans hfq) Bool.false_ne_true

theorem stop (h : InRounds n start now times c) : InRounds n start now times c.stop where
  probes := h.probes
  apart := h.apart
  past := h.past
  expiry := h.expiry
  one hs := nomatch hs
  success hs := nomatch hs
  due {k} hm := by
    rcases mem_cancel hm with ⟨hm, -⟩ | ⟨q, -, -, -, -, hst⟩
    · exact h.due hm
    · cases hst

/-- **A round** begins at least an interval after the one before, and arms the
timer for the next. -/
theorem round {k : Nat} (h : InRounds n start now times c) (hs : c.stopped = false)
    (hm : ⟨.round, .queued .success k⟩ ∈ c.pending) (hc' : c'.probes = c.probes)
    (hconfig : c'.config = c.config) (hstopped : c'.stopped = c.stopped)
    (hcount : count Op.isRound c'.pending = 0) :
    InRounds n start now (times ++ [now]) ((c'.afterRound now n).scheduleNextRound now) := by
  have hrest : count Op.isRound (c'.pending ++ startedBy c'.probes.length n) = 0 := by
    rw [count_append, hcount, count_isRound_startedBy]
  have hno : ∀ {ec k}, ⟨.round, .queued ec k⟩ ∉ Proactor.cancel Op.isRound
      (c'.pending ++ startedBy c'.probes.length n) ++ [⟨.round, .waiting⟩] := by
    intro ec k hm
    rcases List.mem_append.mp hm with hm | hm
    · have h0 := (count_cancel Op.isRound Op.isRound _).trans hrest
      exact Bool.noConfusion (not_mem_of_count_eq_zero h0 hm)
    · cases List.mem_singleton.mp hm
  rw [HealthChecker.scheduleNextRound, if_neg (by simp [HealthChecker.afterRound, hstopped, hs])]
  refine ⟨?_, ?_, ?_, ?_, fun _ => ?_, fun _ {_ _} hq => absurd hq hno, fun hq => absurd hq hno⟩
  · show c'.probes ++ launched c'.config n now = (times ++ [now]).flatMap (launched c'.config n)
    rw [hc', h.probes, List.flatMap_append, List.flatMap_singleton, hconfig]
  · show (start :: (times ++ [now])).IsChain fun s t => s + c'.config.intervalMs.toNat ≤ t
    rw [hconfig]
    exact isChain_concat h.apart (h.expiry ▸ h.due hm)
  · rw [List.getLastD_concat]
  · rw [List.getLastD_concat]
  · show count Op.isRound (Proactor.cancel Op.isRound
      (c'.pending ++ startedBy c'.probes.length n) ++ [⟨.round, .waiting⟩]) = 1
    rw [count_append, count_cancel, hrest]
    rfl

/-- **A turn keeps the rounds.** -/
theorem step {e : HealthChecker.Event} {t : Turn} (h : InRounds n start now times c)
    (hn : pool.getSize = n) (hs : c.step isIpLiteral now pool e = some t)
    (hthrew : t.threw = false) : ∃ times', InRounds n start now times' t.checker := by
  cases e with
  | complete op ec =>
    have hmay := HealthChecker.mayComplete_of_step hs
    obtain ⟨hm, rfl⟩ := HealthChecker.of_step_complete hs
    refine ⟨times, { h with
      one := fun hst => (count_resolve hm).trans (h.one hst), success := ?_, due := ?_ }⟩
    · intro hst ec' k hq
      rcases mem_resolve hq with hq | hq
      · exact h.success hst hq
      · cases hq
        exact (of_decide_eq_true hmay).1
    · intro k hq
      rcases mem_resolve hq with hq | hq
      · exact h.due hq
      · cases hq
        exact (of_decide_eq_true hmay).2
  | dispatch op ec =>
    obtain ⟨hm, rfl⟩ := HealthChecker.of_step_dispatch hs
    have hc := count_consume (f := Op.isRound) hm
    -- what is left when a handler of a probe has been taken off the queue
    have hrest : op.isRound = false →
        InRounds n start now times { c with pending := consume c.pending op ec 0 } := by
      intro hop
      rw [hop, if_neg Bool.false_ne_true, Nat.add_zero] at hc
      exact h.congr rfl rfl rfl rfl hc mem_of_mem_consume
    cases op with
    | round =>
      rw [Op.isRound, if_pos rfl] at hc
      by_cases hst : c.stopped = true
      · refine ⟨times, ?_⟩
        rw [HealthChecker.handle, if_pos (.inr hst)]
        exact { h with
          one := fun hf => absurd (hst.symm.trans hf) Bool.noConfusion
          success := fun hf => absurd (hst.symm.trans hf) Bool.noConfusion
          due := fun hq => h.due (mem_of_mem_consume hq) }
      · rw [Bool.not_eq_true] at hst
        obtain rfl := h.success hst hm
        have h0 : count Op.isRound (consume c.pending .round .success 0) = 0 := by
          rw [h.one hst] at hc
          exact Nat.add_right_cancel hc
        rw [HealthChecker.handle, if_neg (by simp [hst])] at hthrew ⊢
        cases hall : HealthChecker.probeAll isIpLiteral now pool
            { c with pending := consume c.pending .round .success 0 } with
        | error c' =>
          rw [hall] at hthrew
          cases hthrew
        | ok c' =>
          obtain rfl := HealthChecker.probeAll_eq_ok hall
          refine ⟨times ++ [now], ?_⟩
          rw [hn]
          exact h.round hst hm rfl rfl rfl h0
    | timeout probe =>
      refine ⟨times, ?_⟩
      rw [HealthChecker.handle]
      split
      · exact hrest rfl
      · exact (hrest rfl).cancel rfl
    | connect probe index =>
      refine ⟨times, ?_⟩
      rcases HealthChecker.connect_checker isIpLiteral now pool
        { c with pending := consume c.pending (.connect probe index) ec 0 } probe index ec with
        ht | ht <;> rw [ht]
      · exact (hrest rfl).cancel rfl
      · exact ((hrest rfl).cancel rfl).cancel rfl

end InRounds

/-! ### A timer for every probe -/

/-- A timer that is armed, or that has expired and whose handler is to run. -/
def Live (st : Status) : Prop := st = .waiting ∨ st = .queued .success 0

/-- A connect that waits has a timer that will close its socket. -/
structure Guarded (c : HealthChecker) : Prop where
  timer : ∀ {k i}, ⟨.connect k i, .waiting⟩ ∈ c.pending →
    ∃ st, Live st ∧ ⟨.timeout k, st⟩ ∈ c.pending

theorem mem_cancel_of_not {f : Op → Bool} {l : List (Pending Op)} {op : Op} {st : Status}
    (hf : f op = false) (h : ⟨op, st⟩ ∈ l) : ⟨op, st⟩ ∈ cancel f l :=
  List.mem_map.mpr ⟨_, h, if_neg fun hc => absurd (hf.symm.trans hc.1) Bool.false_ne_true⟩

namespace Guarded

variable {isIpLiteral : Bytes → Bool} {now : Nat} {pool : ServicePool} {c c' : HealthChecker}
  {outcomes : List Outcome}

theorem congr (h : Guarded c)
    (hconnect : ∀ {k i}, ⟨.connect k i, .waiting⟩ ∈ c'.pending →
      ⟨.connect k i, .waiting⟩ ∈ c.pending)
    (htimeout : ∀ {k i st}, ⟨.connect k i, .waiting⟩ ∈ c'.pending → Live st →
      ⟨.timeout k, st⟩ ∈ c.pending → ⟨.timeout k, st⟩ ∈ c'.pending) : Guarded c' where
  timer hm := by
    obtain ⟨st, hst, ht⟩ := h.timer (hconnect hm)
    exact ⟨st, hst, htimeout hm hst ht⟩

theorem cancel (h : Guarded c) {f : Op → Bool} (hf : ∀ k, f (.timeout k) = false) :
    Guarded { c with pending := Proactor.cancel f c.pending } :=
  h.congr mem_of_waiting_cancel fun _ _ hm => mem_cancel_of_not (hf _) hm

theorem stop (h : Guarded c) : Guarded c.stop :=
  h.congr mem_of_waiting_cancel fun _ _ hm => mem_cancel_of_not rfl hm

/-- Behind the connect of a probe its timer is not needed. -/
theorem cancelTimer (h : Guarded c) {probe : Nat}
    (hno : ∀ i, ⟨.connect probe i, .waiting⟩ ∉ c.pending) : Guarded (c.cancelTimer probe) := by
  refine h.congr mem_of_waiting_cancel ?_
  intro k i st hc _ hm
  by_cases hk : k = probe
  · subst hk
    exact absurd (mem_of_waiting_cancel hc) (hno i)
  · exact mem_cancel_of_not (by simpa [Op.isTimeout] using hk) hm

theorem round (h : Guarded c) (now n : Nat) :
    Guarded ((c.afterRound now n).scheduleNextRound now) := by
  have hround : Guarded (c.afterRound now n) := by
    refine ⟨fun {k i} hm => ?_⟩
    rcases List.mem_append.mp hm with hm | hm
    · obtain ⟨st, hst, ht⟩ := h.timer hm
      exact ⟨st, hst, List.mem_append_left _ ht⟩
    · obtain ⟨j, hj, hp | hp⟩ := mem_startedBy.mp hm
      · cases hp
      · cases hp
        exact ⟨.waiting, .inl rfl,
          List.mem_append_right _ (mem_startedBy.mpr ⟨i, hj, .inl rfl⟩)⟩
  unfold HealthChecker.scheduleNextRound
  split
  · exact hround
  · refine (hround.cancel (f := Op.isRound) fun _ => rfl).congr ?_ fun _ _ hm =>
      List.mem_append_left _ hm
    intro k i hm
    rcases List.mem_append.mp hm with hm | hm
    · exact hm
    · cases List.mem_singleton.mp hm

/-- **A turn keeps the timers.** -/
theorem step {e : HealthChecker.Event} {t : Turn} (h : Guarded c) (ha : Accounted c outcomes)
    (hs : c.step isIpLiteral now pool e = some t) (hthrew : t.threw = false) :
    Guarded t.checker := by
  cases e with
  | complete op ec =>
    have hmay := HealthChecker.mayComplete_of_step hs
    obtain ⟨hm, rfl⟩ := HealthChecker.of_step_complete hs
    refine ⟨fun {k i} hc => ?_⟩
    have hwait : ⟨.connect k i, .waiting⟩ ∈ c.pending := by
      rcases mem_resolve hc with hc | hc
      · exact hc
      · cases hc
    obtain ⟨st, hst, ht⟩ := h.timer hwait
    by_cases hp : (⟨.timeout k, st⟩ : Pending Op) = ⟨op, .waiting⟩
    · cases hp
      obtain rfl : ec = .success := (of_decide_eq_true hmay).1
      exact ⟨_, .inr rfl, List.mem_append_right _ (List.mem_singleton_self _)⟩
    · exact ⟨st, hst, mem_resolve_of_mem ht hp⟩
  | dispatch op ec =>
    obtain ⟨hm, rfl⟩ := HealthChecker.of_step_dispatch hs
    -- what is left when a handler that is not of a timer has been taken off the queue
    have hrest : (∀ k, op = .timeout k → ec.failed = true) →
        Guarded { c with pending := consume c.pending op ec 0 } := by
      intro hop
      refine h.congr mem_of_mem_consume ?_
      intro k i st _ hst ht
      refine (List.mem_erase_of_ne ?_).mpr ht
      rintro ⟨⟩
      rcases hst with hst | hst
      · cases hst
      · cases hst
        exact absurd (hop k rfl) Bool.false_ne_true
    cases op with
    | round =>
      have hg := hrest fun k hk => Op.noConfusion hk
      rw [HealthChecker.handle] at hthrew ⊢
      split
      · exact hg
      · next hgo =>
        rw [if_neg hgo] at hthrew
        cases hall : HealthChecker.probeAll isIpLiteral now pool
            { c with pending := consume c.pending .round ec 0 } with
        | error c' =>
          rw [hall] at hthrew
          cases hthrew
        | ok c' =>
          obtain rfl := HealthChecker.probeAll_eq_ok hall
          exact hg.round now _
    | timeout probe =>
      rw [HealthChecker.handle]
      split
      · next hec => exact hrest fun _ _ => hec
      · -- the handler of its timer finishes the connect
        refine h.congr (fun hc => mem_of_mem_consume (mem_of_waiting_cancel hc)) ?_
        intro k i st hc _ ht
        refine mem_cancel_of_not rfl ((List.mem_erase_of_ne ?_).mpr ht)
        rintro ⟨⟩
        exact not_waiting_of_mem_cancel hc (by simp [Op.isConnect]) rfl
    | connect probe index =>
      have hno : ∀ i, ⟨.connect probe i, .waiting⟩ ∉
          consume c.pending (.connect probe index) ec 0 := by
        intro i hc
        have hle : count (Op.isConnect probe) c.pending ≤ 1 := by
          have := ha.tally probe
          split at this <;> omega
        have h1 := count_consume (f := Op.isConnect probe) hm
        have h2 := count_pos hc (f := Op.isConnect probe) (by simp [Op.isConnect])
        simp only [Op.isConnect, decide_true, if_true] at h1
        omega
      have hg := (hrest fun k hk => Op.noConfusion hk).cancelTimer hno
      rcases HealthChecker.connect_checker isIpLiteral now pool
        { c with pending := consume c.pending (.connect probe index) ec 0 } probe index ec with
        ht | ht <;> rw [ht]
      · exact hg
      · exact hg.cancel fun _ => rfl

end Guarded

/-- A pending timer is that of a probe. -/
def Timed (c : HealthChecker) : Prop := ∀ k st, ⟨.timeout k, st⟩ ∈ c.pending → k < c.probes.length

namespace Timed

variable {isIpLiteral : Bytes → Bool} {now : Nat} {pool : ServicePool} {c c' : HealthChecker}

theorem congr (h : Timed c) (hm : ∀ p ∈ c'.pending, ∃ q ∈ c.pending, q.op = p.op)
    (hp : c'.probes = c.probes) : Timed c' := by
  intro k st ht
  obtain ⟨⟨_, st'⟩, hq, rfl⟩ := hm _ ht
  rw [hp]
  exact h k st' hq

theorem cancel (h : Timed c) (f : Op → Bool) :
    Timed { c with pending := Proactor.cancel f c.pending } :=
  h.congr (fun _ hp => exists_op_of_mem_cancel hp) rfl

theorem round (h : Timed c) (now n : Nat) :
    Timed ((c.afterRound now n).scheduleNextRound now) := by
  have hround : Timed (c.afterRound now n) := by
    intro k st hm
    show k < (c.probes ++ launched c.config n now).length
    rw [List.length_append]
    rcases List.mem_append.mp hm with hm | hm
    · exact Nat.lt_of_lt_of_le (h k st hm) (Nat.le_add_right _ _)
    · obtain ⟨i, hi, hp | hp⟩ := mem_startedBy.mp hm
      · cases hp
        rw [launched, List.length_map, List.length_range]
        omega
      · cases hp
  unfold HealthChecker.scheduleNextRound
  split
  · exact hround
  · intro k st hm
    rcases List.mem_append.mp hm with hm | hm
    · exact hround.cancel Op.isRound k st hm
    · cases List.mem_singleton.mp hm

theorem step {e : HealthChecker.Event} {t : Turn} (h : Timed c)
    (hs : c.step isIpLiteral now pool e = some t) (hthrew : t.threw = false) :
    Timed t.checker := by
  cases e with
  | complete op ec =>
    obtain ⟨hm, rfl⟩ := HealthChecker.of_step_complete hs
    refine h.congr (fun p hp => ?_) rfl
    rcases mem_resolve hp with hp | rfl
    · exact ⟨p, hp, rfl⟩
    · exact ⟨_, hm, rfl⟩
  | dispatch op ec =>
    obtain ⟨-, rfl⟩ := HealthChecker.of_step_dispatch hs
    have hrest : Timed { c with pending := consume c.pending op ec 0 } :=
      h.congr (fun p hp => ⟨p, mem_of_mem_consume hp, rfl⟩) rfl
    cases op with
    | round =>
      rw [HealthChecker.handle] at hthrew ⊢
      split
      · exact hrest
      · next hgo =>
        rw [if_neg hgo] at hthrew
        cases hall : HealthChecker.probeAll isIpLiteral now pool
            { c with pending := consume c.pending .round ec 0 } with
        | error c' =>
          rw [hall] at hthrew
          cases hthrew
        | ok c' =>
          obtain rfl := HealthChecker.probeAll_eq_ok hall
          exact hrest.round now _
    | timeout probe =>
      rw [HealthChecker.handle]
      split
      · exact hrest
      · exact hrest.cancel _
    | connect probe index =>
      have hg : Timed ({ c with pending := consume c.pending (.connect probe index) ec 0
        }.cancelTimer probe) := hrest.cancel _
      rcases HealthChecker.connect_checker isIpLiteral now pool
        { c with pending := consume c.pending (.connect probe index) ec 0 } probe index ec with
        ht | ht <;> rw [ht]
      · exact hg
      · exact hg.cancel _

end Timed

/-! ### Every run -/

namespace Monitor

variable {isIpLiteral : Bytes → Bool} {now : Nat} {nodes : List ServiceNode}
  {config : HealthCheckConfig} {m v : Monitor} {e : Event}

/-- As long as no handler throws, the probes are whole rounds with their timers. -/
structure Regular (n start : Nat) (config : HealthCheckConfig) (m : Monitor) : Prop where
  getSize : m.pool.getSize = n
  sound : m.Sound config
  rounds : m.threw = false → ∃ times, InRounds n start m.now times m.checker
  guarded : m.threw = false → Guarded m.checker
  timed : m.threw = false → Timed m.checker

theorem regular_start (now : Nat) (nodes : List ServiceNode) (config : HealthCheckConfig) :
    (start now nodes config).Regular nodes.length now config where
  getSize := List.length_map _
  sound := sound_start now nodes config
  rounds _ := by
    refine ⟨[], rfl, List.isChain_singleton _, Nat.le_refl _, rfl, fun _ => rfl, ?_, ?_⟩
    · intro _ ec k hm
      cases List.mem_singleton.mp hm
    · intro k hm
      cases List.mem_singleton.mp hm
  guarded _ := by
    refine ⟨fun hm => ?_⟩
    cases List.mem_singleton.mp hm
  timed _ := by
    intro k st hm
    cases List.mem_singleton.mp hm

theorem Regular.step {n s : Nat} (h : m.Regular n s config)
    (hs : m.step isIpLiteral e = some v) : v.Regular n s config := by
  have hsound := h.sound.step hs
  have hrun : m.threw = false := by
    rw [Monitor.step] at hs
    split at hs
    · cases hs
    · next ht => simpa using ht
  obtain ⟨times, hr⟩ := h.rounds hrun
  have hg := h.guarded hrun
  have hti := h.timed hrun
  cases e with
  | tick =>
    obtain rfl := Option.some.inj (act_of_step hs)
    exact ⟨h.getSize, hsound, fun _ => ⟨times, hr.tick⟩, fun _ => hg, fun _ => hti⟩
  | stop =>
    obtain rfl := Option.some.inj (act_of_step hs)
    exact ⟨h.getSize, hsound, fun _ => ⟨times, hr.stop⟩, fun _ => hg.stop, fun _ => hti.cancel _⟩
  | incrementConnections i =>
    obtain rfl := Option.some.inj (act_of_step hs)
    exact ⟨(ServicePool.getSize_update _ _ _).trans h.getSize, hsound, fun _ => ⟨times, hr⟩,
      fun _ => hg, fun _ => hti⟩
  | decrementConnections i =>
    obtain rfl := Option.some.inj (act_of_step hs)
    exact ⟨(ServicePool.getSize_update _ _ _).trans h.getSize, hsound, fun _ => ⟨times, hr⟩,
      fun _ => hg, fun _ => hti⟩
  | checker e =>
    obtain ⟨t, ht, rfl⟩ := of_step_checker hs
    refine ⟨?_, hsound, fun hthrew => hr.step h.getSize ht hthrew,
      fun hthrew => hg.step h.sound.accounted ht hthrew, fun hthrew => hti.step ht hthrew⟩
    dsimp only
    rw [(HealthChecker.step_pool ht).1, getSize_effect]
    exact h.getSize

theorem regular_of_reaches (h : Reaches (Monitor.step isIpLiteral) (start now nodes config) m) :
    m.Regular nodes.length now config :=
  h.invariant (regular_start now nodes config) fun hi _ hs => hi.step hs

theorem Regular.lt_of_connect {n s k i : Nat} {st : Status} (h : m.Regular n s config)
    (ht : m.threw = false) (hm : ⟨.connect k i, st⟩ ∈ m.checker.pending) : i < n := by
  obtain ⟨times, hr⟩ := h.rounds ht
  obtain ⟨p, hp, rfl⟩ := Option.map_eq_some_iff.mp (h.sound.accounted.bound hm)
  have hmem := List.mem_of_getElem? hp
  rw [hr.probes] at hmem
  obtain ⟨t, -, hround⟩ := List.mem_flatMap.mp hmem
  obtain ⟨j, hj, rfl⟩ := List.mem_map.mp hround
  exact List.mem_range.mp hj

/-- Where no round is to come, or all addresses parse, no turn throws. -/
theorem Regular.not_threw {n s : Nat} (h : m.Regular n s config)
    (hip : m.checker.stopped = false →
      ∀ i svc, m.pool.getService i = some svc → isIpLiteral svc.node.ip = true)
    (ht : m.threw = false) {e : HealthChecker.Event} {t : Turn}
    (hs : m.checker.step isIpLiteral m.now m.pool e = some t) : t.threw = false := by
  cases e with
  | complete op ec =>
    obtain ⟨-, rfl⟩ := HealthChecker.of_step_complete hs
    rfl
  | dispatch op ec =>
    obtain ⟨hm, rfl⟩ := HealthChecker.of_step_dispatch hs
    cases op with
    | round =>
      rw [HealthChecker.handle]
      split
      · rfl
      · next hgo =>
        have hstop : m.checker.stopped = false := by
          by_contra hne
          exact hgo (.inr (by simpa using hne))
        obtain ⟨c', hc'⟩ := HealthChecker.exists_probeAll m.now (hip hstop)
          { m.checker with pending := consume m.checker.pending .round ec 0 }
        rw [hc']
    | timeout probe =>
      rw [HealthChecker.handle]
      split <;> rfl
    | connect probe index =>
      have hlt := h.lt_of_connect ht hm
      rw [← h.getSize] at hlt
      obtain ⟨svc, hsvc⟩ := ServicePool.exists_getService hlt
      rw [HealthChecker.handle, HealthChecker.onProbeResult, hsvc]
      dsimp only
      split <;> rfl

/-- **The rounds of a run.**  In every state of every run that no handler has
thrown out of: the probes are whole rounds, each over all services in order; a
round begins an interval after the one before it or later, the first one an
interval after the start; until the checker is stopped exactly one wait for the
next round is pending; and a connect that waits has a timer that is armed, or
whose handler is to run and will close its socket. -/
theorem rounds_of_run (h : Reaches (Monitor.step isIpLiteral) (start now nodes config) m)
    (ht : m.threw = false) : ∃ times : List Nat,
      m.checker.probes = times.flatMap (launched config nodes.length) ∧
      (now :: times).IsChain (fun s t => s + config.intervalMs.toNat ≤ t) ∧
      now + times.length * config.intervalMs.toNat ≤ m.now ∧
      (m.checker.stopped = false → count Op.isRound m.checker.pending = 1 ∧
        m.checker.expiry = times.getLastD now + config.intervalMs.toNat) ∧
      ∀ k i, ⟨.connect k i, .waiting⟩ ∈ m.checker.pending →
        ∃ st, Live st ∧ ⟨.timeout k, st⟩ ∈ m.checker.pending := by
  have hreg := regular_of_reaches h
  obtain ⟨times, hr⟩ := hreg.rounds ht
  have hconfig := hreg.sound.config_eq
  refine ⟨times, ?_, ?_, ?_, fun hs => ⟨hr.one hs, ?_⟩, fun k i => (hreg.guarded ht).timer⟩
  · rw [hr.probes, hconfig]
  · rw [← hconfig]
    exact hr.apart
  · rw [← hconfig]
    exact (length_mul_le hr.apart).trans hr.past
  · rw [← hconfig]
    exact hr.expiry

/-- One service, probed in the first round, after one interval. -/
theorem rounds_of_run_first : ∃ m, run (Monitor.step fun _ => true) (start 0 [{}] ⟨true, 1, 1, 1⟩)
    [.tick, .checker (.complete .round .success), .checker (.dispatch .round .success)] = some m ∧
      ∃ st, Live st ∧ ⟨.timeout 0, st⟩ ∈ m.checker.pending := by
  obtain ⟨m, hm, ht, hc⟩ : ∃ m, run (Monitor.step fun _ => true) (start 0 [{}] ⟨true, 1, 1, 1⟩)
      [.tick, .checker (.complete .round .success), .checker (.dispatch .round .success)] = some m ∧
        m.threw = false ∧ ⟨.connect 0 0, .waiting⟩ ∈ m.checker.pending :=
    ⟨_, rfl, rfl, by decide⟩
  obtain ⟨times, -, -, -, -, htimers⟩ := rounds_of_run (reaches_of_run hm) ht
  exact ⟨m, hm, htimers 0 0 hc⟩

end Monitor

/-! ### How long a failure takes -/

theorem countP_rounds (config : HealthCheckConfig) (n i : Nat) (times : List Nat) :
    (times.flatMap (launched config n)).countP (fun p => p.index = i) ≤ times.length := by
  induction times with
  | nil => exact Nat.le_refl _
  | cons t times ih =>
    have hone : (launched config n t).countP (fun p => p.index = i) ≤ 1 := by
      rw [launched, List.countP_map]
      exact List.nodup_iff_count.mp List.nodup_range i
    rw [List.flatMap_cons, List.countP_append, List.length_cons]
    omega

theorem Accounted.countP_outcomes {c : HealthChecker} {outcomes : List Outcome}
    (h : Accounted c outcomes) (i : Nat) :
    outcomes.countP (fun o => o.index = i) ≤ c.probes.countP (fun p => p.index = i) := by
  let mine := (outcomes.filter fun o => o.index = i).map fun o => o.probe
  let launches := (c.probes.zipIdx.filter fun e => e.1.index = i).map Prod.snd
  have hnodup : mine.Nodup := by
    refine List.nodup_iff_count.mpr fun k => ?_
    have hsub : mine.Sublist (outcomes.map fun o => o.probe) := List.filter_sublist.map _
    have hk := h.tally k
    have hcount : (outcomes.map fun o => o.probe).count k =
        outcomes.countP fun o => o.probe = k := by
      rw [List.count, List.countP_map]
      congr 1
    have := hsub.count_le k
    split at hk <;> omega
  have hsubset : mine ⊆ launches := by
    intro k hk
    obtain ⟨o, ho, rfl⟩ := List.mem_map.mp hk
    obtain ⟨hm, hi⟩ := List.mem_filter.mp ho
    obtain ⟨p, hp, hpi⟩ := Option.map_eq_some_iff.mp (h.noted o hm)
    refine List.mem_map.mpr ⟨(p, o.probe), List.mem_filter.mpr ⟨?_, ?_⟩, rfl⟩
    · exact List.mem_zipIdx_iff_getElem?.mpr hp
    · simpa [hpi] using hi
  have hlen := hnodup.length_le_of_subset hsubset
  rw [List.length_map, List.length_map, ← List.countP_eq_length_filter,
    ← List.countP_eq_length_filter] at hlen
  refine hlen.trans (Nat.le_of_eq ?_)
  conv_rhs => rw [← List.zipIdx_map_fst 0 c.probes, List.countP_map]
  rfl

theorem failedRun_le (outcomes : List Outcome) (i : Nat) :
    failedRun outcomes i ≤ outcomes.countP fun o => o.index = i := by
  rw [failedRun, List.countP_eq_length_filter]
  exact (List.takeWhile_sublist _).length_le.trans (Nat.le_of_eq List.length_reverse)

/-- **Failures take time.**  In every run that no handler has thrown out of, a
service with `n` consecutive failures has been probed for `n` intervals, so none
is unhealthy before the threshold's number of intervals, and one at least, has
passed. -/
theorem failures_take_time {isIpLiteral : Bytes → Bool} {now : Nat} {nodes : List ServiceNode}
    {config : HealthCheckConfig} {m : Monitor}
    (h : Reaches (Monitor.step isIpLiteral) (Monitor.start now nodes config) m)
    (ht : m.threw = false) {i : Nat} {svc : ServiceState} (hi : m.pool.getService i = some svc) :
    now + svc.consecutiveFailures.toNat * config.intervalMs.toNat ≤ m.now ∧
      (svc.healthy = false →
        now + max 1 config.unhealthyThreshold.toNat * config.intervalMs.toNat ≤ m.now) := by
  have hreg := Monitor.regular_of_reaches h
  obtain ⟨times, hr⟩ := hreg.rounds ht
  have hrun : failedRun m.outcomes i ≤ times.length := by
    refine (failedRun_le _ _).trans ((hreg.sound.accounted.countP_outcomes i).trans ?_)
    rw [hr.probes]
    exact countP_rounds _ _ _ _
  have hfollows := hreg.sound.tracks i svc hi
  have hspan : now + times.length * config.intervalMs.toNat ≤ m.now := by
    rw [← hreg.sound.config_eq]
    exact (length_mul_le hr.apart).trans hr.past
  have htime : ∀ n ≤ failedRun m.outcomes i, now + n * config.intervalMs.toNat ≤ m.now := by
    intro n hn
    have := Nat.mul_le_mul_right config.intervalMs.toNat (hn.trans hrun)
    omega
  refine ⟨htime _ ?_, fun hdown => htime _ (hfollows.healthy.mp hdown)⟩
  rw [hfollows.failures]
  exact Nat.mod_le _ _

/-- The first probe of a service is refused: it is unhealthy after one interval. -/
theorem failures_take_time_refused : ∃ m, run (Monitor.step fun _ => true)
    (.start 0 [{}] ⟨true, 1, 1, 1⟩)
      [.tick, .checker (.complete .round .success), .checker (.dispatch .round .success),
        .checker (.complete (.connect 0 0) (.other 111)),
        .checker (.dispatch (.connect 0 0) (.other 111))] = some m ∧
    m.pool.healthyAt 0 = false ∧ 1 ≤ m.now := by
  obtain ⟨m, svc, hm, ht, hi, hdown⟩ : ∃ m svc, run (Monitor.step fun _ => true)
      (.start 0 [{}] ⟨true, 1, 1, 1⟩)
        [.tick, .checker (.complete .round .success), .checker (.dispatch .round .success),
          .checker (.complete (.connect 0 0) (.other 111)),
          .checker (.dispatch (.connect 0 0) (.other 111))] = some m ∧
      m.threw = false ∧ m.pool.getService 0 = some svc ∧ svc.healthy = false :=
    ⟨_, _, rfl, rfl, rfl, rfl⟩
  have htime := (failures_take_time (reaches_of_run hm) ht hi).2 hdown
  exact ⟨m, hm, by rw [ServicePool.healthyAt, hi]; simpa using hdown, by simpa using htime⟩

end BitBridge.Health
