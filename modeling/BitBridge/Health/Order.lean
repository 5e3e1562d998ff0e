import BitBridge.Health.Rounds
import BitBridge.Health.Stop

/-!
# The order of probe results

A round starts when the interval is over, whether or not the probes of the
rounds before it have ended, and the handler of a connect knows the index of its
service, not its round.  A service is probed once in a round, and probes are
numbered in the order of launch.

* `InOrder.step`: the results of a service stay in order if no round overtakes
  its probe.
* `probes_in_order`: **results take effect in the order of launch** in such a
  run, and a round that does overtake can always be followed by one that breaks
  the order.
* `late_success`: a success of an earlier round makes a service healthy that
  failed in a later one.
-/

namespace BitBridge.Health

open Proactor Steps

variable {isIpLiteral : Bytes → Bool} {i : Nat}

/-- The results of the service were noted in the order of launch. -/
def Ordered (i : Nat) (outcomes : List Outcome) : Prop :=
  outcomes.Pairwise fun a b => a.index = i → b.index = i → a.probe < b.probe

def Op.isConnectTo (i : Nat) : Op → Bool
  | .connect _ j => j = i
  | _ => false

/-- A round that starts probing finds no probe of the service pending. -/
def NoOverlap (i : Nat) (m : Monitor) : Monitor.Event → Prop
  | .checker (.dispatch .round ec) => ec.failed = false → m.checker.stopped = false →
      ∀ k st, ⟨.connect k i, st⟩ ∉ m.checker.pending
  | _ => True

theorem healthy_probed_failed {thr : UInt32} {ec : ErrorCode} {svc : ServiceState}
    (hec : ec.failed = true) (h : svc.healthy = false) : (probed thr ec svc).healthy = false := by
  rw [probed, if_pos hec]
  dsimp only
  split
  · rfl
  · exact h

/-! ### A round -/

namespace HealthChecker

variable {now : Nat} {pool : ServicePool} {c : HealthChecker}

theorem count_probeOne (isIpLiteral : Bytes → Bool) (now : Nat) (pool : ServicePool)
    (c : HealthChecker) (i index : Nat) :
    count (Op.isConnectTo i) (reached (c.probeOne isIpLiteral now pool index)).pending ≤
      count (Op.isConnectTo i) c.pending + if index = i then 1 else 0 := by
  rcases probeOne_cases isIpLiteral now pool c index with ⟨p, -, hr⟩ | hr | hr <;> rw [hr]
  · simp [Op.isConnectTo]
  · exact Nat.le_add_right _ _
  · simp [Op.isConnectTo]

/-- **A round probes a service at most once.** -/
theorem count_probeAll (isIpLiteral : Bytes → Bool) (now : Nat) (pool : ServicePool)
    (c : HealthChecker) (i : Nat) :
    count (Op.isConnectTo i) (reached (c.probeAll isIpLiteral now pool)).pending ≤
      count (Op.isConnectTo i) c.pending + 1 := by
  have hlist : ∀ (l : List Nat) (c : HealthChecker),
      count (Op.isConnectTo i) (reached (l.foldlM (probeOne isIpLiteral now pool) c)).pending ≤
        count (Op.isConnectTo i) c.pending + l.count i := by
    intro l
    induction l with
    | nil => exact fun c => Nat.le_refl _
    | cons index l ih =>
      intro c
      have hone := count_probeOne isIpLiteral now pool c i index
      rw [List.foldlM_cons, List.count_cons]
      simp only [beq_iff_eq]
      cases hr : c.probeOne isIpLiteral now pool index with
      | error c' =>
        rw [hr] at hone
        exact hone.trans (by omega)
      | ok c' =>
        rw [hr] at hone
        exact (ih c').trans (by simp only [reached] at hone; omega)
  refine (hlist _ c).trans (Nat.add_le_add_left ?_ _)
  exact List.nodup_iff_count.mp List.nodup_range i

/-- A round that ends without an exception has launched a probe of every service
and leaves the operations before it pending. -/
theorem probeAll_ok {c' : HealthChecker} (h : c.probeAll isIpLiteral now pool = .ok c') :
    (∀ i < pool.getSize, ∃ k, c.probes.length ≤ k ∧ ⟨.connect k i, .waiting⟩ ∈ c'.pending) ∧
      ∀ p ∈ c.pending, p ∈ c'.pending := by
  obtain rfl := probeAll_eq_ok h
  refine ⟨fun i hi => ⟨c.probes.length + i, Nat.le_add_right _ _, ?_⟩,
    fun p hp => List.mem_append_left _ hp⟩
  exact List.mem_append_right _ (mem_startedBy.mpr ⟨i, hi, .inr rfl⟩)

end HealthChecker

/-! ### The order -/

/-- One probe of the service is pending at most, and no result that was noted is
of a later one. -/
structure InOrder (i : Nat) (c : HealthChecker) (outcomes : List Outcome) : Prop where
  ordered : Ordered i outcomes
  single : count (Op.isConnectTo i) c.pending ≤ 1
  later : ∀ {k st}, ⟨.connect k i, st⟩ ∈ c.pending → ∀ o ∈ outcomes, o.index = i → o.probe < k

namespace InOrder

variable {now : Nat} {pool : ServicePool} {c c' : HealthChecker} {outcomes : List Outcome}
  {t : Turn} {e : HealthChecker.Event}

theorem congr (h : InOrder i c outcomes)
    (hc : count (Op.isConnectTo i) c'.pending ≤ count (Op.isConnectTo i) c.pending)
    (hm : ∀ {k st}, ⟨.connect k i, st⟩ ∈ c'.pending → ∃ q ∈ c.pending, q.op = .connect k i) :
    InOrder i c' outcomes where
  ordered := h.ordered
  single := hc.trans h.single
  later hp := by
    obtain ⟨⟨op, st⟩, hq, rfl⟩ := hm hp
    exact h.later hq

theorem cancel (h : InOrder i c outcomes) (f : Op → Bool) :
    InOrder i { c with pending := Proactor.cancel f c.pending } outcomes :=
  h.congr (count_cancel _ _ _).le fun hp => exists_op_of_mem_cancel hp

theorem scheduleNextRound (h : InOrder i c outcomes) (now : Nat) :
    InOrder i (c.scheduleNextRound now) outcomes := by
  unfold HealthChecker.scheduleNextRound
  split
  · exact h
  · refine h.congr ?_ ?_
    · rw [count_append, count_cancel]
      exact Nat.le_refl _
    · intro k st hp
      rcases List.mem_append.mp hp with hp | hp
      · exact exists_op_of_mem_cancel hp
      · cases List.mem_singleton.mp hp

theorem probeAll (isIpLiteral : Bytes → Bool) (now : Nat) (pool : ServicePool)
    (h : InOrder i c outcomes) (hbound : ∀ o ∈ outcomes, o.probe < c.probes.length)
    (hnone : ∀ k st, ⟨.connect k i, st⟩ ∉ c.pending) :
    InOrder i (reached (c.probeAll isIpLiteral now pool)) outcomes := by
  have hzero : count (Op.isConnectTo i) c.pending = 0 := by
    rw [count, List.countP_eq_zero]
    rintro ⟨_ | _ | ⟨k, j⟩, st⟩ hm hj
    · cases hj
    · cases hj
    · obtain rfl : j = i := by simpa [Op.isConnectTo] using hj
      exact hnone k st hm
  have hall := HealthChecker.probeAll_induction isIpLiteral now pool (c := c)
    (I := fun c => (∀ o ∈ outcomes, o.probe < c.probes.length) ∧
      ∀ k st, ⟨.connect k i, st⟩ ∈ c.pending → ∀ o ∈ outcomes, o.probe < k)
    ?_ ⟨hbound, fun k st hm => absurd hm (hnone k st)⟩
  · refine ⟨h.ordered, ?_, fun hm o ho _ => hall.2 _ _ hm o ho⟩
    have hc := HealthChecker.count_probeAll isIpLiteral now pool c i
    rwa [hzero] at hc
  · rintro c index ⟨hb, hl⟩
    rcases HealthChecker.probeOne_cases isIpLiteral now pool c index with
      ⟨p, -, hr⟩ | hr | hr <;> rw [hr]
    · refine ⟨fun o ho => ?_, fun k st hm o ho => ?_⟩
      · rw [List.length_append]
        exact Nat.lt_add_right _ (hb o ho)
      · rcases List.mem_append.mp hm with hm | hm
        · exact hl k st hm o ho
        · rcases List.mem_pair.mp hm with hm | hm
          · cases hm
          · cases hm
            exact hb o ho
    · exact ⟨hb, hl⟩
    · refine ⟨hb, fun k st hm o ho => ?_⟩
      obtain ⟨⟨op, st'⟩, hq, rfl⟩ := exists_op_of_mem_cancel hm
      rcases List.mem_append.mp hq with hq | hq
      · exact hl k st' hq o ho
      · cases List.mem_singleton.mp hq

theorem handled (h : InOrder i c outcomes) {k j : Nat} {ec : ErrorCode}
    (hm : ⟨.connect k j, .queued ec 0⟩ ∈ c.pending) :
    InOrder i { c with pending := consume c.pending (.connect k j) ec 0 }
      (outcomes ++ [⟨k, j, ec.failed⟩]) := by
  have hc := count_consume (f := Op.isConnectTo i) hm
  refine ⟨?_, ((Nat.le_add_right _ _).trans hc.le).trans h.single, ?_⟩
  · refine List.pairwise_append.mpr ⟨h.ordered, List.pairwise_singleton _ _, ?_⟩
    intro a ha b hb hai hbi
    obtain rfl := List.mem_singleton.mp hb
    obtain rfl : j = i := hbi
    exact h.later hm a ha hai
  · intro k' st hp o ho hoi
    rcases List.mem_append.mp ho with ho | ho
    · exact h.later (mem_of_mem_consume hp) o ho hoi
    · obtain rfl := List.mem_singleton.mp ho
      obtain rfl : j = i := hoi
      -- the only pending probe of the service is the one that is handled
      have hk : Op.isConnectTo j (.connect k j) = true := by simp [Op.isConnectTo]
      have hpos : 0 < count (Op.isConnectTo j) (consume c.pending (.connect k j) ec 0) :=
        count_pos hp (by simp [Op.isConnectTo])
      have hsingle := h.single
      rw [if_pos hk] at hc
      omega

/-- **A turn keeps the order**, if it is no round that overtakes the service. -/
theorem step (h : InOrder i c outcomes) (ha : Accounted c outcomes)
    (hround : ∀ ec, e = .dispatch .round ec → ec.failed = false → c.stopped = false →
      ∀ k st, ⟨.connect k i, st⟩ ∉ c.pending)
    (hs : c.step isIpLiteral now pool e = some t) :
    InOrder i t.checker (note outcomes e) := by
  cases e with
  | complete op ec =>
    obtain ⟨hw, rfl⟩ := HealthChecker.of_step_complete hs
    refine h.congr (count_resolve hw).le ?_
    intro k st hp
    rcases mem_resolve hp with hp | hp
    · exact ⟨_, hp, rfl⟩
    · cases hp
      exact ⟨_, hw, rfl⟩
  | dispatch op ec =>
    obtain ⟨hm, rfl⟩ := HealthChecker.of_step_dispatch hs
    have hrest : InOrder i { c with pending := consume c.pending op ec 0 } outcomes :=
      h.congr ((Nat.le_add_right _ _).trans (count_consume hm).le)
        fun hp => ⟨_, mem_of_mem_consume hp, rfl⟩
    cases op with
    | round =>
      rcases HealthChecker.round_cases isIpLiteral now pool
        { c with pending := consume c.pending .round ec 0 } ec with
        ht | ⟨hec, hst, threw, ht⟩ <;> rw [ht]
      · exact hrest
      · have hall := hrest.probeAll isIpLiteral now pool
          (fun o ho => ?_) fun k st hp => hround ec rfl hec hst k st (mem_of_mem_consume hp)
        · cases threw
          · exact hall.scheduleNextRound now
          · exact hall
        · obtain ⟨p, hp, -⟩ := Option.map_eq_some_iff.mp (ha.noted o ho)
          exact (List.getElem?_eq_some_iff.mp hp).1
    | timeout probe =>
      rw [HealthChecker.handle]
      split
      · exact hrest
      · exact hrest.cancel _
    | connect probe index =>
      have hh := h.handled hm
      rcases HealthChecker.connect_checker isIpLiteral now pool
        { c with pending := consume c.pending (.connect probe index) ec 0 } probe index ec with
        ht | ht <;> rw [ht]
      · exact hh.cancel _
      · exact (hh.cancel _).cancel _

end InOrder

/-! ### Runs -/

namespace Monitor

variable {m u v : Monitor} {e : Event} {config : HealthCheckConfig}

theorem inOrder_step (h : InOrder i m.checker m.outcomes) (hm : m.Sound config)
    (hok : NoOverlap i m e) (hs : m.step isIpLiteral e = some v) :
    InOrder i v.checker v.outcomes := by
  cases e with
  | checker e =>
    obtain ⟨t, ht, rfl⟩ := of_step_checker hs
    refine h.step hm.accounted ?_ ht
    rintro ec rfl
    exact hok
  | stop =>
    obtain rfl := Option.some.inj (act_of_step hs)
    exact h.congr (count_cancel _ _ _).le fun hp => exists_op_of_mem_cancel hp
  | tick | incrementConnections | decrementConnections =>
    obtain rfl := Option.some.inj (act_of_step hs)
    exact h

theorem inOrder_of_reaches {now : Nat} {nodes : List ServiceNode}
    (h : ReachesIn (step isIpLiteral) (NoOverlap i) (start now nodes config) m) :
    m.Sound config ∧ InOrder i m.checker m.outcomes := by
  refine h.invariant (I := fun m => m.Sound config ∧ InOrder i m.checker m.outcomes) ?_
    fun hi hok hs => ⟨hi.1.step hs, inOrder_step hi.2 hi.1 hok hs⟩
  have hnew : InOrder i (.new config) [] :=
    ⟨List.Pairwise.nil, Nat.zero_le _, fun hm => nomatch hm⟩
  exact ⟨sound_start now nodes config, hnew.scheduleNextRound now⟩

theorem success_of_recovered (hs : m.step isIpLiteral e = some v)
    (h0 : m.pool.healthyAt i = false) (h1 : v.pool.healthyAt i = true) :
    ∃ k, e = .checker (.dispatch (.connect k i) .success) := by
  cases e with
  | tick | stop =>
    obtain rfl := Option.some.inj (act_of_step hs)
    rw [h0] at h1
    cases h1
  | incrementConnections j =>
    obtain rfl := Option.some.inj (act_of_step hs)
    have hsame := ServicePool.healthyAt_update m.pool j i (f := .incrementConnections) fun _ => rfl
    exact absurd (h0.symm.trans (hsame.symm.trans h1)) Bool.false_ne_true
  | decrementConnections j =>
    obtain rfl := Option.some.inj (act_of_step hs)
    have hsame := ServicePool.healthyAt_update m.pool j i fun svc =>
      congrArg Prod.snd (health_decrementConnections svc)
    exact absurd (h0.symm.trans (hsame.symm.trans h1)) Bool.false_ne_true
  | checker e =>
    obtain ⟨t, ht, rfl⟩ := of_step_checker hs
    dsimp only at h1
    rw [(HealthChecker.step_pool ht).1] at h1
    rcases e with ⟨op, ec⟩ | ⟨_ | _ | ⟨k, j⟩, ec⟩
    · exact absurd (h0.symm.trans h1) Bool.false_ne_true
    · exact absurd (h0.symm.trans h1) Bool.false_ne_true
    · exact absurd (h0.symm.trans h1) Bool.false_ne_true
    · obtain ⟨svc, hsvc, hh⟩ := ServicePool.healthyAt_eq_true.mp h1
      rw [effect, ServicePool.getService_update] at hsvc
      obtain ⟨svc', hsvc', rfl⟩ := Option.map_eq_some_iff.mp hsvc
      have hdown : svc'.healthy = false := by
        simpa [ServicePool.healthyAt, hsvc'] using h0
      by_cases hji : j = i
      · subst hji
        rw [if_pos rfl] at hh
        cases hec : ec.failed with
        | false => exact ⟨k, by rw [ErrorCode.failed_eq_false.mp hec]⟩
        | true =>
          rw [healthy_probed_failed hec hdown] at hh
          cases hh
      · rw [if_neg hji, hdown] at hh
        cases hh

/-! ### Rounds that overtake -/

theorem mem_cancel_of_mem {f : Op → Bool} {l : List (Pending Op)} {op : Op} {st : Status}
    (h : ⟨op, st⟩ ∈ l) : ∃ st', ⟨op, st'⟩ ∈ cancel f l := by
  have hm : Pending.abort f ⟨op, st⟩ ∈ cancel f l := List.mem_map_of_mem h
  have hop := abort_op f ⟨op, st⟩
  generalize Pending.abort f ⟨op, st⟩ = p at hm hop
  obtain ⟨op', st'⟩ := p
  obtain rfl : op' = op := hop
  exact ⟨st', hm⟩

/-- A run notes the result of the probe `k` of the service, and leaves its other
probes pending. -/
structure Finishes (isIpLiteral : Bytes → Bool) (i k : Nat) (failed : Bool) (u w : Monitor) :
    Prop where
  reaches : Reaches (step isIpLiteral) u w
  outcomes : w.outcomes = u.outcomes ++ [⟨k, i, failed⟩]
  threw : w.threw = false
  getSize : w.pool.getSize = u.pool.getSize
  keep : ∀ j st, j ≠ k → ⟨.connect j i, st⟩ ∈ u.checker.pending →
    ∃ st', ⟨.connect j i, st'⟩ ∈ w.checker.pending

theorem exists_noted (isIpLiteral : Bytes → Bool) {k : Nat} {ec : ErrorCode}
    (ht : u.threw = false) (hi : i < u.pool.getSize)
    (hm : ⟨.connect k i, .queued ec 0⟩ ∈ u.checker.pending) :
    ∃ w, Finishes isIpLiteral i k ec.failed u w := by
  obtain ⟨svc, hsvc⟩ := ServicePool.exists_getService hi
  obtain ⟨w, hw, hpool⟩ := exists_dispatch isIpLiteral ht hm
  obtain ⟨t, htt, rfl⟩ := of_step_checker hw
  obtain ⟨hthrew, hsize, hkeep⟩ : t.threw = false ∧ t.pool.getSize = u.pool.getSize ∧
      ∀ j st, ⟨.connect j i, st⟩ ∈ consume u.checker.pending (.connect k i) ec 0 →
        ∃ st', ⟨.connect j i, st'⟩ ∈ t.checker.pending := by
    obtain ⟨-, rfl⟩ := HealthChecker.of_step_dispatch htt
    rw [HealthChecker.handle, HealthChecker.onProbeResult]
    simp only [hsvc]
    split
    · exact ⟨rfl, ServicePool.getSize_update _ _ _, fun j st hj => mem_cancel_of_mem hj⟩
    · refine ⟨rfl, ServicePool.getSize_update _ _ _, fun j st hj => ?_⟩
      obtain ⟨st', hst'⟩ := mem_cancel_of_mem (f := Op.isTimeout k) hj
      exact mem_cancel_of_mem hst'
  refine ⟨_, .single trivial hw, rfl, hthrew, hsize, fun j st hjk hj => hkeep j st ?_⟩
  refine (List.mem_erase_of_ne ?_).mpr hj
  rintro ⟨⟩
  exact hjk rfl

/-- **A probe that is pending can end**, before the others. -/
theorem exists_finish (isIpLiteral : Bytes → Bool) {k : Nat} {st : Status}
    (ht : u.threw = false) (hi : i < u.pool.getSize) (hplain : Plain u.checker.pending)
    (hm : ⟨.connect k i, st⟩ ∈ u.checker.pending) :
    ∃ w failed, Finishes isIpLiteral i k failed u w := by
  rcases st with _ | ⟨ec, n⟩
  · -- it waits: it fails first
    obtain ⟨w, hw, hq, hp, ho, htw, hkeep⟩ : ∃ w : Monitor,
        u.step isIpLiteral (.checker (.complete (.connect k i) .eof)) = some w ∧
          ⟨.connect k i, .queued .eof 0⟩ ∈ w.checker.pending ∧ w.pool = u.pool ∧
          w.outcomes = u.outcomes ∧ w.threw = false ∧ ∀ j st, j ≠ k →
            ⟨.connect j i, st⟩ ∈ u.checker.pending → ⟨.connect j i, st⟩ ∈ w.checker.pending := by
      refine ⟨{ u with
        checker := { u.checker with
          pending := resolve u.checker.pending (.connect k i) .eof 0 }
        threw := false }, ?_, ?_, rfl, rfl, rfl, ?_⟩
      · rw [step, if_neg (by simp [ht]), act, HealthChecker.step, if_pos ⟨hm, rfl⟩]
        rfl
      · exact List.mem_append_right _ (List.mem_singleton_self _)
      · intro j st hjk hj
        refine mem_resolve_of_mem hj ?_
        rintro ⟨⟩
        exact hjk rfl
    obtain ⟨v, hv⟩ := exists_noted isIpLiteral htw (by rwa [hp]) hq
    exact ⟨v, _, (ReachesIn.single trivial hw).trans hv.reaches, by rw [hv.outcomes, ho],
      hv.threw, by rw [hv.getSize, hp], fun j st hjk hj => hv.keep j st hjk (hkeep j st hjk hj)⟩
  · obtain rfl := hplain _ _ _ hm
    obtain ⟨w, hw⟩ := exists_noted isIpLiteral ht hi hm
    exact ⟨w, _, hw⟩

/-- **A round that overtakes a probe** can be followed by a run that notes the
later probe of the service first. -/
theorem not_ordered_of_overlap {ec : ErrorCode} (hm : m.Sound config)
    (hplain : Plain m.checker.pending) (hi : i < m.pool.getSize)
    (hs : m.step isIpLiteral (.checker (.dispatch .round ec)) = some u) (hu : u.threw = false)
    (hok : ¬NoOverlap i m (.checker (.dispatch .round ec))) :
    ∃ w, Reaches (step isIpLiteral) u w ∧ ¬Ordered i w.outcomes := by
  have hplain' := plain_step hplain hs
  obtain ⟨hec, hstop, k, st, hk⟩ : ec.failed = false ∧ m.checker.stopped = false ∧
      ∃ k st, ⟨.connect k i, st⟩ ∈ m.checker.pending := by
    simpa [NoOverlap] using hok
  obtain ⟨t, ht, rfl⟩ := of_step_checker hs
  obtain ⟨hround, ht⟩ := HealthChecker.of_step_dispatch ht
  rw [HealthChecker.handle, if_neg (by simp [hec, hstop])] at ht
  obtain ⟨p, hp, -⟩ := Option.map_eq_some_iff.mp (hm.accounted.bound hk)
  have hlt : k < m.checker.probes.length := (List.getElem?_eq_some_iff.mp hp).1
  cases hr : HealthChecker.probeAll isIpLiteral m.now m.pool
      { m.checker with pending := consume m.checker.pending .round ec 0 } with
  | error c =>
    rw [hr] at ht
    subst ht
    cases hu
  | ok c =>
    rw [hr] at ht
    subst ht
    obtain ⟨hall, hkeep⟩ := HealthChecker.probeAll_ok hr
    obtain ⟨k', hk', hnew⟩ := hall i hi
    have hsched : ∀ {op st}, ⟨op, st⟩ ∈ c.pending →
        ∃ st', ⟨op, st'⟩ ∈ (c.scheduleNextRound m.now).pending := by
      intro op st hq
      unfold HealthChecker.scheduleNextRound
      split
      · exact ⟨st, hq⟩
      · obtain ⟨st', hst'⟩ := mem_cancel_of_mem (f := Op.isRound) hq
        exact ⟨st', List.mem_append_left _ hst'⟩
    obtain ⟨st₁, hnew⟩ := hsched hnew
    have hrest : ⟨.connect k i, st⟩ ∈ consume m.checker.pending .round ec 0 :=
      (List.mem_erase_of_ne (by rintro ⟨⟩)).mpr hk
    obtain ⟨st₂, hold⟩ := hsched (hkeep _ hrest)
    -- first the later probe, then the earlier one
    obtain ⟨v, f₁, hv⟩ := exists_finish isIpLiteral hu hi hplain' hnew
    have hne : k ≠ k' := by
      rintro rfl
      exact absurd hlt (Nat.not_lt.mpr hk')
    obtain ⟨st₃, hold⟩ := hv.keep k st₂ hne hold
    have hpv : Plain v.checker.pending :=
      hv.reaches.invariant (I := fun v => Plain v.checker.pending) hplain'
        fun h _ hs => plain_step h hs
    obtain ⟨w, f₂, hw⟩ := exists_finish isIpLiteral hv.threw (by rwa [hv.getSize]) hpv hold
    refine ⟨w, hv.reaches.trans hw.reaches, fun hord => ?_⟩
    rw [hw.outcomes, hv.outcomes] at hord
    have hlast := (List.pairwise_append.mp hord).2.2 ⟨k', i, f₁⟩
      (List.mem_append_right _ (List.mem_singleton_self _)) ⟨k, i, f₂⟩
      (List.mem_singleton_self _) rfl rfl
    exact absurd (Nat.lt_of_lt_of_le hlt hk') (Nat.not_lt.mpr hlast.le)

end Monitor

/-- **Probe results and the order of launch.**  In a run in which no round starts
probing while a probe of the service is pending, its results take effect in the
order of launch, and it becomes healthy only by the success of a probe that was
launched after all those noted before.  And where a round does start probing
with such a probe pending and ends, some order of completions breaks the order. -/
theorem probes_in_order {now : Nat} {nodes : List ServiceNode} {config : HealthCheckConfig}
    {m : Monitor}
    (h : ReachesIn (Monitor.step isIpLiteral) (NoOverlap i) (Monitor.start now nodes config) m) :
    Ordered i m.outcomes ∧
    (∀ e v, m.step isIpLiteral e = some v → m.pool.healthyAt i = false →
      v.pool.healthyAt i = true → ∃ k, e = .checker (.dispatch (.connect k i) .success) ∧
        ∀ o ∈ m.outcomes, o.index = i → o.probe < k) ∧
    ∀ ec v, i < m.pool.getSize → m.step isIpLiteral (.checker (.dispatch .round ec)) = some v →
      v.threw = false → ¬NoOverlap i m (.checker (.dispatch .round ec)) →
        ∃ w, Reaches (Monitor.step isIpLiteral) v w ∧ ¬Ordered i w.outcomes := by
  obtain ⟨hm, hord⟩ := Monitor.inOrder_of_reaches h
  refine ⟨hord.ordered, ?_, ?_⟩
  · intro e v hs h0 h1
    obtain ⟨k, rfl⟩ := Monitor.success_of_recovered hs h0 h1
    refine ⟨k, rfl, fun o ho hoi => ?_⟩
    obtain ⟨t, ht, rfl⟩ := Monitor.of_step_checker hs
    exact hord.later (HealthChecker.of_step_dispatch ht).1 o ho hoi
  · intro ec v hi hs hv hok
    exact Monitor.not_ordered_of_overlap hm (Monitor.plain_of_reaches h.toReaches) hi hs hv hok

instance (i : Nat) (m : Monitor) : ∀ e, Decidable (NoOverlap i m e)
  | .checker (.dispatch .round ec) =>
    decidable_of_iff (ec.failed = false → m.checker.stopped = false →
        ∀ p ∈ m.checker.pending, p.op.isConnectTo i = false) <| by
      refine imp_congr_right fun _ => imp_congr_right fun _ => ⟨fun h k st hm => ?_, ?_⟩
      · exact absurd (h _ hm) (by simp [Op.isConnectTo])
      · rintro h ⟨op, st⟩ hm
        cases op with
        | connect k j =>
          refine decide_eq_false fun hj => ?_
          exact h k st (hj ▸ hm)
        | round | timeout => rfl
  | .checker (.dispatch (.timeout _) _) => isTrue trivial
  | .checker (.dispatch (.connect _ _) _) => isTrue trivial
  | .checker (.complete _ _) => isTrue trivial
  | .tick => isTrue trivial
  | .stop => isTrue trivial
  | .incrementConnections _ => isTrue trivial
  | .decrementConnections _ => isTrue trivial

/-- Two rounds: the probe of the first is refused and makes the service unhealthy,
and the probe of the second succeeds. -/
theorem probes_in_order_two : ∃ m v : Monitor,
    m.outcomes = [⟨0, 0, true⟩] ∧ m.pool.healthyAt 0 = false ∧
    m.step (fun _ => true) (.checker (.dispatch (.connect 1 0) .success)) = some v ∧
    v.pool.healthyAt 0 = true ∧ v.outcomes.length = 2 ∧ Ordered 0 v.outcomes ∧
    ∀ o ∈ m.outcomes, o.index = 0 → o.probe < 1 := by
  have hrun : ((run (fun m e => if NoOverlap 0 m e then Monitor.step (fun _ => true) m e else none)
      (Monitor.start 0 [{}] { intervalMs := 0, unhealthyThreshold := 1 })
      [.checker (.complete .round .success), .checker (.dispatch .round .success),
        .checker (.complete (.connect 0 0) (.other 111)),
        .checker (.dispatch (.connect 0 0) (.other 111)),
        .checker (.complete .round .success), .checker (.dispatch .round .success),
        .checker (.complete (.connect 1 0) .success)]).bind fun m =>
      (m.step (fun _ => true) (.checker (.dispatch (.connect 1 0) .success))).map fun v =>
        decide ((m.outcomes = [⟨0, 0, true⟩] ∧ m.pool.healthyAt 0 = false) ∧
          v.pool.healthyAt 0 = true ∧ v.outcomes.length = 2)) = some true := by
    decide
  obtain ⟨m, hm, hrest⟩ := Option.bind_eq_some_iff.mp hrun
  obtain ⟨v, hv, hall⟩ := Option.map_eq_some_iff.mp hrest
  obtain ⟨⟨ho, h0⟩, h1, hlen⟩ := of_decide_eq_true hall
  have hreach := reachesIn_of_run hm
  have hok : NoOverlap 0 m (.checker (.dispatch (.connect 1 0) .success)) := trivial
  obtain ⟨hord, -, -⟩ := probes_in_order (hreach.tail hok hv)
  obtain ⟨k, he, hlater⟩ := (probes_in_order hreach).2.1 _ v hv h0 h1
  cases he
  exact ⟨m, v, ho, h0, hv, h1, hlen, hord, hlater⟩

/-- A service fails a probe of the second round and is unhealthy; then a probe of
the first round succeeds. -/
theorem late_success : ¬∀ (isIpLiteral : Bytes → Bool) (now : Nat) (nodes : List ServiceNode)
    (config : HealthCheckConfig) (i : Nat) (m : Monitor),
    Reaches (Monitor.step isIpLiteral) (Monitor.start now nodes config) m →
      Ordered i m.outcomes ∧
      ∀ e v, m.step isIpLiteral e = some v → m.pool.healthyAt i = false →
        v.pool.healthyAt i = true → ∃ k, e = .checker (.dispatch (.connect k i) .success) ∧
          ∀ o ∈ m.outcomes, o.index = i → o.probe < k := by
  intro h
  obtain ⟨m, v, hm, hv, h0, h1, hnoted⟩ : ∃ m v : Monitor, run (Monitor.step fun _ => true)
      (Monitor.start 0 [{}] { intervalMs := 1, timeoutMs := 2, unhealthyThreshold := 1 })
      [.tick, .checker (.complete .round .success), .checker (.dispatch .round .success),
        .tick, .checker (.complete .round .success), .checker (.dispatch .round .success),
        .checker (.complete (.connect 1 0) (.other 111)),
        .checker (.dispatch (.connect 1 0) (.other 111)),
        .checker (.complete (.connect 0 0) .success)] = some m ∧
      m.step (fun _ => true) (.checker (.dispatch (.connect 0 0) .success)) = some v ∧
      m.pool.healthyAt 0 = false ∧ v.pool.healthyAt 0 = true ∧ ⟨1, 0, true⟩ ∈ m.outcomes :=
    ⟨_, _, rfl, rfl, by decide, by decide, by decide⟩
  obtain ⟨k, he, hlt⟩ := (h _ 0 _ _ 0 m (reaches_of_run hm)).2 _ v hv h0 h1
  cases he
  exact absurd (hlt _ hnoted rfl) (by decide)

end BitBridge.Health
