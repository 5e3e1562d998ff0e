import BitBridge.Bench.Driver
import Mathlib.Data.List.Perm.Basic
import Mathlib.Data.List.Range
import Mathlib.Order.Bounds.Defs

/-!
# The accounting of the benchmark driver

A connection ends in one of three handlers, and a timer may close its socket
under any of its operations.  `live` are the connections with an operation on
their socket; a handler of one of these starts the next one or records a result.

* `Books`: what the counters say of the connections.
* `Books.launch`, `Books.settle`: the two places that touch a counter.
* `launchWave_full`: a wave ends when there is no room or nothing left.
* `accounting`: **every connection is launched once, counted once and recorded
  once**, and the loop does not stop early.
-/

namespace BitBridge.Bench

open Proactor Steps

namespace Load

variable {total concurrency : Int} {s t : Load} {c : Nat} {op : Op} {ec : ErrorCode} {n : Nat}

/-- The connections with an operation on their socket. -/
def live (s : Load) : List Nat := s.pending.filterMap fun p => p.op.socket

/-! ### What the operations do to the live connections -/

theorem filterMap_cancel (f : Op → Bool) (l : List (Pending Op)) :
    (cancel f l).filterMap (fun p => p.op.socket) = l.filterMap fun p => p.op.socket := by
  rw [cancel, List.filterMap_map]
  refine List.filterMap_congr fun p _ => ?_
  rw [Function.comp, abort_op]

@[simp] theorem live_cancelTimer (s : Load) (c : Nat) : (s.cancelTimer c).live = s.live :=
  filterMap_cancel _ _

@[simp] theorem live_close (s : Load) (c : Nat) : (s.close c).live = s.live :=
  filterMap_cancel _ _

theorem live_post (s : Load) (h : op.socket = some c) : (s.post c op).live = s.live ++ [c] := by
  rw [live, post, List.filterMap_append]
  simp [h, live]

theorem live_launch (s : Load) : s.launch.live = s.live ++ [s.launched.toNat] := by
  rw [live, launch, List.filterMap_append]
  rfl

theorem live_resolve (h : ⟨op, .waiting⟩ ∈ s.pending) :
    (live { s with pending := resolve s.pending op ec n }).Perm s.live := by
  have hp := (List.perm_cons_erase h).filterMap fun p => p.op.socket
  refine List.Perm.trans ?_ hp.symm
  rw [live, resolve, List.filterMap_append]
  exact List.perm_append_comm.trans (List.Perm.of_eq (by
    rw [List.filterMap_cons]
    cases hs : op.socket <;> simp [hs]))

theorem live_consume (h : ⟨op, .queued ec n⟩ ∈ s.pending) : s.live.Perm
    (op.socket.toList ++ live { s with pending := consume s.pending op ec n }) := by
  have hp := (List.perm_cons_erase h).filterMap fun p => p.op.socket
  refine hp.trans (List.Perm.of_eq ?_)
  rw [List.filterMap_cons]
  cases hs : op.socket <;> rfl

/-! ### The books -/

structure Books (total concurrency : Int) (s : Load) : Prop where
  launched : ∃ m : Nat, s.launched = m ∧ (s.recorded ++ s.live).Perm (List.range m)
  inflight : s.inflight = s.live.length
  done : s.done = s.recorded.length
  results : s.results.length = s.recorded.length
  inflight_le : s.inflight ≤ concurrency
  launched_le : s.launched ≤ total
  peak : IsGreatest {v | v = 0 ∨ v ∈ s.seen} s.peakInflight
  current : s.inflight ≤ s.peakInflight

/-- There is no room for another connection, or none is left to launch. -/
def Full (total concurrency : Int) (s : Load) : Prop :=
  s.inflight = concurrency ∨ s.launched = total

theorem Books.launched_eq (h : Books total concurrency s) : s.launched = s.done + s.inflight := by
  obtain ⟨m, hm, hperm⟩ := h.launched
  have hlen := hperm.length_eq
  rw [List.length_append, List.length_range] at hlen
  rw [hm, h.done, h.inflight]
  omega

/-- The fields that `Books` is about, the pending operations apart. -/
structure SameCounters (s t : Load) : Prop where
  inflight : t.inflight = s.inflight
  peakInflight : t.peakInflight = s.peakInflight
  launched : t.launched = s.launched
  done : t.done = s.done
  results : t.results = s.results
  recorded : t.recorded = s.recorded
  seen : t.seen = s.seen

theorem SameCounters.refl (s : Load) : SameCounters s s := ⟨rfl, rfl, rfl, rfl, rfl, rfl, rfl⟩

structure SameBooks (s t : Load) : Prop extends SameCounters s t where
  live : t.live.Perm s.live

theorem Books.of_same (h : Books total concurrency s) (hs : SameBooks s t) :
    Books total concurrency t := by
  refine ⟨?_, ?_, ?_, ?_, ?_, ?_, ?_, ?_⟩
  · obtain ⟨m, hm, hperm⟩ := h.launched
    refine ⟨m, hs.launched.trans hm, ?_⟩
    rw [hs.recorded]
    exact (hs.live.append_left _).trans hperm
  · rw [hs.inflight, hs.live.length_eq]
    exact h.inflight
  · rw [hs.done, hs.recorded]
    exact h.done
  · rw [hs.results, hs.recorded]
    exact h.results
  · rw [hs.inflight]
    exact h.inflight_le
  · rw [hs.launched]
    exact h.launched_le
  · rw [hs.seen, hs.peakInflight]
    exact h.peak
  · rw [hs.inflight, hs.peakInflight]
    exact h.current

theorem isGreatest_concat {seen : List Int} {p v : Int}
    (h : IsGreatest {v | v = 0 ∨ v ∈ seen} p) :
    IsGreatest {w | w = 0 ∨ w ∈ seen ++ [v]} (if p < v then v else p) := by
  obtain ⟨hmem, hub⟩ := h
  constructor
  · split
    · exact Or.inr (List.mem_append_right _ (List.mem_singleton_self v))
    · exact hmem.imp_right (List.mem_append_left _)
  · rintro w hw
    have hle : w ≤ p ∨ w = v := by
      rcases hw with hw | hw
      · exact Or.inl (hub (Or.inl hw))
      · rcases List.mem_append.mp hw with hw | hw
        · exact Or.inl (hub (Or.inr hw))
        · exact Or.inr (List.mem_singleton.mp hw)
    split <;> omega

/-- **A launch** is a new connection in flight. -/
theorem Books.launch (h : Books total concurrency s) (hroom : s.inflight < concurrency)
    (hleft : s.launched < total) : Books total concurrency s.launch := by
  obtain ⟨m, hm, hperm⟩ := h.launched
  refine ⟨⟨m + 1, ?_, ?_⟩, ?_, h.done, h.results, ?_, ?_, isGreatest_concat h.peak, ?_⟩
  · show s.launched + 1 = _
    rw [hm]
    rfl
  · show (s.recorded ++ s.launch.live).Perm _
    have hc : s.launched.toNat = m := by rw [hm]; rfl
    rw [live_launch, hc, ← List.append_assoc, List.range_succ]
    exact hperm.append_right [m]
  · show s.inflight + 1 = _
    rw [live_launch, List.length_append, h.inflight]
    rfl
  · show s.inflight + 1 ≤ _
    omega
  · show s.launched + 1 ≤ _
    omega
  · show s.inflight + 1 ≤ if s.peakInflight < s.inflight + 1 then s.inflight + 1 else s.peakInflight
    split <;> omega

theorem Books.launchLoop (h : Books total concurrency s) (turns : Nat) :
    Books total concurrency (launchLoop total concurrency turns s) := by
  induction turns generalizing s with
  | zero => exact h
  | succ turns ih =>
    rw [Load.launchLoop]
    split
    · next hc => exact ih (h.launch hc.1 hc.2)
    · exact h

theorem launchLoop_full (h : Books total concurrency s) (turns : Nat)
    (ht : (total - s.launched).toNat ≤ turns) :
    Full total concurrency (launchLoop total concurrency turns s) := by
  have hle := h.launched_le
  have hin := h.inflight_le
  induction turns generalizing s with
  | zero =>
    refine Or.inr ?_
    show s.launched = total
    omega
  | succ turns ih =>
    rw [launchLoop]
    split
    · next hc =>
      have hl : s.launch.launched = s.launched + 1 := rfl
      have hb := h.launch hc.1 hc.2
      exact ih hb (by omega) hb.launched_le hb.inflight_le
    · next hc =>
      unfold Full
      omega

/-- **A wave goes on until there is no room**, or nothing is left. -/
theorem launchWave_full (h : Books total concurrency s) :
    Books total concurrency (s.launchWave total concurrency) ∧
      Full total concurrency (s.launchWave total concurrency) := by
  unfold launchWave
  split
  · next hle => exact ⟨h, Or.inr (Int.le_antisymm h.launched_le hle)⟩
  · exact ⟨h.launchLoop _, launchLoop_full h _ le_rfl⟩

@[simp] theorem stopped_launchLoop (turns : Nat) (s : Load) :
    (launchLoop total concurrency turns s).stopped = s.stopped := by
  induction turns generalizing s with
  | zero => rfl
  | succ turns ih =>
    rw [launchLoop]
    split
    · exact ih s.launch
    · rfl

@[simp] theorem stopped_launchWave (s : Load) :
    (s.launchWave total concurrency).stopped = s.stopped := by
  unfold launchWave
  split
  · rfl
  · exact stopped_launchLoop _ s

/-! ### The end of a connection -/

/-- The books when a result is recorded, before the next wave. -/
def settle (s : Load) (c : Nat) (r : ConnResult) : Load :=
  let s := s.cancelTimer c
  let s := { s with results := s.results ++ [r], recorded := s.recorded ++ [c] }
  let s := s.close c
  { s with
    inflight := s.inflight - 1
    seen := s.seen ++ [s.inflight - 1]
    done := s.done + 1 }

theorem finish_eq (s : Load) (c : Nat) (r : ConnResult) : s.finish total concurrency c r =
    if total ≤ ((s.settle c r).launchWave total concurrency).done then
      { (s.settle c r).launchWave total concurrency with stopped := true }
    else (s.settle c r).launchWave total concurrency := rfl

/-- **A result is recorded** of a connection whose handler runs. -/
theorem Books.settle (h : Books total concurrency s) (hs : SameCounters s t)
    (hlive : s.live.Perm (c :: t.live)) (r : ConnResult) :
    Books total concurrency (t.settle c r) := by
  obtain ⟨hi, hp, hl, hd, hr, hc, hseen⟩ := hs
  have hsettle : (t.settle c r).live = t.live := (live_close _ c).trans (live_cancelTimer t c)
  have hlen := hlive.length_eq
  rw [List.length_cons] at hlen
  have hin := h.inflight
  have hcur := h.current
  refine ⟨?_, ?_, ?_, ?_, ?_, ?_, ?_, ?_⟩
  · obtain ⟨m, hm, hperm⟩ := h.launched
    refine ⟨m, hl.trans hm, ?_⟩
    rw [hsettle]
    show (t.recorded ++ [c] ++ t.live).Perm _
    rw [hc, List.append_assoc]
    exact (hlive.symm.append_left _).trans hperm
  · rw [hsettle]
    show t.inflight - 1 = _
    rw [hi]
    omega
  · show t.done + 1 = ((t.recorded ++ [c]).length : Int)
    rw [hd, hc, h.done, List.length_append]
    rfl
  · show (t.results ++ [r]).length = (t.recorded ++ [c]).length
    rw [hr, hc, List.length_append, List.length_append, h.results]
    rfl
  · show t.inflight - 1 ≤ _
    have := h.inflight_le
    omega
  · show t.launched ≤ _
    rw [hl]
    exact h.launched_le
  · show IsGreatest {v | v = 0 ∨ v ∈ t.seen ++ [t.inflight - 1]} t.peakInflight
    have hg := isGreatest_concat (v := t.inflight - 1) (hseen ▸ hp ▸ h.peak)
    rwa [if_neg (by omega)] at hg
  · show t.inflight - 1 ≤ t.peakInflight
    omega

structure Sound (total concurrency : Int) (s : Load) : Prop where
  books : Books total concurrency s
  full : s.posted = true ∨ Full total concurrency s
  stopped : s.stopped = true → s.done = total

theorem Books.done_le (h : Books total concurrency s) : s.done ≤ total := by
  have hl := h.launched_eq
  have hle := h.launched_le
  have hin := h.inflight
  omega

theorem Sound.of_same (h : Sound total concurrency s) (hs : SameBooks s t)
    (hp : t.posted = s.posted) (hst : t.stopped = s.stopped) : Sound total concurrency t := by
  refine ⟨h.books.of_same hs, ?_, ?_⟩
  · rw [hp, Full, hs.inflight, hs.launched]
    exact h.full
  · rw [hst, hs.done]
    exact h.stopped

theorem Sound.finish (h : Sound total concurrency s) (h0 : t.stopped = false)
    (hs : SameCounters s t) (hlive : s.live.Perm (c :: t.live)) (r : ConnResult) :
    Sound total concurrency (t.finish total concurrency c r) := by
  have hb := h.books.settle hs hlive r
  obtain ⟨hw, hfull⟩ := launchWave_full hb
  rw [finish_eq]
  split
  · next hdone =>
    exact ⟨hw.of_same ⟨⟨rfl, rfl, rfl, rfl, rfl, rfl, rfl⟩, .refl _⟩, Or.inr hfull,
      fun _ => Int.le_antisymm hw.done_le hdone⟩
  · refine ⟨hw, Or.inr hfull, fun hst => ?_⟩
    rw [stopped_launchWave] at hst
    exact absurd (h0.symm.trans hst) (by decide)

theorem Sound.post (h : Sound total concurrency s) (hs : SameCounters s t)
    (hp : t.posted = s.posted) (hst : t.stopped = s.stopped)
    (hlive : s.live.Perm (c :: t.live)) (hop : op.socket = some c) :
    Sound total concurrency (t.post c op) := by
  obtain ⟨hi, hpk, hl, hd, hr, hc, hseen⟩ := hs
  refine h.of_same ⟨⟨hi, hpk, hl, hd, hr, hc, hseen⟩, ?_⟩ hp hst
  rw [live_post t hop]
  exact List.perm_append_comm.trans hlive.symm

/-- **Every handler keeps the books**; `t` is the load without its operation. -/
theorem Sound.handle (h : Sound total concurrency s) (h0 : s.stopped = false)
    (hs : SameCounters s t) (hp : t.posted = s.posted) (hst : t.stopped = s.stopped)
    (hlive : s.live.Perm (op.socket.toList ++ t.live)) :
    Sound total concurrency (t.handle total concurrency op ec n) := by
  have ht0 : t.stopped = false := hst.trans h0
  have hcounters := hs
  obtain ⟨hi, hpk, hl, hd, hr, hc, hseen⟩ := hcounters
  cases op with
  | timer c =>
    rw [Load.handle, onTimer]
    split
    · exact h.of_same ⟨hs, hlive.symm⟩ hp hst
    · refine h.of_same ⟨⟨hi, hpk, hl, hd, hr, hc, hseen⟩, ?_⟩ hp hst
      rw [live_close]
      exact hlive.symm
  | connect c =>
    rw [Load.handle, onConnect]
    split
    · exact h.finish ht0 hs hlive _
    · refine h.post ⟨hi, hpk, hl, hd, hr, hc, hseen⟩ hp hst ?_ rfl
      rw [live_cancelTimer]
      exact hlive
  | write c =>
    rw [Load.handle, onWriteDone]
    split
    · exact h.finish ht0 hs hlive _
    · exact h.post hs hp hst hlive rfl
  | read c bytesRead =>
    rw [Load.handle, onReadSome]
    split
    · have hfinish : ∀ (b : Int) (r : ConnResult),
          Sound total concurrency ({ t with bytesReceived := b }.finish total concurrency c r) :=
        fun b r => h.finish (t := { t with bytesReceived := b }) ht0
          ⟨hi, hpk, hl, hd, hr, hc, hseen⟩ hlive r
      exact hfinish _ _
    · exact h.post hs hp hst hlive rfl

theorem Sound.step {e : Event} (h : Sound total concurrency s)
    (he : step total concurrency s e = some t) : Sound total concurrency t := by
  cases e with
  | wave =>
    obtain ⟨⟨h0, -⟩, ht⟩ := Option.ite_none_right_eq_some.mp he
    obtain rfl := Option.some.inj ht
    have hb : Books total concurrency { s with posted := false } :=
      h.books.of_same ⟨⟨rfl, rfl, rfl, rfl, rfl, rfl, rfl⟩, .refl _⟩
    obtain ⟨hw, hfull⟩ := launchWave_full hb
    refine ⟨hw, Or.inr hfull, fun hst => ?_⟩
    rw [stopped_launchWave] at hst
    rw [show s.stopped = true from hst] at h0
    cases h0
  | complete op ec =>
    obtain ⟨⟨-, hm, -⟩, ht⟩ := Option.ite_none_right_eq_some.mp he
    obtain rfl := Option.some.inj ht
    exact h.of_same ⟨⟨rfl, rfl, rfl, rfl, rfl, rfl, rfl⟩, live_resolve hm⟩ rfl rfl
  | recv c bytesRead n =>
    obtain ⟨⟨-, hm, -⟩, ht⟩ := Option.ite_none_right_eq_some.mp he
    obtain rfl := Option.some.inj ht
    exact h.of_same ⟨⟨rfl, rfl, rfl, rfl, rfl, rfl, rfl⟩, live_resolve hm⟩ rfl rfl
  | dispatch op ec n =>
    obtain ⟨⟨h0, hm⟩, ht⟩ := Option.ite_none_right_eq_some.mp he
    obtain rfl := Option.some.inj ht
    exact h.handle (by simpa using h0) ⟨rfl, rfl, rfl, rfl, rfl, rfl, rfl⟩ rfl rfl
      (live_consume hm)

theorem sound_start (ht : 0 < total) (hc : 0 < concurrency) : Sound total concurrency start := by
  refine ⟨⟨⟨0, rfl, .refl _⟩, rfl, rfl, rfl, Int.le_of_lt hc, Int.le_of_lt ht,
    ⟨Or.inl rfl, ?_⟩, Int.le_refl 0⟩, Or.inl rfl, fun h => nomatch h⟩
  rintro v (rfl | hv)
  · exact Int.le_refl 0
  · cases hv

/-! ### Every run -/

/-- What the driver's report relies on, at a handler boundary. -/
structure Accounted (total concurrency : Int) (s : Load) : Prop where
  launched : s.launched = s.done + s.inflight
  inflight_le : s.inflight ≤ concurrency
  launched_le : s.launched ≤ total
  results : (s.results.length : Int) = s.done
  peak : IsGreatest {v | v = 0 ∨ v ∈ s.seen} s.peakInflight
  /-- A connection in flight has an operation on its socket. -/
  live : s.inflight = s.live.length
  /-- From the first wave on some connection is in flight until all are done. -/
  busy : s.posted = false → s.done < total → 0 < s.inflight
  /-- No connection has two results, and none in flight has one. -/
  once : s.recorded.length = s.results.length ∧ (s.recorded ++ s.live).Nodup
  /-- The loop stops when every connection has its result. -/
  stopped : s.stopped = true → s.done = total ∧ s.launched = total ∧
    s.recorded.Perm (List.range s.launched.toNat)

theorem Sound.accounted (h : Sound total concurrency s) (hc : 0 < concurrency) :
    Accounted total concurrency s := by
  have hb := h.books
  have hl := hb.launched_eq
  have hle := hb.launched_le
  obtain ⟨m, hm, hperm⟩ := hb.launched
  refine ⟨hl, hb.inflight_le, hle, ?_, hb.peak, hb.inflight, ?_, ?_, ?_⟩
  · rw [hb.results, hb.done]
  · intro hp hd
    rcases h.full with hf | hf | hf
    · rw [hp] at hf
      cases hf
    · omega
    · omega
  · exact ⟨hb.results.symm, hperm.nodup_iff.mpr List.nodup_range⟩
  · intro hst
    have hd := h.stopped hst
    have hin := hb.inflight
    have hnil : s.live = [] := List.eq_nil_of_length_eq_zero (by omega)
    refine ⟨hd, by omega, ?_⟩
    rw [hnil, List.append_nil] at hperm
    rw [hm]
    exact hperm

/-- **The driver's accounting.**  For every positive number of connections and
every positive concurrency, and in every order of completions: at each handler
boundary the launched connections are those done and those in flight, neither
limit is exceeded, there is a result for each one done, the peak is the largest
number that was in flight, some connection is in flight until all are done, and
the loop is stopped only then, with one result for each connection. -/
theorem accounting {total concurrency : Int} (ht : 0 < total) (hc : 0 < concurrency) {s : Load}
    (h : Reaches (step total concurrency) start s) : Accounted total concurrency s :=
  (h.invariant (sound_start ht hc) fun hi _ hs => hi.step hs).accounted hc

/-- Two connections, one after the other: the first is refused, and the timer
closes the second while its answer is awaited. -/
theorem accounting_two : ∃ s : Load, s.results = [⟨false, 0⟩, ⟨false, 0⟩] ∧ s.stopped = true ∧
    Accounted 2 1 s := by
  let es : List Event :=
    [.wave, .complete (.connect 0) (.other 111), .dispatch (.connect 0) (.other 111) 0,
      .complete (.timer 1) .success, .complete (.connect 1) .success,
      .dispatch (.connect 1) .success 0, .complete (.write 1) .success,
      .dispatch (.write 1) .success 0, .dispatch (.timer 1) .success 0,
      .dispatch (.read 1 0) .operationAborted 0]
  have hrun : (run (step 2 1) start es).map (fun s => (s.results, s.stopped)) =
      some ([⟨false, 0⟩, ⟨false, 0⟩], true) := by decide
  obtain ⟨s, hs, hv⟩ := Option.map_eq_some_iff.mp hrun
  obtain ⟨hresults, hstopped⟩ := Prod.mk.inj hv
  exact ⟨s, hresults, hstopped, accounting (by decide) (by decide) (reaches_of_run hs)⟩

end Load

end BitBridge.Bench
