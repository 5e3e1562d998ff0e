import BitBridge.LoadBalancer.Steps

/-!
# The active-connection counters

`OnAccept` increments the counter of a service and the destructor of `Session`
decrements it, each in its own handler.  `Counts` ties the two together: what is
logged of a service, its sessions, and its counter.

* `Counts.addSession`, `Counts.setSession`: the two places that touch a counter.
* `active_connections`: **the counter of a service is the number of its live
  sessions** in every state of every run.
-/

namespace BitBridge.LoadBalancer

open Proactor Proxy Health Steps

variable {σ : Type} {E : Env σ} {s v : LoadBalancer σ} {e : Event}

def isOf (i : Nat) (x : Session) : Bool := x.backend = i

def isLiveOf (i : Nat) (x : Session) : Bool := x.backend = i ∧ x.pending ≠ []

def isDeadOf (i : Nat) (x : Session) : Bool := x.backend = i ∧ x.pending = []

def live (s : LoadBalancer σ) (i : Nat) : Nat := s.sessions.countP (isLiveOf i)

def Entry.isIncrement (i : Nat) : Entry → Bool
  | .increment j _ => j = i
  | _ => false

def Entry.isDecrement (i : Nat) : Entry → Bool
  | .decrement j _ => j = i
  | _ => false

def Entry.isNeutral : Entry → Bool
  | .increment _ _ => false
  | .decrement _ _ => false
  | _ => true

structure Counts (s : LoadBalancer σ) : Prop where
  bound : ∀ x ∈ s.sessions, x.backend < s.pool.getSize
  active : ∀ i, i < s.pool.getSize → (s.activeConnections i).toNat = s.live i
  positive : ∀ i n, .decrement i n ∈ s.log → n ≠ 0
  increments : ∀ i, s.log.countP (Entry.isIncrement i) = s.sessions.countP (isOf i)
  decrements : ∀ i, s.log.countP (Entry.isDecrement i) = s.sessions.countP (isDeadOf i)

/-! ### The counters -/

theorem activeConnections_eq (s : LoadBalancer σ) (i : Nat) :
    s.activeConnections i =
      ((s.pool.getService i).map fun svc => svc.activeConnections).getD 0 := by
  unfold activeConnections
  cases s.pool.getService i <;> rfl

theorem activeConnections_of_getService {i : Nat} {svc : ServiceState}
    (h : s.pool.getService i = some svc) : s.activeConnections i = svc.activeConnections := by
  rw [activeConnections, h]

theorem activeConnections_increment (s : LoadBalancer σ) {i : Nat} (hi : i < s.pool.getSize)
    (j : Nat) : (s.incrementConnections i).activeConnections j =
      if i = j then s.activeConnections j + 1 else s.activeConnections j := by
  simp only [activeConnections_eq, incrementConnections, ServicePool.getService_update,
    Option.map_map]
  split
  · next hij =>
    subst hij
    obtain ⟨svc, hsvc⟩ := ServicePool.exists_getService hi
    rw [hsvc]
    simp [ServiceState.incrementConnections]
  · next hij => rfl

theorem activeConnections_decrement (s : LoadBalancer σ) (i j : Nat) :
    (s.decrementConnections i).activeConnections j =
      if i = j ∧ 0 < s.activeConnections j then s.activeConnections j - 1
      else s.activeConnections j := by
  simp only [activeConnections_eq, decrementConnections, ServicePool.getService_update,
    Option.map_map]
  cases s.pool.getService j with
  | none => simp
  | some svc =>
    by_cases hij : i = j
    · by_cases hpos : 0 < svc.activeConnections <;>
        simp [hij, hpos, ServiceState.decrementConnections]
    · simp [hij]

theorem countP_set_add {α : Type*} {l : List α} {k : Nat} {x : α} (p : α → Bool) (y : α)
    (h : l[k]? = some x) :
    (l.set k y).countP p + (if p x then 1 else 0) = l.countP p + if p y then 1 else 0 := by
  obtain ⟨hk, rfl⟩ := List.getElem?_eq_some_iff.mp h
  have hle := List.boole_getElem_le_countP (p := p) hk
  rw [List.countP_set hk]
  omega

namespace Counts

theorem congr (h : s.Counts) (hs : v.sessions = s.sessions) (hn : v.pool.getSize = s.pool.getSize)
    (ha : ∀ i, v.activeConnections i = s.activeConnections i) {l : List Entry}
    (hl : v.log = s.log ++ l) (hneutral : ∀ x ∈ l, x.isNeutral) : v.Counts where
  bound x hx := by
    rw [hs] at hx
    rw [hn]
    exact h.bound x hx
  active i hi := by
    rw [hn] at hi
    rw [ha, h.active i hi, live, live, hs]
  positive i n hm := by
    rw [hl] at hm
    rcases List.mem_append.mp hm with hm | hm
    · exact h.positive i n hm
    · exact absurd (hneutral _ hm) Bool.false_ne_true
  increments i := by
    rw [hl, List.countP_append, hs, h.increments i, Nat.add_eq_left, List.countP_eq_zero]
    rintro (_ | _ | _ | _ | _) hx <;> first | exact Bool.false_ne_true | cases hneutral _ hx
  decrements i := by
    rw [hl, List.countP_append, hs, h.decrements i, Nat.add_eq_left, List.countP_eq_zero]
    rintro (_ | _ | _ | _ | _) hx <;> first | exact Bool.false_ne_true | cases hneutral _ hx

theorem acceptNext (h : s.Counts) : s.acceptNext.Counts :=
  h.congr rfl rfl (fun _ => rfl) (l := [.asyncAccept]) rfl fun x hx => by
    rw [List.mem_singleton.mp hx]; rfl

theorem drop (h : s.Counts) : s.drop.Counts :=
  h.congr rfl rfl (fun _ => rfl) (l := [.dropped]) rfl fun x hx => by
    rw [List.mem_singleton.mp hx]; rfl

theorem throw (h : s.Counts) : s.throw.Counts :=
  h.congr rfl rfl (fun _ => rfl) (l := [.threw]) rfl fun x hx => by
    rw [List.mem_singleton.mp hx]; rfl

/-- **The increment.**  A session is added with its count. -/
theorem addSession (h : s.Counts) {x : Session} (hx : x.backend < s.pool.getSize)
    (hlive : x.pending ≠ []) (hroom : ∀ i, s.live i + 1 < 2 ^ 64) :
    ((s.incrementConnections x.backend).addSession x).Counts where
  bound y hy := by
    rw [LoadBalancer.addSession, incrementConnections, ServicePool.getSize_update]
    rcases List.mem_append.mp hy with hy | hy
    · exact h.bound y hy
    · rw [List.mem_singleton.mp hy]
      exact hx
  active i hi := by
    have hi' : i < s.pool.getSize := by
      rwa [LoadBalancer.addSession, incrementConnections, ServicePool.getSize_update] at hi
    have hl : live ((s.incrementConnections x.backend).addSession x) i =
        s.live i + if isLiveOf i x then 1 else 0 := by
      rw [live, LoadBalancer.addSession, List.countP_append, List.countP_singleton]
      rfl
    rw [hl]
    show ((s.incrementConnections x.backend).activeConnections i).toNat = _
    rw [activeConnections_increment s hx]
    by_cases hxi : x.backend = i
    · subst hxi
      have hlx : isLiveOf x.backend x = true := by simpa [isLiveOf] using hlive
      rw [if_pos rfl, hlx, if_pos rfl, UInt64.toNat_add, h.active _ hi']
      exact Nat.mod_eq_of_lt (hroom _)
    · have hlx : isLiveOf i x = false := by simp [isLiveOf, hxi]
      rw [if_neg hxi, hlx, h.active i hi']
      rfl
  positive i n hm := by
    rcases List.mem_append.mp hm with hm | hm
    · exact h.positive i n hm
    · cases List.mem_singleton.mp hm
  increments i := by
    show List.countP _ (s.log ++ _) = List.countP _ (s.sessions ++ _)
    rw [List.countP_append, List.countP_append, h.increments i, List.countP_singleton,
      List.countP_singleton]
    rfl
  decrements i := by
    have hdead : isDeadOf i x = false := by simp [isDeadOf, hlive]
    show List.countP _ (s.log ++ _) = List.countP _ (s.sessions ++ _)
    rw [List.countP_append, List.countP_append, h.decrements i, List.countP_singleton,
      List.countP_singleton, hdead]
    rfl

/-- A session takes a turn and keeps something pending. -/
theorem keepSession (h : s.Counts) {k : Nat} {x y : Session} (hk : s.sessions[k]? = some x)
    (hx : x.pending ≠ []) (hy : y.pending ≠ []) (hb : y.backend = x.backend) :
    Counts { s with sessions := s.sessions.set k y } where
  bound z hz := by
    rcases List.mem_or_eq_of_mem_set hz with hz | rfl
    · exact h.bound z hz
    · rw [hb]
      exact h.bound x (List.mem_of_getElem? hk)
  active i hi := by
    have hc := countP_set_add (isLiveOf i) y hk
    have hxy : isLiveOf i y = isLiveOf i x := by simp [isLiveOf, hb, hx, hy]
    rw [hxy] at hc
    exact (h.active i hi).trans (Nat.add_right_cancel hc).symm
  positive := h.positive
  increments i := by
    have hc := countP_set_add (isOf i) y hk
    have hxy : isOf i y = isOf i x := by simp [isOf, hb]
    rw [hxy] at hc
    exact (h.increments i).trans (Nat.add_right_cancel hc).symm
  decrements i := by
    have hc := countP_set_add (isDeadOf i) y hk
    have hxy : isDeadOf i y = isDeadOf i x := by simp [isDeadOf, hx, hy]
    rw [hxy] at hc
    exact (h.decrements i).trans (Nat.add_right_cancel hc).symm

/-- **The decrement.**  A session that was live is destroyed. -/
theorem endSession (h : s.Counts) {k : Nat} {x y : Session} (hk : s.sessions[k]? = some x)
    (hx : x.pending ≠ []) (hy : y.pending = []) (hb : y.backend = x.backend) :
    (decrementConnections { s with sessions := s.sessions.set k y } y.backend).Counts := by
  have hsize : x.backend < s.pool.getSize := h.bound x (List.mem_of_getElem? hk)
  have hlive : ∀ i, live { s with sessions := s.sessions.set k y } i +
      (if x.backend = i then 1 else 0) = s.live i := by
    intro i
    have hc := countP_set_add (isLiveOf i) y hk
    have hyl : isLiveOf i y = false := by simp [isLiveOf, hy]
    have hxl : isLiveOf i x = decide (x.backend = i) := by simp [isLiveOf, hx]
    rw [hyl, hxl] at hc
    simpa [live] using hc
  have hpos : 0 < s.activeConnections x.backend := by
    have h1 := hlive x.backend
    rw [if_pos rfl] at h1
    rw [UInt64.lt_iff_toNat_lt, h.active _ hsize]
    exact Nat.lt_of_lt_of_le (Nat.succ_pos _) h1.le
  refine ⟨?_, ?_, ?_, ?_, ?_⟩
  · intro z hz
    rw [decrementConnections, ServicePool.getSize_update]
    rcases List.mem_or_eq_of_mem_set hz with hz | rfl
    · exact h.bound z hz
    · rw [hb]
      exact hsize
  · intro i hi
    have hi' : i < s.pool.getSize := by
      rwa [decrementConnections, ServicePool.getSize_update] at hi
    have h1 := hlive i
    rw [activeConnections_decrement]
    show (if y.backend = i ∧ 0 < s.activeConnections i then s.activeConnections i - 1
      else s.activeConnections i).toNat = live { s with sessions := s.sessions.set k y } i
    rw [hb]
    by_cases hxi : x.backend = i
    · subst hxi
      rw [if_pos rfl] at h1
      rw [if_pos ⟨rfl, hpos⟩, UInt64.toNat_sub_of_le _ _ (by
        rw [UInt64.le_iff_toNat_le]
        exact UInt64.lt_iff_toNat_lt.mp hpos), h.active _ hi', ← h1]
      rfl
    · rw [if_neg hxi, Nat.add_zero] at h1
      rw [if_neg fun hc => hxi hc.1, h.active i hi', h1]
  · intro i n hm
    rcases List.mem_append.mp hm with hm | hm
    · exact h.positive i n hm
    · cases List.mem_singleton.mp hm
      show s.activeConnections y.backend ≠ 0
      rw [hb]
      exact UInt64.pos_iff_ne_zero.mp hpos
  · intro i
    have hc := countP_set_add (isOf i) y hk
    have hxy : isOf i y = isOf i x := by simp [isOf, hb]
    rw [hxy] at hc
    show List.countP _ (s.log ++ _) = List.countP _ (s.sessions.set k y)
    rw [List.countP_append, h.increments i, Nat.add_right_cancel hc]
    rfl
  · intro i
    have hc := countP_set_add (isDeadOf i) y hk
    have hyd : isDeadOf i y = decide (y.backend = i) := by simp [isDeadOf, hy]
    have hxd : isDeadOf i x = false := by simp [isDeadOf, hx]
    rw [hyd, hxd, if_neg Bool.false_ne_true, Nat.add_zero] at hc
    show List.countP _ (s.log ++ _) = List.countP _ (s.sessions.set k y)
    rw [List.countP_append, h.decrements i, List.countP_singleton, hc]
    rfl

theorem setSession (h : s.Counts) {k : Nat} {x y : Session} (hk : s.sessions[k]? = some x)
    (hx : x.pending ≠ []) (hb : y.backend = x.backend) : (s.setSession k y).Counts := by
  rw [LoadBalancer.setSession]
  split
  · next hy => exact h.endSession hk hx hy hb
  · next hy => exact h.keepSession hk hx hy hb

theorem congr_self (h : s.Counts) (hs : v.sessions = s.sessions) (hp : v.pool = s.pool)
    (hl : v.log = s.log) : v.Counts :=
  h.congr hs (by rw [hp]) (fun i => by rw [activeConnections, activeConnections, hp])
    (hl.trans (List.append_nil _).symm) fun x hx => nomatch hx

/-- **A session that is destroyed before it holds anything.**  `Start` threw. -/
theorem refuse (h : s.Counts) {x y : Session} (hx : x.backend < s.pool.getSize)
    (hlive : x.pending ≠ []) (hroom : ∀ i, s.live i + 1 < 2 ^ 64) (hy : y.pending = [])
    (hb : y.backend = x.backend) :
    (((s.incrementConnections x.backend).addSession y).decrementConnections x.backend).Counts := by
  have hk : ((s.incrementConnections x.backend).addSession x).sessions[s.sessions.length]? =
      some x := List.getElem?_concat_length ..
  have hset : { (s.incrementConnections x.backend).addSession x with
      sessions := ((s.incrementConnections x.backend).addSession x).sessions.set
        s.sessions.length y } = (s.incrementConnections x.backend).addSession y := by
    simp [LoadBalancer.addSession, incrementConnections]
  have hend := (h.addSession hx hlive hroom).endSession hk hlive hy hb
  rwa [hset, hb] at hend

theorem setStrategy (h : s.Counts) (strategy : Strategy σ) : (s.setStrategy strategy).Counts :=
  h.congr_self rfl rfl rfl

/-- A turn of `OnAccept`, where there is room for one more session. -/
theorem accepted (h : s.Counts) {peer : Option Bytes} {fuel : Nat} {ec : ErrorCode}
    (hroom : ∀ i, s.live i + 1 < 2 ^ 64) (ha : Accepted E s peer fuel ec v) : v.Counts := by
  cases ha with
  | aborted => exact h
  | failed => exact h.acceptNext
  | gone => exact h.throw
  | lost => exact (h.setStrategy _).throw
  | dropped => exact (h.setStrategy _).drop.acceptNext
  | @started _ i _ strategy hp hs hi hip =>
    have hsize := ServicePool.getService_eq_some_lt hi
    exact (addSession (x := .started s.now i s.connectTimeoutMs s.idleTimeoutMs)
      (h.setStrategy strategy) hsize (Session.started_ne_nil _ _ _ _) hroom).acceptNext
  | @refused _ i _ strategy hp hs hi hip =>
    have hsize := ServicePool.getService_eq_some_lt hi
    exact (refuse (x := .started s.now i s.connectTimeoutMs s.idleTimeoutMs)
      (y := .new i s.connectTimeoutMs s.idleTimeoutMs)
      (h.setStrategy strategy) hsize (Session.started_ne_nil _ _ _ _) hroom rfl rfl).throw

end Counts

/-- There is room for one more session of every service when one is accepted. -/
def HasRoom (s : LoadBalancer σ) : Event → Prop
  | .accept _ _ _ => ∀ i, s.live i + 1 < 2 ^ 64
  | _ => True

theorem Counts.step (h : s.Counts) (hroom : s.HasRoom e) (hs : s.step E e = some v) :
    v.Counts := by
  cases stepped_of_step hs with
  | tick => exact h.congr_self rfl rfl rfl
  | complete => exact h.congr_self rfl rfl rfl
  | @accept ec _ _ _ _ _ ha =>
    have hd : (s.dequeue .accept ec).Counts := h.congr_self rfl rfl rfl
    exact hd.accepted hroom ha
  | signal =>
    unfold onSignal
    split <;> exact h.congr_self rfl rfl rfl
  | session _ hx hy => exact h.setSession hx (pending_ne_nil_of_step hy) (Session.step_binding hy).1
  | @checker e _ _ _ _ ht =>
    have hpool := (HealthChecker.step_pool ht).1
    refine h.congr rfl ?_ ?_ (List.append_nil _).symm fun x hx => nomatch hx
    · rw [hpool]
      exact getSize_effect _ _ e
    · intro i
      rw [activeConnections_eq, activeConnections_eq, hpool]
      exact congrArg (fun x => x.getD 0)
        (map_getService_effect s.pool e i (activeConnections_probed _))
  | destroy _ hx hp => exact h.setSession hx (List.ne_nil_of_mem hp) rfl

/-! ### Every run -/

section Run

variable {now : Nat} {nodes : List ServiceNode} {strategy : Strategy σ} {conn : ConnectionConfig}
  {hc : HealthCheckConfig}

theorem counts_initial : (initial now nodes strategy conn).Counts where
  bound x hx := nomatch hx
  active i hi := by
    rw [activeConnections_eq, initial, ServicePool.getService_ofNodes, Option.map_map]
    cases nodes[i]? <;> rfl
  positive i n hm := nomatch hm
  increments i := rfl
  decrements i := rfl

theorem counts_start : (start now nodes strategy conn hc).Counts := by
  have h : (initial now nodes strategy conn).acceptNext.Counts := counts_initial.acceptNext
  unfold start
  split
  · exact h.congr_self rfl rfl rfl
  · exact h

theorem counts_of_reachesIn (h : ReachesIn (step E) HasRoom (start now nodes strategy conn hc) s) :
    s.Counts := h.invariant counts_start fun hi hok hs => hi.step hok hs

/-- **The active-connection counters.**  While there is room for one more
session at every accept, in every state of every run: the counter of a service
is the number of its live sessions; no decrement found the counter at 0; and the
service was incremented once for each of its sessions and decremented once for
each that is gone. -/
theorem active_connections (h : ReachesIn (step E) HasRoom (start now nodes strategy conn hc) s) :
    (∀ i svc, s.pool.getService i = some svc → svc.activeConnections.toNat = s.live i) ∧
    (∀ i before, .decrement i before ∈ s.log → before ≠ 0) ∧
    ∀ i, s.log.countP (Entry.isIncrement i) = s.sessions.countP (isOf i) ∧
      s.log.countP (Entry.isDecrement i) = s.sessions.countP (isDeadOf i) := by
  have hc := counts_of_reachesIn h
  refine ⟨?_, hc.positive, fun i => ⟨hc.increments i, hc.decrements i⟩⟩
  intro i svc hi
  rw [← hc.active i (ServicePool.getService_eq_some_lt hi), activeConnections_of_getService hi]

end Run

/-- One connection is accepted and its session is started. -/
theorem active_connections_one : ∃ v : LoadBalancer Unit,
    run (step ⟨fun _ => true, fun _ rng => (0, rng)⟩) (start 0 [{}] (.p2c ⟨()⟩) {} {})
      [.complete .accept .success, .accept .success (some []) 0] = some v ∧
    ∃ svc, v.pool.getService 0 = some svc ∧ svc.activeConnections.toNat = v.live 0 ∧
      v.live 0 = 1 := by
  let E : Env Unit := ⟨fun _ => true, fun _ rng => (0, rng)⟩
  have hrun : ∃ u v, step E (start 0 [{}] (.p2c ⟨()⟩) {} {}) (.complete .accept .success) = some u ∧
      step E u (.accept .success (some []) 0) = some v ∧ u.sessions = [] ∧ v.live 0 = 1 ∧
      (v.pool.getService 0).isSome := ⟨_, _, rfl, rfl, rfl, rfl, rfl⟩
  obtain ⟨u, v, hu, hv, hs, hl, hp⟩ := hrun
  have hroom : HasRoom u (.accept .success (some []) 0) := fun i => by
    rw [live, hs, List.countP_nil]
    decide
  obtain ⟨svc, hsvc⟩ := Option.isSome_iff_exists.mp hp
  have h := (active_connections ((ReachesIn.single trivial hu).tail hroom hv)).1 0 svc hsvc
  refine ⟨v, ?_, svc, hsvc, h, hl⟩
  rw [run, hu, Option.bind_some, run, hv]
  rfl

end BitBridge.LoadBalancer
