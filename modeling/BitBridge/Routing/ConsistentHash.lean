import BitBridge.Lib.Circle
import BitBridge.State.ServicePool
import Mathlib.Data.List.Sort

/-!
# The consistent-hash strategy

`ConsistentHashStrategy` (`core/routing`) puts 150 points for every service on
a ring of 64-bit hashes.  A key is routed to the first healthy point at or after
its hash, round the ring.

* `ofPool_of_sorted`: the constructor's result does not depend on how its sort
  orders equal hashes.
* `selectService_eq_ok`: **what the strategy selects** is the service of the
  healthy point that the walk from the key's hash passes first.
* `consistent_hash_stable`: the selection depends on the names of the healthy
  services and on the key only, and it stays where it is as long as the selected
  name stays among them.
-/

namespace BitBridge

inductive RoutingError
  | noHealthyServices
  | poolEmpty
  deriving DecidableEq, Repr

/-- `HashCollisionError`, by the index in its message. -/
structure HashCollisionError where
  vnodeIndex : Nat
  deriving DecidableEq, Repr

namespace HashCollisionError

def what (e : HashCollisionError) : Bytes :=
  ascii "Hash ring collision detected at vnode " ++ decimal e.vnodeIndex

end HashCollisionError

namespace fnv

def FNV_OFFSET_BASIS : UInt64 := 14695981039346656037

def FNV_PRIME : UInt64 := 1099511628211

def hash64 (data : Bytes) : UInt64 :=
  data.foldl (fun hash c => (hash ^^^ c.toUInt64) * FNV_PRIME) FNV_OFFSET_BASIS

end fnv

/-- The ring, sorted by hash; each point has the index of its service. -/
structure ConsistentHashStrategy where
  ring : List (UInt64 × Nat)
  deriving DecidableEq, Repr

namespace ConsistentHashStrategy

def VNODES_PER_SERVICE : Nat := 150

def label (name : Bytes) (v : Nat) : Bytes := name ++ ascii "#" ++ decimal v

def vnodes (name : Bytes) (i : Nat) : List (UInt64 × Nat) :=
  (List.range VNODES_PER_SERVICE).map fun v => (fnv.hash64 (label name v), i)

/-- The points in the order in which the constructor appends them. -/
def points (pool : ServicePool) : List (UInt64 × Nat) :=
  pool.services.zipIdx.flatMap fun e => vnodes e.1.node.name e.2

/-- The first index of the ring, counted from `i`, whose hash is the one before it. -/
def collision : Nat → List (UInt64 × Nat) → Option Nat
  | i, a :: b :: l => if b.1 = a.1 then some i else collision (i + 1) (b :: l)
  | _, _ => none

/-- The constructor after its sort. -/
def ofSorted (ring : List (UInt64 × Nat)) : Except HashCollisionError ConsistentHashStrategy :=
  match collision 1 ring with
  | some i => .error ⟨i⟩
  | none => .ok ⟨ring⟩

def ofPool (pool : ServicePool) : Except HashCollisionError ConsistentHashStrategy :=
  ofSorted ((points pool).insertionSort fun a b => a.1 ≤ b.1)

/-- `std::ranges::lower_bound`: the first point that is not below the hash. -/
def lowerBound (ring : List (UInt64 × Nat)) (hash : UInt64) : Nat :=
  ring.findIdx fun e => hash ≤ e.1

/-- The loop of `SelectService` from `walked` on, with `left` turns to go; `none`
is the `std::out_of_range` of an `at`. -/
def walk (s : ConsistentHashStrategy) (pool : ServicePool) (startIdx walked : Nat) :
    Nat → Option (Except RoutingError Nat)
  | 0 => some (.error .noHealthyServices)
  | left + 1 => do
    let point ← s.ring[(startIdx + walked) % s.ring.length]?
    let service ← pool.getService point.2
    if service.healthy then some (.ok point.2) else s.walk pool startIdx (walked + 1) left

def selectService (s : ConsistentHashStrategy) (pool : ServicePool) (routingKey : Bytes) :
    Option (Except RoutingError Nat) :=
  if pool.getSize = 0 ∨ s.ring = [] then some (.error .poolEmpty)
  else s.walk pool (lowerBound s.ring (fnv.hash64 routingKey)) 0 s.ring.length

def selectedName (s : ConsistentHashStrategy) (pool : ServicePool) (routingKey : Bytes) :
    Option Bytes :=
  match s.selectService pool routingKey with
  | some (.ok i) => pool.nameAt i
  | _ => none

/-! ### The ring -/

def place (e : UInt64 × Nat) : Nat := e.1.toNat

theorem mem_points {pool : ServicePool} {e : UInt64 × Nat} : e ∈ points pool ↔
    ∃ name v, pool.nameAt e.2 = some name ∧ v < VNODES_PER_SERVICE ∧
      e.1 = fnv.hash64 (label name v) := by
  simp only [points, vnodes, List.mem_flatMap, List.mem_map, List.mem_range, Prod.exists,
    List.mem_zipIdx_iff_getElem?, ServicePool.nameAt, ServicePool.getService,
    Option.map_eq_some_iff]
  constructor
  · rintro ⟨service, i, hi, v, hv, rfl⟩
    exact ⟨_, v, ⟨service, hi, rfl⟩, hv, rfl⟩
  · rintro ⟨_, v, ⟨service, hi, rfl⟩, hv, he⟩
    exact ⟨service, e.2, hi, v, hv, Prod.ext he.symm rfl⟩

theorem place_le {a b : UInt64 × Nat} : a.1 ≤ b.1 ↔ place a ≤ place b := UInt64.le_iff_toNat_le

theorem place_inj {a b : UInt64 × Nat} : a.1 = b.1 ↔ place a = place b := UInt64.toNat_inj.symm

/-- **No two neighbours share a hash, so no two points do.** -/
theorem pairwise_of_collision {l : List (UInt64 × Nat)} : ∀ {i}, collision i l = none →
    l.Pairwise (fun a b => a.1 ≤ b.1) → l.Pairwise fun a b => place a < place b := by
  induction l with
  | nil => exact fun _ _ => .nil
  | cons a l ih =>
    intro i h hl
    cases l with
    | nil => exact List.pairwise_singleton _ _
    | cons b l =>
      rw [collision] at h
      split at h
      · cases h
      · rename_i hne
        obtain ⟨ha, hl⟩ := List.pairwise_cons.mp hl
        have hlt : place a < place b :=
          lt_of_le_of_ne (place_le.mp (ha b List.mem_cons_self))
            fun he => hne (place_inj.mpr he.symm)
        refine List.pairwise_cons.mpr ⟨?_, ih h hl⟩
        intro y hy
        rcases List.mem_cons.mp hy with rfl | hy
        · exact hlt
        · exact hlt.trans_le (place_le.mp ((List.pairwise_cons.mp hl).1 y hy))

theorem collision_congr : ∀ {l m : List (UInt64 × Nat)} {i : Nat},
    l.map Prod.fst = m.map Prod.fst → collision i l = collision i m
  | [], [], _, _ => rfl
  | [a], [b], _, _ => rfl
  | a :: a' :: l, b :: b' :: m, i, h => by
    simp only [List.map_cons, List.cons.injEq] at h
    rw [collision, collision, h.1, h.2.1]
    rw [collision_congr (l := a' :: l) (m := b' :: m) (by simp [h.2])]
  | [], _ :: _, _, h => nomatch h
  | _ :: _, [], _, h => nomatch h
  | [_], _ :: _ :: _, _, h => by simp at h
  | _ :: _ :: _, [_], _, h => by simp at h

theorem pairwise_insertionSort_points (pool : ServicePool) :
    ((points pool).insertionSort fun a b => a.1 ≤ b.1).Pairwise fun a b => a.1 ≤ b.1 := by
  have : Std.Total fun a b : UInt64 × Nat => a.1 ≤ b.1 := ⟨fun a b => UInt64.le_total _ _⟩
  have : IsTrans (UInt64 × Nat) fun a b => a.1 ≤ b.1 := ⟨fun _ _ _ h g => UInt64.le_trans h g⟩
  exact List.pairwise_insertionSort _ _

/-- **Any sort of the points will do.**  `std::ranges::sort` may leave points
with equal hashes in any order; the constructor then throws the same error. -/
theorem ofPool_of_sorted {pool : ServicePool} {l : List (UInt64 × Nat)}
    (hp : l.Perm (points pool)) (hl : l.Pairwise fun a b => a.1 ≤ b.1) :
    ofSorted l = ofPool pool := by
  have hm := pairwise_insertionSort_points pool
  have hperm := hp.trans (List.perm_insertionSort (fun a b => a.1 ≤ b.1) (points pool)).symm
  have hfst : l.map Prod.fst =
      ((points pool).insertionSort fun a b => a.1 ≤ b.1).map Prod.fst := by
    refine (hperm.map _).eq_of_pairwise
      (fun (a b : UInt64) _ _ (h : a ≤ b) g => UInt64.le_antisymm h g) ?_ ?_
    · exact List.pairwise_map.mpr hl
    · exact List.pairwise_map.mpr hm
  have hc := collision_congr (i := 1) hfst
  rw [ofPool, ofSorted, ofSorted, hc]
  cases h : collision 1 ((points pool).insertionSort fun a b => a.1 ≤ b.1) with
  | some i => rfl
  | none =>
    have heq : l = (points pool).insertionSort fun a b => a.1 ≤ b.1 :=
      hperm.eq_of_pairwise (fun _ _ _ _ hab hba => absurd hba hab.asymm)
        (pairwise_of_collision (hc.trans h) hl) (pairwise_of_collision h hm)
    rw [heq]

/-- What a strategy that was built on a pool has for a ring. -/
structure RingOf (s : ConsistentHashStrategy) (pool : ServicePool) : Prop where
  sorted : s.ring.Pairwise fun a b => place a < place b
  mem : ∀ {e}, e ∈ s.ring ↔ e ∈ points pool

theorem ringOf_ofPool {pool : ServicePool} {s : ConsistentHashStrategy}
    (h : ofPool pool = .ok s) : s.RingOf pool := by
  rw [ofPool, ofSorted] at h
  split at h
  · cases h
  · rename_i hc
    obtain rfl := Except.ok.inj h
    exact ⟨pairwise_of_collision hc (pairwise_insertionSort_points pool),
      (List.perm_insertionSort _ _).mem_iff⟩

theorem ofPool_eq_ok {pool : ServicePool} {s : ConsistentHashStrategy}
    (h : (ofPool pool).toOption = some s) : ofPool pool = .ok s := by
  cases hp : ofPool pool with
  | error err =>
    rw [hp] at h
    cases h
  | ok p =>
    rw [hp] at h
    exact congrArg Except.ok (Option.some.inj h)

theorem RingOf.congr {s : ConsistentHashStrategy} {pool pool' : ServicePool} (h : s.RingOf pool)
    (hn : ∀ i, pool'.nameAt i = pool.nameAt i) : s.RingOf pool' :=
  ⟨h.sorted, fun {e} => by rw [h.mem, mem_points, mem_points, hn]⟩

theorem RingOf.exists_mem {s : ConsistentHashStrategy} {pool : ServicePool} (h : s.RingOf pool)
    {i : Nat} {name : Bytes} (hi : pool.nameAt i = some name) {v : Nat}
    (hv : v < VNODES_PER_SERVICE) : (fnv.hash64 (label name v), i) ∈ s.ring :=
  h.mem.mpr (mem_points.mpr ⟨name, v, hi, hv, rfl⟩)

/-! ### The walk -/

def start (routingKey : Bytes) : Nat := (fnv.hash64 routingKey).toNat

theorem lowerBound_eq (ring : List (UInt64 × Nat)) (routingKey : Bytes) :
    lowerBound ring (fnv.hash64 routingKey) = Circle.lowerBound place (start routingKey) ring := by
  simp only [lowerBound, Circle.lowerBound, UInt64.le_iff_toNat_le]
  rfl

section Walk

variable {s : ConsistentHashStrategy} {pool : ServicePool}

def resultOf : Option (UInt64 × Nat) → Except RoutingError Nat
  | some e => .ok e.2
  | none => .error .noHealthyServices

theorem walk_eq (h : s.RingOf pool) (routingKey : Bytes) :
    ∀ left walked, walked + left = s.ring.length →
      s.walk pool (lowerBound s.ring (fnv.hash64 routingKey)) walked left =
        some (resultOf (((Circle.sweep place (start routingKey) s.ring).drop walked).find?
          fun e => pool.healthyAt e.2))
  | 0, walked, hw => by
    have hd : (Circle.sweep place (start routingKey) s.ring).drop walked = [] :=
      List.drop_eq_nil_of_le (by rw [Circle.length_sweep]; omega)
    rw [walk, hd]
    rfl
  | left + 1, walked, hw => by
    have hlt : walked < (Circle.sweep place (start routingKey) s.ring).length := by
      rw [Circle.length_sweep]
      omega
    have he := Circle.getElem?_sweep (f := place) (h := start routingKey) (l := s.ring)
      (k := walked) (by omega)
    rw [List.getElem?_eq_getElem hlt, ← lowerBound_eq] at he
    obtain ⟨name, v, hname, -, -⟩ := mem_points.mp (h.mem.mp (List.mem_of_getElem? he))
    obtain ⟨service, hs, -⟩ := Option.map_eq_some_iff.mp hname
    rw [walk, he, List.drop_eq_getElem_cons hlt, List.find?_cons, ServicePool.healthyAt]
    simp only [Option.bind_eq_bind, Option.bind_some, hs, Option.any_some]
    cases hh : service.healthy with
    | true => rfl
    | false => exact walk_eq h routingKey left (walked + 1) (by omega)

theorem selectService_eq (h : s.RingOf pool) (routingKey : Bytes) (hne : s.ring ≠ []) :
    s.selectService pool routingKey =
      some (resultOf ((Circle.sweep place (start routingKey) s.ring).find?
        fun e => pool.healthyAt e.2)) := by
  have hsize : pool.getSize ≠ 0 := by
    intro h0
    obtain ⟨e, he⟩ := List.exists_mem_of_ne_nil _ hne
    obtain ⟨name, v, hname, -, -⟩ := mem_points.mp (h.mem.mp he)
    obtain ⟨service, hs, -⟩ := Option.map_eq_some_iff.mp hname
    have := ServicePool.getService_eq_some_lt hs
    omega
  rw [selectService, if_neg (not_or.mpr ⟨hsize, hne⟩), walk_eq h routingKey _ 0 (Nat.zero_add _)]
  rfl

/-- **What the strategy selects** is the service of the healthy point that the
walk from the key's hash passes first. -/
theorem selectService_eq_ok (h : s.RingOf pool) {routingKey : Bytes} {i : Nat} :
    s.selectService pool routingKey = some (.ok i) ↔
      ∃ e ∈ s.ring, e.2 = i ∧ pool.healthyAt i = true ∧ ∀ y ∈ s.ring,
        pool.healthyAt y.2 = true →
          y = e ∨ Circle.Before (start routingKey) (place e) (place y) := by
  by_cases hne : s.ring = []
  · rw [selectService, if_pos (Or.inr hne)]
    simp [hne]
  rw [selectService_eq h routingKey hne]
  constructor
  · intro hr
    cases hf : (Circle.sweep place (start routingKey) s.ring).find?
        (fun e => pool.healthyAt e.2) with
    | none =>
      rw [hf] at hr
      cases hr
    | some e =>
      rw [hf] at hr
      cases hr
      obtain ⟨hm, hh, hmin⟩ := (Circle.find?_sweep _ h.sorted).mp hf
      exact ⟨e, hm, rfl, hh, hmin⟩
  · rintro ⟨e, hm, rfl, hh, hmin⟩
    rw [(Circle.find?_sweep _ h.sorted).mpr ⟨hm, hh, hmin⟩]
    rfl

/-- **It selects a service unless none is healthy**, and never throws. -/
theorem selectService_total (h : s.RingOf pool) (routingKey : Bytes) :
    (∃ i, s.selectService pool routingKey = some (.ok i) ∧ pool.healthyAt i = true) ∨
      (∃ err, s.selectService pool routingKey = some (.error err)) ∧
        ∀ i, pool.healthyAt i = false := by
  have hnone : (∀ y ∈ s.ring, pool.healthyAt y.2 = false) → ∀ i, pool.healthyAt i = false := by
    intro hall i
    by_contra hi
    obtain ⟨name, hn⟩ := ServicePool.exists_nameAt (by simpa using hi)
    exact hi (hall _ (h.exists_mem hn (v := 0) (by decide)))
  by_cases hne : s.ring = []
  · refine .inr ⟨⟨.poolEmpty, ?_⟩, hnone ?_⟩
    · rw [selectService, if_pos (Or.inr hne)]
    · intro y hy
      rw [hne] at hy
      cases hy
  rw [selectService_eq h routingKey hne]
  cases hf : (Circle.sweep place (start routingKey) s.ring).find?
      (fun e => pool.healthyAt e.2) with
  | some e => exact .inl ⟨e.2, rfl, ((Circle.find?_sweep _ h.sorted).mp hf).2.1⟩
  | none => exact .inr ⟨⟨_, rfl⟩, hnone (Circle.find?_sweep_eq_none.mp hf)⟩

theorem RingOf.inj (h : s.RingOf pool) {a b : UInt64 × Nat} (ha : a ∈ s.ring) (hb : b ∈ s.ring)
    (hab : place a = place b) : a = b := by
  have hnd : (s.ring.map place).Nodup := List.pairwise_map.mpr (h.sorted.imp fun hlt => hlt.ne)
  exact List.inj_on_of_nodup_map hnd ha hb hab

end Walk

/-! ### Stability -/

def placeOf (name : Bytes) (v : Nat) : Nat := (fnv.hash64 (label name v)).toNat

/-- **The selected name in terms of names:** it owns the point that the walk
passes before the points of all other healthy names. -/
theorem selectedName_eq_some {s : ConsistentHashStrategy} {pool : ServicePool}
    (h : s.RingOf pool) {routingKey n : Bytes} :
    s.selectedName pool routingKey = some n ↔ n ∈ pool.healthyNames ∧
      ∃ v < VNODES_PER_SERVICE, ∀ n' ∈ pool.healthyNames, ∀ v' < VNODES_PER_SERVICE,
        placeOf n v = placeOf n' v' ∨
          Circle.Before (start routingKey) (placeOf n v) (placeOf n' v') := by
  constructor
  · intro hs
    obtain ⟨i, hi, hn⟩ : ∃ i, s.selectService pool routingKey = some (.ok i) ∧
        pool.nameAt i = some n := by
      unfold selectedName at hs
      split at hs
      · exact ⟨_, ‹_›, hs⟩
      · cases hs
    obtain ⟨e, he, rfl, hh, hmin⟩ := (selectService_eq_ok h).mp hi
    obtain ⟨name, v, hname, hv, hhash⟩ := mem_points.mp (h.mem.mp he)
    obtain rfl : name = n := Option.some.inj (hname.symm.trans hn)
    refine ⟨ServicePool.mem_healthyNames.mpr ⟨e.2, hh, hn⟩, v, hv, ?_⟩
    intro n' hn' v' hv'
    obtain ⟨j, hj, hj'⟩ := ServicePool.mem_healthyNames.mp hn'
    have hpl : placeOf name v = place e := by rw [placeOf, place, hhash]
    rw [hpl]
    rcases hmin _ (h.exists_mem hj' hv') hj with heq | hb
    · exact .inl (by rw [← heq]; rfl)
    · exact .inr hb
  · rintro ⟨hn, v, hv, hmin⟩
    obtain ⟨i, hh, hi⟩ := ServicePool.mem_healthyNames.mp hn
    have he := h.exists_mem hi hv
    have hsel : s.selectService pool routingKey = some (.ok i) := by
      refine (selectService_eq_ok h).mpr ⟨_, he, rfl, hh, ?_⟩
      intro y hy hyh
      obtain ⟨n', v', hy', hv', hhash⟩ := mem_points.mp (h.mem.mp hy)
      have hpl : placeOf n' v' = place y := by rw [placeOf, place, hhash]
      rcases hmin n' (ServicePool.mem_healthyNames.mpr ⟨y.2, hyh, hy'⟩) v' hv' with heq | hb
      · exact .inl (h.inj hy he (hpl.symm.trans heq.symm))
      · exact .inr (hpl ▸ hb)
    rw [selectedName, hsel]
    exact hi

/-- **Stability.**  Let the strategies of two pools be built.  If the healthy
names of the second are among those of the first, then a key that the first
routes to a name that is healthy in the second goes to that name there too.
So two pools with the same healthy names route every key alike. -/
theorem consistent_hash_stable {P Q : ServicePool} {p q : ConsistentHashStrategy}
    (hp : ofPool P = .ok p) (hq : ofPool Q = .ok q) (routingKey : Bytes) :
    (∀ n, Q.healthyNames ⊆ P.healthyNames → p.selectedName P routingKey = some n →
      n ∈ Q.healthyNames → q.selectedName Q routingKey = some n) ∧
    ((∀ n, n ∈ P.healthyNames ↔ n ∈ Q.healthyNames) →
      p.selectedName P routingKey = q.selectedName Q routingKey) := by
  have hP := ringOf_ofPool hp
  have hQ := ringOf_ofPool hq
  constructor
  · intro n hsub hs hn
    obtain ⟨-, v, hv, hmin⟩ := (selectedName_eq_some hP).mp hs
    exact (selectedName_eq_some hQ).mpr ⟨hn, v, hv, fun n' hn' => hmin n' (hsub hn')⟩
  · intro hiff
    refine Option.ext ?_
    intro n
    rw [selectedName_eq_some hP, selectedName_eq_some hQ]
    simp only [hiff]

/-- A key that goes to one of two services goes there too when the other is gone. -/
theorem consistent_hash_stable_web :
    ∃ q : ConsistentHashStrategy, ofPool (.ofNodes [{ name := ascii "web-2" }]) = .ok q ∧
      q.selectedName (.ofNodes [{ name := ascii "web-2" }]) (ascii "10.0.0.7") =
        some (ascii "web-2") := by
  have hP :
      ((ofPool (.ofNodes [{ name := ascii "web-1" }, { name := ascii "web-2" }])).toOption.bind
      fun p => p.selectedName (.ofNodes [{ name := ascii "web-1" }, { name := ascii "web-2" }])
        (ascii "10.0.0.7")) = some (ascii "web-2") := by
    decide +kernel
  have hQ : (ofPool (.ofNodes [{ name := ascii "web-2" }])).toOption.isSome := by
    decide +kernel
  obtain ⟨p, hp, hk⟩ := Option.bind_eq_some_iff.mp hP
  obtain ⟨q, hq⟩ := Option.isSome_iff_exists.mp hQ
  exact ⟨q, ofPool_eq_ok hq,
    (consistent_hash_stable (ofPool_eq_ok hp) (ofPool_eq_ok hq) _).1 _ (by decide) hk (by decide)⟩

end ConsistentHashStrategy

end BitBridge
