import BitBridge.Routing.ConsistentHash

/-!
# The ring as a hash ring

What the constructor of `ConsistentHashStrategy` builds and what `SelectService`
finds on it, in the terms in which hash rings are defined.

* `label_inj`: a label determines its name and its number.
* `ring_construction`: **the constructor** throws exactly when two services
  share a name or two labels share a hash, and what it builds otherwise.
* `before_iff_distance`: the walk passes the points by their distance.
* `nearest_selected`: **the selection** is the service of the healthy point at
  the least distance after the key's hash.
-/

namespace BitBridge.ConsistentHashStrategy

/-! ### Labels -/

theorem label_eq (name : Bytes) (v : Nat) : label name v = name ++ 35 :: decimal v := by
  rw [label, List.append_assoc]
  rfl

/-- **A label determines its name and its number**, whatever is in the name. -/
theorem label_inj {name name' : Bytes} {v v' : Nat} (h : label name v = label name' v') :
    name = name' ∧ v = v' := by
  have hsep : ∀ u, (35 : UInt8) ∉ decimal u := fun u hm => absurd (mem_decimal hm).1 (by decide)
  rw [label_eq, label_eq] at h
  obtain ⟨hn, hd⟩ := append_cons_inj_last (hsep v) (hsep v') h
  exact ⟨hn, decimal_inj hd⟩

def labels (pool : ServicePool) : List Bytes :=
  pool.services.flatMap fun s => (List.range VNODES_PER_SERVICE).map (label s.node.name)

/-! ### The constructor -/

theorem map_fst_points (pool : ServicePool) :
    (points pool).map Prod.fst = (labels pool).map fnv.hash64 := by
  have hfst : ∀ (l : List ServiceState) (k : Nat),
      ((l.zipIdx k).flatMap fun e => vnodes e.1.node.name e.2).map Prod.fst =
        (l.flatMap fun s => (List.range VNODES_PER_SERVICE).map (label s.node.name)).map
          fnv.hash64 := by
    intro l
    induction l with
    | nil => exact fun k => rfl
    | cons s l ih =>
      intro k
      rw [List.zipIdx_cons, List.flatMap_cons, List.flatMap_cons, List.map_append,
        List.map_append, ih]
      rw [vnodes, List.map_map, List.map_map]
      rfl
  exact hfst pool.services 0

theorem length_labels (pool : ServicePool) :
    (labels pool).length = VNODES_PER_SERVICE * pool.getSize := by
  rw [labels, ServicePool.getSize]
  induction pool.services with
  | nil => rfl
  | cons s l ih =>
    rw [List.flatMap_cons, List.length_append, ih, List.length_map, List.length_range,
      List.length_cons, Nat.mul_succ, Nat.add_comm]

theorem length_points (pool : ServicePool) :
    (points pool).length = VNODES_PER_SERVICE * pool.getSize := by
  rw [← length_labels, ← List.length_map (f := Prod.fst), map_fst_points, List.length_map]

theorem collision_eq_none : ∀ {l : List (UInt64 × Nat)} {i : Nat},
    l.Pairwise (fun a b => a.1 < b.1) → collision i l = none
  | [], _, _ => rfl
  | [_], _, _ => rfl
  | a :: b :: l, i, h => by
    obtain ⟨ha, hl⟩ := List.pairwise_cons.mp h
    have hlt := ha b List.mem_cons_self
    have hne : b.1 ≠ a.1 := fun he => UInt64.lt_irrefl _ (he ▸ hlt)
    rw [collision, if_neg hne]
    exact collision_eq_none hl

/-- **The collision check is complete and sound**: it passes a sorted list
exactly when its hashes are all different. -/
theorem collision_eq_none_iff {l : List (UInt64 × Nat)} {i : Nat}
    (hl : l.Pairwise fun a b => a.1 ≤ b.1) : collision i l = none ↔ (l.map Prod.fst).Nodup := by
  constructor
  · intro h
    refine List.pairwise_map.mpr ((pairwise_of_collision h hl).imp ?_)
    intro a b hab he
    exact absurd (place_inj.mp he) hab.ne
  · intro h
    refine collision_eq_none (hl.imp₂ ?_ (List.pairwise_map.mp h))
    intro a b hle hne
    exact UInt64.lt_of_le_of_ne hle hne

def SharedName (pool : ServicePool) : Prop :=
  ∃ i j name, i ≠ j ∧ pool.nameAt i = some name ∧ pool.nameAt j = some name

def HashCollision (pool : ServicePool) : Prop :=
  ∃ a ∈ labels pool, ∃ b ∈ labels pool, a ≠ b ∧ fnv.hash64 a = fnv.hash64 b

theorem nodup_labels_iff {pool : ServicePool} : (labels pool).Nodup ↔
    (pool.services.map fun s => s.node.name).Nodup := by
  have hrange : ∀ name, ((List.range VNODES_PER_SERVICE).map (label name)).Nodup := fun name =>
    List.nodup_range.map fun v w h => (label_inj h).2
  have hdisjoint : ∀ name name' : Bytes,
      List.Disjoint ((List.range VNODES_PER_SERVICE).map (label name))
        ((List.range VNODES_PER_SERVICE).map (label name')) ↔ name ≠ name' := by
    intro name name'
    constructor
    · rintro h rfl
      have hmem : label name 0 ∈ (List.range VNODES_PER_SERVICE).map (label name) :=
        List.mem_map_of_mem (List.mem_range.mpr (by decide))
      exact h hmem hmem
    · intro hne l hl hl'
      obtain ⟨v, -, rfl⟩ := List.mem_map.mp hl
      obtain ⟨w, -, hw⟩ := List.mem_map.mp hl'
      exact hne (label_inj hw).1.symm
  rw [labels, List.nodup_flatMap]
  constructor
  · intro h
    exact List.pairwise_map.mpr (h.2.imp fun hd => (hdisjoint _ _).mp hd)
  · intro h
    exact ⟨fun s _ => hrange s.node.name,
      (List.pairwise_map.mp h).imp fun hne => (hdisjoint _ _).mpr hne⟩

theorem sharedName_iff {pool : ServicePool} : SharedName pool ↔
    ¬ (pool.services.map fun s => s.node.name).Nodup := by
  have hat : ∀ i : Nat, (pool.services.map fun s => s.node.name)[i]? = pool.nameAt i :=
    fun i => List.getElem?_map
  constructor
  · rintro ⟨i, j, name, hne, hi, hj⟩ hnd
    rw [← hat] at hi hj
    exact hne ((List.getElem?_inj (List.getElem?_eq_some_iff.mp hi).1 hnd).mp (hi.trans hj.symm))
  · intro h
    by_contra hno
    refine h (List.nodup_iff_getElem?_ne_getElem?.mpr ?_)
    intro i j hij hj he
    rw [hat, hat] at he
    cases hn : pool.nameAt j with
    | none =>
      rw [← hat, List.getElem?_eq_none_iff] at hn
      omega
    | some name => exact hno ⟨i, j, name, hij.ne, he.trans hn, hn⟩

/-- **When the hashes are all different.** -/
theorem nodup_hashes_iff {pool : ServicePool} : ((labels pool).map fnv.hash64).Nodup ↔
    ¬ SharedName pool ∧ ¬ HashCollision pool := by
  rw [sharedName_iff, not_not, ← nodup_labels_iff]
  constructor
  · intro h
    refine ⟨h.of_map, ?_⟩
    rintro ⟨a, ha, b, hb, hne, he⟩
    exact hne (List.inj_on_of_nodup_map h ha hb he)
  · rintro ⟨hn, hc⟩
    refine (List.nodup_map_iff_inj_on hn).mpr ?_
    intro a ha b hb he
    by_contra hne
    exact hc ⟨a, ha, b, hb, hne, he⟩

/-- **When the constructor throws**, however the sort orders equal hashes. -/
theorem exists_error_iff {pool : ServicePool} {l : List (UInt64 × Nat)}
    (hp : l.Perm (points pool)) (hl : l.Pairwise fun a b => a.1 ≤ b.1) :
    (∃ err, ofSorted l = .error err) ↔ SharedName pool ∨ HashCollision pool := by
  have hnodup : (l.map Prod.fst).Nodup ↔ ¬ SharedName pool ∧ ¬ HashCollision pool := by
    rw [(hp.map Prod.fst).nodup_iff, map_fst_points, nodup_hashes_iff]
  rw [← not_iff_not, not_or, ← hnodup, ← collision_eq_none_iff (i := 1) hl, ofSorted]
  cases collision 1 l with
  | none => simp
  | some i => simp

/-- **Ring construction.**  However the sort orders equal hashes, the constructor
throws exactly when two services share a name or two different labels share a
hash; labels of different names or numbers are different; and a ring that is
built has `150 * n` points whose hashes rise, one for each service and number,
and no others. -/
theorem ring_construction {pool : ServicePool} {l : List (UInt64 × Nat)}
    (hp : l.Perm (points pool)) (hl : l.Pairwise fun a b => a.1 ≤ b.1) :
    ((∃ err, ofSorted l = .error err) ↔ SharedName pool ∨ HashCollision pool) ∧
    (∀ name name' v v', label name v = label name' v' → name = name' ∧ v = v') ∧
    ∀ s, ofSorted l = .ok s →
      s.ring.length = 150 * pool.getSize ∧
      s.ring.Pairwise (fun a b => a.1 < b.1) ∧
      (∀ i name v, pool.nameAt i = some name → v < 150 →
        s.ring.count (fnv.hash64 (label name v), i) = 1) ∧
      ∀ e ∈ s.ring, ∃ name v, pool.nameAt e.2 = some name ∧ v < 150 ∧
        e.1 = fnv.hash64 (label name v) := by
  refine ⟨exists_error_iff hp hl, fun _ _ _ _ => label_inj, ?_⟩
  intro s hs
  have hc : collision 1 l = none ∧ l = s.ring := by
    rw [ofSorted] at hs
    split at hs
    · cases hs
    · next hc => exact ⟨hc, congrArg ring (Except.ok.inj hs)⟩
  obtain ⟨hc, rfl⟩ := hc
  have hlt := pairwise_of_collision hc hl
  refine ⟨hp.length_eq.trans (length_points pool), hlt.imp UInt64.lt_iff_toNat_lt.mpr, ?_, ?_⟩
  · intro i name v hn hv
    refine List.count_eq_one_of_mem (hlt.imp ?_) ?_
    · intro a b hab he
      exact absurd (congrArg place he) hab.ne
    · exact hp.mem_iff.mpr (mem_points.mpr ⟨name, v, hn, hv, rfl⟩)
  · intro e he
    exact mem_points.mp (hp.mem_iff.mp he)

/-- Two services have 300 points; a service that is configured twice has no ring. -/
theorem ring_construction_web :
    let web (name : String) : ServiceNode := { name := ascii name }
    (∃ s, ofPool (.ofNodes [web "web-1", web "web-2"]) = .ok s ∧ s.ring.length = 300 ∧
      s.ring.count (fnv.hash64 (label (ascii "web-2") 149), 1) = 1) ∧
    ∃ err, ofPool (.ofNodes [web "web-1", web "web-1"]) = .error err := by
  intro web
  constructor
  · have hsome : (ofPool (.ofNodes [web "web-1", web "web-2"])).toOption.isSome := by
      decide +kernel
    obtain ⟨s, hs⟩ := Option.isSome_iff_exists.mp hsome
    obtain ⟨hlen, -, hone, -⟩ := (ring_construction (List.perm_insertionSort _ _)
      (pairwise_insertionSort_points _)).2.2 s (ofPool_eq_ok hs)
    exact ⟨s, ofPool_eq_ok hs, hlen, hone 1 (ascii "web-2") 149 rfl (by decide)⟩
  · refine (ring_construction (List.perm_insertionSort _ _)
      (pairwise_insertionSort_points _)).1.mpr (.inl ⟨0, 1, ascii "web-1", by decide, rfl, rfl⟩)

/-! ### The selection -/

/-- How far after the key's hash a point lies, modulo `2 ^ 64`. -/
def distance (routingKey : Bytes) (e : UInt64 × Nat) : UInt64 := e.1 - fnv.hash64 routingKey

/-- **The walk passes the points by their distance.** -/
theorem before_iff_distance {routingKey : Bytes} {a b : UInt64 × Nat} :
    Circle.Before (start routingKey) (place a) (place b) ↔
      distance routingKey a < distance routingKey b := by
  have ha := a.1.toNat_lt
  have hb := b.1.toNat_lt
  have hk := (fnv.hash64 routingKey).toNat_lt
  rw [UInt64.lt_iff_toNat_lt, distance, distance, UInt64.toNat_sub, UInt64.toNat_sub,
    Circle.Before, start, place, place]
  omega

/-- A healthy point at the least distance after the key. -/
structure Nearest (s : ConsistentHashStrategy) (pool : ServicePool) (routingKey : Bytes)
    (e : UInt64 × Nat) : Prop where
  mem : e ∈ s.ring
  healthy : pool.healthyAt e.2 = true
  le : ∀ y ∈ s.ring, pool.healthyAt y.2 = true → distance routingKey e ≤ distance routingKey y

/-- The indices of the ring that `walk` gives to `at`, in order. -/
def examined (s : ConsistentHashStrategy) (pool : ServicePool) (startIdx walked : Nat) :
    Nat → List Nat
  | 0 => []
  | left + 1 =>
    let idx := (startIdx + walked) % s.ring.length
    match s.ring[idx]?.bind fun point => pool.getService point.2 with
    | none => [idx]
    | some service =>
      if service.healthy then [idx] else idx :: s.examined pool startIdx (walked + 1) left

section Selection

variable {s : ConsistentHashStrategy} {pool : ServicePool}

theorem distance_inj (h : s.RingOf pool) {routingKey : Bytes} {a b : UInt64 × Nat}
    (ha : a ∈ s.ring) (hb : b ∈ s.ring) (hab : distance routingKey a = distance routingKey b) :
    a = b := by
  refine h.inj ha hb (place_inj.mp ?_)
  have := congrArg (· + fnv.hash64 routingKey) hab
  simpa [distance] using this

theorem Nearest.unique (h : s.RingOf pool) {routingKey : Bytes} {a b : UInt64 × Nat}
    (ha : Nearest s pool routingKey a) (hb : Nearest s pool routingKey b) : a = b :=
  distance_inj h ha.mem hb.mem
    (UInt64.le_antisymm (ha.le b hb.mem hb.healthy) (hb.le a ha.mem ha.healthy))

/-- **What the walk finds is the nearest point.** -/
theorem selectService_eq_ok_iff (h : s.RingOf pool) {routingKey : Bytes} {i : Nat} :
    s.selectService pool routingKey = some (.ok i) ↔
      ∃ e, Nearest s pool routingKey e ∧ e.2 = i := by
  rw [selectService_eq_ok h]
  constructor
  · rintro ⟨e, he, rfl, hh, hmin⟩
    refine ⟨e, ⟨he, hh, ?_⟩, rfl⟩
    intro y hy hyh
    rcases hmin y hy hyh with rfl | hb
    · exact UInt64.le_refl _
    · exact UInt64.le_of_lt (before_iff_distance.mp hb)
  · rintro ⟨e, he, rfl⟩
    refine ⟨e, he.mem, rfl, he.healthy, ?_⟩
    intro y hy hyh
    by_cases heq : y = e
    · exact .inl heq
    · refine .inr (before_iff_distance.mpr (UInt64.lt_of_le_of_ne (he.le y hy hyh) ?_))
      intro hd
      exact heq (distance_inj h he.mem hy hd).symm

/-! ### What the walk examines -/

theorem mem_examined {startIdx k : Nat} : ∀ {left walked : Nat},
    k ∈ s.examined pool startIdx walked left →
      ∃ w, walked ≤ w ∧ w < walked + left ∧ k = (startIdx + w) % s.ring.length
  | 0, _, h => nomatch h
  | left + 1, walked, h => by
    have hhead : k ∈ [(startIdx + walked) % s.ring.length] →
        ∃ w, walked ≤ w ∧ w < walked + (left + 1) ∧ k = (startIdx + w) % s.ring.length :=
      fun h => ⟨walked, le_rfl, by omega, List.mem_singleton.mp h⟩
    rw [examined] at h
    split at h
    · exact hhead h
    · split at h
      · exact hhead h
      · rcases List.mem_cons.mp h with rfl | h
        · exact hhead (List.mem_singleton_self _)
        · obtain ⟨w, hle, hlt, hk⟩ := mem_examined h
          exact ⟨w, by omega, by omega, hk⟩

/-- **No point is examined twice.** -/
theorem nodup_examined {startIdx : Nat} : ∀ {left walked : Nat},
    walked + left ≤ s.ring.length → (s.examined pool startIdx walked left).Nodup
  | 0, _, _ => List.nodup_nil
  | left + 1, walked, h => by
    rw [examined]
    split
    · exact List.nodup_singleton _
    · split
      · exact List.nodup_singleton _
      · refine List.nodup_cons.mpr ⟨?_, nodup_examined (by omega)⟩
        intro hm
        obtain ⟨w, hle, hlt, hk⟩ := mem_examined hm
        -- the two counters differ by less than the length of the ring
        have hdvd := Nat.dvd_of_mod_eq_zero (Nat.sub_mod_eq_zero_of_mod_eq hk.symm)
        have := Nat.le_of_dvd (by omega) hdvd
        omega

theorem getLast_examined {startIdx i : Nat} : ∀ {left walked : Nat},
    s.walk pool startIdx walked left = some (.ok i) →
      ∃ k e, (s.examined pool startIdx walked left).getLast? = some k ∧
        s.ring[k]? = some e ∧ e.2 = i
  | 0, _, h => by simp [walk] at h
  | left + 1, walked, h => by
    simp only [walk, Option.bind_eq_bind, Option.bind_eq_some_iff] at h
    obtain ⟨e, he, svc, hsvc, h⟩ := h
    rw [examined]
    simp only [he, Option.bind_some, hsvc]
    split at h
    · next hh =>
      rw [if_pos hh]
      simp only [Option.some.injEq, Except.ok.injEq] at h
      exact ⟨_, e, rfl, he, h⟩
    · next hh =>
      rw [if_neg hh]
      obtain ⟨k, e', hk, he', hi⟩ := getLast_examined h
      exact ⟨k, e', by rw [List.getLast?_cons, hk]; rfl, he', hi⟩

/-- **The walk returns the first healthy point of those that it examines.** -/
theorem walk_eq_findSome? (h : s.RingOf pool) (hne : s.ring ≠ []) {startIdx : Nat} :
    ∀ {left walked : Nat}, s.walk pool startIdx walked left =
      some (resultOf ((s.examined pool startIdx walked left).findSome? fun k =>
        s.ring[k]?.filter fun e => pool.healthyAt e.2))
  | 0, _ => rfl
  | left + 1, walked => by
    have hlt : (startIdx + walked) % s.ring.length < s.ring.length :=
      Nat.mod_lt _ (List.length_pos_iff.mpr hne)
    have he := List.getElem?_eq_getElem hlt
    obtain ⟨name, v, hn, -, -⟩ := mem_points.mp (h.mem.mp (List.getElem_mem hlt))
    obtain ⟨svc, hsvc, -⟩ := Option.map_eq_some_iff.mp hn
    have hhealthy : pool.healthyAt (s.ring[(startIdx + walked) % s.ring.length]).2 =
        svc.healthy := by
      rw [ServicePool.healthyAt, hsvc, Option.any_some]
    rw [walk, examined]
    simp only [he, Option.bind_eq_bind, Option.bind_some, hsvc]
    by_cases hh : svc.healthy = true
    · rw [if_pos hh, if_pos hh, List.findSome?_cons, he, Option.filter_some, hhealthy, if_pos hh]
      rfl
    · rw [if_neg hh, if_neg hh, List.findSome?_cons, he, Option.filter_some, hhealthy, if_neg hh]
      exact walk_eq_findSome? h hne

theorem ring_eq_nil_iff (h : s.RingOf pool) : s.ring = [] ↔ pool.getSize = 0 := by
  constructor
  · intro hr
    by_contra hne
    obtain ⟨svc, hsvc⟩ := ServicePool.exists_getService (p := pool) (i := 0) (by omega)
    have hname : pool.nameAt 0 = some svc.node.name := by rw [ServicePool.nameAt, hsvc]; rfl
    have hmem := h.exists_mem hname (v := 0) (by decide)
    rw [hr] at hmem
    cases hmem
  · intro hsize
    refine List.eq_nil_iff_forall_not_mem.mpr ?_
    intro e he
    obtain ⟨name, v, hn, -, -⟩ := mem_points.mp (h.mem.mp he)
    obtain ⟨svc, hsvc, -⟩ := Option.map_eq_some_iff.mp hn
    have := ServicePool.getService_eq_some_lt hsvc
    omega

/-- **The errors**: there is no service, or there is none that is healthy. -/
theorem selectService_error_iff (h : s.RingOf pool) (routingKey : Bytes) :
    (s.selectService pool routingKey = some (.error .poolEmpty) ↔ pool.getSize = 0) ∧
    (s.selectService pool routingKey = some (.error .noHealthyServices) ↔
      pool.getSize ≠ 0 ∧ ∀ i, pool.healthyAt i = false) := by
  by_cases hsize : pool.getSize = 0
  · rw [selectService, if_pos (.inl hsize)]
    simp [hsize]
  have hne : s.ring ≠ [] := fun hr => hsize ((ring_eq_nil_iff h).mp hr)
  have hsel := selectService_eq h routingKey hne
  constructor
  · refine iff_of_false ?_ hsize
    intro hr
    rw [hsel] at hr
    cases hf : (Circle.sweep place (start routingKey) s.ring).find?
        (fun e => pool.healthyAt e.2) with
    | none => simp [hf, resultOf] at hr
    | some e => simp [hf, resultOf] at hr
  · rcases selectService_total h routingKey with ⟨i, hi, hh⟩ | ⟨-, hall⟩
    · refine iff_of_false ?_ ?_
      · rw [hi]
        simp
      · intro hc
        rw [hc.2 i] at hh
        cases hh
    · refine iff_of_true ?_ ⟨hsize, hall⟩
      rw [hsel, Circle.find?_sweep_eq_none.mpr fun y _ => hall y.2]
      rfl

end Selection

/-- **The selection is that of a hash ring.**  Let the strategy be built on a
pool, and let the health of its services be anything by now.  The selected
service is that of the healthy point at the least distance after the key, which
is unique and exists unless no service is healthy; the errors say that there is
no service, or no healthy one; nothing is thrown; and the indices that the walk
examines are in range, are all different, and end with the selected point, which
is the first healthy one among them. -/
theorem nearest_selected {built pool : ServicePool} {s : ConsistentHashStrategy}
    (hs : ofPool built = .ok s)
    (hpool : pool.services.map ServiceState.node = built.services.map ServiceState.node)
    (routingKey : Bytes) :
    (∀ i, s.selectService pool routingKey = some (.ok i) ↔
      ∃ e, Nearest s pool routingKey e ∧ e.2 = i) ∧
    ((∃ i, pool.healthyAt i = true) → ∃! e, Nearest s pool routingKey e) ∧
    (s.selectService pool routingKey = some (.error .noHealthyServices) ↔
      pool.getSize ≠ 0 ∧ ∀ i, pool.healthyAt i = false) ∧
    (s.selectService pool routingKey = some (.error .poolEmpty) ↔ pool.getSize = 0) ∧
    s.selectService pool routingKey ≠ none ∧
    let indices := s.examined pool (lowerBound s.ring (fnv.hash64 routingKey)) 0 s.ring.length
    indices.Nodup ∧
    (∀ k ∈ indices, ∃ e, s.ring[k]? = some e ∧ e.2 < pool.getSize) ∧
    (∀ i, s.selectService pool routingKey = some (.ok i) →
      ∃ k e, indices.getLast? = some k ∧ s.ring[k]? = some e ∧ e.2 = i) ∧
    (pool.getSize ≠ 0 → s.selectService pool routingKey = some (resultOf
      (indices.findSome? fun k => s.ring[k]?.filter fun e => pool.healthyAt e.2))) := by
  have hname : ∀ i, pool.nameAt i = built.nameAt i := by
    intro i
    have hi := congrArg (fun l => (l[i]?).map ServiceNode.name) hpool
    simpa [ServicePool.nameAt, ServicePool.getService, Function.comp_def] using hi
  have h : s.RingOf pool := (ringOf_ofPool hs).congr hname
  have herr := selectService_error_iff h routingKey
  refine ⟨fun i => selectService_eq_ok_iff h, ?_, herr.2, herr.1, ?_, nodup_examined ?_, ?_, ?_, ?_⟩
  · rintro ⟨i, hi⟩
    rcases selectService_total h routingKey with ⟨j, hj, -⟩ | ⟨-, hall⟩
    · obtain ⟨e, he, -⟩ := (selectService_eq_ok_iff h).mp hj
      exact ⟨e, he, fun e' he' => he'.unique h he⟩
    · rw [hall i] at hi
      cases hi
  · rcases selectService_total h routingKey with ⟨j, hj, -⟩ | ⟨⟨err, he⟩, -⟩
    · rw [hj]
      exact Option.some_ne_none _
    · rw [he]
      exact Option.some_ne_none _
  · rw [Nat.zero_add]
  · intro k hk
    obtain ⟨w, -, hw, rfl⟩ := mem_examined hk
    have hlt : (lowerBound s.ring (fnv.hash64 routingKey) + w) % s.ring.length < s.ring.length :=
      Nat.mod_lt _ (by omega)
    obtain ⟨name, v, hn, -, -⟩ := mem_points.mp (h.mem.mp (List.getElem_mem hlt))
    obtain ⟨svc, hsvc, -⟩ := Option.map_eq_some_iff.mp hn
    exact ⟨_, List.getElem?_eq_getElem hlt, ServicePool.getService_eq_some_lt hsvc⟩
  · intro i hi
    rw [selectService] at hi
    split at hi
    · cases hi
    · exact getLast_examined hi
  · intro hsize
    have hne : s.ring ≠ [] := fun hr => hsize ((ring_eq_nil_iff h).mp hr)
    rw [selectService, if_neg (not_or.mpr ⟨hsize, hne⟩), walk_eq_findSome? h hne]

/-- The first of two services has failed since the ring was built. -/
theorem nearest_selected_web :
    let node (name : String) : ServiceNode := { name := ascii name }
    let pool : ServicePool := ⟨[⟨node "web-1", 0, false, 3⟩, ⟨node "web-2", 0, true, 0⟩]⟩
    ∃ s : ConsistentHashStrategy, ofPool (.ofNodes [node "web-1", node "web-2"]) = .ok s ∧
      ∃! e, Nearest s pool (ascii "10.0.0.7") e := by
  intro node pool
  have hs : (ofPool (.ofNodes [node "web-1", node "web-2"])).toOption.isSome := by
    decide +kernel
  obtain ⟨s, hs⟩ := Option.isSome_iff_exists.mp hs
  have hnodes : pool.services.map ServiceState.node = [node "web-1", node "web-2"] := rfl
  exact ⟨s, ofPool_eq_ok hs, (nearest_selected (ofPool_eq_ok hs) hnodes _).2.1 ⟨1, rfl⟩⟩

end BitBridge.ConsistentHashStrategy
