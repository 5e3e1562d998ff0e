import BitBridge.Lib.Steps
import BitBridge.Routing.P2C
import Mathlib.Algebra.Group.Nat.Defs

/-!
# What two choices guarantee

The draws of `P2CStrategy` are positions in the list of the healthy services.
Two different positions are two different services, and the one that is taken
has no more active connections than the other.

* `selectService_of_draws`: **two draws decide**, once they differ.
* `two_choices`: **what `SelectService` returns**, and what it can return.
* `Balanced.step`: one selection with its increment keeps the loads together.
* `no_runaway`: **no service runs away**: from equal loads, the largest load is
  never more than one above the second largest.
-/

namespace BitBridge

namespace P2CStrategy

open Steps

variable {σ : Type} {dist : Distribution σ} {fuel : Nat} {s t : P2CStrategy σ} {pool : ServicePool}

/-! ### One selection -/

theorem nodup_healthy (pool : ServicePool) : (healthy pool).Nodup :=
  List.nodup_range.filter _

theorem redraw_ne {n : Nat} {a : Fin (n + 1)} {b : Fin (n + 1) × σ} :
    ∀ {fuel : Nat} {rng : σ}, redraw dist n a fuel rng = some b → b.1 ≠ a
  | 0, _, h => nomatch h
  | fuel + 1, rng, h => by
    rw [redraw] at h
    by_cases hb : (dist n rng).1 = a
    · rw [if_pos hb] at h
      exact redraw_ne h
    · rw [if_neg hb, Option.some.injEq] at h
      rw [← h]
      exact hb

theorem pick_eq {l : List Nat} {a b i j : Nat} (hi : l[a]? = some i) (hj : l[b]? = some j)
    (hl : ∀ k ∈ l, pool.healthyAt k = true) :
    pick pool l a b = some (.ok (if pool.loadAt i ≤ pool.loadAt j then i else j)) := by
  obtain ⟨x, hx, -⟩ := ServicePool.healthyAt_eq_true.mp (hl i (List.mem_of_getElem? hi))
  obtain ⟨y, hy, -⟩ := ServicePool.healthyAt_eq_true.mp (hl j (List.mem_of_getElem? hj))
  rw [ServicePool.loadAt_of_getService hx, ServicePool.loadAt_of_getService hy]
  simp only [pick, hi, hj, hx, hy, Option.bind_eq_bind, Option.bind_some]
  split <;> rfl

inductive Chosen (pool : ServicePool) : Option (Except RoutingError Nat) → Prop
  | poolEmpty (hsize : pool.getSize = 0) : Chosen pool (some (.error .poolEmpty))
  | noHealthyServices (hsize : pool.getSize ≠ 0) (hl : healthy pool = []) :
    Chosen pool (some (.error .noHealthyServices))
  | single {i : Nat} (hl : healthy pool = [i]) : Chosen pool (some (.ok i))
  | lighter {i j : Nat} (hi : i ∈ healthy pool) (hj : j ∈ healthy pool) (hne : j ≠ i)
    (hle : pool.loadAt i ≤ pool.loadAt j) : Chosen pool (some (.ok i))

/-- **The form of every selection.** -/
theorem chosen_of_selectService {r : Option (Except RoutingError Nat)}
    (h : selectService dist fuel s pool = some (r, t)) : Chosen pool r := by
  unfold selectService at h
  split at h
  · next hsize =>
    cases h
    exact .poolEmpty hsize
  · next hsize =>
    split at h
    · next hl =>
      cases h
      exact .noHealthyServices hsize hl
    · next i hl =>
      cases h
      exact .single hl
    · next l hne _ =>
      obtain ⟨b, hb, he⟩ := Option.map_eq_some_iff.mp h
      cases he
      have hpos : 0 < (healthy pool).length := List.length_pos_iff.mpr hne
      have ha : (dist ((healthy pool).length - 1) s.rng).1.val < (healthy pool).length := by omega
      have hb' : b.1.val < (healthy pool).length := by omega
      have hdiff : (healthy pool)[b.1.val] ≠
          (healthy pool)[(dist ((healthy pool).length - 1) s.rng).1.val] := fun he =>
        redraw_ne hb (Fin.ext ((nodup_healthy pool).getElem_inj_iff.mp he))
      rw [pick_eq (List.getElem?_eq_getElem ha) (List.getElem?_eq_getElem hb')
        fun k hk => mem_healthy.mp hk]
      split
      · next hle => exact .lighter (List.getElem_mem _) (List.getElem_mem _) hdiff hle
      · next hle =>
        exact .lighter (List.getElem_mem _) (List.getElem_mem _) (Ne.symm hdiff)
          (UInt64.le_of_lt (UInt64.not_le.mp hle))

/-- **Two draws decide.**  Draws of two different positions make the services at
them the two that are compared. -/
theorem selectService_of_draws {a b : Fin ((healthy pool).length - 1 + 1)} {i j : Nat}
    (hi : (healthy pool)[a.val]? = some i) (hj : (healthy pool)[b.val]? = some j) (hne : i ≠ j)
    (ha : (dist ((healthy pool).length - 1) s.rng).1 = a)
    (hb : (dist ((healthy pool).length - 1) (dist ((healthy pool).length - 1) s.rng).2).1 = b) :
    ∃ t, selectService dist (fuel + 1) s pool =
      some (some (.ok (if pool.loadAt i ≤ pool.loadAt j then i else j)), t) := by
  have hab : b ≠ a := by
    rintro rfl
    exact hne (Option.some.inj (hi.symm.trans hj))
  obtain ⟨x, hx, -⟩ := ServicePool.healthyAt_eq_true.mp (mem_healthy.mp (List.mem_of_getElem? hi))
  have hsize := ServicePool.getService_eq_some_lt hx
  have hlen : 2 ≤ (healthy pool).length := by
    have h1 := (List.getElem?_eq_some_iff.mp hi).1
    have h2 := (List.getElem?_eq_some_iff.mp hj).1
    have h3 : b.val ≠ a.val := fun h => hab (Fin.ext h)
    omega
  unfold selectService
  rw [if_neg (by omega)]
  split
  · next hl => exact absurd (congrArg List.length hl) (by rw [List.length_nil]; omega)
  · next k hl => exact absurd (congrArg List.length hl) (by rw [List.length_singleton]; omega)
  · dsimp only
    rw [redraw, ha, hb, if_neg hab, Option.map_some, hb,
      pick_eq hi hj fun k hk => mem_healthy.mp hk]
    exact ⟨_, rfl⟩

/-- A generator whose first draw is `a` and whose later draws are `b`. -/
def drawing (a b : Nat) : Distribution Nat := fun n rng =>
  (⟨(if rng = 0 then a else b) % (n + 1), Nat.mod_lt _ n.succ_pos⟩, rng + 1)

theorem healthy_eq_nil_iff {pool : ServicePool} :
    healthy pool = [] ↔ ∀ i, pool.healthyAt i = false := by
  rw [List.eq_nil_iff_forall_not_mem]
  simp only [mem_healthy, Bool.not_eq_true]

namespace Chosen

variable {r : Option (Except RoutingError Nat)}

theorem eq_poolEmpty_iff (h : Chosen pool r) :
    r = some (.error .poolEmpty) ↔ pool.getSize = 0 := by
  have hpos : ∀ i ∈ healthy pool, pool.getSize ≠ 0 := by
    intro i hi
    obtain ⟨x, hx, -⟩ := ServicePool.healthyAt_eq_true.mp (mem_healthy.mp hi)
    have := ServicePool.getService_eq_some_lt hx
    omega
  cases h with
  | poolEmpty hsize => simp [hsize]
  | noHealthyServices hsize => simp [hsize]
  | single hl => simp [hpos _ (by rw [hl]; exact List.mem_singleton_self _)]
  | lighter hi => simp [hpos _ hi]

theorem eq_noHealthyServices_iff (h : Chosen pool r) : r = some (.error .noHealthyServices) ↔
    pool.getSize ≠ 0 ∧ ∀ i, pool.healthyAt i = false := by
  rw [← healthy_eq_nil_iff]
  cases h with
  | poolEmpty hsize => simp [hsize]
  | noHealthyServices hsize hl => simp [hsize, hl]
  | single hl => simp [hl]
  | lighter hi => simp [List.ne_nil_of_mem hi]

/-- **The selected service** is healthy, and not more loaded than every other. -/
theorem spec {i : Nat} (h : Chosen pool (some (.ok i))) :
    pool.healthyAt i = true ∧ ((∃ j, j ≠ i ∧ pool.healthyAt j = true) →
      ∃ j, j ≠ i ∧ pool.healthyAt j = true ∧ pool.loadAt i ≤ pool.loadAt j) := by
  cases h with
  | single hl =>
    refine ⟨mem_healthy.mp (by rw [hl]; exact List.mem_singleton_self _), ?_⟩
    rintro ⟨j, hne, hj⟩
    have hm := mem_healthy.mpr hj
    rw [hl] at hm
    exact absurd (List.mem_singleton.mp hm) hne
  | @lighter _ j hi hj hne hle =>
    exact ⟨mem_healthy.mp hi, fun _ => ⟨j, hne, mem_healthy.mp hj, hle⟩⟩

theorem exists_ok (h : Chosen pool r) {i : Nat} (hi : pool.healthyAt i = true) :
    ∃ j, r = some (.ok j) := by
  cases h with
  | poolEmpty hsize =>
    obtain ⟨x, hx, -⟩ := ServicePool.healthyAt_eq_true.mp hi
    have := ServicePool.getService_eq_some_lt hx
    omega
  | noHealthyServices _ hl =>
    rw [healthy_eq_nil_iff.mp hl i] at hi
    cases hi
  | single => exact ⟨_, rfl⟩
  | lighter => exact ⟨_, rfl⟩

end Chosen

/-- What is to be returned: an error says that there is no service, or no healthy
one; a service that is selected is in range, healthy, and with others to choose
from not more loaded than all of them. -/
structure Choice (pool : ServicePool) (r : Option (Except RoutingError Nat)) : Prop where
  poolEmpty : r = some (.error .poolEmpty) ↔ pool.getSize = 0
  noHealthyServices : r = some (.error .noHealthyServices) ↔
    pool.getSize ≠ 0 ∧ ∀ i, pool.healthyAt i = false
  selected : (∃ i, pool.healthyAt i = true) →
    ∃ i < pool.getSize, r = some (.ok i) ∧ pool.healthyAt i = true ∧
      ((∃ j, j ≠ i ∧ pool.healthyAt j = true) →
        ∃ j, j ≠ i ∧ pool.healthyAt j = true ∧ pool.loadAt i ≤ pool.loadAt j)
  notHeaviest : ∀ i, (∃ j, j ≠ i ∧ pool.healthyAt j = true) →
    (∀ j, j ≠ i → pool.healthyAt j = true → pool.loadAt j < pool.loadAt i) → r ≠ some (.ok i)

theorem Chosen.choice {r : Option (Except RoutingError Nat)} (h : Chosen pool r) :
    Choice pool r := by
  refine ⟨h.eq_poolEmpty_iff, h.eq_noHealthyServices_iff, ?_, ?_⟩
  · rintro ⟨k, hk⟩
    obtain ⟨i, rfl⟩ := h.exists_ok hk
    obtain ⟨hi, hle⟩ := h.spec
    obtain ⟨x, hx, -⟩ := ServicePool.healthyAt_eq_true.mp hi
    exact ⟨i, ServicePool.getService_eq_some_lt hx, rfl, hi, hle⟩
  · rintro i hother hmax rfl
    obtain ⟨j, hne, hj, hle⟩ := h.spec.2 hother
    exact absurd (hmax j hne hj) (UInt64.not_lt.mpr hle)

/-- With at most one healthy service, nothing is drawn. -/
theorem selectService_of_at_most_one
    (hone : ∀ i j, pool.healthyAt i = true → pool.healthyAt j = true → i = j) :
    ∃ r, ∀ fuel, selectService dist fuel s pool = some (r, s) := by
  by_cases h0 : pool.getSize = 0
  · exact ⟨_, fun _ => selectService_of_empty h0⟩
  · match hl : healthy pool with
    | [] => exact ⟨_, fun _ => selectService_of_nil h0 hl⟩
    | [i] => exact ⟨_, fun _ => selectService_of_singleton h0 hl⟩
    | i :: j :: rest =>
      have hi : i ∈ healthy pool := by simp [hl]
      have hj : j ∈ healthy pool := by simp [hl]
      have hij := (List.pairwise_cons.mp (hl ▸ nodup_healthy pool)).1 j List.mem_cons_self
      exact absurd (hone i j (mem_healthy.mp hi) (mem_healthy.mp hj)) hij

/-- **The power of two choices.**  On every stream that ends the loop there is a
result, which is the only one and a `Choice`; with at most one healthy service it
takes no draw.  And any two different healthy services are compared by some pair
of draws, so each that is not strictly the most loaded can be selected. -/
theorem two_choices (pool : ServicePool) :
    (∀ (σ : Type) (dist : Distribution σ) (s : P2CStrategy σ), Ends dist s pool →
      ∃ r t, (∃ fuel, selectService dist fuel s pool = some (r, t)) ∧
        (∀ fuel q, selectService dist fuel s pool = some q → q = (r, t)) ∧ Choice pool r) ∧
    ((∀ i j, pool.healthyAt i = true → pool.healthyAt j = true → i = j) →
      ∀ (σ : Type) (dist : Distribution σ) (s : P2CStrategy σ),
        ∃ r, (∀ fuel, selectService dist fuel s pool = some (r, s)) ∧ Choice pool r) ∧
    (∀ i j, i ≠ j → pool.healthyAt i = true → pool.healthyAt j = true →
      ∃ a b : Fin ((healthy pool).length - 1 + 1), a ≠ b ∧
        (healthy pool)[a.val]? = some i ∧ (healthy pool)[b.val]? = some j ∧
        ∀ (σ : Type) (dist : Distribution σ) (fuel : Nat) (s : P2CStrategy σ),
          (dist ((healthy pool).length - 1) s.rng).1 = a →
          (dist ((healthy pool).length - 1) (dist ((healthy pool).length - 1) s.rng).2).1 = b →
            ∃ t, selectService dist (fuel + 1) s pool =
              some (some (.ok (if pool.loadAt i ≤ pool.loadAt j then i else j)), t)) ∧
    ∀ i j, i ≠ j → pool.healthyAt i = true → pool.healthyAt j = true →
      pool.loadAt i ≤ pool.loadAt j → ∃ (dist : Distribution Nat) (fuel : Nat)
        (s t : P2CStrategy Nat), selectService dist fuel s pool = some (some (.ok i), t) := by
  have hdraws : ∀ i j, i ≠ j → pool.healthyAt i = true → pool.healthyAt j = true →
      ∃ a b : Fin ((healthy pool).length - 1 + 1), a ≠ b ∧
        (healthy pool)[a.val]? = some i ∧ (healthy pool)[b.val]? = some j := by
    intro i j hne hi hj
    obtain ⟨a, ha⟩ := List.mem_iff_getElem?.mp (mem_healthy.mpr hi)
    obtain ⟨b, hb⟩ := List.mem_iff_getElem?.mp (mem_healthy.mpr hj)
    have hla := (List.getElem?_eq_some_iff.mp ha).1
    have hlb := (List.getElem?_eq_some_iff.mp hb).1
    refine ⟨⟨a, by omega⟩, ⟨b, by omega⟩, ?_, ha, hb⟩
    intro hab
    have hval : a = b := congrArg Fin.val hab
    rw [hval, hb] at ha
    exact hne (Option.some.inj ha).symm
  refine ⟨?_, ?_, ?_, ?_⟩
  · intro σ dist s hends
    obtain ⟨fuel, ⟨r, t⟩, h⟩ := exists_selectService_iff.mpr hends
    refine ⟨r, t, ⟨fuel, h⟩, ?_, (chosen_of_selectService h).choice⟩
    intro k q hq
    exact selectService_unique hq h
  · intro hone σ dist s
    obtain ⟨r, hr⟩ : ∃ r, ∀ fuel, selectService dist fuel s pool = some (r, s) :=
      selectService_of_at_most_one hone
    exact ⟨r, hr, (chosen_of_selectService (hr 0)).choice⟩
  · intro i j hne hi hj
    obtain ⟨a, b, hab, ha, hb⟩ := hdraws i j hne hi hj
    exact ⟨a, b, hab, ha, hb, fun σ dist fuel s h1 h2 => selectService_of_draws ha hb hne h1 h2⟩
  · intro i j hne hi hj hle
    obtain ⟨a, b, -, ha, hb⟩ := hdraws i j hne hi hj
    have hdraw : ∃ t, selectService (drawing a b) 1 ⟨0⟩ pool =
        some (some (.ok (if pool.loadAt i ≤ pool.loadAt j then i else j)), t) :=
      selectService_of_draws ha hb hne (Fin.ofNat_val_eq_self a) (Fin.ofNat_val_eq_self b)
    obtain ⟨t, ht⟩ := hdraw
    rw [if_pos hle] at ht
    exact ⟨_, _, _, t, ht⟩

/-- Three services, of which the first has failed; the last one is the less loaded
of the others. -/
theorem two_choices_three :
    let pool : ServicePool := ⟨[⟨{}, 0, false, 3⟩, ⟨{}, 5, true, 0⟩, ⟨{}, 2, true, 0⟩]⟩
    ∃ fuel t, selectService counting fuel ⟨0⟩ pool = some (some (.ok 2), t) := by
  intro pool
  have hends : Ends counting ⟨0⟩ pool := fun hl => varies_counting.ends _ 0 (by omega) trivial
  obtain ⟨r, t, ⟨fuel, h⟩, -, hchoice⟩ := (two_choices pool).1 Nat counting ⟨0⟩ hends
  obtain ⟨i, hi, rfl, hh, hle⟩ := hchoice.selected ⟨1, rfl⟩
  have h3 : i < 3 := hi
  match i, h3 with
  | 0, _ => cases hh
  | 1, _ =>
    obtain ⟨j, hne, hj, hlight⟩ := hle ⟨2, by decide, rfl⟩
    have hj3 : j < 3 := by
      obtain ⟨x, hx, -⟩ := ServicePool.healthyAt_eq_true.mp hj
      exact ServicePool.getService_eq_some_lt hx
    match j, hj3 with
    | 0, _ => cases hj
    | 1, _ => exact absurd rfl hne
    | 2, _ => exact absurd hlight (by decide)
  | 2, _ => exact ⟨fuel, t, h⟩

/-! ### Selections without releases -/

abbrev Placing (σ : Type) : Type := ServicePool × P2CStrategy σ

/-- `SelectService`, then `IncrementConnections` on the selected service. -/
def place (dist : Distribution σ) (s : Placing σ) (fuel : Nat) : Option (Placing σ) :=
  match selectService dist fuel s.2 s.1 with
  | some (some (.ok i), t) => some (s.1.update i .incrementConnections, t)
  | _ => none

/-- The increment does not wrap the counter. -/
def Counts (dist : Distribution σ) (s : Placing σ) (fuel : Nat) : Prop :=
  ∀ i t, selectService dist fuel s.2 s.1 = some (some (.ok i), t) →
    (s.1.loadAt i).toNat + 1 < 2 ^ 64

def loads (pool : ServicePool) : List Nat := (healthy pool).map fun i => (pool.loadAt i).toNat

/-- The largest load is at most one above the second largest. -/
def NoRunaway (pool : ServicePool) : Prop :=
  ∃ m n rest, (loads pool).insertionSort (fun a b => b ≤ a) = m :: n :: rest ∧ m ≤ n + 1

/-- Every healthy service has another that is not more than one below it. -/
def Balanced (pool : ServicePool) : Prop :=
  ∀ i ∈ healthy pool, ∃ j ∈ healthy pool, j ≠ i ∧
    (pool.loadAt i).toNat ≤ (pool.loadAt j).toNat + 1

theorem place_cases {s v : Placing σ} (h : place dist s fuel = some v) :
    ∃ i t, selectService dist fuel s.2 s.1 = some (some (.ok i), t) ∧
      v = (s.1.update i .incrementConnections, t) := by
  unfold place at h
  split at h
  · next i t hsel => exact ⟨i, t, hsel, (Option.some.inj h).symm⟩
  · cases h

theorem healthy_increment (pool : ServicePool) (i : Nat) :
    healthy (pool.update i .incrementConnections) = healthy pool := by
  rw [healthy, healthy, ServicePool.getSize_update]
  congr 1
  funext j
  exact ServicePool.healthyAt_update pool i j fun _ => rfl

/-- **One selection keeps the loads together.** -/
theorem Balanced.step {s v : Placing σ} (hb : Balanced s.1) (hc : Counts dist s fuel)
    (h : place dist s fuel = some v) : Balanced v.1 := by
  obtain ⟨i, t, hsel, rfl⟩ := place_cases h
  have hroom := hc i t hsel
  obtain ⟨hi, hlighter⟩ := (chosen_of_selectService hsel).spec
  obtain ⟨x, hx, -⟩ := ServicePool.healthyAt_eq_true.mp hi
  have hload : ∀ k, ((s.1.update i .incrementConnections).loadAt k).toNat =
      (s.1.loadAt k).toNat + if i = k then 1 else 0 := by
    intro k
    rw [ServicePool.loadAt_incrementConnections (ServicePool.getService_eq_some_lt hx)]
    split
    · next hik =>
      subst hik
      rw [UInt64.toNat_add]
      exact Nat.mod_eq_of_lt hroom
    · rfl
  intro k hk
  simp only [healthy_increment] at hk ⊢
  by_cases hik : i = k
  · -- the service that was selected: the one it was compared with
    subst hik
    obtain ⟨l, hl, hne, -⟩ := hb i hk
    obtain ⟨j, hji, hj, hle⟩ := hlighter ⟨l, hne, mem_healthy.mp hl⟩
    refine ⟨j, mem_healthy.mpr hj, hji, ?_⟩
    rw [hload, hload, if_pos rfl, if_neg (Ne.symm hji)]
    have := UInt64.le_iff_toNat_le.mp hle
    omega
  · -- any other: the one it had before
    obtain ⟨j, hj, hjk, hle⟩ := hb k hk
    refine ⟨j, hj, hjk, ?_⟩
    rw [hload, hload, if_neg hik]
    omega

theorem exists_cons_cons {α : Type*} : ∀ {l : List α}, 2 ≤ l.length → ∃ a b r, l = a :: b :: r
  | a :: b :: r, _ => ⟨a, b, r, rfl⟩

theorem exists_other (h2 : 2 ≤ (healthy pool).length) (i : Nat) : ∃ j ∈ healthy pool, j ≠ i := by
  obtain ⟨a, b, r, hl⟩ := exists_cons_cons h2
  have hab := (List.pairwise_cons.mp (hl ▸ nodup_healthy pool)).1 b List.mem_cons_self
  rw [hl]
  by_cases ha : a = i
  · exact ⟨b, List.mem_cons_of_mem _ List.mem_cons_self, fun hb => hab (ha.trans hb.symm)⟩
  · exact ⟨a, List.mem_cons_self, ha⟩

theorem noRunaway_of_balanced {pool : ServicePool} (hb : Balanced pool)
    (h2 : 2 ≤ (healthy pool).length) : NoRunaway pool := by
  have hperm := List.perm_insertionSort (fun a b : Nat => b ≤ a) (loads pool)
  have hsorted : ((loads pool).insertionSort fun a b => b ≤ a).Pairwise fun a b => b ≤ a := by
    have : Std.Total fun a b : Nat => b ≤ a := ⟨fun a b => Nat.le_total b a⟩
    have : IsTrans Nat fun a b => b ≤ a := ⟨fun _ _ _ h g => Nat.le_trans g h⟩
    exact List.pairwise_insertionSort _ _
  have hlen : 2 ≤ ((loads pool).insertionSort fun a b => b ≤ a).length := by
    rwa [hperm.length_eq, loads, List.length_map]
  obtain ⟨m, n, rest, hs⟩ := exists_cons_cons hlen
  refine ⟨m, n, rest, hs, ?_⟩
  rw [hs] at hperm hsorted
  obtain ⟨i, hi, rfl⟩ := List.mem_map.mp (hperm.mem_iff.mp List.mem_cons_self)
  obtain ⟨j, hj, hji, hle⟩ := hb i hi
  -- the other loads are those of the other services
  have hrest : (n :: rest).Perm (((healthy pool).erase i).map fun k => (pool.loadAt k).toNat) :=
    (hperm.trans ((List.perm_cons_erase hi).map _)).cons_inv
  have hmem : (pool.loadAt j).toNat ∈ n :: rest :=
    hrest.mem_iff.mpr (List.mem_map_of_mem ((List.mem_erase_of_ne hji).mpr hj))
  have hjn : (pool.loadAt j).toNat ≤ n := by
    rcases List.mem_cons.mp hmem with h | h
    · exact h.le
    · exact (List.pairwise_cons.mp (List.pairwise_cons.mp hsorted).2).1 _ h
  omega

section Run

variable {strategy : P2CStrategy σ} {v : Placing σ}

theorem healthy_of_reaches {ok : Placing σ → Nat → Prop} {s : Placing σ}
    (h : ReachesIn (place dist) ok s v) : healthy v.1 = healthy s.1 := by
  refine h.invariant (I := fun v => healthy v.1 = healthy s.1) rfl ?_
  intro t u e hi _ hs
  obtain ⟨i, t', -, rfl⟩ := place_cases hs
  exact (healthy_increment _ i).trans hi

/-- **No service runs away.**  From a pool without connections and with at least
two healthy services, in every state that selections and their increments lead
to, as long as none wraps a counter, the largest load of a healthy service is at
most one above the second largest; and where there are two, they differ by at
most one. -/
theorem no_runaway {dist : Distribution σ} (hzero : ∀ i, pool.loadAt i = 0)
    (h2 : 2 ≤ (healthy pool).length)
    (h : ReachesIn (place dist) (Counts dist) (pool, strategy) v) :
    NoRunaway v.1 ∧ ∀ i j, healthy v.1 = [i, j] →
      (v.1.loadAt i).toNat ≤ (v.1.loadAt j).toNat + 1 ∧
        (v.1.loadAt j).toNat ≤ (v.1.loadAt i).toNat + 1 := by
  have hb : Balanced v.1 := by
    refine h.invariant (I := fun v => Balanced v.1) ?_ fun hi hok hs => hi.step hok hs
    intro i hi
    obtain ⟨j, hj, hji⟩ := exists_other h2 i
    exact ⟨j, hj, hji, by rw [hzero, hzero]; exact Nat.zero_le _⟩
  have hlen : 2 ≤ (healthy v.1).length := by rwa [healthy_of_reaches h]
  refine ⟨noRunaway_of_balanced hb hlen, ?_⟩
  intro i j hl
  have hij : ∀ a b, healthy v.1 = [a, b] ∨ healthy v.1 = [b, a] →
      (v.1.loadAt a).toNat ≤ (v.1.loadAt b).toNat + 1 := by
    intro a b hab
    obtain ⟨c, hc, hca, hle⟩ := hb a (by rcases hab with h | h <;> simp [h])
    obtain rfl : c = b := by
      rcases hab with h | h <;> rw [h] at hc <;> simp at hc <;> omega
    exact hle
  exact ⟨hij i j (.inl hl), hij j i (.inr hl)⟩

end Run

/-! ### Counters that wrap -/

def alternating : Distribution Bool := fun n rng =>
  (if rng then Fin.last n else ⟨0, n.succ_pos⟩, !rng)

def two (x y : UInt64) : ServicePool := ⟨[⟨{}, x, true, 0⟩, ⟨{}, y, true, 0⟩]⟩

theorem place_two (x y : UInt64) : place alternating (two x y, ⟨false⟩) 1 =
    some (if x ≤ y then two (x + 1) y else two x (y + 1), ⟨false⟩) := by
  have hp : pick (two x y) [0, 1] 0 1 = some (.ok (if x ≤ y then 0 else 1)) :=
    @pick_eq (two x y) [0, 1] 0 1 0 1 rfl rfl fun k hk => by
      rcases List.mem_pair.mp hk with rfl | rfl <;> rfl
  have hsel : selectService alternating 1 ⟨false⟩ (two x y) =
      some (some (.ok (if x ≤ y then 0 else 1)), ⟨false⟩) :=
    congrArg (fun r => some (r, (⟨false⟩ : P2CStrategy Bool))) hp
  rw [place, hsel]
  by_cases h : x ≤ y
  · simp only [if_pos h]
    rfl
  · simp only [if_neg h]
    rfl

theorem reaches_two : ∀ n < 2 ^ 64, Reaches (place alternating) (two 0 0, ⟨false⟩)
    (two (.ofNat n) (.ofNat n), ⟨false⟩)
  | 0, _ => .refl
  | n + 1, hn => by
    have hlt : ¬UInt64.ofNat n + 1 ≤ UInt64.ofNat n := by
      rw [UInt64.le_iff_toNat_le, UInt64.toNat_add,
        UInt64.toNat_ofNat_of_lt' (by omega : n < 2 ^ 64)]
      have : (1 : UInt64).toNat = 1 := rfl
      omega
    have h1 := place_two (.ofNat n) (.ofNat n)
    have h2 := place_two (.ofNat n + 1) (.ofNat n)
    rw [if_pos UInt64.le_rfl] at h1
    rw [if_neg hlt] at h2
    rw [UInt64.ofNat_add]
    exact ((reaches_two n (by omega)).tail trivial h1).tail trivial h2

theorem loadAt_two : ∀ i, (two 0 0).loadAt i = 0
  | 0 => rfl
  | 1 => rfl
  | _ + 2 => rfl

/-- The strategy selects one of two services without connections. -/
theorem no_runaway_one : NoRunaway (two 1 0) ∧ ∀ i j, healthy (two 1 0) = [i, j] →
    ((two 1 0).loadAt i).toNat ≤ ((two 1 0).loadAt j).toNat + 1 ∧
      ((two 1 0).loadAt j).toNat ≤ ((two 1 0).loadAt i).toNat + 1 :=
  no_runaway loadAt_two (by decide) (ReachesIn.single (s := ((two 0 0, ⟨false⟩) : Placing Bool))
    (t := (two 1 0, ⟨false⟩)) (fun i _ _ => by rw [loadAt_two i]; decide) (place_two 0 0))

/-- The counters are 64 bits wide: with both of them full, one more selection
leaves the largest load far above the second. -/
theorem runaway_of_wrap : ¬∀ (σ : Type) (dist : Distribution σ) (pool : ServicePool)
    (strategy : P2CStrategy σ) (v : Placing σ), (∀ i, pool.loadAt i = 0) →
      2 ≤ (healthy pool).length → Reaches (place dist) (pool, strategy) v → NoRunaway v.1 := by
  intro h
  have hlast := place_two (.ofNat (2 ^ 64 - 1)) (.ofNat (2 ^ 64 - 1))
  rw [if_pos UInt64.le_rfl] at hlast
  obtain ⟨m, n, rest, hs, hle⟩ := h Bool alternating (two 0 0) ⟨false⟩ _ loadAt_two (by decide)
    ((reaches_two (2 ^ 64 - 1) (by omega)).tail trivial hlast)
  have hsort : (loads (two 0 (.ofNat (2 ^ 64 - 1)))).insertionSort (fun a b => b ≤ a) =
      [2 ^ 64 - 1, 0] := by decide
  obtain ⟨rfl, rfl, -⟩ : m = 2 ^ 64 - 1 ∧ n = 0 ∧ rest = [] := by
    have := hs.symm.trans hsort
    simpa using this
  omega

end P2CStrategy

end BitBridge
