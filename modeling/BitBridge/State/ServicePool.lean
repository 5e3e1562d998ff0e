import BitBridge.Config.Model

/-!
# Services and the pool

`ServiceState` (`core/state/ServiceState.cpp`) is a configured service with its
two counters, which are `size_t`, and its health flag; `ServicePool` is the
vector of them, indexed from 0.  All its users run on one thread, so each
operation is one step, and the compare-and-swap loop of `DecrementConnections`
is its outcome.
-/

namespace BitBridge

structure ServiceState where
  node : ServiceNode
  activeConnections : UInt64
  healthy : Bool
  consecutiveFailures : UInt64
  deriving DecidableEq, Repr

namespace ServiceState

def ofNode (node : ServiceNode) : ServiceState := ⟨node, 0, true, 0⟩

def incrementConnections (s : ServiceState) : ServiceState :=
  { s with activeConnections := s.activeConnections + 1 }

def decrementConnections (s : ServiceState) : ServiceState :=
  if 0 < s.activeConnections then { s with activeConnections := s.activeConnections - 1 } else s

def setHealthy (s : ServiceState) (healthy : Bool) : ServiceState := { s with healthy := healthy }

def incrementFailures (s : ServiceState) : ServiceState :=
  { s with consecutiveFailures := s.consecutiveFailures + 1 }

def resetFailures (s : ServiceState) : ServiceState := { s with consecutiveFailures := 0 }

theorem decrementConnections_node (s : ServiceState) : s.decrementConnections.node = s.node := by
  unfold decrementConnections
  split <;> rfl

@[simp] theorem incrementFailures_healthy (s : ServiceState) :
    s.incrementFailures.healthy = s.healthy := rfl

end ServiceState

structure ServicePool where
  services : List ServiceState
  deriving DecidableEq, Repr

namespace ServicePool

def ofNodes (nodes : List ServiceNode) : ServicePool := ⟨nodes.map .ofNode⟩

def getSize (p : ServicePool) : Nat := p.services.length

/-- `GetService`; `none` is the `std::out_of_range` of `at`. -/
def getService (p : ServicePool) (index : Nat) : Option ServiceState := p.services[index]?

def update (p : ServicePool) (index : Nat) (f : ServiceState → ServiceState) : ServicePool :=
  ⟨p.services.modify index f⟩

/-- `GetService(index).GetNode().GetName()`. -/
def nameAt (p : ServicePool) (index : Nat) : Option Bytes :=
  (p.getService index).map fun s => s.node.name

def healthyAt (p : ServicePool) (index : Nat) : Bool :=
  (p.getService index).any fun s => s.healthy

/-- `GetService(index).GetActiveConnections()`. -/
def loadAt (p : ServicePool) (index : Nat) : UInt64 :=
  ((p.getService index).map fun s => s.activeConnections).getD 0

theorem loadAt_of_getService {p : ServicePool} {i : Nat} {s : ServiceState}
    (h : p.getService i = some s) : p.loadAt i = s.activeConnections := by
  rw [loadAt, h]
  rfl

theorem healthyAt_eq_true {p : ServicePool} {i : Nat} :
    p.healthyAt i = true ↔ ∃ s, p.getService i = some s ∧ s.healthy = true := by
  rw [healthyAt, Option.any_eq_true]

def healthyNames (p : ServicePool) : List Bytes :=
  (p.services.filter fun s => s.healthy).map fun s => s.node.name

theorem mem_healthyNames {p : ServicePool} {n : Bytes} : n ∈ p.healthyNames ↔
    ∃ i, p.healthyAt i = true ∧ p.nameAt i = some n := by
  rw [healthyNames, List.mem_map]
  constructor
  · rintro ⟨s, hs, rfl⟩
    obtain ⟨hm, hh⟩ := List.mem_filter.mp hs
    obtain ⟨i, hi⟩ := List.mem_iff_getElem?.mp hm
    exact ⟨i, by simpa [healthyAt, getService, hi] using hh, by simp [nameAt, getService, hi]⟩
  · rintro ⟨i, hh, hn⟩
    obtain ⟨s, hi, rfl⟩ := Option.map_eq_some_iff.mp hn
    rw [healthyAt, hi] at hh
    exact ⟨s, List.mem_filter.mpr ⟨List.mem_of_getElem? hi, hh⟩, rfl⟩

theorem exists_nameAt {p : ServicePool} {i : Nat} (h : p.healthyAt i = true) :
    ∃ n, p.nameAt i = some n := by
  obtain ⟨s, hs, -⟩ := healthyAt_eq_true.mp h
  exact ⟨s.node.name, by rw [nameAt, hs]; rfl⟩

@[simp] theorem getSize_update (p : ServicePool) (i : Nat) (f : ServiceState → ServiceState) :
    (p.update i f).getSize = p.getSize := List.length_modify _ _ _

theorem getService_eq_some_lt {p : ServicePool} {i : Nat} {s : ServiceState}
    (h : p.getService i = some s) : i < p.getSize := (List.getElem?_eq_some_iff.mp h).1

theorem exists_getService {p : ServicePool} {i : Nat} (h : i < p.getSize) :
    ∃ s, p.getService i = some s := ⟨_, List.getElem?_eq_getElem h⟩

theorem getService_ofNodes (nodes : List ServiceNode) (i : Nat) :
    (ofNodes nodes).getService i = (nodes[i]?).map .ofNode := List.getElem?_map

/-- **A mutator changes the service it is called on, and no other.** -/
theorem getService_update (p : ServicePool) (i j : Nat) (f : ServiceState → ServiceState) :
    (p.update i f).getService j = (p.getService j).map fun s => if i = j then f s else s := by
  rw [getService, update, List.getElem?_modify, getService]
  by_cases h : i = j <;> simp [h]

theorem loadAt_incrementConnections {p : ServicePool} {i : Nat} (hi : i < p.getSize) (j : Nat) :
    (p.update i .incrementConnections).loadAt j =
      if i = j then p.loadAt j + 1 else p.loadAt j := by
  rw [loadAt, getService_update, Option.map_map]
  by_cases h : i = j
  · subst h
    obtain ⟨s, hs⟩ := exists_getService hi
    rw [loadAt_of_getService hs, hs, if_pos rfl, Option.map_some, Function.comp, if_pos rfl]
    rfl
  · rw [if_neg h, loadAt]
    congr 2
    funext s
    rw [Function.comp, if_neg h]

theorem map_getService_update {β : Type} (p : ServicePool) (i j : Nat)
    {f : ServiceState → ServiceState} {g : ServiceState → β} (h : ∀ s, g (f s) = g s) :
    ((p.update i f).getService j).map g = (p.getService j).map g := by
  rw [getService_update, Option.map_map]
  refine congrArg (fun k => Option.map k _) (funext ?_)
  intro s
  rw [Function.comp]
  split
  · exact h s
  · rfl

theorem healthyAt_update (p : ServicePool) (i j : Nat) {f : ServiceState → ServiceState}
    (h : ∀ s, (f s).healthy = s.healthy) : (p.update i f).healthyAt j = p.healthyAt j := by
  have hany : ∀ o : Option ServiceState,
      o.any (fun s => s.healthy) = (o.map fun s => s.healthy).any id := by
    intro o
    cases o <;> rfl
  rw [healthyAt, healthyAt, hany, hany, map_getService_update p i j h]

/-- A mutator of a service that the pool does not have is never called. -/
theorem update_of_none {p : ServicePool} {i : Nat} (h : p.getService i = none)
    (f : ServiceState → ServiceState) : p.update i f = p := by
  cases p with
  | mk services =>
    rw [update, List.modify_eq_self (List.getElem?_eq_none_iff.mp h)]

end ServicePool

end BitBridge
