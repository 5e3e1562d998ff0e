import BitBridge.Config.Model
import BitBridge.Lib.Positions

/-!
# Removing a selection

`OnRemoveService` collects the selected rows in increasing order and calls
`RemoveService` for each, the last row first.

* `removeService_selection`: **exactly the selected services are removed**, for
  any increasing list of rows.
-/

namespace BitBridge

open Positions

namespace LoadBalancerConfig

theorem removeService_of_le {c : LoadBalancerConfig} {index : Nat}
    (h : c.services.length ≤ index) : c.removeService index = c :=
  if_neg (Nat.not_lt.mpr h)

theorem removeService_eq (c : LoadBalancerConfig) (index : Nat) :
    c.removeService index = { c with services := c.services.eraseIdx index } := by
  rw [removeService]
  split
  · rfl
  · next h => rw [List.eraseIdx_of_length_le (Nat.not_lt.mp h)]

theorem foldr_removeService (l : List Nat) (c : LoadBalancerConfig) :
    l.foldr (fun index c => c.removeService index) c =
      { c with
        services := l.foldr (fun index services => services.eraseIdx index) c.services } := by
  induction l with
  | nil => rfl
  | cons index l ih => rw [List.foldr_cons, List.foldr_cons, ih, removeService_eq]

theorem foldl_removeService {selected : List Nat} (h : selected.Pairwise (· < ·))
    (c : LoadBalancerConfig) : selected.reverse.foldl removeService c =
      { c with services := unselected selected c.services } := by
  rw [List.foldl_reverse, foldr_removeService, foldr_eraseIdx h]

end LoadBalancerConfig

/-- **Removing a selection removes exactly that selection.**  Of every list, the
services at the positions that are not in the selection are left, in order and
with the rest of the configuration as it was; and an index beyond the list
removes nothing. -/
theorem removeService_selection (c : LoadBalancerConfig) {selected : List Nat}
    (h : selected.Pairwise (· < ·)) :
    selected.reverse.foldl LoadBalancerConfig.removeService c =
        { c with services := unselected selected c.services } ∧
      ∀ index, c.services.length ≤ index → c.removeService index = c :=
  ⟨LoadBalancerConfig.foldl_removeService h c,
    fun _ hi => LoadBalancerConfig.removeService_of_le hi⟩

/-- The first and the last of three services. -/
theorem removeService_selection_ends :
    let a : ServiceNode := { name := ascii "a" }
    let b : ServiceNode := { name := ascii "b" }
    let d : ServiceNode := { name := ascii "d" }
    [0, 2].reverse.foldl LoadBalancerConfig.removeService { services := [a, b, d] } =
      ({ services := [b] } : LoadBalancerConfig) :=
  (@removeService_selection _ [0, 2] (by decide)).1

end BitBridge
