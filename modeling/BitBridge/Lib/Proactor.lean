import Mathlib.Algebra.BigOperators.Group.List.Basic
import Mathlib.Algebra.GroupWithZero.Nat
import Mathlib.Data.List.Basic
import Mathlib.Data.List.Count
import Mathlib.Data.Nat.Basic
import Mathlib.Order.Basic

/-!
# Pending operations of an asynchronous program

A program that runs on a completion queue starts operations and leaves a
handler with each.  An operation is `waiting` until the outside world finishes
it; it is then `queued` with its result, and its handler runs at some later
turn of the loop.  `κ` names the operations of one program.

* `resolve`: the outside world finishes a waiting operation.
* `cancel`: every waiting operation of a kind is finished with
  `operationAborted`; one that is queued already keeps its result.
* `consume`: the loop takes a queued operation and runs its handler.

The lemmas say what each does to membership, to `count`, the number of pending
operations of a kind, and to `weigh`, which bounds the turns that are left.
`Plain` lists are those of timers, signals, connects and accepts, which transfer
nothing.
-/

namespace Proactor

inductive ErrorCode
  | success
  | operationAborted
  | badDescriptor
  | eof
  | other (value : Nat)
  deriving DecidableEq, Repr

/-- `operator bool`: does the code stand for an error? -/
def ErrorCode.failed : ErrorCode → Bool
  | .success => false
  | _ => true

@[simp] theorem ErrorCode.failed_success : ErrorCode.success.failed = false := rfl

theorem ErrorCode.failed_eq_false {ec : ErrorCode} : ec.failed = false ↔ ec = .success := by
  cases ec <;> simp [failed]

inductive Status
  | waiting
  | queued (ec : ErrorCode) (bytes : Nat)
  deriving DecidableEq, Repr

/-- An operation that was started and whose handler has not run. -/
structure Pending (κ : Type*) where
  op : κ
  status : Status
  deriving DecidableEq, Repr

variable {κ : Type*}

def Pending.abort (f : κ → Bool) (p : Pending κ) : Pending κ :=
  if f p.op ∧ p.status = .waiting then { p with status := .queued .operationAborted 0 } else p

def cancel (f : κ → Bool) (l : List (Pending κ)) : List (Pending κ) := l.map (Pending.abort f)

def count (f : κ → Bool) (l : List (Pending κ)) : Nat := l.countP fun p => f p.op

@[simp] theorem abort_op (f : κ → Bool) (p : Pending κ) : (p.abort f).op = p.op := by
  unfold Pending.abort
  split <;> rfl

theorem mem_cancel {f : κ → Bool} {l : List (Pending κ)} {p : Pending κ} (h : p ∈ cancel f l) :
    p ∈ l ∧ (f p.op → p.status ≠ .waiting) ∨
      ∃ q ∈ l, q.op = p.op ∧ f p.op ∧ q.status = .waiting ∧
        p.status = .queued .operationAborted 0 := by
  obtain ⟨q, hq, rfl⟩ := List.mem_map.mp h
  unfold Pending.abort
  split
  · next hc => exact Or.inr ⟨q, hq, rfl, hc.1, hc.2, rfl⟩
  · next hc => exact Or.inl ⟨hq, fun hf hw => hc ⟨hf, hw⟩⟩

theorem not_waiting_of_mem_cancel {f : κ → Bool} {l : List (Pending κ)} {p : Pending κ}
    (h : p ∈ cancel f l) (hf : f p.op) : p.status ≠ .waiting := by
  rcases mem_cancel h with ⟨-, hw⟩ | ⟨q, -, -, -, -, hs⟩
  · exact hw hf
  · rw [hs]; exact Status.noConfusion

theorem mem_of_waiting_cancel {f : κ → Bool} {l : List (Pending κ)} {op : κ}
    (h : ⟨op, .waiting⟩ ∈ cancel f l) : ⟨op, .waiting⟩ ∈ l := by
  rcases mem_cancel h with ⟨hm, -⟩ | ⟨q, -, -, -, -, hs⟩
  · exact hm
  · exact Status.noConfusion hs

theorem mem_cancel_of_queued {f : κ → Bool} {l : List (Pending κ)} {op : κ} {ec : ErrorCode}
    {n : Nat} (h : ⟨op, .queued ec n⟩ ∈ l) : ⟨op, .queued ec n⟩ ∈ cancel f l :=
  List.mem_map.mpr ⟨_, h, if_neg fun hc => Status.noConfusion hc.2⟩

theorem cancel_eq_self {f : κ → Bool} {l : List (Pending κ)}
    (h : ∀ p ∈ l, p.status ≠ .waiting) : cancel f l = l := by
  refine (List.map_congr_left ?_).trans (List.map_id l)
  intro p hp
  exact if_neg fun hc => h p hp hc.2

theorem exists_op_of_mem_cancel {f : κ → Bool} {l : List (Pending κ)} {p : Pending κ}
    (h : p ∈ cancel f l) : ∃ q ∈ l, q.op = p.op := by
  rcases mem_cancel h with ⟨hm, -⟩ | ⟨q, hq, he, -⟩
  · exact ⟨p, hm, rfl⟩
  · exact ⟨q, hq, he⟩

/-- `p` is an operation of `l`, finished by a cancellation at most. -/
def Continues (l : List (Pending κ)) (p : Pending κ) : Prop :=
  ∃ q ∈ l, q.op = p.op ∧ (p.status = q.status ∨ ∀ n, p.status ≠ .queued .success n)

theorem continues_of_mem {l : List (Pending κ)} {p : Pending κ} (h : p ∈ l) : Continues l p :=
  ⟨p, h, rfl, Or.inl rfl⟩

theorem continues_of_mem_cancel {f : κ → Bool} {l : List (Pending κ)} {p : Pending κ}
    (h : p ∈ cancel f l) : Continues l p := by
  rcases mem_cancel h with ⟨hm, -⟩ | ⟨q, hq, hop, -, -, hst⟩
  · exact continues_of_mem hm
  · exact ⟨q, hq, hop, Or.inr fun n hn => by rw [hst] at hn; cases hn⟩

theorem Continues.trans {l l' : List (Pending κ)} {p : Pending κ} (h : Continues l' p)
    (hl : ∀ q ∈ l', Continues l q) : Continues l p := by
  obtain ⟨q, hq, hop, hst⟩ := h
  obtain ⟨r, hr, hrop, hrst⟩ := hl q hq
  refine ⟨r, hr, hrop.trans hop, ?_⟩
  rcases hst with hst | hst
  · rw [hst]; exact hrst
  · exact Or.inr hst

@[simp] theorem cancel_cancel (f g : κ → Bool) (l : List (Pending κ)) :
    cancel f (cancel g l) = cancel (fun op => f op || g op) l := by
  simp only [cancel, List.map_map, List.map_inj_left]
  intro p _
  rcases p with ⟨op, _ | _⟩ <;> cases hf : f op <;> cases hg : g op <;>
    simp [Pending.abort, hf, hg]

@[simp] theorem count_nil (f : κ → Bool) : count f [] = 0 := rfl

@[simp] theorem count_cons (f : κ → Bool) (p : Pending κ) (l : List (Pending κ)) :
    count f (p :: l) = count f l + if f p.op then 1 else 0 := List.countP_cons

@[simp] theorem count_append (f : κ → Bool) (l₁ l₂ : List (Pending κ)) :
    count f (l₁ ++ l₂) = count f l₁ + count f l₂ := List.countP_append

@[simp] theorem count_cancel (f g : κ → Bool) (l : List (Pending κ)) :
    count f (cancel g l) = count f l := by
  simp [count, cancel, List.countP_map, Function.comp_def]

theorem count_pos {f : κ → Bool} {l : List (Pending κ)} {p : Pending κ} (h : p ∈ l)
    (hf : f p.op) : 0 < count f l := List.countP_pos_iff.mpr ⟨p, h, hf⟩

theorem not_mem_of_count_eq_zero {f : κ → Bool} {l : List (Pending κ)} (h : count f l = 0)
    {p : Pending κ} (hp : p ∈ l) : f p.op = false := by
  by_contra hf
  have := count_pos hp (by simpa using hf)
  omega

theorem count_mono {f g : κ → Bool} (h : ∀ op, f op → g op) (l : List (Pending κ)) :
    count f l ≤ count g l := List.countP_mono_left fun p _ => h p.op

/-- Two kinds that exclude each other, inside a third. -/
theorem count_add_count_le {f g h : κ → Bool} (hf : ∀ op, f op → h op ∧ g op = false)
    (hg : ∀ op, g op → h op) (l : List (Pending κ)) : count f l + count g l ≤ count h l := by
  induction l with
  | nil => exact le_rfl
  | cons p l ih =>
    simp only [count_cons]
    by_cases hfp : f p.op
    · rw [if_pos hfp, if_pos (hf _ hfp).1, if_neg (by simp [(hf _ hfp).2])]
      omega
    · by_cases hgp : g p.op
      · rw [if_neg hfp, if_pos hgp, if_pos (hg _ hgp)]
        omega
      · rw [if_neg hfp, if_neg hgp]
        omega

/-- When one operation at most is of the kind `f` and the others give nothing,
what a pending list gives is what that operation gives. -/
theorem flatMap_of_count_le_one {β : Type*} {f : κ → Bool} {g : Pending κ → List β} {p : Pending κ}
    (hg : ∀ q, f q.op = false → g q = []) : ∀ {l : List (Pending κ)}, count f l ≤ 1 → p ∈ l →
      f p.op → l.flatMap g = g p := by
  intro l
  induction l with
  | nil => intro _ hp; cases hp
  | cons q l ih =>
    intro hc hp hf
    rw [count_cons] at hc
    rw [List.flatMap_cons]
    rcases List.mem_cons.mp hp with rfl | hp
    · rw [if_pos hf] at hc
      have hnil : l.flatMap g = [] :=
        List.flatMap_eq_nil_iff.mpr fun r hr => hg _ (not_mem_of_count_eq_zero (by omega) hr)
      rw [hnil, List.append_nil]
    · have hpos := count_pos hp hf
      have hq : f q.op = false := by
        by_contra hq
        rw [if_pos (by simpa using hq)] at hc
        omega
      rw [hg _ hq, List.nil_append]
      exact ih (by omega) hp hf

/-- What a pending list weighs, by what each operation weighs. -/
def weigh (g : Pending κ → Nat) (l : List (Pending κ)) : Nat := (l.map g).sum

theorem weigh_append (g : Pending κ → Nat) (l₁ l₂ : List (Pending κ)) :
    weigh g (l₁ ++ l₂) = weigh g l₁ + weigh g l₂ := by
  rw [weigh, List.map_append, List.sum_append, weigh, weigh]

theorem weigh_singleton (g : Pending κ → Nat) (p : Pending κ) : weigh g [p] = g p := by
  rw [weigh, List.map_singleton, List.sum_singleton]

theorem weigh_cancel {g : Pending κ → Nat} {f : κ → Bool} (hg : ∀ p, g (p.abort f) ≤ g p)
    (l : List (Pending κ)) : weigh g (cancel f l) ≤ weigh g l := by
  induction l with
  | nil => exact Nat.le_refl _
  | cons p l ih => exact Nat.add_le_add (hg p) ih

/-- No operation of the list has transferred bytes. -/
def Plain (l : List (Pending κ)) : Prop := ∀ op ec n, ⟨op, .queued ec n⟩ ∈ l → n = 0

section Decidable

variable [DecidableEq κ]

/-- The outside world finishes a waiting operation. -/
def resolve (l : List (Pending κ)) (op : κ) (ec : ErrorCode) (bytes : Nat) : List (Pending κ) :=
  l.erase ⟨op, .waiting⟩ ++ [⟨op, .queued ec bytes⟩]

/-- The loop takes a queued operation to run its handler. -/
def consume (l : List (Pending κ)) (op : κ) (ec : ErrorCode) (bytes : Nat) : List (Pending κ) :=
  l.erase ⟨op, .queued ec bytes⟩

theorem mem_resolve {l : List (Pending κ)} {op : κ} {ec : ErrorCode} {n : Nat} {p : Pending κ}
    (h : p ∈ resolve l op ec n) : p ∈ l ∨ p = ⟨op, .queued ec n⟩ := by
  rcases List.mem_append.mp h with h | h
  · exact Or.inl (List.mem_of_mem_erase h)
  · exact Or.inr (List.mem_singleton.mp h)

theorem mem_of_mem_consume {l : List (Pending κ)} {op : κ} {ec : ErrorCode} {n : Nat}
    {p : Pending κ} (h : p ∈ consume l op ec n) : p ∈ l := List.mem_of_mem_erase h

theorem count_erase {f : κ → Bool} {l : List (Pending κ)} {p : Pending κ} (h : p ∈ l) :
    count f (l.erase p) + (if f p.op then 1 else 0) = count f l := by
  rw [← count_cons]
  exact ((List.perm_cons_erase h).countP_eq _).symm

@[simp] theorem count_resolve {f : κ → Bool} {l : List (Pending κ)} {op : κ} {ec : ErrorCode}
    {n : Nat} (h : ⟨op, .waiting⟩ ∈ l) : count f (resolve l op ec n) = count f l := by
  have := count_erase (f := f) h
  simp only [resolve, count_append, count_cons, count_nil, Nat.zero_add]
  exact this

theorem count_consume {f : κ → Bool} {l : List (Pending κ)} {op : κ} {ec : ErrorCode}
    {n : Nat} (h : ⟨op, .queued ec n⟩ ∈ l) :
    count f (consume l op ec n) + (if f op then 1 else 0) = count f l := count_erase h

theorem weigh_erase (g : Pending κ → Nat) {l : List (Pending κ)} {p : Pending κ} (h : p ∈ l) :
    weigh g (l.erase p) + g p = weigh g l := by
  have hsum := ((List.perm_cons_erase h).map g).sum_eq
  rw [List.map_cons, List.sum_cons] at hsum
  rw [weigh, weigh, hsum, Nat.add_comm]

theorem eq_of_count_le_one {f : κ → Bool} {l : List (Pending κ)} {p q : Pending κ}
    (h : count f l ≤ 1) (hp : p ∈ l) (hq : q ∈ l) (hfp : f p.op) (hfq : f q.op) : p = q := by
  by_contra hne
  have hq' : q ∈ l.erase p := (List.mem_erase_of_ne (Ne.symm hne)).mpr hq
  have hc := count_erase (f := f) hp
  rw [if_pos hfp] at hc
  have := count_pos hq' hfq
  omega

theorem mem_resolve_of_mem {l : List (Pending κ)} {op : κ} {ec : ErrorCode} {n : Nat}
    {p : Pending κ} (h : p ∈ l) (hp : p ≠ ⟨op, .waiting⟩) : p ∈ resolve l op ec n :=
  List.mem_append_left _ ((List.mem_erase_of_ne hp).mpr h)

/-! ### Operations that transfer no bytes -/

omit [DecidableEq κ] in
theorem plain_cancel {f : κ → Bool} {l : List (Pending κ)} (h : Plain l) : Plain (cancel f l) := by
  intro op ec n hm
  rcases mem_cancel hm with ⟨hm, -⟩ | ⟨q, -, -, -, -, hs⟩
  · exact h _ _ _ hm
  · cases hs
    rfl

omit [DecidableEq κ] in
theorem plain_waiting (op : κ) : Plain [⟨op, .waiting⟩] := by
  intro op' ec n hm
  cases List.mem_singleton.mp hm

omit [DecidableEq κ] in
theorem plain_append {l l' : List (Pending κ)} (h : Plain l) (h' : Plain l') : Plain (l ++ l') :=
  fun _ _ _ hm => (List.mem_append.mp hm).elim (h _ _ _) (h' _ _ _)

theorem plain_resolve {l : List (Pending κ)} (h : Plain l) (op : κ) (ec : ErrorCode) :
    Plain (resolve l op ec 0) := by
  intro op' ec' n hm
  rcases mem_resolve hm with hm | hm
  · exact h _ _ _ hm
  · cases hm
    rfl

theorem plain_consume {l : List (Pending κ)} (h : Plain l) (op : κ) (ec : ErrorCode) (n : Nat) :
    Plain (consume l op ec n) := fun _ _ _ hm => h _ _ _ (mem_of_mem_consume hm)

end Decidable

end Proactor
