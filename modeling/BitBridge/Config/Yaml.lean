import BitBridge.Bytes

/-!
# YAML documents

yaml-cpp is not part of the repository.  `Token` is what the code streams into a
`YAML::Emitter`, and `Node.tokens` the stream that spells a tree.  The library
itself is a parameter, `YamlCpp`; `YamlCpp.Reads` and `YamlCpp.RoundTrips` say
what its documentation promises.

* `YamlCpp.field`: the reading pattern of the code, `if (node[key]) node[key].as<T>()`.
* `YamlCpp.Reads.field`: **a key that is there is read back**.
-/

namespace BitBridge

namespace Yaml

/-- The types that the code streams as scalars. -/
inductive Scalar
  | string (s : Bytes)
  | bool (b : Bool)
  | uint16 (v : UInt16)
  | uint32 (v : UInt32)
  deriving DecidableEq, Repr

inductive Token
  | beginMap
  | endMap
  | beginSeq
  | endSeq
  | key
  | value
  | scalar (v : Scalar)
  deriving DecidableEq, Repr

/-- A tree.  The keys that the code writes are strings. -/
inductive Node
  | scalar (v : Scalar)
  | sequence (items : List Node)
  | map (entries : List (Bytes × Node))

def keyTokens (name : Bytes) : List Token := [.key, .scalar (.string name), .value]

namespace Node

mutual

def tokens : Node → List Token
  | .scalar v => [.scalar v]
  | .sequence items => .beginSeq :: (itemTokens items ++ [.endSeq])
  | .map entries => .beginMap :: (entryTokens entries ++ [.endMap])

def itemTokens : List Node → List Token
  | [] => []
  | item :: rest => tokens item ++ itemTokens rest

def entryTokens : List (Bytes × Node) → List Token
  | [] => []
  | (name, value) :: rest => keyTokens name ++ tokens value ++ entryTokens rest

end

/-! ### A stream spells one tree -/

theorem tokens_ne_endSeq (t : Node) (r r' : List Token) : t.tokens ++ r ≠ .endSeq :: r' := by
  cases t <;> simp [tokens]

mutual

theorem tokens_append_inj : ∀ (t t' : Node) {r r' : List Token},
    t.tokens ++ r = t'.tokens ++ r' → t = t' ∧ r = r'
  | .scalar v, t', r, r', h => by
    cases t' with
    | scalar v' => simpa [tokens] using h
    | sequence items' => simp [tokens] at h
    | map entries' => simp [tokens] at h
  | .sequence items, t', r, r', h => by
    cases t' with
    | scalar v' => simp [tokens] at h
    | sequence items' =>
      simp only [tokens, List.cons_append, List.append_assoc, List.nil_append, List.cons.injEq,
        true_and] at h
      obtain ⟨rfl, rfl⟩ := itemTokens_append_inj items items' h
      exact ⟨rfl, rfl⟩
    | map entries' => simp [tokens] at h
  | .map entries, t', r, r', h => by
    cases t' with
    | scalar v' => simp [tokens] at h
    | sequence items' => simp [tokens] at h
    | map entries' =>
      simp only [tokens, List.cons_append, List.append_assoc, List.nil_append, List.cons.injEq,
        true_and] at h
      obtain ⟨rfl, rfl⟩ := entryTokens_append_inj entries entries' h
      exact ⟨rfl, rfl⟩

theorem itemTokens_append_inj : ∀ (l l' : List Node) {r r' : List Token},
    itemTokens l ++ .endSeq :: r = itemTokens l' ++ .endSeq :: r' → l = l' ∧ r = r'
  | [], [], r, r', h => by simpa [itemTokens] using h
  | [], t' :: l', r, r', h => by
    rw [itemTokens, itemTokens, List.append_assoc] at h
    exact absurd h.symm (tokens_ne_endSeq t' _ _)
  | t :: l, [], r, r', h => by
    rw [itemTokens, itemTokens, List.append_assoc] at h
    exact absurd h (tokens_ne_endSeq t _ _)
  | t :: l, t' :: l', r, r', h => by
    rw [itemTokens, itemTokens, List.append_assoc, List.append_assoc] at h
    obtain ⟨rfl, h'⟩ := tokens_append_inj t t' h
    obtain ⟨rfl, rfl⟩ := itemTokens_append_inj l l' h'
    exact ⟨rfl, rfl⟩

theorem entryTokens_append_inj : ∀ (l l' : List (Bytes × Node)) {r r' : List Token},
    entryTokens l ++ .endMap :: r = entryTokens l' ++ .endMap :: r' → l = l' ∧ r = r'
  | [], [], r, r', h => by simpa [entryTokens] using h
  | [], (k', t') :: l', r, r', h => by simp [entryTokens, keyTokens] at h
  | (k, t) :: l, [], r, r', h => by simp [entryTokens, keyTokens] at h
  | (k, t) :: l, (k', t') :: l', r, r', h => by
    simp only [entryTokens, keyTokens, List.cons_append, List.nil_append, List.append_assoc,
      List.cons.injEq, Token.scalar.injEq, Scalar.string.injEq, true_and] at h
    obtain ⟨rfl, ht⟩ := h
    obtain ⟨rfl, h'⟩ := tokens_append_inj t t' ht
    obtain ⟨rfl, rfl⟩ := entryTokens_append_inj l l' h'
    exact ⟨rfl, rfl⟩

end

theorem tokens_inj {t t' : Node} (h : t.tokens = t'.tokens) : t = t' := by
  have h' : t.tokens ++ [] = t'.tokens ++ [] := by rw [h]
  exact (tokens_append_inj t t' h').1

end Node

end Yaml

open Yaml

/-- What the code uses of yaml-cpp; `N` is its `YAML::Node`, an error is the
`what()` of a `YAML::Exception`, and `emit` gives the text that `c_str` points
to. -/
structure YamlCpp (N : Type) where
  emit : List Token → Except Bytes Bytes
  load : Bytes → Except Bytes N
  badFile : Bytes → Bytes
  get : N → Bytes → Except Bytes N
  isDefined : N → Bool
  items : N → List N
  asString : N → Except Bytes Bytes
  asBool : N → Except Bytes Bool
  asUInt16 : N → Except Bytes UInt16
  asUInt32 : N → Except Bytes UInt32

namespace YamlCpp

variable {N α : Type} (Y : YamlCpp N)

/-- `node[key]` if it is defined, read by `as`. -/
def field (as : N → Except Bytes α) (node : N) (key : Bytes) : Except Bytes (Option α) := do
  if Y.isDefined (← Y.get node key) then
    return some (← as (← Y.get node key))
  else
    return none

/-- The nodes `node t` that stand for trees are read as those trees: `operator[]`
finds the key, a loop sees the items, and `as<T>` gives back a scalar that came
from a `T`. -/
structure Reads (node : Node → N) : Prop where
  get : ∀ {entries key t}, entries.lookup key = some t →
    Y.get (node (.map entries)) key = .ok (node t)
  isDefined : ∀ t, Y.isDefined (node t) = true
  items : ∀ ts, Y.items (node (.sequence ts)) = ts.map node
  asString : ∀ v, Y.asString (node (.scalar (.string v))) = .ok v
  asBool : ∀ v, Y.asBool (node (.scalar (.bool v))) = .ok v
  asUInt16 : ∀ v, Y.asUInt16 (node (.scalar (.uint16 v))) = .ok v
  asUInt32 : ∀ v, Y.asUInt32 (node (.scalar (.uint32 v))) = .ok v

/-- The parser returns the tree that the emitter was given. -/
def RoundTrips (node : Node → N) (tokens : List Token) : Prop :=
  ∀ tree : Node, tree.tokens = tokens →
    ∃ text, Y.emit tokens = .ok text ∧ Y.load text = .ok (node tree)

/-- A library that knows one document, `text`, and reads it as the tree `t`. -/
def ofDocument (t : Node) (text : Bytes) : YamlCpp (Option Node) where
  emit tokens := if tokens = t.tokens then .ok text else .error (ascii "unexpected token")
  load s := if s = text then .ok (some t) else .error (ascii "end of map not found")
  badFile filePath := ascii "bad file: " ++ filePath
  get
    | some (.map entries), key => .ok (entries.lookup key)
    | some (.scalar _), _ => .error (ascii "operator[] call on a scalar")
    | _, _ => .ok none
  isDefined := Option.isSome
  items
    | some (.sequence items) => items.map some
    | _ => []
  asString
    | some (.scalar (.string v)) => .ok v
    | _ => .error (ascii "bad conversion")
  asBool
    | some (.scalar (.bool v)) => .ok v
    | _ => .error (ascii "bad conversion")
  asUInt16
    | some (.scalar (.uint16 v)) => .ok v
    | _ => .error (ascii "bad conversion")
  asUInt32
    | some (.scalar (.uint32 v)) => .ok v
    | _ => .error (ascii "bad conversion")

theorem ofDocument_reads (t : Node) (text : Bytes) : (ofDocument t text).Reads some where
  get ht := by rw [← ht]; rfl
  isDefined _ := rfl
  items _ := rfl
  asString _ := rfl
  asBool _ := rfl
  asUInt16 _ := rfl
  asUInt32 _ := rfl

theorem emit_ofDocument (t : Node) (text : Bytes) :
    (ofDocument t text).emit t.tokens = .ok text :=
  if_pos rfl

theorem ofDocument_roundTrips (t : Node) (text : Bytes) :
    (ofDocument t text).RoundTrips some t.tokens := by
  intro t' ht'
  obtain rfl := Node.tokens_inj ht'
  exact ⟨text, emit_ofDocument t' text, if_pos rfl⟩

/-- `Y`, but `text` is read as the tree `t`. -/
def reading (Y : YamlCpp (Option Node)) (text : Bytes) (t : Node) : YamlCpp (Option Node) :=
  { Y with load := fun s => if s = text then .ok (some t) else Y.load s }

theorem emit_reading (Y : YamlCpp (Option Node)) (text : Bytes) (t : Node) :
    (Y.reading text t).emit = Y.emit :=
  rfl

theorem Reads.reading {Y : YamlCpp (Option Node)} (h : Y.Reads some) (text : Bytes) (t : Node) :
    (Y.reading text t).Reads some :=
  { h with }

theorem RoundTrips.reading {Y : YamlCpp (Option Node)} {tokens : List Token} {text : Bytes}
    (h : Y.RoundTrips some tokens) (hne : Y.emit tokens ≠ .ok text) (t : Node) :
    (Y.reading text t).RoundTrips some tokens := by
  intro tree htree
  obtain ⟨doc, hdoc, hload⟩ := h tree htree
  refine ⟨doc, hdoc, ?_⟩
  have hdoc' : doc ≠ text := fun he => hne (he ▸ hdoc)
  exact (if_neg hdoc').trans hload

variable {Y}

theorem Reads.field {node : Node → N} (h : Y.Reads node) {as : N → Except Bytes α}
    {entries : List (Bytes × Node)} {key : Bytes} {t : Node} {a : α}
    (ht : entries.lookup key = some t) (ha : as (node t) = .ok a) :
    Y.field as (node (.map entries)) key = .ok (some a) := by
  simp [YamlCpp.field, h.get ht, h.isDefined, ha, bind, Except.bind, pure, Except.pure]

end YamlCpp

end BitBridge
