import BitBridge.Config.Model

/-!
# Valid services

`ServiceNode::IsValid` and `IsValidIpv4` (`lib/model/ServiceNode.cpp`).  The
octets of an address are the strings between its dots; one has at most three
digits and no leading zero, so an address has one spelling.

* `intercalate_tokens`: the octets between dots are the string again.
* `value_inj`: an octet is spelled in one way.
* `octets_inj`: **two valid strings with the same octets are the same.**
-/

namespace BitBridge

namespace ServiceNode

/-- `std::getline(stream, token, '.')` until it fails: what was read of the
current token, and the rest of the stream.  At the end of the stream a token
needs a character. -/
def tokens : Bytes → Bytes → List Bytes
  | token, [] => if token = [] then [] else [token]
  | token, c :: rest => if c = 46 then token :: tokens [] rest else tokens (token ++ [c]) rest

/-- What the loop of `IsValidIpv4` asks of a token; it calls `std::stoi` on digits
only. -/
def isOctet (token : Bytes) : Bool :=
  token ≠ [] ∧ token.length ≤ 3 ∧ ¬(1 < token.length ∧ token.head? = some 48) ∧
    token.all (fun c => 48 ≤ c ∧ c ≤ 57) ∧ Stoi.value token ≤ 255

def isValidIpv4 (ip : Bytes) : Bool :=
  (tokens [] ip).all isOctet ∧ (tokens [] ip).length = 4 ∧ ip.getLast? ≠ some 46

def isValid (s : ServiceNode) : Bool :=
  s.name ≠ [] ∧ s.ip ≠ [] ∧ s.port ≠ 0 ∧ isValidIpv4 s.ip

def octets (ip : Bytes) : List Nat := (tokens [] ip).map Stoi.value

def address (s : ServiceNode) : List Nat × UInt16 := (octets s.ip, s.port)

/-! ### One spelling -/

/-- **The tokens, joined by dots**, are the string, unless it ends with a dot. -/
theorem intercalate_tokens {s : Bytes} : ∀ {token : Bytes}, token ++ s ≠ [] →
    s.getLast? ≠ some 46 → List.intercalate [46] (tokens token s) = token ++ s := by
  induction s with
  | nil =>
    intro token hne _
    rw [List.append_nil] at hne ⊢
    rw [tokens, if_neg hne]
    exact List.intercalate_singleton ..
  | cons c rest ih =>
    intro token _ hlast
    have hrest : rest ≠ [] → rest.getLast? ≠ some 46 := by
      intro hr
      rwa [List.getLast?_cons_of_ne_nil hr] at hlast
    rw [tokens]
    by_cases hc : c = 46
    · subst hc
      have hr : rest ≠ [] := by
        rintro rfl
        exact hlast rfl
      have hjoin : List.intercalate [46] (tokens [] rest) = rest := ih hr (hrest hr)
      obtain ⟨t, l, hl⟩ : ∃ t l, tokens [] rest = t :: l := by
        refine List.exists_cons_of_ne_nil fun hnil => hr ?_
        rw [← hjoin, hnil]
        rfl
      rw [if_pos rfl, hl, List.intercalate_cons_cons, ← hl, hjoin, List.append_assoc]
      rfl
    · rw [if_neg hc]
      by_cases hr : rest = []
      · subst hr
        rw [tokens, if_neg (by simp)]
        exact List.intercalate_singleton ..
      · rw [ih (by simp) (hrest hr), List.append_assoc]
        rfl

structure IsDigit (c : UInt8) (d : Nat) : Prop where
  toNat : c.toNat = d + 48
  le : d ≤ 9

theorem IsDigit.unique {c c' : UInt8} {d : Nat} (h : IsDigit c d) (h' : IsDigit c' d) : c = c' :=
  UInt8.toNat_inj.mp (h.toNat.trans h'.toNat.symm)

/-- The forms of an octet. -/
inductive Octet : Bytes → Nat → Prop
  | one {a : UInt8} {x : Nat} (ha : IsDigit a x) : Octet [a] x
  | two {a b : UInt8} {x y : Nat} (ha : IsDigit a x) (hb : IsDigit b y) (hx : x ≠ 0) :
    Octet [a, b] (10 * x + y)
  | three {a b c : UInt8} {x y z : Nat} (ha : IsDigit a x) (hb : IsDigit b y) (hc : IsDigit c z)
    (hx : x ≠ 0) : Octet [a, b, c] (10 * (10 * x + y) + z)

theorem octet_of_isOctet {t : Bytes} (h : isOctet t = true) : Octet t (Stoi.value t) := by
  obtain ⟨hne, hlen, hzero, hdigits, -⟩ := of_decide_eq_true h
  have hdigit : ∀ c ∈ t, IsDigit c (c.toNat - 48) := by
    intro c hc
    obtain ⟨h1, h2⟩ := of_decide_eq_true (List.all_eq_true.mp hdigits c hc)
    rw [UInt8.le_iff_toNat_le] at h1 h2
    have : (48 : UInt8).toNat = 48 := rfl
    have : (57 : UInt8).toNat = 57 := rfl
    exact ⟨by omega, by omega⟩
  have hfirst : ∀ {a l}, t = a :: l → l ≠ [] → a.toNat - 48 ≠ 0 := by
    rintro a l rfl hl h0
    have ha := (hdigit a List.mem_cons_self).toNat
    refine hzero ⟨?_, congrArg some (UInt8.toNat_inj.mp (by rw [ha, h0]; rfl))⟩
    have := List.length_pos_iff.mpr hl
    rw [List.length_cons]
    omega
  match t, hne, hlen with
  | [a], _, _ =>
    have h := Octet.one (hdigit a (by simp))
    simpa [Stoi.value] using h
  | [a, b], _, _ =>
    have h := Octet.two (hdigit a (by simp)) (hdigit b (by simp)) (hfirst rfl (by simp))
    simpa [Stoi.value] using h
  | [a, b, c], _, _ =>
    have h := Octet.three (hdigit a (by simp)) (hdigit b (by simp)) (hdigit c (by simp))
      (hfirst rfl (by simp))
    simpa [Stoi.value] using h
  | _ :: _ :: _ :: _ :: _, _, hlen =>
    simp only [List.length_cons] at hlen
    omega

theorem Octet.unique {t u : Bytes} {n : Nat} (ht : Octet t n) (hu : Octet u n) : t = u := by
  generalize hm : n = m at hu
  cases ht with
  | one ha =>
    have := ha.le
    cases hu with
    | one ha' => rw [hm] at ha; rw [ha.unique ha']
    | two | three => omega
  | @two a b x y ha hb hx =>
    have h1 := ha.le
    have h2 := hb.le
    cases hu with
    | one ha' => have := ha'.le; omega
    | @two a' b' x' y' ha' hb' =>
      have h1' := ha'.le
      have h2' := hb'.le
      obtain ⟨rfl, rfl⟩ : x = x' ∧ y = y' := by omega
      rw [ha.unique ha', hb.unique hb']
    | three => omega
  | @three a b c x y z ha hb hc hx =>
    have h1 := ha.le
    have h2 := hb.le
    have h3 := hc.le
    cases hu with
    | one ha' => have := ha'.le; omega
    | two ha' hb' => have := ha'.le; have := hb'.le; omega
    | @three a' b' c' x' y' z' ha' hb' hc' =>
      have h1' := ha'.le
      have h2' := hb'.le
      have h3' := hc'.le
      obtain ⟨rfl, rfl, rfl⟩ : x = x' ∧ y = y' ∧ z = z' := by omega
      rw [ha.unique ha', hb.unique hb', hc.unique hc']

/-- **An octet is spelled in one way.** -/
theorem value_inj {t u : Bytes} (ht : isOctet t = true) (hu : isOctet u = true)
    (h : Stoi.value t = Stoi.value u) : t = u :=
  (octet_of_isOctet ht).unique (h ▸ octet_of_isOctet hu)

theorem map_value_inj : ∀ {l m : List Bytes}, l.all isOctet = true → m.all isOctet = true →
    l.map Stoi.value = m.map Stoi.value → l = m
  | [], [], _, _, _ => rfl
  | t :: l, u :: m, hl, hm, h => by
    rw [List.all_cons, Bool.and_eq_true] at hl hm
    rw [List.map_cons, List.map_cons, List.cons.injEq] at h
    rw [value_inj hl.1 hm.1 h.1, map_value_inj hl.2 hm.2 h.2]

theorem intercalate_of_isValidIpv4 {ip : Bytes} (h : isValidIpv4 ip = true) :
    List.intercalate [46] (tokens [] ip) = ip := by
  obtain ⟨-, hlen, hlast⟩ := of_decide_eq_true h
  refine intercalate_tokens (fun hnil => ?_) hlast
  rw [List.nil_append] at hnil
  rw [hnil] at hlen
  cases hlen

/-- **A valid address has one spelling.** -/
theorem octets_inj {a b : Bytes} (ha : isValidIpv4 a = true) (hb : isValidIpv4 b = true)
    (h : octets a = octets b) : a = b := by
  have htokens : tokens [] a = tokens [] b :=
    map_value_inj (of_decide_eq_true ha).1 (of_decide_eq_true hb).1 h
  rw [← intercalate_of_isValidIpv4 ha, ← intercalate_of_isValidIpv4 hb, htokens]

end ServiceNode

end BitBridge
