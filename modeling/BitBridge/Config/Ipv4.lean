import BitBridge.Config.ServiceNode

/-!
# What `IsValidIpv4` accepts

The loop of `ServiceNode::IsValidIpv4` with the calls in it that can fail:
`std::stoi` throws on what is no number, and `back()` of an empty string is
undefined.

* `evalIsValidIpv4_eq`: neither happens.  `std::stoi` is called on one to three
  digits and `back()` on a string with four octets.
* `isValidIpv4_iff`: **the strings accepted are `a.b.c.d`** with four numbers
  up to 255 in decimal, without leading zeros.
-/

namespace BitBridge

namespace ServiceNode

/-- What leaves an evaluation without a value. -/
inductive Fault
  | stoi (e : Stoi.Error)
  | backOfEmpty

/-- The calls of `IsValidIpv4` that do not always return. -/
structure Calls where
  stoi : Bytes → Except Fault Int
  back : Bytes → Except Fault UInt8

/-- The calls as the standard library answers them. -/
def calls : Calls where
  stoi token := (Stoi.stoi token).mapError .stoi
  back s := match s.getLast? with
    | none => .error .backOfEmpty
    | some c => .ok c

/-- `std::getline(stream, token, '.')`: the token and the rest of the stream,
or the failure that ends the loop. -/
def getline (stream : Bytes) : Option (Bytes × Bytes) :=
  if stream = [] then none
  else some (stream.takeWhile (· ≠ 46), (stream.dropWhile (· ≠ 46)).tail)

/-- A turn of the loop, and whether it goes on. -/
def checkToken (k : Calls) (token : Bytes) : Except Fault Bool :=
  if token = [] ∨ 3 < token.length then .ok false
  else if 1 < token.length ∧ token.head? = some 48 then .ok false
  else if token.any fun c => c < 48 ∨ 57 < c then .ok false
  else return (← k.stoi token) ≤ 255

theorem of_getline {stream token rest : Bytes} (h : getline stream = some (token, rest)) :
    stream ≠ [] ∧ token = stream.takeWhile (· ≠ 46) ∧
      rest = (stream.dropWhile (· ≠ 46)).tail := by
  rw [getline] at h
  split at h
  · cases h
  · next hne =>
    simp only [Option.some.injEq, Prod.mk.injEq] at h
    exact ⟨hne, h.1.symm, h.2.symm⟩

theorem length_of_getline {stream token rest : Bytes} (h : getline stream = some (token, rest)) :
    rest.length < stream.length := by
  obtain ⟨hne, -, rfl⟩ := of_getline h
  have h1 := List.length_pos_iff.mpr hne
  have h2 := (List.dropWhile_sublist (fun c : UInt8 => decide (c ≠ 46)) (l := stream)).length_le
  rw [List.length_tail]
  omega

/-- The loop from `stream` on: the octets counted, or `none` where it returns
false. -/
def scan (k : Calls) (stream : Bytes) (octetCount : Nat) : Except Fault (Option Nat) :=
  match _h : getline stream with
  | none => .ok (some octetCount)
  | some (_token, rest) => do
    if ← checkToken k _token then scan k rest (octetCount + 1) else return none
termination_by stream.length
decreasing_by exact length_of_getline _h

def evalIsValidIpv4 (k : Calls) (ip : Bytes) : Except Fault Bool := do
  match ← scan k ip 0 with
  | none => return false
  | some octetCount => if octetCount = 4 then return (← k.back ip) ≠ 46 else return false

/-- Calls that answer as the standard library does where `IsValidIpv4` makes
them, and in any way elsewhere. -/
structure Calls.Agree (k : Calls) : Prop where
  stoi : ∀ token, 1 ≤ token.length → token.length ≤ 3 →
    (∀ c ∈ token, Stoi.isDigit c = true) → k.stoi token = calls.stoi token
  back : ∀ s, s ≠ [] → k.back s = calls.back s

theorem calls_agree : calls.Agree := ⟨fun _ _ _ _ => rfl, fun _ _ => rfl⟩

/-! ### The evaluation -/

theorem calls_stoi {token : Bytes} (h1 : 1 ≤ token.length) (h3 : token.length ≤ 3)
    (hd : ∀ c ∈ token, Stoi.isDigit c = true) :
    calls.stoi token = .ok (Stoi.value token : Int) := by
  have hlt : Stoi.value token < 10 ^ 3 :=
    Nat.lt_of_lt_of_le (Stoi.value_lt hd) (Nat.pow_le_pow_right (by omega) h3)
  have h : Stoi.stoi token = .ok (Stoi.value token : Int) :=
    Stoi.stoi_digits (List.length_pos_iff.mp h1) hd (by omega)
  show (Stoi.stoi token).mapError Fault.stoi = _
  rw [h]
  rfl

theorem checkToken_eq {k : Calls} (hk : k.Agree) (token : Bytes) :
    checkToken k token = .ok (isOctet token) := by
  rw [checkToken]
  split
  · next h =>
    have : isOctet token = false := by
      rw [isOctet, decide_eq_false_iff_not]
      rintro ⟨h1, h2, -⟩
      rcases h with h | h
      · exact h1 h
      · omega
    rw [this]
  · next h =>
    rw [not_or, Nat.not_lt] at h
    split
    · next hz =>
      have : isOctet token = false := by
        rw [isOctet, decide_eq_false_iff_not]
        exact fun h' => h'.2.2.1 hz
      rw [this]
    · next hz =>
      split
      · next ha =>
        have : isOctet token = false := by
          rw [isOctet, decide_eq_false_iff_not]
          rintro ⟨-, -, -, hd, -⟩
          obtain ⟨c, hc, hout⟩ := List.any_eq_true.mp ha
          have hin := List.all_eq_true.mp hd c hc
          simp only [decide_eq_true_eq, UInt8.le_iff_toNat_le, UInt8.lt_iff_toNat_lt] at hin hout
          omega
        rw [this]
      · next ha =>
        have hd : ∀ c ∈ token, Stoi.isDigit c = true := by
          intro c hc
          by_contra hout
          refine ha (List.any_eq_true.mpr ⟨c, hc, ?_⟩)
          rw [Stoi.isDigit, decide_eq_true_iff, UInt8.le_iff_toNat_le, UInt8.le_iff_toNat_le]
            at hout
          rw [decide_eq_true_iff, UInt8.lt_iff_toNat_lt, UInt8.lt_iff_toNat_lt]
          omega
        have h1 : 1 ≤ token.length := List.length_pos_iff.mpr h.1
        rw [hk.stoi token h1 h.2 hd, calls_stoi h1 h.2 hd]
        have hall : token.all (fun c => 48 ≤ c ∧ c ≤ 57) = true := List.all_eq_true.mpr hd
        have ho : isOctet token = decide (Stoi.value token ≤ 255) := by
          rw [isOctet, decide_eq_decide]
          exact ⟨fun h' => h'.2.2.2.2, fun h' => ⟨h.1, h.2, hz, hall, h'⟩⟩
        have hle : decide ((Stoi.value token : Int) ≤ 255) = decide (Stoi.value token ≤ 255) :=
          decide_eq_decide.mpr (by omega)
        rw [ho, ← hle]
        rfl

theorem tokens_append {s : Bytes} : ∀ {token : Bytes}, token ++ s ≠ [] →
    tokens token s =
      (token ++ s.takeWhile (· ≠ 46)) :: tokens [] (s.dropWhile (· ≠ 46)).tail := by
  induction s with
  | nil =>
    intro token hne
    rw [List.append_nil] at hne
    simp [tokens, hne]
  | cons c rest ih =>
    intro token _
    rw [tokens]
    by_cases hc : c = 46
    · subst hc
      simp
    · rw [if_neg hc, ih (by simp), List.takeWhile_cons_of_pos (by simpa using hc),
        List.dropWhile_cons_of_pos (by simpa using hc), List.append_assoc]
      rfl

theorem tokens_of_getline {stream token rest : Bytes} (h : getline stream = some (token, rest)) :
    tokens [] stream = token :: tokens [] rest := by
  obtain ⟨hne, rfl, rfl⟩ := of_getline h
  exact tokens_append hne

theorem scan_eq {k : Calls} (hk : k.Agree) (stream : Bytes) (n : Nat) :
    scan k stream n = .ok (if (tokens [] stream).all isOctet then
      some (n + (tokens [] stream).length) else none) := by
  rw [scan]
  split
  · next h =>
    have hnil : stream = [] := by
      by_contra hne
      rw [getline, if_neg hne] at h
      cases h
    subst hnil
    rfl
  · next token rest h =>
    have hlt := length_of_getline h
    rw [tokens_of_getline h, checkToken_eq hk]
    simp only [bind, Except.bind]
    cases ho : isOctet token with
    | false => simp [ho, pure, Except.pure]
    | true =>
      rw [if_pos rfl, scan_eq hk rest (n + 1), List.all_cons, ho, Bool.true_and, List.length_cons,
        Nat.add_right_comm, Nat.add_assoc]
termination_by stream.length

/-- **The evaluation ends with the answer**, whatever `std::stoi` does on other
strings than one to three digits, and `back()` on the empty one. -/
theorem evalIsValidIpv4_eq {k : Calls} (hk : k.Agree) (ip : Bytes) :
    evalIsValidIpv4 k ip = .ok (isValidIpv4 ip) := by
  rw [evalIsValidIpv4, scan_eq hk]
  simp only [bind, Except.bind, Nat.zero_add]
  by_cases hall : (tokens [] ip).all isOctet = true
  · rw [if_pos hall]
    by_cases hlen : (tokens [] ip).length = 4
    · have hne : ip ≠ [] := by
        rintro rfl
        cases hlen
      have hback : k.back ip = .ok (ip.getLast hne) := by
        rw [hk.back ip hne]
        show (match ip.getLast? with | none => _ | some c => _) = _
        rw [List.getLast?_eq_some_getLast hne]
      simp [isValidIpv4, hall, hlen, hback, List.getLast?_eq_some_getLast hne, pure, Except.pure]
    · simp [isValidIpv4, hlen, pure, Except.pure]
  · simp [isValidIpv4, hall, pure, Except.pure]

/-! ### The strings accepted -/

def dotted (a b c d : Nat) : Bytes :=
  decimal a ++ 46 :: (decimal b ++ 46 :: (decimal c ++ 46 :: decimal d))

theorem isOctet_decimal : ∀ n ≤ 255, isOctet (decimal n) = true := by decide +kernel

theorem decimal_value {t : Bytes} (h : isOctet t = true) : decimal (Stoi.value t) = t := by
  obtain ⟨-, -, -, -, hle⟩ := of_decide_eq_true h
  exact value_inj (isOctet_decimal _ hle) h (value_decimal _)

theorem ne_dot_of_mem_decimal {n : Nat} {c : UInt8} (h : c ∈ decimal n) : c ≠ 46 := by
  rintro rfl
  exact absurd (mem_decimal h).1 (by decide)

theorem tokens_dot (n : Nat) (rest : Bytes) :
    tokens [] (decimal n ++ 46 :: rest) = decimal n :: tokens [] rest := by
  have hd : ∀ c ∈ decimal n, decide (c ≠ 46) = true :=
    fun c hc => decide_eq_true (ne_dot_of_mem_decimal hc)
  rw [tokens_append (by simp), List.nil_append, Stoi.takeWhile_append_of_all hd (by simp),
    List.dropWhile_append_of_pos hd]
  rfl

theorem tokens_decimal {n : Nat} (hn : n ≤ 255) : tokens [] (decimal n) = [decimal n] := by
  obtain ⟨hne, -⟩ := of_decide_eq_true (isOctet_decimal n hn)
  have hd : ∀ c ∈ decimal n, decide (c ≠ 46) = true :=
    fun c hc => decide_eq_true (ne_dot_of_mem_decimal hc)
  have htake : (decimal n).takeWhile (fun c => decide (c ≠ 46)) = decimal n := by
    have h := @Stoi.takeWhile_append_of_all _ _ (decimal n) [] hd (by simp)
    rwa [List.append_nil] at h
  have hdrop : (decimal n).dropWhile (fun c => decide (c ≠ 46)) = [] := by
    have h := @List.dropWhile_append_of_pos _ _ (decimal n) [] hd
    rwa [List.append_nil] at h
  rw [tokens_append hne, List.nil_append, htake, hdrop]
  rfl

theorem tokens_dotted {a b c d : Nat} (hd : d ≤ 255) :
    tokens [] (dotted a b c d) = [decimal a, decimal b, decimal c, decimal d] := by
  rw [dotted, tokens_dot, tokens_dot, tokens_dot, tokens_decimal hd]

theorem octets_dotted {a b c d : Nat} (hd : d ≤ 255) :
    octets (dotted a b c d) = [a, b, c, d] := by
  rw [octets, tokens_dotted hd]
  simp only [List.map_cons, List.map_nil, value_decimal]

theorem isValidIpv4_dotted {a b c d : Nat} (ha : a ≤ 255) (hb : b ≤ 255) (hc : c ≤ 255)
    (hd : d ≤ 255) : isValidIpv4 (dotted a b c d) = true := by
  obtain ⟨hne, -⟩ := of_decide_eq_true (isOctet_decimal d hd)
  have hlast : (dotted a b c d).getLast? ≠ some 46 := by
    intro h
    have hsplit : dotted a b c d =
        (decimal a ++ 46 :: (decimal b ++ 46 :: (decimal c ++ [46]))) ++ decimal d := by
      simp [dotted]
    rw [hsplit, List.getLast?_append_of_ne_nil _ hne] at h
    exact ne_dot_of_mem_decimal (List.mem_of_getLast? h) rfl
  refine decide_eq_true ⟨?_, ?_, hlast⟩
  · rw [tokens_dotted hd]
    simp [isOctet_decimal _ ha, isOctet_decimal _ hb, isOctet_decimal _ hc, isOctet_decimal _ hd]
  · rw [tokens_dotted hd]
    rfl

/-- **What is accepted is `a.b.c.d`**, in the one spelling. -/
theorem dotted_of_isValidIpv4 {ip : Bytes} (h : isValidIpv4 ip = true) :
    ∃ a b c d, a ≤ 255 ∧ b ≤ 255 ∧ c ≤ 255 ∧ d ≤ 255 ∧ ip = dotted a b c d := by
  obtain ⟨hall, hlen, -⟩ := of_decide_eq_true h
  have hjoin : List.intercalate [46] (tokens [] ip) = ip := intercalate_of_isValidIpv4 h
  match htok : tokens [] ip, hlen with
  | [t, u, v, w], _ =>
    rw [htok] at hall hjoin
    simp only [List.all_cons, List.all_nil, Bool.and_eq_true, Bool.and_true] at hall
    obtain ⟨ht, hu, hv, hw⟩ := hall
    have hle : ∀ {x : Bytes}, isOctet x = true → Stoi.value x ≤ 255 :=
      fun hx => (of_decide_eq_true hx).2.2.2.2
    refine ⟨Stoi.value t, Stoi.value u, Stoi.value v, Stoi.value w, hle ht, hle hu, hle hv,
      hle hw, ?_⟩
    rw [dotted, decimal_value ht, decimal_value hu, decimal_value hv, decimal_value hw, ← hjoin]
    simp [List.intercalate_cons_cons]

theorem isValidIpv4_iff {ip : Bytes} : isValidIpv4 ip = true ↔
    ∃ a b c d, a ≤ 255 ∧ b ≤ 255 ∧ c ≤ 255 ∧ d ≤ 255 ∧ ip = dotted a b c d := by
  refine ⟨dotted_of_isValidIpv4, ?_⟩
  rintro ⟨a, b, c, d, ha, hb, hc, hd, rfl⟩
  exact isValidIpv4_dotted ha hb hc hd

/-- **Validation accepts canonical dotted decimal and nothing else.**  It
returns for every string, calls `std::stoi` on nothing but one to three digits
and `back()` on no empty string, and two strings that it accepts with the same
four numbers are the same. -/
theorem isValidIpv4_canonical (ip : Bytes) :
    (∃ b, evalIsValidIpv4 calls ip = .ok b) ∧
    (∀ k : Calls, k.Agree → evalIsValidIpv4 k ip = evalIsValidIpv4 calls ip) ∧
    (evalIsValidIpv4 calls ip = .ok true ↔ ∃ a b c d, a ≤ 255 ∧ b ≤ 255 ∧ c ≤ 255 ∧ d ≤ 255 ∧
      ip = dotted a b c d ∧ octets ip = [a, b, c, d]) ∧
    ∀ ip', evalIsValidIpv4 calls ip = .ok true → evalIsValidIpv4 calls ip' = .ok true →
      ip ≠ ip' → octets ip ≠ octets ip' := by
  have htrue : ∀ s, evalIsValidIpv4 calls s = .ok true ↔ isValidIpv4 s = true := by
    intro s
    rw [evalIsValidIpv4_eq calls_agree, Except.ok.injEq]
  refine ⟨⟨_, evalIsValidIpv4_eq calls_agree ip⟩, fun k hk => ?_, ?_, ?_⟩
  · rw [evalIsValidIpv4_eq hk, evalIsValidIpv4_eq calls_agree]
  · rw [htrue, isValidIpv4_iff]
    constructor
    · rintro ⟨a, b, c, d, ha, hb, hc, hd, rfl⟩
      exact ⟨a, b, c, d, ha, hb, hc, hd, rfl, octets_dotted hd⟩
    · rintro ⟨a, b, c, d, ha, hb, hc, hd, rfl, -⟩
      exact ⟨a, b, c, d, ha, hb, hc, hd, rfl⟩
  · intro ip' h h' hne hoct
    exact hne (octets_inj ((htrue ip).mp h) ((htrue ip').mp h') hoct)

end ServiceNode

end BitBridge
