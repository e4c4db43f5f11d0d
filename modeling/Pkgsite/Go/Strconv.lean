import Mathlib.Data.List.Basic
import Mathlib.Algebra.Group.Nat.Basic
import Mathlib.Data.Nat.Digits

/-!
# `strconv.Atoi` and the decimal digits of `%d`

`strconv.Atoi` on a 64-bit platform takes a fast path for texts of `1` to `18` bytes, and
otherwise calls `ParseInt(s, 10, 0)`: an optional sign, the magnitude by `ParseUint` in `uint64`
arithmetic with its two overflow checks, and the cutoff `2^63`. `fmt`'s `%d` of an `int` writes
the digits of `Nat.toDigits 10`, after a `-` for a negative value: Lean's `toString`.

* `fastDigits`, `atoiSmall`, `parseUintLoop`, `parseUint`, `pickSign`, `parseInt`, `atoi`;
* `digitStep`, `decimalValue`: the value of a digit string;
* **`atoi_of_digits`**: on a nonempty digit string `Atoi` returns the value when it is below
  `2^63`, and a range error otherwise, on either path;
* `parseUintLoop_eq_fastDigits`, `parseInt_of_length_le`, `atoiSmall_eq`: below `19` characters
  both paths are the sign, then the fast loop; **`atoi_eq_parseInt`**: `Atoi` is `ParseInt` on
  every text;
* **`decimalValue_toDigits`**: the digits of `%d` read back as the number.
-/

namespace Pkgsite.Strconv

theorem isDigit_iff (c : Char) : c.isDigit = true ↔ 48 ≤ c.toNat ∧ c.toNat ≤ 57 := by
  simp [Char.isDigit, Char.toNat, UInt32.le_def, BitVec.le_def, UInt32.toNat]

/-- The `Err` of the `*NumError` that `Atoi` returns. -/
inductive NumError where
  /-- `ErrSyntax`. -/
  | errSyntax
  /-- `ErrRange`. -/
  | errRange
  deriving DecidableEq, Repr

/-! ## `Atoi` -/

/-- The digit loop of `Atoi`'s fast path from the accumulator `n`: `ch -= '0'` exceeds `9` for
every byte but a digit (below `'0'` the subtraction wraps), and `n*10 + ch` cannot overflow `int`
in fewer than `19` digits. -/
def fastDigits (n : Nat) : List Char → Except NumError Nat
  | [] => .ok n
  | c :: s => if c.isDigit then fastDigits (n * 10 + (c.toNat - 48)) s else .error .errSyntax

/-- The fast path of `Atoi`, for `0 < len(s) < 19`. -/
def atoiSmall : List Char → Except NumError Int
  | '-' :: s => if s.length < 1 then .error .errSyntax else (fastDigits 0 s).map fun n => -(n : Int)
  | '+' :: s => if s.length < 1 then .error .errSyntax else (fastDigits 0 s).map fun n => (n : Int)
  | s => (fastDigits 0 s).map fun n => (n : Int)

/-- `maxUint64`. -/
def maxUint64 : Nat := 2 ^ 64 - 1

/-- The digit loop of `ParseUint(s, 10, 64)` from the `uint64` accumulator `n`. In base `10`
every byte but a digit is a syntax error (a letter's value `10..35` fails `d >= base`). Before
`n *= 10` the loop checks `n >= cutoff` with `cutoff = maxUint64/10 + 1`, so the product fits;
`n1 := n + d` is taken modulo `2^64`, and `n1 < n` catches the wrap. -/
def parseUintLoop (n : Nat) : List Char → Except NumError Nat
  | [] => .ok n
  | c :: s =>
    if ¬ c.isDigit then .error .errSyntax
    else if maxUint64 / 10 + 1 ≤ n then .error .errRange
    else
      let n1 := (n * 10 + (c.toNat - 48)) % 2 ^ 64
      if n1 < n * 10 ∨ maxUint64 < n1 then .error .errRange else parseUintLoop n1 s

/-- `ParseUint(s, 10, 64)`. -/
def parseUint (s : List Char) : Except NumError Nat :=
  if s = [] then .error .errSyntax else parseUintLoop 0 s

/-- The leading sign `ParseInt` picks off: whether it is `'-'`, and the rest. -/
def pickSign : List Char → Bool × List Char
  | '+' :: s => (false, s)
  | '-' :: s => (true, s)
  | s => (false, s)

/-- `ParseInt(s, 10, 0)` with `IntSize = 64`. A syntax error of `ParseUint` is returned as it is;
its range error comes with the magnitude `maxUint64`, past the cutoff for either sign, so it ends
as a range error too. -/
def parseInt (s0 : List Char) : Except NumError Int :=
  if s0 = [] then .error .errSyntax
  else
    match parseUint (pickSign s0).2 with
    | .error e => .error e
    | .ok un =>
      if !(pickSign s0).1 && 2 ^ 63 ≤ un then .error .errRange
      else if (pickSign s0).1 && 2 ^ 63 < un then .error .errRange
      else .ok (if (pickSign s0).1 then -(un : Int) else un)

/-- `strconv.Atoi` with `intSize = 64`; `len(s)` counts bytes. -/
def atoi (s : String) : Except NumError Int :=
  if 0 < s.utf8ByteSize ∧ s.utf8ByteSize < 19 then atoiSmall s.data else parseInt s.data

/-! ## The value of a digit string -/

/-- One step of reading a decimal digit. -/
def digitStep (n : Nat) (c : Char) : Nat := n * 10 + (c.toNat - 48)

/-- The value of a string of decimal digits. -/
def decimalValue (s : List Char) : Nat := s.foldl digitStep 0

section Digits

variable {s : List Char}

theorem le_foldl_digitStep (s : List Char) (n : Nat) : n ≤ s.foldl digitStep n := by
  induction s generalizing n with
  | nil => exact le_rfl
  | cons c s ih => exact le_trans (by simp only [digitStep]; omega) (ih _)

theorem foldl_digitStep_lt (hs : ∀ c ∈ s, c.isDigit) (n : Nat) :
    s.foldl digitStep n < (n + 1) * 10 ^ s.length := by
  induction s generalizing n with
  | nil => simp
  | cons c s ih =>
    have hc := (isDigit_iff c).mp (hs c (List.mem_cons_self c s))
    have := ih (fun c h => hs c (List.mem_cons_of_mem _ h)) (digitStep n c)
    have hstep : digitStep n c + 1 ≤ (n + 1) * 10 := by simp only [digitStep]; omega
    calc s.foldl digitStep (digitStep n c) < (digitStep n c + 1) * 10 ^ s.length := this
      _ ≤ (n + 1) * 10 * 10 ^ s.length := Nat.mul_le_mul_right _ hstep
      _ = (n + 1) * 10 ^ (c :: s).length := by
        rw [List.length_cons, Nat.pow_succ, Nat.mul_assoc, Nat.mul_comm 10]

theorem fastDigits_of_digits (hs : ∀ c ∈ s, c.isDigit) (n : Nat) :
    fastDigits n s = .ok (s.foldl digitStep n) := by
  induction s generalizing n with
  | nil => rfl
  | cons c s ih =>
    rw [fastDigits, if_pos (hs c (List.mem_cons_self c s)),
      ih (fun c h => hs c (List.mem_cons_of_mem _ h))]
    rfl

theorem parseUintLoop_of_digits (hs : ∀ c ∈ s, c.isDigit) (n : Nat) (hn : n ≤ maxUint64) :
    parseUintLoop n s =
      if s.foldl digitStep n ≤ maxUint64 then .ok (s.foldl digitStep n) else .error .errRange := by
  induction s generalizing n with
  | nil => simp [parseUintLoop, hn]
  | cons c s ih =>
    have hc := (isDigit_iff c).mp (hs c (List.mem_cons_self c s))
    have hge := le_foldl_digitStep s (digitStep n c)
    simp only [digitStep] at hge
    have hmax : maxUint64 = 18446744073709551615 := rfl
    rw [parseUintLoop, if_neg (by simp [hs c (List.mem_cons_self c s)]), List.foldl_cons]
    split
    · rw [if_neg (by simp only [digitStep]; omega)]
    · have h64 : (2 : Nat) ^ 64 = 18446744073709551616 := rfl
      simp only [h64]
      split
      · rw [if_neg (by simp only [digitStep]; omega)]
      · have hlt : n * 10 + (c.toNat - 48) < 18446744073709551616 := by omega
        rw [Nat.mod_eq_of_lt hlt] at *
        exact ih (fun c h => hs c (List.mem_cons_of_mem _ h)) _ (by omega)

theorem utf8ByteSize_of_digits (hs : ∀ c ∈ s, c.isDigit) :
    (String.mk s).utf8ByteSize = s.length := by
  induction s with
  | nil => rfl
  | cons c s ih =>
    have hc := (isDigit_iff c).mp (hs c (List.mem_cons_self c s))
    have h1 : c.utf8Size = 1 := by
      have : c.toNat = c.val.toBitVec.toNat := rfl
      simp only [Char.utf8Size, UInt32.le_def, BitVec.le_def]
      rw [if_pos (by simp; omega)]
    simp only [String.utf8ByteSize, String.utf8ByteSize.go, List.length_cons, h1] at ih ⊢
    rw [ih (fun c h => hs c (List.mem_cons_of_mem _ h))]

theorem not_sign_of_isDigit {c : Char} (hc : c.isDigit) : c ≠ '-' ∧ c ≠ '+' :=
  ⟨by rintro rfl; exact absurd hc (by decide), by rintro rfl; exact absurd hc (by decide)⟩

theorem atoiSmall_of_digits {c : Char} {t : List Char} (hs : ∀ x ∈ c :: t, x.isDigit) :
    atoiSmall (c :: t) = .ok (decimalValue (c :: t)) := by
  obtain ⟨hminus, hplus⟩ := not_sign_of_isDigit (hs c (List.mem_cons_self c t))
  rw [atoiSmall.eq_3 _ (by simpa using hminus) (by simpa using hplus), fastDigits_of_digits hs]
  rfl

theorem parseInt_of_digits {c : Char} {t : List Char} (hs : ∀ x ∈ c :: t, x.isDigit) :
    parseInt (c :: t) =
      if decimalValue (c :: t) < 2 ^ 63 then .ok (decimalValue (c :: t)) else .error .errRange := by
  obtain ⟨hminus, hplus⟩ := not_sign_of_isDigit (hs c (List.mem_cons_self c t))
  have hloop : parseUintLoop 0 (c :: t) = if decimalValue (c :: t) ≤ maxUint64 then
      .ok (decimalValue (c :: t)) else .error .errRange :=
    parseUintLoop_of_digits hs 0 (by simp [maxUint64])
  rw [parseInt, if_neg (List.cons_ne_nil c t), pickSign.eq_3 _ (by simpa using hplus)
    (by simpa using hminus), parseUint, if_neg (List.cons_ne_nil c t), hloop]
  have hmax : maxUint64 = 18446744073709551615 := rfl
  by_cases hv : decimalValue (c :: t) ≤ maxUint64
  · rw [if_pos hv]
    dsimp only
    by_cases h63 : decimalValue (c :: t) < 2 ^ 63
    · rw [if_neg (by simpa using h63), if_neg (by simp), if_pos h63]
      rfl
    · rw [if_pos (by simpa using h63), if_neg h63]
  · rw [if_neg hv, if_neg (by omega)]

/-- **`Atoi` on a nonempty digit string**: the value below `2^63`, a range error from `2^63` on,
whichever path the length selects. -/
theorem atoi_of_digits (hne : s ≠ []) (hs : ∀ c ∈ s, c.isDigit) :
    atoi ⟨s⟩ =
      if decimalValue s < 2 ^ 63 then .ok (decimalValue s) else .error .errRange := by
  obtain ⟨c, t, rfl⟩ := List.exists_cons_of_ne_nil hne
  rw [atoi, utf8ByteSize_of_digits hs]
  simp only [String.data]
  split
  · have hlt := foldl_digitStep_lt hs 0
    have hpow : 10 ^ (c :: t).length ≤ 10 ^ 18 := Nat.pow_le_pow_right (by omega) (by omega)
    rw [atoiSmall_of_digits hs, if_pos (by rw [decimalValue]; omega)]
  · exact parseInt_of_digits hs

end Digits

/-! ## The fast path is `ParseInt` -/

section FastPath

variable {s : List Char}

theorem fastDigits_eq_ok {n m : Nat} (h : fastDigits n s = .ok m) :
    (∀ c ∈ s, c.isDigit) ∧ m = s.foldl digitStep n := by
  induction s generalizing n with
  | nil => cases h; exact ⟨by simp, rfl⟩
  | cons c s ih =>
    by_cases hc : c.isDigit
    · rw [fastDigits, if_pos hc] at h
      obtain ⟨hs, rfl⟩ := ih h
      exact ⟨List.forall_mem_cons.mpr ⟨hc, hs⟩, rfl⟩
    · rw [fastDigits, if_neg hc] at h
      cases h

theorem parseUintLoop_eq_fastDigits (n : Nat) (h : (n + 1) * 10 ^ s.length ≤ 10 ^ 18) :
    parseUintLoop n s = fastDigits n s := by
  induction s generalizing n with
  | nil => rfl
  | cons c s ih =>
    rw [List.length_cons, Nat.pow_succ] at h
    have hP : 1 ≤ 10 ^ s.length := Nat.one_le_pow _ _ (by omega)
    have hn : (n + 1) * 10 ≤ 10 ^ 18 := le_trans (Nat.mul_le_mul_left _ (by omega)) h
    have h18 : (10 : Nat) ^ 18 = 1000000000000000000 := rfl
    rw [parseUintLoop, fastDigits]
    by_cases hc : c.isDigit
    · have hd := (isDigit_iff c).mp hc
      have hmax : maxUint64 = 18446744073709551615 := rfl
      have hlt : n * 10 + (c.toNat - 48) < 2 ^ 64 := by
        have h64 : (2 : Nat) ^ 64 = 18446744073709551616 := rfl
        omega
      rw [if_neg (not_not.mpr hc), if_neg (by omega), if_pos hc]
      simp only [Nat.mod_eq_of_lt hlt]
      rw [if_neg (by omega)]
      refine ih _ (le_trans (Nat.mul_le_mul_right _ (by omega : n * 10 + (c.toNat - 48) + 1 ≤ (n + 1) * 10)) ?_)
      rwa [Nat.mul_assoc, Nat.mul_comm 10]
    · rw [if_pos hc, if_neg hc]

theorem length_pickSign_le (s : List Char) : (pickSign s).2.length ≤ s.length := by
  unfold pickSign
  split <;> simp

theorem parseInt_of_length_le (hne : s ≠ []) (hlen : s.length ≤ 18) :
    parseInt s = if (pickSign s).2 = [] then .error .errSyntax
      else (fastDigits 0 (pickSign s).2).map fun m => if (pickSign s).1 then -(m : Int) else m := by
  have ht := (length_pickSign_le s).trans hlen
  rw [parseInt, if_neg hne]
  generalize pickSign s = p at ht ⊢
  obtain ⟨neg, t⟩ := p
  dsimp only at ht ⊢
  rw [parseUint]
  by_cases h0 : t = []
  · simp [h0]
  · have hpow : 10 ^ t.length ≤ 10 ^ 18 := Nat.pow_le_pow_right (by omega) ht
    rw [if_neg h0, if_neg h0, parseUintLoop_eq_fastDigits 0 (by omega)]
    rcases hf : fastDigits 0 t with e | m
    · rfl
    · obtain ⟨hs, rfl⟩ := fastDigits_eq_ok hf
      have hlt := foldl_digitStep_lt hs 0
      have h18 : (10 : Nat) ^ 18 = 1000000000000000000 := rfl
      have h63 : t.foldl digitStep 0 < 9223372036854775808 := by omega
      cases neg <;> simp [Except.map, Nat.not_le.mpr h63, Nat.not_lt.mpr h63.le]

theorem atoiSmall_eq (hne : s ≠ []) :
    atoiSmall s = if (pickSign s).2 = [] then .error .errSyntax
      else (fastDigits 0 (pickSign s).2).map fun m => if (pickSign s).1 then -(m : Int) else m := by
  obtain ⟨c, t, rfl⟩ := List.exists_cons_of_ne_nil hne
  by_cases hsign : c = '-' ∨ c = '+'
  · rcases hsign with rfl | rfl <;> by_cases h0 : t = [] <;> simp [atoiSmall, pickSign, h0]
  · obtain ⟨hminus, hplus⟩ := not_or.mp hsign
    rw [atoiSmall.eq_3 _ (by simpa using hminus) (by simpa using hplus),
      pickSign.eq_3 _ (by simpa using hplus) (by simpa using hminus)]
    simp

theorem length_le_utf8ByteSize : ∀ s : List Char, s.length ≤ (String.mk s).utf8ByteSize
  | [] => le_rfl
  | c :: s => by
    have ih := length_le_utf8ByteSize s
    have hc := c.utf8Size_pos
    simp only [String.utf8ByteSize, String.utf8ByteSize.go, List.length_cons] at ih ⊢
    omega

end FastPath

/-- **`Atoi` is `ParseInt(s, 10, 0)`**: on every text the fast path, taken for `1` to `18`
bytes, returns what the slow path returns. -/
theorem atoi_eq_parseInt (s : String) : atoi s = parseInt s.data := by
  obtain ⟨s⟩ := s
  rw [atoi]
  split
  · rename_i h
    have hne : s ≠ [] := by
      rintro rfl
      exact absurd h.1 (by decide)
    rw [atoiSmall_eq hne, parseInt_of_length_le hne (by have := length_le_utf8ByteSize s; omega)]
  · rfl

/-! ## The digits of `%d` -/

theorem toDigitsCore_append (fuel n : Nat) (ds : List Char) :
    Nat.toDigitsCore 10 fuel n ds = Nat.toDigitsCore 10 fuel n [] ++ ds := by
  induction fuel generalizing n ds with
  | zero => rfl
  | succ fuel ih =>
    simp only [Nat.toDigitsCore]
    split
    · rfl
    · rw [ih, ih _ [_], List.append_assoc, List.singleton_append]

theorem digitChar_spec {k : Nat} (hk : k < 10) :
    (Nat.digitChar k).isDigit = true ∧ (Nat.digitChar k).toNat - 48 = k := by
  revert k; decide

theorem toDigitsCore_spec (fuel n : Nat) (h : n < fuel) :
    (∀ c ∈ Nat.toDigitsCore 10 fuel n [], c.isDigit) ∧
      decimalValue (Nat.toDigitsCore 10 fuel n []) = n ∧ Nat.toDigitsCore 10 fuel n [] ≠ [] := by
  induction fuel generalizing n with
  | zero => omega
  | succ fuel ih =>
    have hd := digitChar_spec (Nat.mod_lt n (by omega : 10 > 0))
    simp only [Nat.toDigitsCore]
    split
    · rename_i h0
      refine ⟨by simpa using hd.1, ?_, by simp⟩
      simp only [decimalValue, List.foldl, digitStep, hd.2]
      omega
    · rename_i h0
      obtain ⟨ih1, ih2, -⟩ := ih (n / 10) (by omega)
      rw [toDigitsCore_append]
      refine ⟨?_, ?_, by simp⟩
      · intro x hx
        rcases List.mem_append.mp hx with hx | hx
        · exact ih1 x hx
        · rw [List.mem_singleton.mp hx]; exact hd.1
      · simp only [decimalValue, List.foldl_append, List.foldl, digitStep] at ih2 ⊢
        rw [ih2, hd.2]
        omega

/-- **`%d` reads back**: the digits of `n` are decimal digits with value `n`. -/
theorem decimalValue_toDigits (n : Nat) :
    (∀ c ∈ Nat.toDigits 10 n, c.isDigit) ∧ decimalValue (Nat.toDigits 10 n) = n ∧
      Nat.toDigits 10 n ≠ [] :=
  toDigitsCore_spec (n + 1) n (by omega)

end Pkgsite.Strconv
