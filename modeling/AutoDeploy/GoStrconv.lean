import Mathlib.Data.Nat.Digits.Defs

namespace GoStrconv

/-- The reasons of a `NumError`. -/
inductive NumError
  | errSyntax
  | errRange
deriving DecidableEq

def maxUint64 : ℕ := 2 ^ 64 - 1

def formatUint (n : ℕ) : List UInt8 := (Nat.toDigits 10 n).map fun c => UInt8.ofNat c.toNat

/-- `strconv.FormatInt` in base 10. -/
def formatInt (i : Int64) : List UInt8 :=
  if i.toInt < 0 then 45 :: formatUint i.toInt.natAbs else formatUint i.toInt.natAbs

/-- The loop of `strconv.ParseUint`, with the digits read so far. -/
def parseDigits : List UInt8 → ℕ → Except NumError ℕ
  | [], n => .ok n
  | b :: rest, n =>
    if 48 ≤ b.toNat ∧ b.toNat ≤ 57 then
      if maxUint64 < n * 10 + (b.toNat - 48) then .error .errRange
      else parseDigits rest (n * 10 + (b.toNat - 48))
    else .error .errSyntax

/-- `strconv.ParseUint` in base 10, for 64 bits. -/
def parseUint (text : List UInt8) : Except NumError ℕ :=
  if text = [] then .error .errSyntax else parseDigits text 0

def applySign (neg : Bool) (un : ℕ) : Except NumError Int64 :=
  if !neg && decide (2 ^ 63 ≤ un) then .error .errRange
  else if neg && decide (2 ^ 63 < un) then .error .errRange
  else .ok (Int64.ofInt (if neg then -(un : ℤ) else un))

/-- `strconv.ParseInt` in base 10, for 64 bits. -/
def parseInt (text : List UInt8) : Except NumError Int64 :=
  match text with
  | [] => .error .errSyntax
  | b :: rest =>
    if b = 43 then (parseUint rest).bind (applySign false)
    else if b = 45 then (parseUint rest).bind (applySign true)
    else (parseUint text).bind (applySign false)

/-- The last digit comes off the end. -/
theorem formatUint_eq (n : ℕ) : formatUint n =
    (if n < 10 then [] else formatUint (n / 10)) ++ [UInt8.ofNat (48 + n % 10)] := by
  have hdigit : ∀ d < 10, UInt8.ofNat (Nat.digitChar d).toNat = UInt8.ofNat (48 + d) := by decide
  unfold formatUint
  rw [Nat.toDigits_eq_if (by omega)]
  split
  next h =>
    rw [List.map_singleton, hdigit n h, List.nil_append, Nat.mod_eq_of_lt h]
  next => rw [List.map_append, List.map_singleton, hdigit (n % 10) (by omega)]

theorem formatUint_ne_nil (n : ℕ) : formatUint n ≠ [] := by
  rw [formatUint_eq]
  simp

theorem digit_toNat {n : ℕ} (h : n < 10) : (UInt8.ofNat (48 + n)).toNat = 48 + n := by
  rw [UInt8.toNat_ofNat']
  omega

theorem formatUint_digit {n : ℕ} {b : UInt8} (h : b ∈ formatUint n) :
    48 ≤ b.toNat ∧ b.toNat ≤ 57 := by
  induction n using Nat.strong_induction_on with
  | _ n ih =>
    rw [formatUint_eq, List.mem_append, List.mem_singleton] at h
    obtain h | h := h
    · split at h
      next => simp at h
      next hn => exact ih (n / 10) (by omega) h
    · have hb := digit_toNat (show n % 10 < 10 by omega)
      rw [← h] at hb
      omega

/-- No byte of a number is a control character. -/
theorem formatInt_range {i : Int64} {b : UInt8} (h : b ∈ formatInt i) : 45 ≤ b.toNat := by
  unfold formatInt at h
  split at h
  next =>
    obtain rfl | h := List.mem_cons.mp h
    · decide
    · have hdigit := formatUint_digit h
      omega
  next =>
    have hdigit := formatUint_digit h
    omega

theorem parseDigits_append (text more : List UInt8) (n : ℕ) :
    parseDigits (text ++ more) n = (parseDigits text n).bind (parseDigits more) := by
  induction text generalizing n with
  | nil => rfl
  | cons b rest ih =>
    rw [List.cons_append, parseDigits, parseDigits]
    split
    next =>
      split
      next => rfl
      next => exact ih _
    next => rfl

theorem parseDigits_formatUint {n : ℕ} (h : n ≤ maxUint64) :
    parseDigits (formatUint n) 0 = .ok n := by
  induction n using Nat.strong_induction_on with
  | _ n ih =>
    have hlast := digit_toNat (show n % 10 < 10 by omega)
    have hhead : parseDigits (if n < 10 then [] else formatUint (n / 10)) 0 = .ok (n / 10) := by
      split
      next hn => rw [parseDigits, Nat.div_eq_of_lt hn]
      next hn => exact ih (n / 10) (by omega) (by omega)
    have hvalue : n / 10 * 10 + (48 + n % 10 - 48) = n := by omega
    rw [formatUint_eq, parseDigits_append, hhead]
    simp only [Except.bind, parseDigits, hlast, hvalue]
    rw [if_pos (by omega), if_neg (by omega)]

theorem parseUint_formatUint {n : ℕ} (h : n ≤ maxUint64) : parseUint (formatUint n) = .ok n := by
  rw [parseUint, if_neg (formatUint_ne_nil n), parseDigits_formatUint h]

theorem applySign_natAbs (i : Int64) :
    applySign (decide (i.toInt < 0)) i.toInt.natAbs = .ok i := by
  have hlow := i.le_toInt
  have hhigh := i.toInt_lt
  by_cases hneg : i.toInt < 0
  · have habs : -(i.toInt.natAbs : ℤ) = i.toInt := by omega
    rw [decide_eq_true hneg, applySign, if_neg (by simp), if_neg, if_pos rfl, habs,
      Int64.ofInt_toInt]
    rw [Bool.true_and, decide_eq_true_eq]
    omega
  · have habs : (i.toInt.natAbs : ℤ) = i.toInt := by omega
    rw [decide_eq_false hneg, applySign, if_neg, if_neg (by simp), if_neg (by simp), habs,
      Int64.ofInt_toInt]
    rw [Bool.not_false, Bool.true_and, decide_eq_true_eq]
    omega

/-- A number written in full is read back, over the whole range. -/
theorem parseInt_formatInt (i : Int64) : parseInt (formatInt i) = .ok i := by
  have hlow := i.le_toInt
  have hhigh := i.toInt_lt
  have hbound : i.toInt.natAbs ≤ maxUint64 := by
    unfold maxUint64
    omega
  have hsign := applySign_natAbs i
  unfold formatInt
  split
  next hneg =>
    rw [decide_eq_true hneg] at hsign
    rw [parseInt, if_neg (by decide), if_pos rfl, parseUint_formatUint hbound]
    exact hsign
  next hneg =>
    rw [decide_eq_false hneg] at hsign
    obtain ⟨b, rest, htext⟩ := List.exists_cons_of_ne_nil (formatUint_ne_nil i.toInt.natAbs)
    have hdigit := formatUint_digit (htext ▸ List.mem_cons_self : b ∈ formatUint i.toInt.natAbs)
    have hplus : b ≠ 43 := by
      intro hb
      rw [hb] at hdigit
      exact absurd hdigit.1 (by decide)
    have hminus : b ≠ 45 := by
      intro hb
      rw [hb] at hdigit
      exact absurd hdigit.1 (by decide)
    rw [htext, parseInt, if_neg hplus, if_neg hminus, ← htext, parseUint_formatUint hbound]
    exact hsign

example : parseInt (formatInt (-9223372036854775808)) = .ok (-9223372036854775808) := by decide

end GoStrconv
