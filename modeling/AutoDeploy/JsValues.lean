import Mathlib.Algebra.Group.Nat.Defs
import Mathlib.Data.Int.Basic
import Mathlib.Data.List.Basic

namespace JsNumbers

/-- The nearest number of 53 bits, and of two the even one. -/
def roundNat (n : ℕ) : ℕ :=
  if n ≤ 2 ^ 53 then n
  else
    let unit := 2 ^ (n.log2 - 52)
    let down := n / unit
    let rest := n % unit
    if unit < 2 * rest ∨ 2 * rest = unit ∧ down % 2 = 1 then (down + 1) * unit else down * unit

/-- What `JSON.parse` makes of the digits of an integer. -/
def ofInt (n : ℤ) : ℤ := if n < 0 then -(roundNat n.natAbs : ℤ) else roundNat n.natAbs

theorem roundNat_exact {n : ℕ} (h : n ≤ 2 ^ 53) : roundNat n = n := if_pos h

theorem roundNat_pos {n : ℕ} (h : 0 < n) : 0 < roundNat n := by
  unfold roundNat
  split
  next => exact h
  next hn =>
    have hunit : 0 < 2 ^ (n.log2 - 52) := Nat.two_pow_pos _
    have hlog : 2 ^ n.log2 ≤ n := Nat.log2_self_le (by omega)
    have hle : 2 ^ (n.log2 - 52) ≤ n :=
      Nat.le_trans (Nat.pow_le_pow_right (by omega) (Nat.sub_le _ _)) hlog
    have hdown : 0 < n / 2 ^ (n.log2 - 52) := Nat.div_pos hle hunit
    dsimp only
    split
    next => exact Nat.mul_pos (Nat.succ_pos _) hunit
    next => exact Nat.mul_pos hdown hunit

theorem ofInt_exact {n : ℤ} (h : n.natAbs ≤ 2 ^ 53) : ofInt n = n := by
  unfold ofInt
  rw [roundNat_exact h]
  split
  next => omega
  next => omega

/-- Rounding keeps the sign. -/
theorem ofInt_pos_iff {n : ℤ} : 0 < ofInt n ↔ 0 < n := by
  unfold ofInt
  split
  next hneg => omega
  next hneg =>
    constructor
    · intro h
      by_contra hn
      have hzero : n.natAbs = 0 := by omega
      rw [hzero, roundNat_exact (Nat.zero_le _)] at h
      omega
    · intro h
      have hpos := roundNat_pos (show 0 < n.natAbs by omega)
      omega

example : ofInt (2 ^ 53 + 1) = 2 ^ 53 := by decide

end JsNumbers

namespace JsStrings

/-- A string of JavaScript: its UTF-16 code units, which need not pair up. -/
abbrev JsString := List UInt16

/-- The code unit of a character below U+10000. -/
def unit (c : Char) : UInt16 := UInt16.ofNat c.toNat

def utf16Char (c : Char) : JsString :=
  if c.toNat < 0x10000 then [unit c]
  else [UInt16.ofNat (0xd800 + (c.toNat - 0x10000) / 0x400),
    UInt16.ofNat (0xdc00 + (c.toNat - 0x10000) % 0x400)]

/-- The string that `JSON.parse` makes of a text. -/
def js (s : String) : JsString := s.toList.flatMap utf16Char

/-- White space and line terminators, for `trim` and for `\s`. -/
def isWhitespace (u : UInt16) : Bool :=
  [9, 10, 11, 12, 13, 0x20, 0xa0, 0x1680, 0x2028, 0x2029, 0x202f, 0x205f, 0x3000,
    0xfeff].contains u || (0x2000 ≤ u && u ≤ 0x200a)

/-- `split("\n")`. -/
def splitLines : JsString → List JsString
  | [] => [[]]
  | u :: rest =>
    if u = unit '\n' then [] :: splitLines rest
    else match splitLines rest with
      | [] => [[u]]
      | line :: others => (u :: line) :: others

/-- `join("\n")`. -/
def joinLines : List JsString → JsString
  | [] => []
  | [line] => line
  | line :: next :: rest => line ++ unit '\n' :: joinLines (next :: rest)

def trim (s : JsString) : JsString :=
  ((s.dropWhile isWhitespace).reverse.dropWhile isWhitespace).reverse

theorem splitLines_ne_nil (s : JsString) : splitLines s ≠ [] := by
  cases s with
  | nil => simp [splitLines]
  | cons u rest =>
    unfold splitLines
    split
    next => simp
    next => cases splitLines rest <;> simp

theorem splitLines_newline (rest : JsString) :
    splitLines (unit '\n' :: rest) = [] :: splitLines rest := by
  simp [splitLines]

theorem splitLines_cons {u : UInt16} {rest first : JsString} {others : List JsString}
    (hu : u ≠ unit '\n') (h : splitLines rest = first :: others) :
    splitLines (u :: rest) = (u :: first) :: others := by
  simp [splitLines, hu, h]

theorem splitLines_single {line : JsString} (h : unit '\n' ∉ line) : splitLines line = [line] := by
  induction line with
  | nil => rfl
  | cons u rest ih =>
    have hu : u ≠ unit '\n' := fun he => h (he ▸ List.mem_cons_self)
    exact splitLines_cons hu (ih fun hm => h (List.mem_cons_of_mem u hm))

/-- Lines of two texts with a newline between them. -/
theorem splitLines_append (s rest : JsString) :
    splitLines (s ++ unit '\n' :: rest) = splitLines s ++ splitLines rest := by
  induction s with
  | nil => exact splitLines_newline rest
  | cons u others ih =>
    by_cases hu : u = unit '\n'
    · rw [hu, List.cons_append, splitLines_newline, splitLines_newline, ih, List.cons_append]
    · obtain ⟨first, more, hfirst⟩ := List.exists_cons_of_ne_nil (splitLines_ne_nil others)
      rw [List.cons_append, splitLines_cons hu hfirst]
      rw [hfirst] at ih
      exact splitLines_cons hu ih

theorem splitLines_join {lines : List JsString} (h : lines ≠ []) :
    splitLines (joinLines lines) = lines.flatMap splitLines := by
  induction lines with
  | nil => contradiction
  | cons line rest ih =>
    cases rest with
    | nil => simp [joinLines]
    | cons next others =>
      rw [joinLines, splitLines_append, ih (by simp), List.flatMap_cons]
      simp

theorem splitLines_noNewline {s line : JsString} (h : line ∈ splitLines s) :
    unit '\n' ∉ line := by
  induction s generalizing line with
  | nil =>
    rw [List.mem_singleton.mp h]
    simp
  | cons u rest ih =>
    by_cases hu : u = unit '\n'
    · rw [hu, splitLines_newline] at h
      rcases List.mem_cons.mp h with rfl | h
      · simp
      · exact ih h
    · obtain ⟨first, more, hfirst⟩ := List.exists_cons_of_ne_nil (splitLines_ne_nil rest)
      rw [splitLines_cons hu hfirst] at h
      rcases List.mem_cons.mp h with rfl | h
      · have hline := ih (hfirst ▸ List.mem_cons_self)
        intro hm
        rcases List.mem_cons.mp hm with he | hm
        · exact hu he.symm
        · exact hline hm
      · exact ih (hfirst ▸ List.mem_cons_of_mem first h)

/-- What has been trimmed does not end in white space. -/
theorem trim_last {s : JsString} {u : UInt16} (h : (trim s).getLast? = some u) :
    isWhitespace u = false := by
  rw [trim, List.getLast?_reverse] at h
  have hnot := List.head?_dropWhile_not isWhitespace (s.dropWhile isWhitespace).reverse
  rw [h] at hnot
  simpa using hnot

theorem trim_subset (s : JsString) : trim s ⊆ s := by
  intro u hm
  rw [trim, List.mem_reverse] at hm
  have hback := (List.dropWhile_sublist _).subset hm
  rw [List.mem_reverse] at hback
  exact (List.dropWhile_sublist _).subset hback

/-- A string with no white space at its ends is its own trimmed form. -/
theorem trim_self {s : JsString} (hfirst : ∀ u, s.head? = some u → isWhitespace u = false)
    (hlast : ∀ u, s.getLast? = some u → isWhitespace u = false) : trim s = s := by
  have hdrop : ∀ l : JsString, (∀ u, l.head? = some u → isWhitespace u = false) →
      l.dropWhile isWhitespace = l := by
    intro l hl
    cases l with
    | nil => rfl
    | cons u rest => simp [hl u rfl]
  rw [trim, hdrop s hfirst, hdrop, List.reverse_reverse]
  intro u hu
  rw [List.head?_reverse] at hu
  exact hlast u hu

end JsStrings
