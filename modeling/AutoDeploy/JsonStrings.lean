import AutoDeploy.UriSyntax
import AutoDeploy.Utf8

namespace JsonStrings

/-- The letter that stands behind a backslash for a rune. -/
def shortLetter : Char → Option Char
  | '"' => some '"'
  | '\\' => some '\\'
  | '\x08' => some 'b'
  | '\x0c' => some 'f'
  | '\n' => some 'n'
  | '\r' => some 'r'
  | '\t' => some 't'
  | _ => none

/-- A rune of a string in `json.Marshal`. -/
def escapeRune (r : Char) : List Char :=
  match shortLetter r with
  | some e => ['\\', e]
  | none =>
    if r.toNat < 0x20 ∨ r ∈ ['<', '>', '&', '\u2028', '\u2029'] then
      '\\' :: 'u' :: GoStrings.hexDigits 4 r.toNat
    else [r]

/-- The runes of the bytes that are left. A byte that is no UTF-8 is written as an escape. -/
def escapeLoop : ℕ → List UInt8 → List Char
  | 0, _ => []
  | fuel + 1, bs =>
    if bs = [] then []
    else
      (if (Utf8.decodeRune bs).1 = Utf8.runeError ∧ (Utf8.decodeRune bs).2 = 1 then
          "\\ufffd".toList
        else escapeRune (Utf8.decodeRune bs).1) ++
        escapeLoop fuel (bs.drop (Utf8.decodeRune bs).2)

/-- A string as `json.Marshal` writes it. -/
def encode (bs : List UInt8) : List Char := '"' :: (escapeLoop bs.length bs ++ ['"'])

def hex4 (a b c d : Char) : Option ℕ :=
  (UriSyntax.hexValue a).bind fun a => (UriSyntax.hexValue b).bind fun b =>
    (UriSyntax.hexValue c).bind fun c => (UriSyntax.hexValue d).map fun d =>
      ((a * 16 + b) * 16 + c) * 16 + d

/-- What a letter stands for behind a backslash. -/
def letterRune : Char → Option Char
  | '"' => some '"'
  | '\\' => some '\\'
  | '/' => some '/'
  | 'b' => some '\x08'
  | 'f' => some '\x0c'
  | 'n' => some '\n'
  | 'r' => some '\r'
  | 't' => some '\t'
  | _ => none

def isSurrogate (v : ℕ) : Bool := 0xd800 ≤ v && v < 0xe000

/-- The rune of two halves, if they belong together. -/
def pairRune (high low : ℕ) : Option Char :=
  if high < 0xdc00 ∧ 0xdc00 ≤ low ∧ low < 0xe000 then
    some (Char.ofNat (0x10000 + (high - 0xd800) * 0x400 + (low - 0xdc00)))
  else none

/-- A half without its other one. -/
def lone : Option ℕ → List Char
  | none => []
  | some _ => [Utf8.runeError]

/-- The text up to the closing quote, which ends the literal, behind the half of a rune that may
have been read. -/
def unescape : Option ℕ → List Char → Option (List Char)
  | _, [] => none
  | half, '"' :: rest => if rest = [] then some (lone half) else none
  | half, '\\' :: 'u' :: a :: b :: c :: d :: rest =>
    match hex4 a b c d with
    | none => none
    | some v =>
      if isSurrogate v = true then
        match half.bind (pairRune · v) with
        | some r => (unescape none rest).map (r :: ·)
        | none => (unescape (some v) rest).map (lone half ++ ·)
      else (unescape none rest).map (lone half ++ Char.ofNat v :: ·)
  | half, '\\' :: e :: rest =>
    match letterRune e with
    | none => none
    | some r => (unescape none rest).map (lone half ++ r :: ·)
  | half, r :: rest =>
    if r.toNat < 0x20 ∨ r = '\\' then none else (unescape none rest).map (lone half ++ r :: ·)

/-- A string literal as `json.Unmarshal` reads it. -/
def decode : List Char → Option String
  | '"' :: body => (unescape none body).map String.ofList
  | _ => none

section RoundTrip

variable {r : Char}

theorem hexValue_digitChar {d : ℕ} (h : d < 16) :
    UriSyntax.hexValue (Nat.digitChar d) = some d := by
  revert d
  decide

theorem unescape_hex {n : ℕ} (hn : n < 0xd800) (rest : List Char) :
    unescape none ('\\' :: 'u' :: (GoStrings.hexDigits 4 n ++ rest)) =
      (unescape none rest).map (Char.ofNat n :: ·) := by
  have hdigits : GoStrings.hexDigits 4 n ++ rest = Nat.digitChar (n / 4096 % 16) ::
      Nat.digitChar (n / 256 % 16) :: Nat.digitChar (n / 16 % 16) :: Nat.digitChar (n % 16) ::
        rest := by
    simp [GoStrings.hexDigits, Nat.div_div_eq_div_mul]
  have hvalue : hex4 (Nat.digitChar (n / 4096 % 16)) (Nat.digitChar (n / 256 % 16))
      (Nat.digitChar (n / 16 % 16)) (Nat.digitChar (n % 16)) = some n := by
    unfold hex4
    rw [hexValue_digitChar (Nat.mod_lt _ (by omega)), hexValue_digitChar (Nat.mod_lt _ (by omega)),
      hexValue_digitChar (Nat.mod_lt _ (by omega)), hexValue_digitChar (Nat.mod_lt _ (by omega))]
    simp only [Option.bind_some, Option.map_some, Option.some_inj]
    omega
  have hplain : isSurrogate n = false := by
    simp only [isSurrogate, Bool.and_eq_false_iff, decide_eq_false_iff_not]
    omega
  rw [hdigits, unescape, hvalue]
  simp [hplain, lone]

theorem shortLetter_some {e : Char} (h : shortLetter r = some e) :
    letterRune e = some r ∧ e ≠ 'u' := by
  unfold shortLetter at h
  split at h
  any_goals contradiction
  all_goals
    cases h
    exact ⟨rfl, by decide⟩

theorem shortLetter_none (h : shortLetter r = none) : r ≠ '"' ∧ r ≠ '\\' := by
  constructor
  · rintro rfl
    simp [shortLetter] at h
  · rintro rfl
    simp [shortLetter] at h

theorem unescape_letter {e : Char} (hletter : letterRune e = some r) (hu : e ≠ 'u')
    (rest : List Char) :
    unescape none ('\\' :: e :: rest) = (unescape none rest).map (r :: ·) := by
  rw [unescape]
  · rw [hletter]
    rfl
  · intro a b c d others he
    exact absurd he hu

theorem unescape_raw (hquote : r ≠ '"') (hslash : r ≠ '\\') (hlow : ¬ r.toNat < 0x20)
    (rest : List Char) : unescape none (r :: rest) = (unescape none rest).map (r :: ·) := by
  rw [unescape]
  · simp [hlow, hslash, lone]
  · simp [hquote]
  · simp [hslash]
  · simp [hslash]

theorem unescape_rune (r : Char) (rest : List Char) :
    unescape none (escapeRune r ++ rest) = (unescape none rest).map (r :: ·) := by
  unfold escapeRune
  split
  next e h =>
    obtain ⟨hletter, hu⟩ := shortLetter_some h
    exact unescape_letter hletter hu rest
  next h =>
    obtain ⟨hquote, hslash⟩ := shortLetter_none h
    split
    next hrange =>
      have hsmall : r.toNat < 0xd800 := by
        rcases hrange with hlow | hm
        · omega
        · have hall := List.all_eq_true.mp (show ['<', '>', '&', '\u2028', '\u2029'].all
            (fun other => decide (other.toNat < 0xd800)) = true by decide) r hm
          exact of_decide_eq_true hall
      rw [List.cons_append, List.cons_append, unescape_hex hsmall, Char.ofNat_toNat]
    next hrange =>
      obtain ⟨hlow, -⟩ := not_or.mp hrange
      exact unescape_raw hquote hslash hlow rest

theorem unescape_loop (fuel : ℕ) (bs : List UInt8) :
    unescape none (escapeLoop fuel bs ++ ['"']) = some (Utf8.runesLoop fuel bs) := by
  induction fuel generalizing bs with
  | zero => rfl
  | succ fuel ih =>
    unfold escapeLoop Utf8.runesLoop
    by_cases hempty : bs = []
    · simp [hempty, unescape, lone]
    · rw [if_neg hempty, if_neg hempty, List.append_assoc]
      split
      next hinvalid =>
        have hescape : "\\ufffd".toList = '\\' :: 'u' :: ['f', 'f', 'f', 'd'] := by decide
        have hread : hex4 'f' 'f' 'f' 'd' = some 0xfffd := by decide
        have hplain : isSurrogate 0xfffd = false := by decide
        rw [hescape, hinvalid.1]
        simp only [List.cons_append, List.nil_append, unescape, hread, hplain, ih, lone]
        rfl
      next => rw [unescape_rune, ih, Option.map_some]

/-- The text of any bytes is read back, with U+FFFD for each byte that is no UTF-8. -/
theorem decode_encode (bs : List UInt8) : decode (encode bs) = some (Utf8.text bs) := by
  rw [encode, decode, unescape_loop]
  rfl

end RoundTrip

end JsonStrings
