import Mathlib.Data.List.Basic

namespace Base64

/-- The digits of the URL alphabet. -/
def encodeSextet (n : ℕ) : UInt8 :=
  if n < 26 then UInt8.ofNat (n + 65)
  else if n < 52 then UInt8.ofNat (n + 71)
  else if n < 62 then UInt8.ofNat (n - 4)
  else if n = 62 then 45
  else 95

def decodeSextet (b : UInt8) : Option ℕ :=
  if 65 ≤ b ∧ b ≤ 90 then some (b.toNat - 65)
  else if 97 ≤ b ∧ b ≤ 122 then some (b.toNat - 71)
  else if 48 ≤ b ∧ b ≤ 57 then some (b.toNat + 4)
  else if b = 45 then some 62
  else if b = 95 then some 63
  else none

/-- Three bytes are four digits; the last one or two bytes are two or three. -/
def sextets : List UInt8 → List ℕ
  | [] => []
  | [a] => [a.toNat / 4, a.toNat % 4 * 16]
  | [a, b] => [a.toNat / 4, a.toNat % 4 * 16 + b.toNat / 16, b.toNat % 16 * 4]
  | a :: b :: c :: rest =>
    a.toNat / 4 :: (a.toNat % 4 * 16 + b.toNat / 16) :: (b.toNat % 16 * 4 + c.toNat / 64) ::
      c.toNat % 64 :: sextets rest

/-- Strict decoding of the digits: the bits that are left over are zero. -/
def joinSextets : List ℕ → Option (List UInt8)
  | [] => some []
  | [_] => none
  | [a, b] => if b % 16 = 0 then some [UInt8.ofNat (a * 4 + b / 16)] else none
  | [a, b, c] =>
    if c % 4 = 0 then
      some [UInt8.ofNat (a * 4 + b / 16), UInt8.ofNat (b % 16 * 16 + c / 4)]
    else none
  | a :: b :: c :: d :: rest =>
    (joinSextets rest).map fun bytes =>
      UInt8.ofNat (a * 4 + b / 16) :: UInt8.ofNat (b % 16 * 16 + c / 4) ::
        UInt8.ofNat (c % 4 * 64 + d) :: bytes

/-- `RawURLEncoding.EncodeToString`. -/
def encode (bytes : List UInt8) : List UInt8 := (sextets bytes).map encodeSextet

/-- `RawURLEncoding.Strict().DecodeString`, which skips line ends. -/
def decode (text : List UInt8) : Option (List UInt8) :=
  ((text.filter fun b => b ≠ 10 ∧ b ≠ 13).mapM decodeSextet).bind joinSextets

theorem decodeSextet_encodeSextet {n : ℕ} (h : n < 64) :
    decodeSextet (encodeSextet n) = some n := by
  revert n
  decide

/-- A digit is neither a line end nor a control character. -/
theorem encodeSextet_range {n : ℕ} (h : n < 64) : 45 ≤ (encodeSextet n).toNat := by
  revert n
  decide

theorem sextets_lt {bytes : List UInt8} : ∀ n ∈ sextets bytes, n < 64 := by
  have hbyte : ∀ b : UInt8, b.toNat < 256 := fun b => b.toNat_lt
  induction bytes using sextets.induct with
  | case1 => simp [sextets]
  | case2 a =>
    have ha := hbyte a
    simp only [sextets, List.forall_mem_cons]
    refine ⟨by omega, by omega, by simp⟩
  | case3 a b =>
    have ha := hbyte a
    have hb := hbyte b
    simp only [sextets, List.forall_mem_cons]
    refine ⟨by omega, by omega, by omega, by simp⟩
  | case4 a b c rest ih =>
    have ha := hbyte a
    have hb := hbyte b
    have hc := hbyte c
    simp only [sextets, List.forall_mem_cons]
    exact ⟨by omega, by omega, by omega, by omega, ih⟩

theorem joinSextets_sextets (bytes : List UInt8) : joinSextets (sextets bytes) = some bytes := by
  have hbyte : ∀ b : UInt8, b.toNat < 256 := fun b => b.toNat_lt
  have hjoin : ∀ (b : UInt8) (n : ℕ), n = b.toNat → UInt8.ofNat n = b := by
    intro b n hn
    rw [hn, UInt8.ofNat_toNat]
  induction bytes using sextets.induct with
  | case1 => rfl
  | case2 a =>
    have ha := hbyte a
    rw [sextets, joinSextets, if_pos (by omega), hjoin a _ (by omega)]
  | case3 a b =>
    have ha := hbyte a
    have hb := hbyte b
    rw [sextets, joinSextets, if_pos (by omega), hjoin a _ (by omega), hjoin b _ (by omega)]
  | case4 a b c rest ih =>
    have ha := hbyte a
    have hb := hbyte b
    have hc := hbyte c
    rw [sextets, joinSextets, ih, Option.map_some, hjoin a _ (by omega), hjoin b _ (by omega),
      hjoin c _ (by omega)]

theorem decode_encode (bytes : List UInt8) : decode (encode bytes) = some bytes := by
  have hfilter : (encode bytes).filter (fun b => b ≠ 10 ∧ b ≠ 13) = encode bytes := by
    rw [List.filter_eq_self]
    intro b hb
    obtain ⟨n, hn, rfl⟩ := List.mem_map.mp hb
    have hrange := encodeSextet_range (sextets_lt n hn)
    rw [decide_eq_true_eq]
    constructor
    · intro he
      rw [he] at hrange
      contradiction
    · intro he
      rw [he] at hrange
      contradiction
  have hdigits : ∀ ns : List ℕ, (∀ n ∈ ns, n < 64) →
      (ns.map encodeSextet).mapM decodeSextet = some ns := by
    intro ns hns
    induction ns with
    | nil => rfl
    | cons n rest ih =>
      rw [List.map_cons, List.mapM_cons, decodeSextet_encodeSextet (hns n List.mem_cons_self),
        ih fun m hm => hns m (List.mem_cons_of_mem n hm)]
      rfl
  rw [decode, hfilter, encode, hdigits _ sextets_lt, Option.bind_some, joinSextets_sextets]

/-- No digit is a separator. -/
theorem encode_range {bytes : List UInt8} {b : UInt8} (h : b ∈ encode bytes) : 45 ≤ b.toNat := by
  obtain ⟨n, hn, rfl⟩ := List.mem_map.mp h
  exact encodeSextet_range (sextets_lt n hn)

example : decode (encode [0xff, 0x1f, 0, 10]) = some [0xff, 0x1f, 0, 10] := by decide

end Base64
