import AutoDeploy.GoStrings

namespace Utf8

/-- What an invalid byte is read as. -/
def runeError : Char := '\uFFFD'

/-- `utf8.DecodeRune` of bytes that are left: the first rune and its width. -/
def decodeRune (bs : List UInt8) : Char × ℕ :=
  match bs.toByteArray.utf8DecodeChar? 0 with
  | some r => (r, r.utf8Size)
  | none => (runeError, 1)

def runesLoop : ℕ → List UInt8 → List Char
  | 0, _ => []
  | fuel + 1, bs =>
    if bs = [] then []
    else (decodeRune bs).1 :: runesLoop fuel (bs.drop (decodeRune bs).2)

/-- What a `range` over a string reads. -/
def runes (bs : List UInt8) : List Char := runesLoop bs.length bs

/-- The bytes of a text. -/
def encode (rs : List Char) : List UInt8 := rs.flatMap String.utf8EncodeChar

/-- `utf8.Valid`. -/
def Valid (bs : List UInt8) : Prop := encode (runes bs) = bs

instance (bs : List UInt8) : Decidable (Valid bs) := inferInstanceAs (Decidable (_ = _))

/-- A string of bytes as the text that is read of it. -/
def text (bs : List UInt8) : String := String.ofList (runes bs)

/-- `strings.Map`; a rune that is mapped to nothing is dropped. What comes out is valid. -/
def mapRunes (mapping : Char → Option Char) (bs : List UInt8) : String :=
  String.ofList ((runes bs).filterMap mapping)

section Runes

variable {bs rest : List UInt8} {r : Char}

theorem decodeRune_append (r : Char) (rest : List UInt8) :
    decodeRune (String.utf8EncodeChar r ++ rest) = (r, r.utf8Size) := by
  unfold decodeRune
  rw [List.toByteArray_append, ByteArray.utf8DecodeChar?_utf8EncodeChar_append]

theorem decodeRune_pos (bs : List UInt8) : 0 < (decodeRune bs).2 := by
  unfold decodeRune
  split
  next r _ => exact r.utf8Size_pos
  next => exact Nat.one_pos

theorem runesLoop_fuel {fuel : ℕ} (h : bs.length ≤ fuel) : runesLoop fuel bs = runes bs := by
  induction fuel using Nat.strong_induction_on generalizing bs with
  | _ fuel ih =>
    cases bs with
    | nil => cases fuel <;> rfl
    | cons b others =>
      have hpos := decodeRune_pos (b :: others)
      have hdrop : ((b :: others).drop (decodeRune (b :: others)).2).length ≤ others.length := by
        rw [List.length_drop, List.length_cons]
        omega
      rw [List.length_cons] at h
      obtain ⟨fuel, rfl⟩ : ∃ n, fuel = n + 1 := ⟨fuel - 1, by omega⟩
      unfold runes
      rw [List.length_cons, runesLoop, runesLoop, if_neg (by simp), if_neg (by simp)]
      have hleft := ih fuel (by omega) (hdrop.trans (by omega))
      by_cases hsame : others.length = fuel
      · rw [hsame]
      · rw [hleft, ih others.length (by omega) hdrop]

theorem runes_append (r : Char) (rest : List UInt8) :
    runes (String.utf8EncodeChar r ++ rest) = r :: runes rest := by
  have hne : String.utf8EncodeChar r ++ rest ≠ [] := by
    intro he
    exact String.utf8EncodeChar_ne_nil (List.append_eq_nil_iff.mp he).1
  have hlength := String.length_utf8EncodeChar r
  have hpos := r.utf8Size_pos
  obtain ⟨fuel, hfuel⟩ : ∃ n, (String.utf8EncodeChar r ++ rest).length = n + 1 :=
    ⟨(String.utf8EncodeChar r ++ rest).length - 1, by rw [List.length_append]; omega⟩
  have hrest : (String.utf8EncodeChar r ++ rest).drop r.utf8Size = rest := by
    rw [← hlength, List.drop_left]
  unfold runes
  rw [hfuel, runesLoop, if_neg hne, decodeRune_append, hrest, runesLoop_fuel]
  · rfl
  · rw [List.length_append] at hfuel
    omega

theorem decodeRune_cases (bs : List UInt8) :
    (∃ r rest, bs = String.utf8EncodeChar r ++ rest) ∨ decodeRune bs = (runeError, 1) := by
  cases hdecode : bs.toByteArray.utf8DecodeChar? 0 with
  | none => exact Or.inr (by rw [decodeRune, hdecode])
  | some r =>
    obtain ⟨l, hl⟩ := ByteArray.exists_of_utf8DecodeChar?_eq_some hdecode
    refine Or.inl ⟨r, l.data.toList, ?_⟩
    have hlist := congrArg (fun b : ByteArray => b.data.toList) hl
    simpa using hlist

/-- Reading bytes never loses a byte, and only valid ones keep their number. -/
theorem encode_runes_length (bs : List UInt8) : bs.length ≤ (encode (runes bs)).length ∧
    ((encode (runes bs)).length = bs.length → Valid bs) := by
  induction hn : bs.length using Nat.strong_induction_on generalizing bs with
  | _ n ih =>
    rcases decodeRune_cases bs with ⟨r, rest, rfl⟩ | hinvalid
    · have hsize := String.length_utf8EncodeChar r
      have hpos := r.utf8Size_pos
      rw [List.length_append] at hn
      obtain ⟨hle, hvalid⟩ := ih rest.length (by omega) rest rfl
      have hencode : encode (runes (String.utf8EncodeChar r ++ rest)) =
          String.utf8EncodeChar r ++ encode (runes rest) := by
        rw [runes_append]
        rfl
      rw [Valid, hencode, List.length_append]
      refine ⟨by omega, ?_⟩
      intro hsame
      rw [hvalid (by omega)]
    · cases bs with
      | nil =>
        subst hn
        exact ⟨Nat.le_refl _, fun _ => rfl⟩
      | cons b others =>
        rw [List.length_cons] at hn
        obtain ⟨hle, -⟩ := ih others.length (by omega) others rfl
        have hruns : runes (b :: others) = runeError :: runes others := by
          unfold runes
          rw [List.length_cons, runesLoop, if_neg (by simp), hinvalid]
          rfl
        have hencode : (encode (runes (b :: others))).length =
            3 + (encode (runes others)).length := by
          rw [hruns, encode, List.flatMap_cons, List.length_append]
          rfl
        rw [hencode]
        refine ⟨by omega, ?_⟩
        intro hsame
        omega

/-- A text is read back from its bytes. -/
theorem runes_encode (rs : List Char) : runes (encode rs) = rs := by
  induction rs with
  | nil => rfl
  | cons r others ih =>
    unfold encode at ih ⊢
    rw [List.flatMap_cons, runes_append, ih]

theorem bytes_encode (s : String) : GoStrings.bytes s = encode s.toList := by
  have hbytes : s.toByteArray = (s.toList.flatMap String.utf8EncodeChar).toByteArray := by
    rw [← String.utf8Encode_toList]
    rfl
  rw [GoStrings.bytes_eq, hbytes]
  simp [encode]

@[simp] theorem text_bytes (s : String) : text (GoStrings.bytes s) = s := by
  rw [text, bytes_encode, runes_encode, String.ofList_toList]

/-- Only valid bytes are those of the text that is read of them. -/
theorem valid_iff : Valid bs ↔ GoStrings.bytes (text bs) = bs := by
  rw [Valid, bytes_encode, text, String.toList_ofList]

end Runes

end Utf8
