import AutoDeploy.GoStrings
import AutoDeploy.UnitWords
import Mathlib.Tactic.Ring

namespace UnitSyntax

theorem digitValue_digitChar {d : ℕ} (h : d < 16) : digitValue (Nat.digitChar d) = d := by
  revert d
  decide

/-- All digits of a number but the last. -/
theorem read_hexDigits {s : Words} {limit left width n value : ℕ} (hleft : 0 < left) :
    (GoStrings.hexDigits width n).foldlM Words.read
        { s with escape := some (.digits 16 (left + width) limit value) } =
      some { s with
        escape := some (.digits 16 left limit (value * 16 ^ width + n % 16 ^ width)) } := by
  induction width generalizing n left with
  | zero => simp [GoStrings.hexDigits, Nat.mod_one]
  | succ width ih =>
    have hfront := @ih (left + 1) (n / 16) (by omega)
    have hsum : left + (width + 1) = left + 1 + width := by omega
    have hdigit := @digitValue_digitChar (n % 16) (by omega)
    have hvalue : (value * 16 ^ width + n / 16 % 16 ^ width) * 16 + n % 16 =
        value * 16 ^ (width + 1) + n % 16 ^ (width + 1) := by
      have hpow : (16 : ℕ) ^ (width + 1) = 16 * 16 ^ width := by rw [Nat.pow_succ, Nat.mul_comm]
      rw [hpow, Nat.mod_mul]
      ring
    rw [GoStrings.hexDigits, List.foldlM_append, hsum, hfront]
    simp [Words.read, Words.readDigit, hdigit, hvalue, Nat.mod_lt, hleft]

/-- The hexadecimal digits of a character are read back as it. -/
theorem read_charDigits {s : Words} {limit width : ℕ} {r : Char} (hwidth : 0 < width)
    (hnul : r ≠ '\x00') (hlimit : r.toNat < limit) (hfits : r.toNat < 16 ^ width) :
    (GoStrings.hexDigits width r.toNat).foldlM Words.read
        { s with escape := some (.digits 16 width limit 0) } = some (s.push r) := by
  obtain ⟨front, rfl⟩ : ∃ front, width = front + 1 := ⟨width - 1, by omega⟩
  have hfront := @read_hexDigits s limit 1 front (r.toNat / 16) 0 (by omega)
  have hdigit := @digitValue_digitChar (r.toNat % 16) (by omega)
  have hsmall : r.toNat / 16 < 16 ^ front := by
    rw [Nat.pow_succ] at hfits
    omega
  have hvalue : (r.toNat / 16) * 16 + r.toNat % 16 = r.toNat := by omega
  have hcode : r.toNat ≠ 0 := by
    intro h0
    apply hnul
    rw [← Char.ofNat_toNat r, h0]
  have hvalid : r.toNat.isValidChar := r.valid
  rw [GoStrings.hexDigits, List.foldlM_append, Nat.add_comm front 1, hfront]
  simp only [Option.bind_eq_bind, Option.bind_some, List.foldlM_cons, List.foldlM_nil, Words.read,
    Words.readDigit, hdigit, Nat.zero_mul, Nat.zero_add, Nat.mod_eq_of_lt hsmall, hvalue]
  rw [if_neg (by omega), if_neg (by omega), if_pos ⟨hcode, hlimit, hvalid⟩, Char.ofNat_toNat]
  rfl

theorem read_inQuotes {s : Words} {q c : Char} (hquote : s.quote = some q)
    (hescape : s.escape = none) (hclose : c ≠ q) (hslash : c ≠ '\\') :
    s.read c = some (s.push c) := by
  simp only [Words.read, hescape, hquote]
  rw [if_neg hclose, if_neg hslash]

/-- What `GoStrings.quote` writes for a character is read back as it. -/
theorem read_quoteRune {isPrint : Char → Bool} {s : Words} {r : Char} (hquote : s.quote = some '"')
    (hescape : s.escape = none) (hnul : r ≠ '\x00') :
    (GoStrings.quoteRune isPrint r).foldlM Words.read s = some (s.push r) := by
  have hbegin : ∀ c others, ('\\' :: c :: others).foldlM Words.read s =
      ({ s with escape := some .start } : Words).beginEscape c >>= others.foldlM Words.read := by
    intro c others
    simp [Words.read, hquote, hescape]
  have hnat : r.toNat < 0x110000 := by
    have hvalid := r.valid
    simp only [UInt32.isValidChar, Nat.isValidChar] at hvalid
    have hval : r.val.toNat = r.toNat := rfl
    omega
  have hletters : (GoStrings.controlLetters.all fun pair =>
      decide (escapedChar pair.1 = some pair.2)) = true := by decide
  have hquoted := GoStrings.quoteRune_quoted isPrint r
  generalize GoStrings.quoteRune isPrint r = text at hquoted ⊢
  cases hquoted with
  | special h =>
    rw [hbegin]
    obtain rfl | rfl := h
    · rfl
    · rfl
  | plain hdouble hslash =>
    rw [List.foldlM_cons, read_inQuotes hquote hescape hdouble hslash]
    rfl
  | letter hc =>
    have hchar := List.all_eq_true.mp hletters _ hc
    rw [decide_eq_true_eq] at hchar
    rw [hbegin, Words.beginEscape, hchar]
    rfl
  | byte h =>
    rw [hbegin]
    exact read_charDigits (by omega) hnul h (by omega)
  | short h =>
    rw [hbegin]
    exact read_charDigits (by omega) hnul hnat (by omega)
  | long =>
    rw [hbegin]
    exact read_charDigits (by omega) hnul hnat (by omega)

theorem read_quoteRunes {isPrint : Char → Bool} {s : Words} {cs front : List Char}
    (hquote : s.quote = some '"') (hescape : s.escape = none) (hword : s.word = some front)
    (hnul : '\x00' ∉ cs) :
    (cs.flatMap (GoStrings.quoteRune isPrint)).foldlM Words.read s =
      some { s with word := some (front ++ cs) } := by
  induction cs generalizing s front with
  | nil => simp [← hword]
  | cons r rest ih =>
    have hr : r ≠ '\x00' := fun he => hnul (he ▸ List.mem_cons_self)
    have hrest : '\x00' ∉ rest := fun hm => hnul (List.mem_cons_of_mem r hm)
    have hnext := @ih (s.push r) (front ++ [r]) hquote rfl (by simp [Words.push, hword]) hrest
    rw [List.flatMap_cons, List.foldlM_append, read_quoteRune hquote hescape hr]
    simp only [Option.bind_eq_bind, Option.bind_some, hnext]
    simp [Words.push, hescape]

/-- A quoted string is read as a part of a word. -/
theorem read_quote {isPrint : Char → Bool} {s : Words} {text : String} (hquote : s.quote = none)
    (hescape : s.escape = none) (hnul : '\x00' ∉ text.toList) :
    (GoStrings.quote isPrint text).toList.foldlM Words.read s =
      some { s with word := some (s.word.getD [] ++ text.toList) } := by
  have hopen : s.read '"' = some { s with quote := some '"', word := some (s.word.getD []) } := by
    simp [Words.read, hquote, hescape]
  have hrunes := @read_quoteRunes isPrint
    { s with quote := some '"', word := some (s.word.getD []) } text.toList (s.word.getD []) rfl
    hescape rfl hnul
  rw [GoStrings.quote, String.toList_ofList, List.foldlM_cons, hopen]
  simp only [Option.bind_eq_bind, Option.bind_some, List.foldlM_append, hrunes]
  simp [Words.read, hquote, hescape]

/-- Quoted strings, each after a space, are read as one word each. -/
theorem read_quotedWords {isPrint : Char → Bool} {s : Words} {texts : List String}
    (hquote : s.quote = none) (hescape : s.escape = none)
    (hnul : ∀ text ∈ texts, '\x00' ∉ text.toList) :
    ∃ s', (texts.flatMap fun text => ' ' :: (GoStrings.quote isPrint text).toList).foldlM
        Words.read s = some s' ∧ s'.quote = none ∧ s'.escape = none ∧
      s'.finish.done = s.finish.done ++ texts.map String.toList := by
  induction texts generalizing s with
  | nil => exact ⟨s, rfl, hquote, hescape, by simp⟩
  | cons text rest ih =>
    have hspace : s.read ' ' = some s.finish := by simp [Words.read, hquote, hescape]
    have hword := @read_quote isPrint s.finish text hquote hescape
      (hnul text List.mem_cons_self)
    obtain ⟨s', hrest, hquote', hescape', hdone⟩ :=
      @ih { s.finish with word := some (s.finish.word.getD [] ++ text.toList) } hquote hescape
        fun other hm => hnul other (List.mem_cons_of_mem text hm)
    refine ⟨s', ?_, hquote', hescape', ?_⟩
    · rw [List.flatMap_cons, List.foldlM_append, List.foldlM_cons, hspace]
      simp only [Option.bind_eq_bind, Option.bind_some, hword, hrest]
    · rw [hdone]
      simp [Words.finish]

theorem words_quoted {isPrint : Char → Bool} {texts : List String}
    (hnul : ∀ text ∈ texts, '\x00' ∉ text.toList) :
    words (texts.flatMap fun text => ' ' :: (GoStrings.quote isPrint text).toList) =
      some (texts.map String.toList) := by
  obtain ⟨s', hread, hquote, hescape, hdone⟩ :=
    @read_quotedWords isPrint ⟨[], none, none, none⟩ texts rfl rfl hnul
  rw [words, hread]
  simpa [hquote, hescape, Words.finish] using hdone

/-- A character that is itself in a word. -/
def isBare (c : Char) : Bool := !(['"', '\'', '\\', ' ', '\t', '\n', '\r'].contains c)

theorem read_isBare {s : Words} {c : Char} (hquote : s.quote = none) (hescape : s.escape = none)
    (hbare : isBare c = true) : s.read c = some (s.push c) := by
  simp only [isBare, Bool.not_eq_true', List.contains_eq_mem, decide_eq_false_iff_not,
    List.mem_cons, List.not_mem_nil, or_false, not_or] at hbare
  obtain ⟨hdouble, hsingle, hslash, hspace⟩ := hbare
  simp only [Words.read, hescape, hquote]
  rw [if_neg (not_or.mpr ⟨hdouble, hsingle⟩), if_neg hslash]
  simp only [hspace, or_self, if_false]

theorem read_bare {s : Words} {c : Char} {rest : List Char} (hquote : s.quote = none)
    (hescape : s.escape = none) (hbare : ∀ r ∈ c :: rest, isBare r = true) :
    (c :: rest).foldlM Words.read s =
      some { s with word := some (s.word.getD [] ++ c :: rest) } := by
  have hpush := read_isBare hquote hescape (hbare c List.mem_cons_self)
  rw [List.foldlM_cons, hpush, Option.bind_eq_bind, Option.bind_some]
  induction rest generalizing s c with
  | nil => simp [Words.push, hescape]
  | cons d others ih =>
    have hothers : ∀ r ∈ d :: others, isBare r = true := fun r hr =>
      hbare r (List.mem_cons_of_mem c hr)
    have hnext := @read_isBare (s.push c) d hquote rfl (hothers d List.mem_cons_self)
    have hrest := @ih (s.push c) d hquote rfl hothers hnext
    rw [List.foldlM_cons, hnext, Option.bind_eq_bind, Option.bind_some, hrest]
    simp [Words.push, hescape]

/-- A name, an equals sign and a quoted string are one word. -/
theorem words_assignment {isPrint : Char → Bool} {name : List Char} {text : String}
    (hname : ∀ c ∈ name, isBare c = true) (hnul : '\x00' ∉ text.toList) :
    words (name ++ '=' :: (GoStrings.quote isPrint text).toList) =
      some [name ++ '=' :: text.toList] := by
  have hbare : ∀ c ∈ name ++ ['='], isBare c = true := by
    intro c hm
    rcases List.mem_append.mp hm with hm | hm
    · exact hname c hm
    · rw [List.mem_singleton.mp hm]
      decide
  obtain ⟨c, rest, hlist⟩ := List.exists_cons_of_ne_nil (by simp : name ++ ['='] ≠ [])
  rw [hlist] at hbare
  have hfront := @read_bare ⟨[], none, none, none⟩ c rest rfl rfl hbare
  have hquote := @read_quote isPrint ⟨[], some (c :: rest), none, none⟩ text rfl rfl hnul
  have hword : name ++ '=' :: text.toList = c :: rest ++ text.toList := by simp [← hlist]
  have htext : name ++ '=' :: (GoStrings.quote isPrint text).toList =
      c :: rest ++ (GoStrings.quote isPrint text).toList := by
    simp [← hlist]
  rw [words, htext, hword, List.foldlM_append, hfront]
  simp only [Option.bind_eq_bind, Option.bind_some, Option.getD_none, List.nil_append, hquote]
  simp [Words.finish]

end UnitSyntax
