import Mathlib.Data.List.Basic
import Mathlib.Data.List.Infix

namespace GoStrings

/-- `unicode.IsSpace`. -/
def isSpace (r : Char) : Bool :=
  r ∈ ['\t', '\n', '\x0b', '\x0c', '\r', ' ', '\u0085', '\u00a0', '\u1680', '\u2028', '\u2029',
    '\u202f', '\u205f', '\u3000'] || ('\u2000' ≤ r && r ≤ '\u200a')

/-- `strings.TrimSpace`. -/
def trimSpace (s : String) : String :=
  .ofList (((s.toList.dropWhile isSpace).reverse.dropWhile isSpace).reverse)

/-- `strings.HasPrefix`. -/
def hasPrefix (s start : String) : Bool := start.toList.isPrefixOf s.toList

/-- `strings.TrimPrefix`. -/
def trimPrefix (s start : String) : String :=
  if hasPrefix s start then .ofList (s.toList.drop start.toList.length) else s

/-- `strings.TrimSuffix`. -/
def trimSuffix (s suffix : String) : String :=
  if suffix.toList.isSuffixOf s.toList then
    .ofList (s.toList.take (s.toList.length - suffix.toList.length))
  else s

/-- `strings.Contains`. -/
def contains (s part : String) : Bool := decide (part.toList <:+: s.toList)

/-- `strings.ReplaceAll` of a text that is one character. -/
def replaceAll (s : String) (old : Char) (new : String) : String :=
  .ofList (s.toList.flatMap fun r => if r = old then new.toList else [r])

/-- `[]byte` of a string. -/
def bytes (s : String) : List UInt8 := s.toUTF8.toList

theorem toList_loop (bs : ByteArray) (i : ℕ) (acc : List UInt8) :
    ByteArray.toList.loop bs i acc = acc.reverse ++ bs.data.toList.drop i := by
  fun_induction ByteArray.toList.loop bs i acc with
  | case1 i acc hi ih =>
    have hlt : i < bs.data.toList.length := by simpa using hi
    have hget : bs.get! i = bs.data.toList[i] := by
      rw [ByteArray.get!, getElem!_pos bs.data i hi, Array.getElem_toList]
    rw [ih, List.reverse_cons, List.append_assoc, hget, List.singleton_append,
      List.cons_getElem_drop_succ]
  | case2 i acc hi =>
    have hlen : bs.data.toList.length ≤ i := by
      have hsize : bs.size = bs.data.toList.length := by simp
      omega
    rw [List.drop_eq_nil_of_le hlen, List.append_nil]

theorem bytes_eq (s : String) : bytes s = s.toByteArray.data.toList :=
  toList_loop s.toByteArray 0 []

theorem bytes_append (a b : String) : bytes (a ++ b) = bytes a ++ bytes b := by
  rw [bytes_eq, bytes_eq, bytes_eq, String.toByteArray_append, ByteArray.data_append,
    Array.toList_append]

theorem bytes_empty : bytes "" = [] := bytes_eq ""

def splitChars (sep : Char) : List Char → List (List Char)
  | [] => [[]]
  | r :: rest =>
    if r = sep then [] :: splitChars sep rest
    else match splitChars sep rest with
      | [] => [[r]]
      | part :: others => (r :: part) :: others

/-- `strings.Split`, for a separator of one character. -/
def split (s : String) (sep : Char) : List String := (splitChars sep s.toList).map String.ofList

theorem splitChars_single {sep : Char} {cs : List Char} (h : sep ∉ cs) :
    splitChars sep cs = [cs] := by
  induction cs with
  | nil => rfl
  | cons r rest ih =>
    have hr : r ≠ sep := fun he => h (he ▸ List.mem_cons_self)
    have hrest := ih fun hm => h (List.mem_cons_of_mem r hm)
    simp [splitChars, hr, hrest]

theorem splitChars_cons {sep : Char} {cs rest : List Char} (h : sep ∉ cs) :
    splitChars sep (cs ++ sep :: rest) = cs :: splitChars sep rest := by
  induction cs with
  | nil => simp [splitChars]
  | cons r others ih =>
    have hr : r ≠ sep := fun he => h (he ▸ List.mem_cons_self)
    have hothers := ih fun hm => h (List.mem_cons_of_mem r hm)
    simp [splitChars, hr, hothers]

theorem splitChars_ne_nil (sep : Char) (cs : List Char) : splitChars sep cs ≠ [] := by
  cases cs with
  | nil => simp [splitChars]
  | cons r rest =>
    unfold splitChars
    split
    next => simp
    next =>
      split
      next => simp
      next => simp

theorem splitChars_append {sep : Char} (cs rest : List Char) :
    splitChars sep (cs ++ sep :: rest) = splitChars sep cs ++ splitChars sep rest := by
  induction cs with
  | nil => simp [splitChars]
  | cons r others ih =>
    by_cases hr : r = sep
    · simp [splitChars, hr, ih]
    · obtain ⟨part, parts, hparts⟩ := List.exists_cons_of_ne_nil (splitChars_ne_nil sep others)
      simp [splitChars, hr, ih, hparts]

theorem splitChars_infix {sep : Char} {cs part : List Char} (h : part ∈ splitChars sep cs) :
    part <:+: cs := by
  have hsplit : ∀ cs : List Char, (∃ part parts, splitChars sep cs = part :: parts ∧
      part <+: cs ∧ ∀ other ∈ parts, other <:+: cs) := by
    intro cs
    induction cs with
    | nil => exact ⟨[], [], rfl, List.prefix_refl _, by simp⟩
    | cons r rest ih =>
      obtain ⟨part, parts, hparts, hstart, hinner⟩ := ih
      by_cases hr : r = sep
      · refine ⟨[], part :: parts, by simp [splitChars, hr, hparts], List.nil_prefix, ?_⟩
        intro other hother
        rcases List.mem_cons.mp hother with rfl | hm
        · exact hstart.isInfix.trans (List.suffix_cons r rest).isInfix
        · exact (hinner other hm).trans (List.suffix_cons r rest).isInfix
      · refine ⟨r :: part, parts, by simp [splitChars, hr, hparts], ?_, ?_⟩
        · exact List.cons_prefix_cons.mpr ⟨rfl, hstart⟩
        · intro other hother
          exact (hinner other hother).trans (List.suffix_cons r rest).isInfix
  obtain ⟨first, parts, hparts, hstart, hinner⟩ := hsplit cs
  rw [hparts] at h
  rcases List.mem_cons.mp h with rfl | hm
  · exact hstart.isInfix
  · exact hinner part hm

def cutChars (sep : List Char) : List Char → Option (List Char × List Char)
  | [] => if sep = [] then some ([], []) else none
  | r :: rest =>
    if sep.isPrefixOf (r :: rest) then some ([], (r :: rest).drop sep.length)
    else (cutChars sep rest).map fun parts => (r :: parts.1, parts.2)

/-- `strings.Cut`, with nothing where the separator is not found. -/
def cut (s sep : String) : Option (String × String) :=
  (cutChars sep.toList s.toList).map fun parts => (String.ofList parts.1, String.ofList parts.2)

/-- A cut at one character. -/
theorem cutChars_single (sep : Char) (cs : List Char) : cutChars [sep] cs =
    if sep ∈ cs then some (cs.takeWhile (· ≠ sep), (cs.dropWhile (· ≠ sep)).tail) else none := by
  induction cs with
  | nil => rfl
  | cons r rest ih =>
    by_cases hr : r = sep
    · subst hr
      simp [cutChars]
    · have hr' : ¬ sep = r := Ne.symm hr
      by_cases hm : sep ∈ rest
      · simp [cutChars, hr, hr', ih, hm]
      · simp [cutChars, hr', ih, hm]

/-- Where the first character of the separator does not occur, a cut runs on. -/
theorem cutChars_append {first : Char} {others cs rest : List Char} (h : first ∉ cs) :
    cutChars (first :: others) (cs ++ first :: others ++ rest) = some (cs, rest) := by
  induction cs with
  | nil => simp [cutChars]
  | cons r more ih =>
    obtain ⟨hr, hmore⟩ := List.ne_and_not_mem_of_not_mem_cons h
    simp only [List.append_assoc, List.cons_append] at ih
    simp [cutChars, hr, ih hmore]

/-- The low digits of a number in hexadecimal. -/
def hexDigits : ℕ → ℕ → List Char
  | 0, _ => []
  | width + 1, n => hexDigits width (n / 16) ++ [Nat.digitChar (n % 16)]

/-- A character in `strconv.Quote`; `isPrint` is `strconv.IsPrint`. -/
def quoteRune (isPrint : Char → Bool) (r : Char) : List Char :=
  if r = '"' ∨ r = '\\' then ['\\', r]
  else if isPrint r then [r]
  else if r = '\x07' then ['\\', 'a']
  else if r = '\x08' then ['\\', 'b']
  else if r = '\x0c' then ['\\', 'f']
  else if r = '\n' then ['\\', 'n']
  else if r = '\r' then ['\\', 'r']
  else if r = '\t' then ['\\', 't']
  else if r = '\x0b' then ['\\', 'v']
  else if r.val < 0x20 || r.val == 0x7f then '\\' :: 'x' :: hexDigits 2 r.toNat
  else if r.toNat < 0x10000 then '\\' :: 'u' :: hexDigits 4 r.toNat
  else '\\' :: 'U' :: hexDigits 8 r.toNat

/-- `strconv.Quote`, which is also the `%q` verb on a string. -/
def quote (isPrint : Char → Bool) (s : String) : String :=
  .ofList ('"' :: (s.toList.flatMap (quoteRune isPrint) ++ ['"']))

theorem hexDigits_noNewline (width n : ℕ) : '\n' ∉ hexDigits width n := by
  have hdigit : ∀ d < 16, Nat.digitChar d ≠ '\n' := by decide
  induction width generalizing n with
  | zero => simp [hexDigits]
  | succ width ih =>
    have hlast := hdigit (n % 16) (by omega)
    simp [hexDigits, ih, hlast.symm]

/-- The letters that `strconv.Quote` puts for control characters. -/
def controlLetters : List (Char × Char) :=
  [('a', '\x07'), ('b', '\x08'), ('f', '\x0c'), ('n', '\n'), ('r', '\r'), ('t', '\t'),
    ('v', '\x0b')]

/-- The forms of a quoted character. -/
inductive QuotedRune (r : Char) : List Char → Prop
  | special (h : r = '"' ∨ r = '\\') : QuotedRune r ['\\', r]
  | plain (hquote : r ≠ '"') (hslash : r ≠ '\\') : QuotedRune r [r]
  | letter {c : Char} (h : (c, r) ∈ controlLetters) : QuotedRune r ['\\', c]
  | byte (h : r.toNat < 0x80) : QuotedRune r ('\\' :: 'x' :: hexDigits 2 r.toNat)
  | short (h : r.toNat < 0x10000) : QuotedRune r ('\\' :: 'u' :: hexDigits 4 r.toNat)
  | long : QuotedRune r ('\\' :: 'U' :: hexDigits 8 r.toNat)

theorem quoteRune_quoted (isPrint : Char → Bool) (r : Char) :
    QuotedRune r (quoteRune isPrint r) := by
  have hletter : ∀ {c control : Char} {rest : List Char}, (c, control) ∈ controlLetters →
      QuotedRune r rest → QuotedRune r (if r = control then ['\\', c] else rest) := by
    intro c control rest hc hrest
    by_cases hr : r = control
    · rw [if_pos hr]
      exact .letter (hr ▸ hc)
    · rw [if_neg hr]
      exact hrest
  unfold quoteRune
  by_cases hspecial : r = '"' ∨ r = '\\'
  · rw [if_pos hspecial]
    exact .special hspecial
  rw [if_neg hspecial]
  by_cases hprint : isPrint r = true
  · rw [if_pos hprint]
    rw [not_or] at hspecial
    exact .plain hspecial.1 hspecial.2
  rw [if_neg hprint]
  iterate 7 apply hletter (by decide)
  by_cases hlow : (r.val < 0x20 || r.val == 0x7f) = true
  · rw [if_pos hlow]
    apply QuotedRune.byte
    have hval : r.val.toNat = r.toNat := rfl
    rw [Bool.or_eq_true, decide_eq_true_eq, beq_iff_eq] at hlow
    obtain hlow | hlow := hlow
    · have hlt : r.val.toNat < 0x20 := hlow
      omega
    · rw [← hval, hlow]
      decide
  rw [if_neg hlow]
  by_cases hshort : r.toNat < 0x10000
  · rw [if_pos hshort]
    exact .short hshort
  · rw [if_neg hshort]
    exact .long

theorem quoteRune_noNewline {isPrint : Char → Bool} {r : Char} (h : r ≠ '\n') :
    '\n' ∉ quoteRune isPrint r := by
  have hr := h.symm
  have hletters : (controlLetters.all fun pair => decide ('\n' ≠ pair.1)) = true := by decide
  have hquoted := quoteRune_quoted isPrint r
  generalize quoteRune isPrint r = text at hquoted ⊢
  cases hquoted with
  | special _ => simp [hr]
  | plain _ _ => simp [hr]
  | letter hc =>
    have hc' := List.all_eq_true.mp hletters _ hc
    simpa using hc'
  | byte _ => simp [hexDigits_noNewline]
  | short _ => simp [hexDigits_noNewline]
  | long => simp [hexDigits_noNewline]

theorem quote_noNewline {isPrint : Char → Bool} {s : String} (h : '\n' ∉ s.toList) :
    '\n' ∉ (quote isPrint s).toList := by
  have hrunes : ∀ r ∈ s.toList, '\n' ∉ quoteRune isPrint r := fun r hm =>
    quoteRune_noNewline fun he => h (he ▸ hm)
  simpa [quote] using hrunes

theorem quote_getLast {isPrint : Char → Bool} {s : String} :
    (quote isPrint s).toList.getLast? = some '"' := by
  simp only [quote, String.toList_ofList, ← List.cons_append, List.getLast?_concat]

def splitSlash : List Char → List (List Char)
  | [] => [[]]
  | r :: rest =>
    if r = '/' then [] :: splitSlash rest
    else match splitSlash rest with
      | [] => [[r]]
      | segment :: others => (r :: segment) :: others

/-- The segments of a cleaned path, the last one first. -/
def cleanSegments (rooted : Bool) : List (List Char) → List (List Char) → List (List Char)
  | [], out => out
  | segment :: rest, out =>
    if segment = [] ∨ segment = ['.'] then cleanSegments rooted rest out
    else if segment = ['.', '.'] then
      match out with
      | [] => cleanSegments rooted rest (if rooted then [] else [segment])
      | top :: below =>
        cleanSegments rooted rest (if top = ['.', '.'] then segment :: out else below)
    else cleanSegments rooted rest (segment :: out)

/-- `filepath.Clean` on Unix. -/
def filepathClean (path : List Char) : String :=
  let rooted := path.head? == some '/'
  let segments := (cleanSegments rooted (splitSlash path) []).reverse
  let joined := String.ofList (List.intercalate ['/'] segments)
  if rooted then "/" ++ joined else if joined = "" then "." else joined

/-- `filepath.Dir` on Unix. -/
def filepathDir (path : String) : String :=
  filepathClean (path.toList.reverse.dropWhile (· ≠ '/')).reverse

theorem splitSlash_eq (cs : List Char) : splitSlash cs = splitChars '/' cs := by
  induction cs with
  | nil => rfl
  | cons r rest ih => simp [splitSlash, splitChars, ih]

example : filepathDir "/srv//apps/./api" = "/srv/apps" := by decide +kernel

end GoStrings
