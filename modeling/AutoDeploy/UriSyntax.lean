import AutoDeploy.GoStrings
import Mathlib.Data.List.TakeWhile

namespace UriSyntax

/-- The text before the first `sep`, and what comes behind it. -/
def cut (sep : Char) : List Char → List Char × Option (List Char)
  | [] => ([], none)
  | r :: rest => if r = sep then ([], some rest) else (r :: (cut sep rest).1, (cut sep rest).2)

/-- The parts of a URI reference, in the generic syntax. -/
structure Reference where
  scheme : Option (List Char)
  authority : Option (List Char)
  path : List Char
  query : Option (List Char)
  fragment : Option (List Char)
deriving DecidableEq

/-- A scheme ends at a colon that no slash precedes. -/
def cutScheme (text : List Char) : Option (List Char) × List Char :=
  match cut ':' text with
  | (_, none) => (none, text)
  | (scheme, some rest) =>
    if scheme = [] ∨ '/' ∈ scheme then (none, text) else (some scheme, rest)

/-- An authority stands between two slashes and the next one. -/
def cutAuthority : List Char → Option (List Char) × List Char
  | '/' :: '/' :: rest => (some (rest.takeWhile (· ≠ '/')), rest.dropWhile (· ≠ '/'))
  | text => (none, text)

def Reference.parse (text : List Char) : Reference :=
  let (body, fragment) := cut '#' text
  let (hierarchy, query) := cut '?' body
  let (scheme, rest) := cutScheme hierarchy
  let (authority, path) := cutAuthority rest
  ⟨scheme, authority, path, query, fragment⟩

def hexValue (r : Char) : Option ℕ :=
  if '0' ≤ r ∧ r ≤ '9' then some (r.toNat - '0'.toNat)
  else if 'A' ≤ r ∧ r ≤ 'F' then some (r.toNat - 'A'.toNat + 10)
  else if 'a' ≤ r ∧ r ≤ 'f' then some (r.toNat - 'a'.toNat + 10)
  else none

/-- The octets that a text stands for, each as the character with its number. -/
def percentDecode : List Char → List Char
  | [] => []
  | '%' :: high :: low :: rest =>
    match hexValue high, hexValue low with
    | some x, some y => Char.ofNat (16 * x + y) :: percentDecode rest
    | _, _ => '%' :: percentDecode (high :: low :: rest)
  | r :: rest => r :: percentDecode rest

/-- One more segment: empty ones and dots are dropped, and two dots go back by one. -/
def push (out : List (List Char)) (segment : List Char) : List (List Char) :=
  if segment = [] ∨ segment = ['.'] then out
  else if segment = ['.', '.'] then out.dropLast
  else out ++ [segment]

/-- The segments of a path once its escapes are read, its dot segments are removed and its
slashes are merged. -/
def normalSegments (path : List Char) : List (List Char) :=
  (GoStrings.splitChars '/' (percentDecode path)).foldl push []

/-- A segment that the normal form keeps as it is. -/
def isNamed (segment : List Char) : Bool :=
  !(segment == []) && !(segment == ['.']) && !(segment == ['.', '.'])

/-- What stands in an authority behind its user information. -/
def afterUserinfo (authority : List Char) : List Char :=
  (authority.reverse.takeWhile (· ≠ '@')).reverse

/-- What stands in front of the port. The colons of an address in brackets are part of it. -/
def beforePort : List Char → List Char
  | '[' :: rest => '[' :: (cut ']' rest).1 ++ [']']
  | text => (cut ':' text).1

/-- The host of an authority, in its normal form. -/
def hostOf (authority : List Char) : List Char :=
  (percentDecode (beforePort (afterUserinfo authority))).map Char.toLower

def Reference.host (uri : Reference) : Option (List Char) := uri.authority.map hostOf

/-- No character of a scheme ends it, or the part of the reference that it stands in. -/
def isSchemeCharacter (r : Char) : Bool := r != ':' && r != '/' && r != '?' && r != '#'

/-- The reference starts with a scheme and an authority. -/
def IsAbsolute (text : List Char) : Prop :=
  ∃ scheme rest, text = scheme ++ ':' :: '/' :: '/' :: rest ∧ scheme ≠ [] ∧
    scheme.all isSchemeCharacter = true

/-- The reference has an authority and takes its scheme from elsewhere. -/
def IsSchemeRelative (text : List Char) : Prop := ∃ rest, text = '/' :: '/' :: rest

section Cut

variable {sep : Char} {text rest : List Char}

theorem cut_none (h : sep ∉ text) : cut sep text = (text, none) := by
  induction text with
  | nil => rfl
  | cons r others ih =>
    obtain ⟨hr, hothers⟩ := List.ne_and_not_mem_of_not_mem_cons h
    simp [cut, Ne.symm hr, ih hothers]

theorem cut_append (h : sep ∉ text) : cut sep (text ++ sep :: rest) = (text, some rest) := by
  induction text with
  | nil => simp [cut]
  | cons r others ih =>
    obtain ⟨hr, hothers⟩ := List.ne_and_not_mem_of_not_mem_cons h
    simp [cut, Ne.symm hr, ih hothers]

theorem cutScheme_append {scheme : List Char} (hne : scheme ≠ []) (hcolon : ':' ∉ scheme)
    (hslash : '/' ∉ scheme) : cutScheme (scheme ++ ':' :: rest) = (some scheme, rest) := by
  unfold cutScheme
  rw [cut_append hcolon]
  simp [hne, hslash]

theorem cutAuthority_append {authority path : List Char} (hslash : '/' ∉ authority)
    (hpath : path = [] ∨ ∃ rest, path = '/' :: rest) :
    cutAuthority ('/' :: '/' :: (authority ++ path)) = (some authority, path) := by
  have hall : ∀ r ∈ authority, decide (r ≠ '/') = true := by
    intro r hr
    have hne : r ≠ '/' := fun he => hslash (he ▸ hr)
    simp [hne]
  obtain rfl | ⟨others, rfl⟩ := hpath
  · simp only [cutAuthority, List.append_nil]
    rw [List.takeWhile_eq_self_iff.mpr hall, List.dropWhile_eq_nil_iff.mpr hall]
  · simp only [cutAuthority, List.takeWhile_append_of_pos hall, List.dropWhile_append_of_pos hall]
    simp

/-- The parts of a reference that has a scheme, an authority and a path, and nothing else. -/
theorem parse_absolute {scheme authority path : List Char} (hne : scheme ≠ [])
    (hcolon : ':' ∉ scheme) (hscheme : '/' ∉ scheme) (hauthority : '/' ∉ authority)
    (hpath : path = [] ∨ ∃ rest, path = '/' :: rest)
    (hmeta : ∀ r ∈ scheme ++ authority ++ path, r ≠ '?' ∧ r ≠ '#') :
    Reference.parse (scheme ++ ':' :: '/' :: '/' :: (authority ++ path)) =
      ⟨some scheme, some authority, path, none, none⟩ := by
  have hall : ∀ r ∈ scheme ++ ':' :: '/' :: '/' :: (authority ++ path), r ≠ '?' ∧ r ≠ '#' := by
    intro r hr
    simp only [List.mem_append, List.mem_cons] at hr
    rcases hr with hr | rfl | rfl | rfl | hr
    · exact hmeta r (by simp [hr])
    · decide
    · decide
    · decide
    · exact hmeta r (by simpa using Or.inr hr)
  have hquery : '?' ∉ scheme ++ ':' :: '/' :: '/' :: (authority ++ path) :=
    fun hm => (hall _ hm).1 rfl
  have hfragment : '#' ∉ scheme ++ ':' :: '/' :: '/' :: (authority ++ path) :=
    fun hm => (hall _ hm).2 rfl
  unfold Reference.parse
  rw [cut_none hfragment]
  simp only
  rw [cut_none hquery]
  simp only
  rw [cutScheme_append hne hcolon hscheme]
  simp only
  rw [cutAuthority_append hauthority hpath]

end Cut

section Authority

variable {text scheme rest authority : List Char}

theorem cut_fst (sep : Char) (text : List Char) : (cut sep text).1 = text.takeWhile (· ≠ sep) := by
  induction text with
  | nil => rfl
  | cons r rest ih =>
    by_cases hr : r = sep
    · simp [cut, hr]
    · simp [cut, hr, ih]

/-- The text of the scheme, the authority and the path. -/
def hierarchy (text : List Char) : List Char := (cut '?' (cut '#' text).1).1

theorem parse_authority (text : List Char) :
    (Reference.parse text).authority = (cutAuthority (cutScheme (hierarchy text)).2).1 := rfl

theorem isSchemeCharacter_iff {r : Char} :
    isSchemeCharacter r = true ↔ r ≠ ':' ∧ r ≠ '/' ∧ r ≠ '?' ∧ r ≠ '#' := by
  simp [isSchemeCharacter, and_assoc]

theorem hierarchy_absolute (h : scheme.all isSchemeCharacter = true) (rest : List Char) :
    hierarchy (scheme ++ ':' :: '/' :: '/' :: rest) =
      scheme ++ ':' :: '/' :: '/' :: hierarchy rest := by
  have hscheme := fun r hr => isSchemeCharacter_iff.mp (List.all_eq_true.mp h r hr)
  have hfragment : ∀ r ∈ scheme, decide (r ≠ '#') = true :=
    fun r hr => decide_eq_true (hscheme r hr).2.2.2
  have hquery : ∀ r ∈ scheme, decide (r ≠ '?') = true :=
    fun r hr => decide_eq_true (hscheme r hr).2.2.1
  simp only [hierarchy, cut_fst]
  rw [List.takeWhile_append_of_pos hfragment, List.takeWhile_cons_of_pos (by decide),
    List.takeWhile_cons_of_pos (by decide), List.takeWhile_cons_of_pos (by decide),
    List.takeWhile_append_of_pos hquery, List.takeWhile_cons_of_pos (by decide),
    List.takeWhile_cons_of_pos (by decide), List.takeWhile_cons_of_pos (by decide)]

/-- The authority of a reference with a scheme ends at the first slash, query or fragment. -/
theorem authority_absolute (hne : scheme ≠ []) (h : scheme.all isSchemeCharacter = true)
    (rest : List Char) : (Reference.parse (scheme ++ ':' :: '/' :: '/' :: rest)).authority =
      some ((hierarchy rest).takeWhile (· ≠ '/')) := by
  have hscheme := fun r hr => isSchemeCharacter_iff.mp (List.all_eq_true.mp h r hr)
  have hcolon : ':' ∉ scheme := fun hm => (hscheme ':' hm).1 rfl
  have hslash : '/' ∉ scheme := fun hm => (hscheme '/' hm).2.1 rfl
  rw [parse_authority, hierarchy_absolute h, cutScheme_append hne hcolon hslash]
  rfl

/-- What comes behind the first slash does not count for it. -/
theorem hierarchy_takeWhile (rest : List Char) :
    (hierarchy (rest.takeWhile (· ≠ '/'))).takeWhile (· ≠ '/') =
      (hierarchy rest).takeWhile (· ≠ '/') := by
  simp only [hierarchy, cut_fst, List.takeWhile_takeWhile]
  congr 1
  funext r
  cases decide (r ≠ '#') <;> cases decide (r ≠ '?') <;> cases decide (r ≠ '/') <;> rfl

theorem cutAuthority_some (h : (cutAuthority text).1 = some authority) :
    IsSchemeRelative text := by
  unfold cutAuthority at h
  split at h
  next rest => exact ⟨rest, rfl⟩
  next => cases h

theorem cut_some {sep : Char} {before after : List Char} (h : cut sep text = (before, some after)) :
    text = before ++ sep :: after ∧ sep ∉ before := by
  induction text generalizing before with
  | nil => cases h
  | cons r others ih =>
    unfold cut at h
    split at h
    next hr =>
      cases h
      exact ⟨by rw [hr]; rfl, List.not_mem_nil⟩
    next hr =>
      have hafter := congrArg Prod.snd h
      have hbefore := congrArg Prod.fst h
      dsimp only at hafter hbefore
      obtain ⟨htext, hm⟩ := ih (Prod.ext rfl hafter)
      subst hbefore
      refine ⟨by rw [List.cons_append, ← htext], ?_⟩
      simp [Ne.symm hr, hm]

theorem hierarchy_prefix (text : List Char) : hierarchy text <+: text := by
  unfold hierarchy
  rw [cut_fst, cut_fst]
  exact (List.takeWhile_prefix _).trans (List.takeWhile_prefix _)

theorem hierarchy_plain {r : Char} (h : r ∈ hierarchy text) : r ≠ '?' ∧ r ≠ '#' := by
  unfold hierarchy at h
  rw [cut_fst, cut_fst] at h
  have hquery := List.mem_takeWhile_imp h
  have hfragment := List.mem_takeWhile_imp ((List.takeWhile_prefix _).subset h)
  exact ⟨of_decide_eq_true hquery, of_decide_eq_true hfragment⟩

/-- A reference with an authority starts with it, or with a scheme in front of it. -/
theorem authority_some (h : (Reference.parse text).authority = some authority) :
    IsAbsolute text ∨ IsSchemeRelative text := by
  rw [parse_authority] at h
  obtain ⟨others, htext⟩ := cutAuthority_some h
  obtain ⟨behind, hbehind⟩ := hierarchy_prefix text
  have hrelative : hierarchy text = '/' :: '/' :: others → IsSchemeRelative text := by
    intro he
    exact ⟨others ++ behind, by rw [← hbehind, he]; rfl⟩
  unfold cutScheme at htext
  split at htext
  next => exact Or.inr (hrelative htext)
  next scheme rest hcut =>
    split at htext
    next => exact Or.inr (hrelative htext)
    next hscheme =>
      obtain ⟨hne, hslash⟩ := not_or.mp hscheme
      obtain ⟨hhierarchy, hcolon⟩ := cut_some hcut
      dsimp only at htext
      refine Or.inl ⟨scheme, others ++ behind, ?_, hne, ?_⟩
      · rw [← hbehind, hhierarchy, htext]
        simp
      · refine List.all_eq_true.mpr ?_
        intro r hr
        have hm : r ∈ hierarchy text := by
          rw [hhierarchy]
          exact List.mem_append_left _ hr
        refine isSchemeCharacter_iff.mpr ⟨?_, ?_, hierarchy_plain hm⟩
        · rintro rfl
          exact hcolon hr
        · rintro rfl
          exact hslash hr

end Authority

section Paths

theorem percentDecode_plain {text : List Char} (h : '%' ∉ text) : percentDecode text = text := by
  induction text with
  | nil => rfl
  | cons r rest ih =>
    obtain ⟨hr, hrest⟩ := List.ne_and_not_mem_of_not_mem_cons h
    unfold percentDecode
    split
    next he => cases he
    next he => exact absurd (List.cons.inj he).1.symm hr
    next he =>
      obtain ⟨rfl, rfl⟩ := List.cons.inj he
      rw [ih hrest]

theorem foldl_push {segments : List (List Char)} (h : ['.', '.'] ∉ segments)
    (out : List (List Char)) : segments.foldl push out = out ++ segments.filter isNamed := by
  induction segments generalizing out with
  | nil => simp
  | cons segment rest ih =>
    obtain ⟨hsegment, hrest⟩ := List.ne_and_not_mem_of_not_mem_cons h
    rw [List.foldl_cons, ih hrest]
    by_cases hdrop : segment = [] ∨ segment = ['.']
    · have hnamed : isNamed segment = false := by
        obtain rfl | rfl := hdrop
        · rfl
        · rfl
      simp [push, hdrop, hnamed]
    · have hnamed : isNamed segment = true := by
        obtain ⟨hempty, hdot⟩ := not_or.mp hdrop
        simp [isNamed, hempty, hdot, Ne.symm hsegment]
      simp [push, hdrop, Ne.symm hsegment, hnamed]

/-- Where no escape and no double dot is, the normal form only drops empty segments and dots. -/
theorem normalSegments_plain {path : List Char} (hescape : '%' ∉ path)
    (hdots : ['.', '.'] ∉ GoStrings.splitChars '/' path) :
    normalSegments path = (GoStrings.splitChars '/' path).filter isNamed := by
  unfold normalSegments
  rw [percentDecode_plain hescape, foldl_push hdots, List.nil_append]

end Paths

example : normalSegments "/a//%2e%2E/./b".toList = ["b".toList] := by decide

end UriSyntax
