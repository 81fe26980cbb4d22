import Mathlib.Data.List.Infix

namespace AutoDeploy

/-- The reasons for which `validateTag` rejects a tag, each wrapping `ErrInvalidTag`. -/
inductive TagError
  | empty
  | tooLong
  | dotDot
  | illegalCharacter (character : Char)
  | slash
deriving DecidableEq

/-- `quoteRune` is the `%q` verb on a rune. -/
def TagError.text (quoteRune : Char → String) : TagError → String
  | empty => "invalid tag: empty"
  | tooLong => "invalid tag: too long"
  | dotDot => "invalid tag: contains \"..\""
  | illegalCharacter character => "invalid tag: illegal character " ++ quoteRune character
  | slash => "invalid tag: leading or trailing slash"

def isTagCharacter (r : Char) : Bool :=
  ('A' ≤ r && r ≤ 'Z') || ('a' ≤ r && r ≤ 'z') || ('0' ≤ r && r ≤ '9') ||
    (r == '.' || r == '_' || r == '-' || r == '/')

def validateTag (tag : String) : Except TagError Unit :=
  if tag = "" then .error .empty
  else if 128 < tag.utf8ByteSize then .error .tooLong
  else if ['.', '.'] <:+: tag.toList then .error .dotDot
  else match tag.toList.find? fun r => !isTagCharacter r with
    | some r => .error (.illegalCharacter r)
    | none =>
      if tag.toList.head? = some '/' ∨ tag.toList.getLast? = some '/' then .error .slash
      else .ok ()

/-- What `validateTag` promises to the URL that the tag is put into. -/
structure ValidTag (tag : String) : Prop where
  nonempty : tag ≠ ""
  short : tag.utf8ByteSize ≤ 128
  noDotDot : ¬ ['.', '.'] <:+: tag.toList
  characters : ∀ r ∈ tag.toList, isTagCharacter r = true
  first : tag.toList.head? ≠ some '/'
  last : tag.toList.getLast? ≠ some '/'

theorem validateTag_ok {tag : String} : validateTag tag = .ok () ↔ ValidTag tag := by
  unfold validateTag
  constructor
  · intro h
    split at h
    next => simp at h
    next hne =>
      split at h
      next => simp at h
      next hshort =>
        split at h
        next => simp at h
        next hdot =>
          split at h
          next => simp at h
          next hfind =>
            split at h
            next => simp at h
            next hslash =>
              obtain ⟨hfirst, hlast⟩ := not_or.mp hslash
              exact ⟨hne, by omega, hdot, by simpa using hfind, hfirst, hlast⟩
  · rintro ⟨hne, hshort, hdot, hchars, hfirst, hlast⟩
    have hfind : (tag.toList.find? fun r => !isTagCharacter r) = none := by simpa using hchars
    simp [hne, show ¬ 128 < tag.utf8ByteSize by omega, hdot, hfind, hfirst, hlast]

example : validateTag "v1.2.3" = .ok () := by decide

end AutoDeploy
