import AutoDeploy.UnitSyntax

namespace UnitSyntax

/-- An escape that has been begun. `left` digits are to come, and the value they give is below
`limit`: a byte from 128 on is no character. -/
inductive Escape where
  | start
  | digits (base left limit value : ℕ)
deriving DecidableEq

/-- What has been read of a value: the words that have ended, and the open one. -/
structure Words where
  done : List (List Char)
  word : Option (List Char)
  quote : Option Char
  escape : Option Escape
deriving DecidableEq

namespace Words

def push (s : Words) (c : Char) : Words :=
  { s with word := some (s.word.getD [] ++ [c]), escape := none }

def finish (s : Words) : Words := { s with done := s.done ++ s.word.toList, word := none }

end Words

def escapedChar (c : Char) : Option Char :=
  [('a', '\x07'), ('b', '\x08'), ('f', '\x0c'), ('n', '\n'), ('r', '\r'), ('t', '\t'),
    ('v', '\x0b'), ('\\', '\\'), ('"', '"'), ('\'', '\''), ('s', ' ')].lookup c

/-- The value of a hexadecimal digit, and 16 for any other character. -/
def digitValue (c : Char) : ℕ :=
  if '0' ≤ c ∧ c ≤ '9' then c.toNat - 48
  else if 'a' ≤ c ∧ c ≤ 'f' then c.toNat - 87
  else if 'A' ≤ c ∧ c ≤ 'F' then c.toNat - 55
  else 16

namespace Words

def beginEscape (s : Words) (c : Char) : Option Words :=
  match escapedChar c with
  | some r => some (s.push r)
  | none =>
    if c = 'x' then some { s with escape := some (.digits 16 2 0x80 0) }
    else if c = 'u' then some { s with escape := some (.digits 16 4 0x110000 0) }
    else if c = 'U' then some { s with escape := some (.digits 16 8 0x110000 0) }
    else if digitValue c < 8 then
      some { s with escape := some (.digits 8 2 0x80 (digitValue c)) }
    else none

def readDigit (s : Words) (base left limit value : ℕ) (c : Char) : Option Words :=
  if base ≤ digitValue c then none
  else if 1 < left then
    some { s with escape := some (.digits base (left - 1) limit (value * base + digitValue c)) }
  else
    let code := value * base + digitValue c
    if code ≠ 0 ∧ code < limit ∧ code.isValidChar then some (s.push (Char.ofNat code)) else none

/-- One character. An escape that the syntax does not have is an error. -/
def read (s : Words) (c : Char) : Option Words :=
  match s.escape with
  | some .start => s.beginEscape c
  | some (.digits base left limit value) => s.readDigit base left limit value c
  | none =>
    match s.quote with
    | some q =>
      if c = q then some { s with quote := none }
      else if c = '\\' then some { s with escape := some .start }
      else some (s.push c)
    | none =>
      if c = '"' ∨ c = '\'' then some { s with quote := some c, word := some (s.word.getD []) }
      else if c = '\\' then some { s with escape := some .start }
      else if c = ' ' ∨ c = '\t' ∨ c = '\n' ∨ c = '\r' then some s.finish
      else some (s.push c)

end Words

/-- The words of a value: white space ends a word, quotes group, and escapes are undone. -/
def words (value : List Char) : Option (List (List Char)) :=
  (value.foldlM Words.read ⟨[], none, none, none⟩).bind fun s =>
    if s.quote = none ∧ s.escape = none then some s.finish.done else none

/-- The letters that stand for a value of the host or of the unit. -/
def specifierLetters : List Char :=
  "aAbBcCdDEfgGhHiIjJlLmMnNopPqsStTuUvVwWyY".toList

/-- `host` gives the values of the specifiers. -/
def expandSpecifiers (host : Char → List Char) : List Char → List Char
  | [] => []
  | c :: rest =>
    if c = '%' then
      match rest with
      | [] => ['%']
      | d :: others =>
        if d = '%' then '%' :: expandSpecifiers host others
        else if d ∈ specifierLetters then host d ++ expandSpecifiers host others
        else '%' :: d :: expandSpecifiers host others
    else c :: expandSpecifiers host rest

/-- A doubled dollar sign of a command line is a dollar sign. A single one, which refers to a
variable, stays. -/
def undoubleDollars : List Char → List Char
  | [] => []
  | c :: rest =>
    if c = '$' then
      match rest with
      | [] => ['$']
      | d :: others =>
        if d = '$' then '$' :: undoubleDollars others else '$' :: d :: undoubleDollars others
    else c :: undoubleDollars rest

@[simp] theorem expandSpecifiers_percents (host : Char → List Char) (rest : List Char) :
    expandSpecifiers host ('%' :: '%' :: rest) = '%' :: expandSpecifiers host rest := by
  simp [expandSpecifiers]

@[simp] theorem expandSpecifiers_cons {host : Char → List Char} {c : Char} {rest : List Char}
    (h : c ≠ '%') : expandSpecifiers host (c :: rest) = c :: expandSpecifiers host rest := by
  cases rest <;> simp [expandSpecifiers, h]

@[simp] theorem undoubleDollars_dollars (rest : List Char) :
    undoubleDollars ('$' :: '$' :: rest) = '$' :: undoubleDollars rest := by
  simp [undoubleDollars]

@[simp] theorem undoubleDollars_cons {c : Char} {rest : List Char} (h : c ≠ '$') :
    undoubleDollars (c :: rest) = c :: undoubleDollars rest := by
  cases rest <;> simp [undoubleDollars, h]

/-- The arguments of a command line. -/
def commandArgs (host : Char → List Char) (value : List Char) : Option (List String) :=
  (words value).map fun args =>
    args.map fun arg => String.ofList (undoubleDollars (expandSpecifiers host arg))

/-- Whether expansion finds something in a word. -/
def hasSpecifier : List Char → Bool
  | [] => false
  | [_] => false
  | c :: d :: rest => (c == '%' && (d == '%' || specifierLetters.contains d)) ||
      hasSpecifier (d :: rest)

theorem hasSpecifier_tail {c : Char} {rest : List Char} (h : hasSpecifier (c :: rest) = false) :
    hasSpecifier rest = false := by
  cases rest with
  | nil => rfl
  | cons d others =>
    simp only [hasSpecifier, Bool.or_eq_false_iff] at h
    exact h.2

theorem expandSpecifiers_self {host : Char → List Char} {cs : List Char}
    (h : hasSpecifier cs = false) : expandSpecifiers host cs = cs := by
  induction cs using expandSpecifiers.induct with
  | case1 => rfl
  | case2 => simp [expandSpecifiers]
  | case3 others ih => simp [hasSpecifier] at h
  | case4 d others hd hletter ih => simp [hasSpecifier, hletter] at h
  | case5 d others hd hletter ih =>
    have hothers := hasSpecifier_tail (hasSpecifier_tail h)
    simp [expandSpecifiers, hd, hletter, ih hothers]
  | case6 c rest hc ih => rw [expandSpecifiers_cons hc, ih (hasSpecifier_tail h)]

/-- A variable and its value, which stand on the two sides of the first equals sign. -/
def assignment (word : List Char) : Option (String × String) :=
  match word.dropWhile (· ≠ '=') with
  | [] => none
  | _ :: value => some (String.ofList (word.takeWhile (· ≠ '=')), String.ofList value)

/-- The variables that the value of one directive sets. -/
def environmentAssignments (host : Char → List Char) (value : List Char) :
    Option (List (String × String)) :=
  (words value).map (List.filterMap fun word => assignment (expandSpecifiers host word))

/-- The values that a text gives to a directive. -/
def directiveValues (key text : String) : List (List Char) :=
  (logicalLines text).filterMap fun line =>
    if (key.toList ++ ['=']).isPrefixOf line.toList then
      some (line.toList.drop (key.length + 1))
    else none

theorem directiveValues_unlines {key : String} {values : List String}
    (h : ∀ value ∈ values, OneLine (key ++ "=" ++ value).toList) :
    directiveValues key (unlines (values.map fun value => key ++ "=" ++ value)) =
      values.map String.toList := by
  have hone : ∀ line ∈ values.map fun value => key ++ "=" ++ value, OneLine line.toList := by
    intro line hm
    obtain ⟨value, hvalue, rfl⟩ := List.mem_map.mp hm
    exact h value hvalue
  have hvalue : ∀ value : String,
      (if (key.toList ++ ['=']).isPrefixOf (key ++ "=" ++ value).toList then
        some ((key ++ "=" ++ value).toList.drop (key.length + 1)) else none) =
      some value.toList := by
    intro value
    have hlist : (key ++ "=" ++ value).toList = key.toList ++ ['='] ++ value.toList := by simp
    have hstart : (key.toList ++ ['=']).isPrefixOf (key.toList ++ ['='] ++ value.toList) = true :=
      List.isPrefixOf_iff_prefix.mpr (List.prefix_append _ _)
    have hlength : key.length + 1 = (key.toList ++ ['=']).length := by
      simp [String.length_toList]
    rw [hlist, hstart, hlength, List.drop_left]
    simp
  rw [directiveValues, logicalLines_unlines.mpr hone, List.filterMap_map, ← List.filterMap_eq_map]
  exact List.filterMap_congr fun value _ => hvalue value

/-- The variables that a text sets. -/
def readEnvironment (host : Char → List Char) (text : String) : Option (List (String × String)) :=
  ((directiveValues "Environment" text).mapM (environmentAssignments host)).map List.flatten

example : commandArgs (fun _ => "root".toList) " \"a\\x20$$b\" c%%d'e f' \"\" %h".toList =
    some ["a $b", "c%de f", "", "root"] := by
  decide +kernel

end UnitSyntax
