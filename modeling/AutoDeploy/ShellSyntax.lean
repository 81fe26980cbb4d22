import Mathlib.Data.List.Basic

namespace AutoDeploy.ShellSyntax

/-- A character of a word, with a mark where it was quoted. Quoted characters stand for
themselves; the others may start an expansion. -/
abbrev WordPart := Char × Bool

inductive Token
  | word (parts : List WordPart)
  | operator (text : List Char)
deriving DecidableEq

/-- How the next character is read. -/
inductive Mode
  | plain
  | escaped
  | singleQuoted
  | doubleQuoted
  | doubleEscaped
  | comment
deriving DecidableEq

/-- The token recognition of a POSIX shell, between two characters. -/
structure Lexer where
  mode : Mode
  tokens : List Token
  current : Option Token
deriving DecidableEq

def initial : Lexer := ⟨.plain, [], none⟩

/-- The operators with more than one character. -/
def longOperators : List (List Char) :=
  ["||".toList, "&&".toList, ";;".toList, "<<".toList, ">>".toList, "<&".toList, ">&".toList,
    "<>".toList, ">|".toList, "<<-".toList]

def isOperatorChar (c : Char) : Bool := ['|', '&', ';', '<', '>', '(', ')', '\n'].contains c

def isBlank (c : Char) : Bool := c == ' ' || c == '\t'

namespace Lexer

/-- The current token ends. -/
def delimit (s : Lexer) : Lexer :=
  { s with tokens := s.tokens ++ s.current.toList, current := none }

/-- The parts of the current word, which is a new one behind an operator. -/
def parts (s : Lexer) : List WordPart :=
  match s.current with
  | some (.word parts) => parts
  | _ => []

/-- An operator in front of a word ends there. -/
def inWord (s : Lexer) : Lexer :=
  match s.current with
  | some (.operator _) => s.delimit
  | _ => s

def append (parts : List WordPart) (s : Lexer) : Lexer :=
  { s.inWord with current := some (.word (s.parts ++ parts)) }

end Lexer

/-- A character outside of any quotes. -/
def stepPlain (s : Lexer) (c : Char) : Lexer :=
  if c = '\\' then { s with mode := .escaped }
  else if c = '\'' then { s.append [] with mode := .singleQuoted }
  else if c = '"' then { s.append [] with mode := .doubleQuoted }
  else if isOperatorChar c then
    match s.current with
    | some (.operator text) =>
      if longOperators.contains (text ++ [c]) then
        { s with current := some (.operator (text ++ [c])) }
      else { s.delimit with current := some (.operator [c]) }
    | _ => { s.delimit with current := some (.operator [c]) }
  else if isBlank c then s.delimit
  else if c = '#' ∧ s.inWord.current = none then { s.inWord with mode := .comment }
  else s.append [(c, false)]

/-- One character of the script. In double quotes `$` and the backquote still start an
expansion. -/
def step (s : Lexer) (c : Char) : Lexer :=
  match s.mode with
  | .plain => stepPlain s c
  | .escaped =>
    if c = '\n' then { s with mode := .plain } else { s.append [(c, true)] with mode := .plain }
  | .singleQuoted =>
    if c = '\'' then { s with mode := .plain } else s.append [(c, true)]
  | .doubleQuoted =>
    if c = '"' then { s with mode := .plain }
    else if c = '\\' then { s with mode := .doubleEscaped }
    else s.append [(c, !(['$', '`'].contains c))]
  | .doubleEscaped =>
    let read := if c = '\n' then s
      else if ['$', '`', '"', '\\'].contains c then s.append [(c, true)]
      else s.append [('\\', true), (c, true)]
    { read with mode := .doubleQuoted }
  | .comment => if c = '\n' then stepPlain { s with mode := .plain } c else s

def lex (s : Lexer) (script : List Char) : Lexer := script.foldl step s

/-- The tokens of a script, unless it ends inside of quotes or behind a backslash. -/
def tokens (script : String) : Option (List Token) :=
  let s := lex initial script.toList
  if s.mode = .plain ∨ s.mode = .comment then some s.delimit.tokens else none

/-- The characters that start an expansion where they are not quoted. -/
def isActive (c : Char) : Bool := ['$', '`', '*', '?', '[', '~'].contains c

/-- The text of a word in which the shell expands nothing. -/
def field (parts : List WordPart) : Option String :=
  if parts.all fun part => part.2 || !isActive part.1 then some (String.ofList (parts.map Prod.fst))
  else none

def reservedWords : List String :=
  ["!", "\x7b", "\x7d", "case", "do", "done", "elif", "else", "esac", "fi", "for", "if", "in",
    "then", "until", "while"]

/-- Words that are a simple command: the first is neither a reserved word nor an assignment. -/
def isCommand : List String → Bool
  | [] => false
  | name :: _ => !reservedWords.contains name && !name.toList.contains '='

/-- The simple commands of one pipeline, with the words in front that belong to the first. -/
def commandsFrom : (words : List String) → List Token → Option (List (List String))
  | words, [] => if isCommand words then some [words] else none
  | words, .word parts :: rest => do commandsFrom (words ++ [← field parts]) rest
  | words, .operator text :: rest =>
    if text = "|".toList ∧ isCommand words then do return words :: (← commandsFrom [] rest)
    else none

/-- The argument lists of the commands of a script that is one pipeline without expansions and
redirections. -/
def pipeline (script : String) : Option (List (List String)) := do
  commandsFrom [] (← tokens script)

section Lex

variable {s : Lexer} {script rest : List Char}

@[simp] theorem lex_nil : lex s [] = s := rfl

@[simp] theorem lex_cons {c : Char} : lex s (c :: script) = lex (step s c) script := rfl

theorem lex_append : lex s (script ++ rest) = lex (lex s script) rest := List.foldl_append

theorem field_quoted (text : List Char) :
    field (text.map fun c => (c, true)) = some (String.ofList text) := by
  simp [field, List.all_map, List.map_map, Function.comp_def]

end Lex

/-- A text in single quotes, in which each quote is written as a quote outside of them. -/
def quoted (text : List Char) : List Char :=
  '\'' :: (text.flatMap fun c => if c = '\'' then "'\\''".toList else [c]) ++ ['\'']

section Quoted

variable {toks : List Token} {parts : List WordPart}

/-- Inside of its quotes a text is read as it is. -/
theorem lex_inside (text : List Char) :
    lex ⟨.singleQuoted, toks, some (.word parts)⟩
        (text.flatMap fun c => if c = '\'' then "'\\''".toList else [c]) =
      ⟨.singleQuoted, toks, some (.word (parts ++ text.map fun c => (c, true)))⟩ := by
  induction text generalizing parts with
  | nil => simp
  | cons c text ih =>
    rw [List.flatMap_cons, lex_append]
    have hread : lex ⟨.singleQuoted, toks, some (.word parts)⟩
        (if c = '\'' then "'\\''".toList else [c]) =
          ⟨.singleQuoted, toks, some (.word (parts ++ [(c, true)]))⟩ := by
      by_cases h : c = '\''
      · subst h
        -- the quote closes, an escaped one follows, and another one opens again
        simp [step, stepPlain, Lexer.append, Lexer.inWord, Lexer.parts]
      · simp [step, h, Lexer.append, Lexer.inWord, Lexer.parts]
    rw [hread, ih]
    simp

/-- Whatever the text is, behind a blank its quoted form is one word that is that text. -/
theorem lex_quoted (text : List Char) : lex ⟨.plain, toks, none⟩ (quoted text) =
    ⟨.plain, toks, some (.word (text.map fun c => (c, true)))⟩ := by
  have hopen : step ⟨.plain, toks, none⟩ '\'' = ⟨.singleQuoted, toks, some (.word [])⟩ := by
    simp [step, stepPlain, Lexer.append, Lexer.inWord, Lexer.parts]
  unfold quoted
  rw [List.cons_append, lex_cons, hopen, lex_append, lex_inside]
  simp [step]

end Quoted

/-- A piece of a word as it is written. -/
inductive Piece
  | bare (text : String)
  | single (text : String)
  | double (text : String)

/-- A character that stands for itself inside of a word. -/
def isBare (c : Char) : Bool :=
  !isOperatorChar c && !isBlank c && !isActive c && !(['\\', '\'', '"', '#'].contains c)

namespace Piece

def text : Piece → String
  | bare text | single text | double text => text

def written : Piece → List Char
  | bare text => text.toList
  | single text => '\'' :: text.toList ++ ['\'']
  | double text => '"' :: text.toList ++ ['"']

def parts : Piece → List WordPart
  | bare text => text.toList.map fun c => (c, false)
  | single text | double text => text.toList.map fun c => (c, true)

/-- The piece is read as its text. -/
def Sound : Piece → Prop
  | bare text => text ≠ "" ∧ ∀ c ∈ text.toList, isBare c = true
  | single text => '\'' ∉ text.toList
  | double text => ∀ c ∈ text.toList, c ∉ ['"', '\\', '$', '`']

instance : DecidablePred Sound
  | bare _ => @instDecidableAnd _ _ inferInstance (List.decidableBAll _ _)
  | single text => inferInstanceAs (Decidable ('\'' ∉ text.toList))
  | double _ => List.decidableBAll _ _

end Piece

section Written

variable {toks : List Token} {parts : List WordPart} {piece : Piece}

end Written

end AutoDeploy.ShellSyntax
