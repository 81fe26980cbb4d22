import AutoDeploy.JsValues

namespace AutoDeploy

open JsStrings

/-- The variables of the loops of `parseArgsText`; `quote` is the open quote. -/
structure ArgsState where
  args : List JsString
  current : JsString
  hasToken : Bool
  quote : Option UInt16
deriving DecidableEq

namespace ArgsState

def push (s : ArgsState) (ch : UInt16) : ArgsState := { s with current := s.current ++ [ch] }

def pushToken (s : ArgsState) (ch : UInt16) : ArgsState := { s.push ch with hasToken := true }

/-- The end of a token, if there is one. -/
def flush (s : ArgsState) : ArgsState :=
  if s.hasToken then { s with args := s.args ++ [s.current], current := [], hasToken := false }
  else s

end ArgsState

/-- The inner loop: the characters of a line. -/
def scanLine (s : ArgsState) : JsString → ArgsState
  | [] => s
  | ch :: rest =>
    if s.quote = some (unit '\'') then
      if ch = unit '\'' then scanLine { s with quote := none } rest
      else scanLine (s.push ch) rest
    else if s.quote = some (unit '"') then
      if ch = unit '"' then scanLine { s with quote := none } rest
      else if ch = unit '\\' then
        match rest with
        | [] => s.push ch
        | next :: others => scanLine (s.push next) others
      else scanLine (s.push ch) rest
    else if ch = unit '\'' ∨ ch = unit '"' then
      scanLine { s with quote := some ch, hasToken := true } rest
    else if ch = unit '\\' then
      match rest with
      | [] => s.pushToken ch
      | next :: others => scanLine (s.pushToken next) others
    else if isWhitespace ch then scanLine s.flush rest
    else scanLine (s.pushToken ch) rest

/-- The end of a line. -/
def endLine (last : Bool) (s : ArgsState) : ArgsState :=
  if s.quote ≠ none ∧ !last then s.push (unit '\n')
  else if s.quote = none then s.flush
  else s

/-- `/^\s*#/`. -/
def isCommentLine (line : JsString) : Bool := (line.dropWhile isWhitespace).head? == some (unit '#')

/-- The outer loop. -/
def scanLines (s : ArgsState) : List JsString → ArgsState
  | [] => s
  | line :: rest =>
    if s.quote = none ∧ isCommentLine line then scanLines s rest
    else scanLines (endLine rest.isEmpty (scanLine s line)) rest

def parseArgsText (text : JsString) : List JsString :=
  let s := scanLines ⟨[], [], false, none⟩ (splitLines text)
  if s.hasToken then s.args ++ [s.current] else s.args

/-- `/[\s'"\\]/`. -/
def needsQuotes (u : UInt16) : Bool :=
  isWhitespace u || u == unit '\'' || u == unit '"' || u == unit '\\'

def escapeArg (arg : JsString) : JsString :=
  arg.flatMap fun u => if u = unit '\\' ∨ u = unit '"' then [unit '\\', u] else [u]

def argToText (arg : JsString) : JsString :=
  if arg = [] ∨ arg.head? = some (unit '#') ∨ arg.any needsQuotes then
    unit '"' :: (escapeArg arg ++ [unit '"'])
  else arg

def argsToText (args : List JsString) : JsString := joinLines (args.map argToText)

/-- A line that goes on with an open quote, and the lines after it. -/
def resumeLines (s : ArgsState) : List JsString → ArgsState
  | [] => s
  | line :: rest => scanLines (endLine rest.isEmpty (scanLine s line)) rest

theorem scanLines_quoted {s : ArgsState} {q : UInt16} {lines : List JsString}
    (h : s.quote = some q) : scanLines s lines = resumeLines s lines := by
  cases lines <;> simp [scanLines, resumeLines, h]

theorem scanLine_bare {s : ArgsState} {arg : JsString} (hquote : s.quote = none)
    (harg : ∀ u ∈ arg, needsQuotes u = false) :
    scanLine s arg =
      { s with current := s.current ++ arg, hasToken := s.hasToken || !arg.isEmpty } := by
  induction arg generalizing s with
  | nil => simp [scanLine]
  | cons u rest ih =>
    have hu := harg u List.mem_cons_self
    simp only [needsQuotes, Bool.or_eq_false_iff, beq_eq_false_iff_ne] at hu
    obtain ⟨⟨⟨hspace, hsingle⟩, hdouble⟩, hslash⟩ := hu
    have hrest := @ih (s.pushToken u) hquote fun v hv => harg v (List.mem_cons_of_mem u hv)
    unfold scanLine
    simp only [hquote, hspace, hsingle, hdouble, hslash]
    simp only [reduceCtorEq, if_false, or_self, Bool.false_eq_true]
    rw [hrest]
    simp [ArgsState.pushToken, ArgsState.push, hquote]

/-- The lines of an argument within its quotes. -/
theorem resumeLines_escaped {s : ArgsState} {arg : JsString} {more : List JsString}
    (hquote : s.quote = some (unit '"')) (htoken : s.hasToken = true) :
    resumeLines s (splitLines (escapeArg arg ++ [unit '"']) ++ more) =
      scanLines ⟨s.args ++ [s.current ++ arg], [], false, none⟩ more := by
  have hdouble : unit '"' ≠ unit '\'' := by decide
  have hslash : unit '\\' ≠ unit '"' := by decide
  have hslashLine : unit '\\' ≠ unit '\n' := by decide
  induction arg generalizing s with
  | nil =>
    have hlines : splitLines (escapeArg [] ++ [unit '"']) = [[unit '"']] := by decide
    have hscan : scanLine s [unit '"'] = { s with quote := none } := by
      simp [scanLine, hquote, hdouble]
    rw [hlines, List.singleton_append, resumeLines, hscan]
    simp [endLine, ArgsState.flush, htoken]
  | cons u rest ih =>
    obtain ⟨first, others, hfirst⟩ :=
      List.exists_cons_of_ne_nil (splitLines_ne_nil (escapeArg rest ++ [unit '"']))
    by_cases hspecial : u = unit '\\' ∨ u = unit '"'
    · have hline : u ≠ unit '\n' := by
        rcases hspecial with rfl | rfl <;> decide
      have hescape : escapeArg (u :: rest) = unit '\\' :: u :: escapeArg rest := by
        simp [escapeArg, hspecial]
      have hscan : scanLine s (unit '\\' :: u :: first) = scanLine (s.push u) first := by
        simp [scanLine, hquote, hdouble, hslash]
      have hrest := @ih (s.push u) hquote htoken
      rw [hfirst, List.cons_append, resumeLines] at hrest
      rw [hescape, List.cons_append, List.cons_append,
        splitLines_cons hslashLine (splitLines_cons hline hfirst), List.cons_append, resumeLines,
        hscan, hrest]
      simp [ArgsState.push]
    · have hescape : escapeArg (u :: rest) = u :: escapeArg rest := by
        simp [escapeArg, hspecial]
      have hrest := @ih (s.push u) hquote htoken
      rw [not_or] at hspecial
      by_cases hline : u = unit '\n'
      · subst hline
        have hfeed : endLine false (scanLine s []) = s.push (unit '\n') := by
          simp [scanLine, endLine, hquote]
        have hmore : (splitLines (escapeArg rest ++ [unit '"']) ++ more).isEmpty = false := by
          simp [hfirst]
        rw [hescape, List.cons_append, splitLines_newline, List.cons_append, resumeLines, hmore,
          hfeed, @scanLines_quoted (s.push (unit '\n')) _ _ hquote, hrest]
        simp [ArgsState.push]
      · have hscan : scanLine s (u :: first) = scanLine (s.push u) first := by
          rw [scanLine.eq_def]
          simp [hquote, hdouble, hspecial]
        rw [hfirst, List.cons_append, resumeLines] at hrest
        rw [hescape, List.cons_append, splitLines_cons hline hfirst, List.cons_append, resumeLines,
          hscan, hrest]
        simp [ArgsState.push]

/-- The lines of one argument give the argument. -/
theorem scanLines_arg (args : List JsString) (arg : JsString) (more : List JsString) :
    scanLines ⟨args, [], false, none⟩ (splitLines (argToText arg) ++ more) =
      scanLines ⟨args ++ [arg], [], false, none⟩ more := by
  unfold argToText
  split
  next =>
    obtain ⟨first, others, hfirst⟩ :=
      List.exists_cons_of_ne_nil (splitLines_ne_nil (escapeArg arg ++ [unit '"']))
    have hline : unit '"' ≠ unit '\n' := by decide
    have hspace : isWhitespace (unit '"') = false := by decide
    have hhash : unit '"' ≠ unit '#' := by decide
    have hcomment : isCommentLine (unit '"' :: first) = false := by
      simp [isCommentLine, hspace, hhash]
    have hscan : scanLine ⟨args, [], false, none⟩ (unit '"' :: first) =
        scanLine ⟨args, [], true, some (unit '"')⟩ first := by
      rw [scanLine.eq_def]
      simp
    have hrest := @resumeLines_escaped ⟨args, [], true, some (unit '"')⟩ arg more rfl rfl
    rw [hfirst, List.cons_append, resumeLines] at hrest
    rw [splitLines_cons hline hfirst, List.cons_append, scanLines, if_neg (by simp [hcomment]),
      hscan, hrest]
    simp
  next hbare =>
    rw [not_or, not_or] at hbare
    obtain ⟨hempty, hhash, hplain⟩ := hbare
    have hchars : ∀ u ∈ arg, needsQuotes u = false := by simpa using hplain
    obtain ⟨u, rest, rfl⟩ := List.exists_cons_of_ne_nil hempty
    have hu := hchars u List.mem_cons_self
    simp only [needsQuotes, Bool.or_eq_false_iff] at hu
    have hcomment : isCommentLine (u :: rest) = false := by
      simp only [List.head?_cons, Option.some.injEq] at hhash
      simp [isCommentLine, hu.1.1.1, hhash]
    have hnewline : unit '\n' ∉ u :: rest := by
      intro hm
      have hspace := hchars _ hm
      revert hspace
      decide
    rw [splitLines_single hnewline, List.singleton_append, scanLines,
      if_neg (by simp [hcomment]), scanLine_bare rfl hchars]
    simp [endLine, ArgsState.flush]

theorem scanLines_args (front args : List JsString) :
    scanLines ⟨front, [], false, none⟩ (args.flatMap fun arg => splitLines (argToText arg)) =
      ⟨front ++ args, [], false, none⟩ := by
  induction args generalizing front with
  | nil => simp [scanLines]
  | cons arg rest ih =>
    rw [List.flatMap_cons, scanLines_arg, ih]
    simp

/-- The text of a list of arguments is read back as the list. -/
theorem parseArgsText_argsToText (args : List JsString) :
    parseArgsText (argsToText args) = args := by
  cases args with
  | nil => decide
  | cons arg rest =>
    have hlines : splitLines (argsToText (arg :: rest)) =
        (arg :: rest).flatMap fun arg => splitLines (argToText arg) := by
      rw [argsToText, splitLines_join (by simp), List.flatMap_map]
    have hscan := scanLines_args [] (arg :: rest)
    unfold parseArgsText
    rw [hlines, hscan]
    simp

end AutoDeploy
