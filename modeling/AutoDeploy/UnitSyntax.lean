import Mathlib.Data.List.Basic

namespace UnitSyntax

/-- The lines of a text, each ended by a newline or by the end of the text. -/
def physicalLines : List Char → List (List Char)
  | [] => []
  | c :: rest =>
    if c = '\n' then [] :: physicalLines rest
    else match physicalLines rest with
      | [] => [[c]]
      | line :: others => (c :: line) :: others

/-- The first character that is no white space starts a comment. -/
def isComment (line : List Char) : Bool :=
  match line.dropWhile fun c => c == ' ' || c == '\t' with
  | [] => false
  | c :: _ => c == '#' || c == ';'

/-- A line that ends in a backslash goes on with the next line that is no comment, and the
backslash is a space. `pending` is what has been read of such a line. -/
def joinLines : Option (List Char) → List (List Char) → List (List Char)
  | pending, [] => pending.toList
  | pending, line :: rest =>
    if isComment line then
      match pending with
      | none => line :: joinLines none rest
      | some front => joinLines (some front) rest
    else
      let whole := pending.getD [] ++ line
      if whole.getLast? = some '\\' then joinLines (some (whole.dropLast ++ [' '])) rest
      else whole :: joinLines none rest

def logicalLines (text : String) : List String :=
  (joinLines none (physicalLines text.toList)).map String.ofList

/-- The text that is made of lines. -/
def unlines (lines : List String) : String := String.join (lines.map (· ++ "\n"))

/-- A line that stays one line where it is written. -/
def OneLine (line : List Char) : Prop :=
  '\n' ∉ line ∧ (isComment line = true ∨ line.getLast? ≠ some '\\')

theorem physicalLines_line {line rest : List Char} (h : '\n' ∉ line) :
    physicalLines (line ++ '\n' :: rest) = line :: physicalLines rest := by
  induction line with
  | nil => simp [physicalLines]
  | cons c others ih =>
    have hc : c ≠ '\n' := fun he => h (he ▸ List.mem_cons_self)
    have hothers := ih fun hm => h (List.mem_cons_of_mem c hm)
    simp [physicalLines, hc, hothers]

theorem physicalLines_unlines {lines : List (List Char)} (h : ∀ line ∈ lines, '\n' ∉ line) :
    physicalLines (lines.flatMap (· ++ ['\n'])) = lines := by
  induction lines with
  | nil => rfl
  | cons line rest ih =>
    have hline := h line List.mem_cons_self
    have hrest := ih fun other hm => h other (List.mem_cons_of_mem line hm)
    rw [List.flatMap_cons, List.append_assoc, List.singleton_append, physicalLines_line hline,
      hrest]

theorem physicalLines_noNewline {text : List Char} :
    ∀ line ∈ physicalLines text, '\n' ∉ line := by
  induction text with
  | nil => simp [physicalLines]
  | cons c rest ih =>
    unfold physicalLines
    split
    next =>
      intro line hm
      rcases List.mem_cons.mp hm with rfl | hm
      · simp
      · exact ih line hm
    next hc =>
      cases hlines : physicalLines rest with
      | nil =>
        intro line hm
        rw [List.mem_singleton.mp hm]
        simpa using Ne.symm hc
      | cons first others =>
        rw [hlines] at ih
        intro line hm
        rcases List.mem_cons.mp hm with rfl | hm
        · have hfirst := ih first List.mem_cons_self
          simpa using ⟨Ne.symm hc, hfirst⟩
        · exact ih line (List.mem_cons_of_mem _ hm)

theorem joinLines_oneLine {lines : List (List Char)} (h : ∀ line ∈ lines, OneLine line) :
    joinLines none lines = lines := by
  induction lines with
  | nil => rfl
  | cons line rest ih =>
    have hrest := ih fun other hm => h other (List.mem_cons_of_mem line hm)
    unfold joinLines
    split
    next => rw [hrest]
    next hcomment =>
      have hlast : line.getLast? ≠ some '\\' :=
        (h line List.mem_cons_self).2.resolve_left hcomment
      simp [hlast, hrest]

/-- Every line that comes out is one line, if what goes in has no newline. -/
theorem joinLines_out {pending : Option (List Char)} {lines : List (List Char)}
    (hlines : ∀ line ∈ lines, '\n' ∉ line)
    (hpending : ∀ front, pending = some front → '\n' ∉ front ∧ front.getLast? ≠ some '\\') :
    ∀ line ∈ joinLines pending lines, OneLine line := by
  induction lines generalizing pending with
  | nil =>
    intro line hm
    have hfront := hpending line (Option.mem_toList.mp hm)
    exact ⟨hfront.1, Or.inr hfront.2⟩
  | cons first rest ih =>
    have hfirst := hlines first List.mem_cons_self
    have hrest : ∀ line ∈ rest, '\n' ∉ line := fun line hm =>
      hlines line (List.mem_cons_of_mem first hm)
    have hnone : ∀ line ∈ joinLines none rest, OneLine line := ih hrest (by simp)
    have hwhole : '\n' ∉ pending.getD [] ++ first := by
      cases pending with
      | none => simpa using hfirst
      | some front => simpa using ⟨(hpending front rfl).1, hfirst⟩
    unfold joinLines
    split
    next hcomment =>
      cases pending with
      | none =>
        intro line hm
        rcases List.mem_cons.mp hm with rfl | hm
        · exact ⟨hfirst, Or.inl hcomment⟩
        · exact hnone line hm
      | some front => exact ih hrest hpending
    next =>
      dsimp only
      split
      next =>
        refine ih hrest ?_
        intro front hfront
        cases hfront
        refine ⟨?_, by simp⟩
        intro hm
        rcases List.mem_append.mp hm with hm | hm
        · exact hwhole (List.dropLast_subset _ hm)
        · simp at hm
      next hlast =>
        intro line hm
        rcases List.mem_cons.mp hm with rfl | hm
        · exact ⟨hwhole, Or.inr hlast⟩
        · exact hnone line hm

theorem logicalLines_oneLine {text : String} :
    ∀ line ∈ logicalLines text, OneLine line.toList := by
  intro line hm
  obtain ⟨chars, hchars, rfl⟩ := List.mem_map.mp hm
  rw [String.toList_ofList]
  exact joinLines_out physicalLines_noNewline (by simp) chars hchars

theorem unlines_toList (lines : List String) :
    (unlines lines).toList = (lines.map String.toList).flatMap (· ++ ['\n']) := by
  simp [unlines, String.toList_join, List.flatMap_map]

/-- Lines are read back as they were written exactly where each of them is one line. -/
theorem logicalLines_unlines {lines : List String} :
    logicalLines (unlines lines) = lines ↔ ∀ line ∈ lines, OneLine line.toList := by
  constructor
  · intro h line hm
    rw [← h] at hm
    exact logicalLines_oneLine line hm
  · intro h
    have hone : ∀ line ∈ lines.map String.toList, OneLine line := by
      intro chars hm
      obtain ⟨line, hline, rfl⟩ := List.mem_map.mp hm
      exact h line hline
    have hphysical := physicalLines_unlines fun line hm => (hone line hm).1
    rw [logicalLines, unlines_toList, hphysical, joinLines_oneLine hone, List.map_map]
    simp [Function.comp_def]

example : logicalLines "a=1\\\n# no\nb\n\nc" = ["a=1 b", "", "c"] := by decide +kernel

end UnitSyntax
