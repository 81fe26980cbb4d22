import AutoDeploy.AdminAPI
import AutoDeploy.ServiceUnit
import AutoDeploy.UnitQuote
import AutoDeploy.Utf8

namespace AutoDeploy

open Interleaving UnitSyntax

/-- Without control characters, cleaning only trims. -/
theorem cleanSystemdValue_trims {s : String} (h : ∀ r ∈ s.toList, isControl r = false) :
    cleanSystemdValue s = GoStrings.trimSpace s := by
  have hfilter : s.toList.filter (fun r => !(r.val < 0x20 && r != '\t')) = s.toList := by
    rw [List.filter_eq_self]
    intro r hr
    have hcontrol := h r hr
    simp only [isControl, Bool.or_eq_false_iff] at hcontrol
    simp [hcontrol.1]
  rw [cleanSystemdValue, hfilter, String.ofList_toList]

theorem cleanSystemdValue_noNUL (s : String) : '\x00' ∉ (cleanSystemdValue s).toList := by
  intro hm
  have hchar := cleanSystemdValue_char hm
  revert hchar
  decide

/-- Expansion undoes what `escapeSystemdArg` has done. -/
theorem expand_escapeSystemdArg (host : Char → List Char) (s : String) :
    undoubleDollars (expandSpecifiers host (escapeSystemdArg s).toList) = s.toList := by
  rw [escapeSystemdArg, String.toList_ofList]
  induction s.toList with
  | nil => rfl
  | cons r rest ih =>
    by_cases hpercent : r = '%'
    · simpa [hpercent] using ih
    · by_cases hdollar : r = '$'
      · simpa [hdollar] using ih
      · simpa [hpercent, hdollar] using ih

/-- The service manager reads the cleaned arguments. -/
theorem commandArgs_renderExecArgs {isPrint : Char → Bool} (host : Char → List Char)
    (args : List String) :
    commandArgs host (renderExecArgs isPrint args).toList =
      some (args.map cleanSystemdValue) := by
  have htail : (renderExecArgs isPrint args).toList =
      (args.map fun raw => escapeSystemdArg (cleanSystemdValue raw)).flatMap fun text =>
        ' ' :: (GoStrings.quote isPrint text).toList := by
    simp [renderExecArgs, String.toList_join, List.flatMap_map]
  have hwords := @words_quoted isPrint
    (args.map fun raw => escapeSystemdArg (cleanSystemdValue raw)) (by
      intro text hm
      obtain ⟨raw, _, rfl⟩ := List.mem_map.mp hm
      exact fun hm => cleanSystemdValue_noNUL raw (mem_escapeSystemdArg hm))
  rw [commandArgs, htail, hwords]
  simp [expand_escapeSystemdArg]

/-- `cleanSystemdValue` on the bytes of any string. -/
def cleanSystemdBytes (s : List UInt8) : String :=
  GoStrings.trimSpace (Utf8.mapRunes (fun r =>
    if r.val < 0x20 && r != '\t' then none else some r) s)

/-- `renderExecArgs` on the bytes of any strings. -/
def renderExecBytes (isPrint : Char → Bool) (args : List (List UInt8)) : String :=
  String.join (args.map fun raw =>
    " " ++ GoStrings.quote isPrint (escapeSystemdArg (cleanSystemdBytes raw)))

/-- Cleaning sees the text that is read of the bytes. -/
theorem cleanSystemdBytes_eq (s : List UInt8) :
    cleanSystemdBytes s = cleanSystemdValue (Utf8.text s) := by
  have hfilter : ∀ rs : List Char,
      rs.filterMap (fun r => if r.val < 0x20 && r != '\t' then none else some r) =
        rs.filter fun r => !(r.val < 0x20 && r != '\t') := by
    intro rs
    induction rs with
    | nil => rfl
    | cons r rest ih =>
      by_cases hr : (r.val < 0x20 && r != '\t') = true
      · rw [List.filterMap_cons_none (by simp only [hr, if_true]), ih,
          List.filter_cons_of_neg (by simp only [hr]; decide)]
      · rw [Bool.not_eq_true] at hr
        rw [List.filterMap_cons_some (by simp only [hr]; rfl), ih,
          List.filter_cons_of_pos (by simp only [hr]; decide)]
  rw [cleanSystemdBytes, cleanSystemdValue, Utf8.mapRunes, Utf8.text, hfilter,
    String.toList_ofList]

theorem renderExecBytes_eq (isPrint : Char → Bool) (args : List (List UInt8)) :
    renderExecBytes isPrint args = renderExecArgs isPrint (args.map Utf8.text) := by
  simp only [renderExecBytes, renderExecArgs, List.map_map, Function.comp_def,
    cleanSystemdBytes_eq]

/-- The service manager reads the cleaned arguments, one for each string of bytes, and all of them
from one line. -/
theorem execArgs_tokens (isPrint : Char → Bool) (host : Char → List Char)
    (args : List (List UInt8)) :
    commandArgs host (renderExecBytes isPrint args).toList = some (args.map cleanSystemdBytes) ∧
      '\n' ∉ (renderExecBytes isPrint args).toList ∧
      (renderExecBytes isPrint args).toList.getLast? ≠ some '\\' := by
  have hclean : (args.map Utf8.text).map cleanSystemdValue = args.map cleanSystemdBytes := by
    rw [List.map_map]
    exact List.map_congr_left fun raw _ => (cleanSystemdBytes_eq raw).symm
  rw [renderExecBytes_eq]
  refine ⟨?_, renderExecArgs_noNewline _, ?_⟩
  · rw [commandArgs_renderExecArgs, hclean]
  · by_cases hargs : args = []
    · subst hargs
      simp [renderExecArgs]
    · rw [renderExecArgs_getLast (by simpa using hargs)]
      decide

/-- A byte that is no UTF-8, a newline, a quote and a specifier in one argument. -/
example : cleanSystemdBytes [0xff, 10, 34, 37, 104] = "\uFFFD\"%h" := by decide +kernel

end AutoDeploy
