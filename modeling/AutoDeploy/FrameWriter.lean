import Mathlib.Data.List.Destutter
import Mathlib.Logic.Function.Basic

namespace AutoDeploy.FrameWriter

section Destutter

variable {φ : Type} [DecidableEq φ]

theorem destutter'_concat (l : List φ) (a b : φ) : (l ++ [a]).destutter' (· ≠ ·) b =
    if (b :: l).getLast? = some a then l.destutter' (· ≠ ·) b
    else l.destutter' (· ≠ ·) b ++ [a] := by
  induction l generalizing b with
  | nil =>
    by_cases h : b = a
    · simp [h]
    · simp [h]
  | cons c l ih =>
    rw [List.cons_append, List.getLast?_cons_cons]
    by_cases h : b = c
    · subst h
      rw [List.destutter'_cons_neg _ (not_not.mpr rfl),
        List.destutter'_cons_neg _ (not_not.mpr rfl)]
      exact ih b
    · rw [List.destutter'_cons_pos _ h, List.destutter'_cons_pos _ h, ih c]
      split
      next => rfl
      next => rfl

/-- The last element of a list is kept exactly if it differs from the one before it. -/
theorem destutter_concat (l : List φ) (a : φ) : (l ++ [a]).destutter (· ≠ ·) =
    if l.getLast? = some a then l.destutter (· ≠ ·) else l.destutter (· ≠ ·) ++ [a] := by
  cases l with
  | nil => rfl
  | cons b l => exact destutter'_concat l a b

theorem getLast?_destutter (l : List φ) : (l.destutter (· ≠ ·)).getLast? = l.getLast? := by
  induction l using List.reverseRecOn with
  | nil => rfl
  | append_singleton l a ih =>
    rw [destutter_concat]
    split
    next h => rw [ih, h, List.getLast?_concat]
    next => rw [List.getLast?_concat, List.getLast?_concat]

end Destutter

/-- A connection that is written the latest frame of each key, and left alone where nothing has
changed. `last` is a map that gives the empty frame for a missing key. -/
structure FrameOutput (κ φ : Type) where
  last : κ → φ
  written : List (κ × φ)
  live : Bool

variable {κ φ : Type}

def opened (empty : φ) : FrameOutput κ φ := ⟨fun _ => empty, [], true⟩

variable [DecidableEq κ]

/-- The frames of one key. -/
def framesOf (key : κ) (items : List (κ × φ)) : List φ :=
  items.filterMap fun item => if item.1 = key then some item.2 else none

theorem mem_framesOf {key : κ} {items : List (κ × φ)} {frame : φ} :
    frame ∈ framesOf key items ↔ (key, frame) ∈ items := by
  unfold framesOf
  rw [List.mem_filterMap]
  constructor
  · rintro ⟨item, hm, he⟩
    split at he
    next hkey =>
      cases he
      exact hkey ▸ hm
    next => cases he
  · intro hm
    exact ⟨(key, frame), hm, if_pos rfl⟩

theorem framesOf_append (key : κ) (items others : List (κ × φ)) :
    framesOf key (items ++ others) = framesOf key items ++ framesOf key others :=
  List.filterMap_append

theorem framesOf_concat (key : κ) (items : List (κ × φ)) (item : κ × φ) :
    framesOf key (items ++ [item]) =
      framesOf key items ++ if item.1 = key then [item.2] else [] := by
  by_cases h : item.1 = key
  · simp [framesOf, h]
  · simp [framesOf, h]

variable [DecidableEq φ]

/-- The first write that fails ends the connection. -/
def offer (writes : ℕ → Bool) (w : FrameOutput κ φ) (item : κ × φ) : FrameOutput κ φ :=
  if w.live = false ∨ w.last item.1 = item.2 then w
  else if writes w.written.length then
    { w with last := Function.update w.last item.1 item.2, written := w.written ++ [item] }
  else { w with live := false }

/-- What has been written of the frames that were offered before the connection ended. -/
structure Follows (empty : φ) (offered : List (κ × φ)) (w : FrameOutput κ φ) : Prop where
  last : ∀ key, w.last key = (framesOf key offered).getLast?.getD empty
  written : ∀ key, framesOf key w.written = (framesOf key offered).destutter (· ≠ ·)
  order : w.written.Sublist offered

/-- Where a connection that was offered these items stands: it has seen all of them, or the first
write that failed was that of the next one, whose key has another last frame. -/
structure Until (writes : ℕ → Bool) (items seen : List (κ × φ)) (w : FrameOutput κ φ) : Prop where
  succeeded : ∀ n < w.written.length, writes n = true
  live : w.live = true → seen = items
  failed : w.live = false → writes w.written.length = false ∧
    ∃ item rest, items = seen ++ item :: rest ∧ (framesOf item.1 seen).getLast? ≠ some item.2

section Follows

variable {empty : φ} {offered : List (κ × φ)} {w : FrameOutput κ φ} {item : κ × φ}

theorem opened_follows (empty : φ) : Follows empty [] (opened empty : FrameOutput κ φ) where
  last _ := rfl
  written _ := rfl
  order := List.Sublist.slnil

/-- A frame that is the last one of its key already. -/
theorem Follows.same (h : Follows empty offered w) (hne : item.2 ≠ empty)
    (hsame : w.last item.1 = item.2) : Follows empty (offered ++ [item]) w := by
  have hlast : (framesOf item.1 offered).getLast? = some item.2 := by
    have hd := (h.last item.1).symm.trans hsame
    cases hl : (framesOf item.1 offered).getLast? with
    | none =>
      rw [hl] at hd
      exact absurd hd.symm hne
    | some frame =>
      rw [hl] at hd
      exact congrArg some hd
  constructor
  · intro key
    rw [framesOf_concat, h.last key]
    split
    next hkey => rw [← hkey, hlast, List.getLast?_concat]
    next => rw [List.append_nil]
  · intro key
    rw [framesOf_concat, h.written key]
    split
    next hkey =>
      subst hkey
      rw [destutter_concat, if_pos hlast]
    next => rw [List.append_nil]
  · exact h.order.trans (List.sublist_append_left _ _)

theorem Follows.differs (h : Follows empty offered w) (hdiffers : w.last item.1 ≠ item.2) :
    (framesOf item.1 offered).getLast? ≠ some item.2 := by
  intro hl
  have hd := h.last item.1
  rw [hl] at hd
  exact hdiffers hd

/-- A frame that is written. -/
theorem Follows.write (h : Follows empty offered w) (hdiffers : w.last item.1 ≠ item.2) :
    Follows empty (offered ++ [item])
      { w with last := Function.update w.last item.1 item.2, written := w.written ++ [item] } := by
  have hlast := h.differs hdiffers
  constructor
  · intro key
    rw [framesOf_concat]
    by_cases hkey : item.1 = key
    · subst hkey
      simp
    · rw [if_neg hkey, List.append_nil]
      exact (Function.update_of_ne (Ne.symm hkey) _ _).trans (h.last key)
  · intro key
    show framesOf key (w.written ++ [item]) = _
    rw [framesOf_concat, framesOf_concat, h.written key]
    by_cases hkey : item.1 = key
    · subst hkey
      rw [if_pos rfl, destutter_concat, if_neg hlast]
    · rw [if_neg hkey, List.append_nil, List.append_nil]
  · exact h.order.append (List.Sublist.refl [item])

/-- Whatever is offered, the frames of each key that are written are those that were offered
before the first write that failed, without the repetitions. -/
theorem offers_follows (writes : ℕ → Bool) (items : List (κ × φ))
    (hne : ∀ item ∈ items, item.2 ≠ empty) : ∃ seen, seen <+: items ∧
      Until writes items seen (items.foldl (offer writes) (opened empty)) ∧
      Follows empty seen (items.foldl (offer writes) (opened empty)) := by
  induction items using List.reverseRecOn with
  | nil =>
    exact ⟨[], List.prefix_rfl, ⟨by simp [opened], fun _ => rfl, by simp [opened]⟩,
      opened_follows empty⟩
  | append_singleton items item ih =>
    obtain ⟨seen, hseen, huntil, hfollows⟩ :=
      ih fun other hm => hne other (List.mem_append_left _ hm)
    rw [List.foldl_append, List.foldl_cons, List.foldl_nil]
    generalize items.foldl (offer writes) (opened empty) = w at huntil hfollows ⊢
    have hlonger : seen <+: items ++ [item] := hseen.trans (List.prefix_append _ _)
    unfold offer
    by_cases hended : w.live = false
    · rw [if_pos (Or.inl hended)]
      refine ⟨seen, hlonger, ⟨huntil.succeeded, by simp [hended], ?_⟩, hfollows⟩
      intro _
      obtain ⟨hfail, next, rest, hitems, hnext⟩ := huntil.failed hended
      exact ⟨hfail, next, rest ++ [item], by simp [hitems], hnext⟩
    · have hlive : w.live = true := by simpa using hended
      have hall : seen = items := huntil.live hlive
      subst hall
      by_cases hsame : w.last item.1 = item.2
      · rw [if_pos (Or.inr hsame)]
        exact ⟨_, List.prefix_rfl, ⟨huntil.succeeded, fun _ => rfl, by simp [hlive]⟩,
          hfollows.same (hne item (by simp)) hsame⟩
      · rw [if_neg (by simp [hended, hsame])]
        by_cases hwrite : writes w.written.length = true
        · rw [if_pos hwrite]
          refine ⟨_, List.prefix_rfl, ⟨?_, fun _ => rfl, by simp [hlive]⟩, hfollows.write hsame⟩
          intro n hn
          rw [List.length_append, List.length_singleton, Nat.lt_succ_iff_lt_or_eq] at hn
          exact hn.elim (huntil.succeeded n) fun he => he ▸ hwrite
        · rw [if_neg hwrite]
          refine ⟨seen, hlonger, ⟨huntil.succeeded, by simp, ?_⟩,
            hfollows.last, hfollows.written, hfollows.order⟩
          exact fun _ => ⟨by simpa using hwrite, item, [], rfl, hfollows.differs hsame⟩

end Follows

end AutoDeploy.FrameWriter
