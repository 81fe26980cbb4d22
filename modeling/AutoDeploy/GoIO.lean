import Mathlib.Data.List.Basic

namespace GoIO

variable {ε : Type}

/-- What ends a stream: `io.EOF`, or another error. -/
inductive Ending (ε : Type)
  | eof
  | failed (err : ε)
deriving DecidableEq

def Ending.err : Ending ε → Option ε
  | eof => none
  | failed err => some err

/-- An `io.Reader` that ends: the bytes that its next reads give to a large buffer, and its end,
which comes with the last of them or in a read of its own. -/
structure Reader (ε : Type) where
  chunks : List (List UInt8)
  ending : Ending ε
  eager : Bool

/-- What one call of `Read` returns. -/
structure ReadResult (ε : Type) where
  bytes : List UInt8
  ending : Option (Ending ε)

namespace Reader

def content (r : Reader ε) : List UInt8 := r.chunks.flatten

/-- The end comes with the last byte, and not in a read without any. -/
def endsWithLast (r : Reader ε) : Bool := r.eager && r.chunks.getLast?.any (!·.isEmpty)

/-- `Read` into a buffer of this size. -/
def read (r : Reader ε) (size : ℕ) : ReadResult ε × Reader ε :=
  match r.chunks with
  | [] => (⟨[], some r.ending⟩, r)
  | chunk :: rest =>
    if size < chunk.length then
      (⟨chunk.take size, none⟩, { r with chunks := chunk.drop size :: rest })
    else if rest = [] ∧ r.eager = true then (⟨chunk, some r.ending⟩, { r with chunks := rest })
    else (⟨chunk, none⟩, { r with chunks := rest })

/-- A bound on the reads that are left. -/
def weight (r : Reader ε) : ℕ := r.content.length + r.chunks.length

end Reader

/-- The reader of `io.LimitReader`, with the bytes that it may still give. -/
structure LimitedReader (ε : Type) where
  reader : Reader ε
  left : ℕ

def LimitedReader.read (l : LimitedReader ε) (size : ℕ) : ReadResult ε × LimitedReader ε :=
  if l.left = 0 then (⟨[], some .eof⟩, l)
  else
    let (result, reader) := l.reader.read (min size l.left)
    (result, ⟨reader, l.left - result.bytes.length⟩)

/-- The writes of a file, in their order: all bytes are written, or some and then an error. -/
abbrev Writes (ε : Type) := ℕ → Option (ℕ × ε)

/-- What a copy has done: the bytes in the file, the error, and what is left to read. -/
structure Copied (ε : Type) where
  stored : List UInt8
  err : Option ε
  source : LimitedReader ε

/-- The size of the buffer of `io.Copy`. -/
def bufferSize (limit : ℕ) : ℕ := if limit < 32 * 1024 then max limit 1 else 32 * 1024

/-- The loop of `io.Copy`, with fuel for its reads. `n` is the number of writes so far. -/
def copyLoop (size : ℕ) (writes : Writes ε) :
    ℕ → ℕ → List UInt8 → LimitedReader ε → Copied ε
  | 0, _, stored, l => ⟨stored, none, l⟩
  | fuel + 1, n, stored, l =>
    let (result, l) := l.read size
    if result.bytes = [] then
      match result.ending with
      | none => copyLoop size writes fuel n stored l
      | some ending => ⟨stored, ending.err, l⟩
    else match writes n with
      | some (count, err) => ⟨stored ++ result.bytes.take count, some err, l⟩
      | none =>
        match result.ending with
        | none => copyLoop size writes fuel (n + 1) (stored ++ result.bytes) l
        | some ending => ⟨stored ++ result.bytes, ending.err, l⟩

/-- `io.Copy` of a limited reader to a new file. -/
def copy (writes : Writes ε) (l : LimitedReader ε) : Copied ε :=
  copyLoop (bufferSize l.left) writes (l.reader.weight + 1) 0 [] l

section Read

/-- A read gives the next bytes of the content, and its end only behind the last of them. -/
structure Reads (r : Reader ε) (size : ℕ) (result : ReadResult ε) (r' : Reader ε) : Prop where
  content : r.content = result.bytes ++ r'.content
  bounded : result.bytes.length ≤ size
  ending : ∀ ending, result.ending = some ending → ending = r.ending ∧ r'.content = []
  same : r'.ending = r.ending
  together : result.ending ≠ none → result.bytes ≠ [] → r.endsWithLast = true
  apart : result.ending = none → r'.endsWithLast = r.endsWithLast
  progress : result.ending = none → 0 < size → r'.weight < r.weight

theorem read_reads (r : Reader ε) (size : ℕ) : Reads r size (r.read size).1 (r.read size).2 := by
  obtain ⟨chunks, ending, eager⟩ := r
  cases chunks with
  | nil =>
    refine ⟨rfl, Nat.zero_le _, ?_, rfl, by simp [Reader.read], by simp [Reader.read],
      by simp [Reader.read]⟩
    rintro _ ⟨⟩
    exact ⟨rfl, rfl⟩
  | cons chunk rest =>
    unfold Reader.read
    dsimp only
    split
    next hsize =>
      refine ⟨?_, List.length_take_le size chunk, by simp, rfl, by simp, ?_, ?_⟩
      · simp [Reader.content, ← List.append_assoc]
      · -- what is left of the chunk is not empty
        intro _
        cases rest with
        | nil =>
          have hleft : (chunk.drop size).isEmpty = false := by
            rw [List.isEmpty_eq_false_iff, Ne, List.drop_eq_nil_iff]
            omega
          have hchunk : chunk.isEmpty = false := by
            rw [List.isEmpty_eq_false_iff, ← List.length_pos_iff]
            omega
          simp only [Reader.endsWithLast, List.getLast?_singleton, Option.any_some, hleft, hchunk]
        | cons next rest => simp [Reader.endsWithLast]
      · intro _ hpos
        simp only [Reader.weight, Reader.content, List.flatten_cons, List.length_append,
          List.length_drop, List.length_cons]
        omega
    next hsize =>
      split
      next hlast =>
        obtain ⟨rfl, heager⟩ := hlast
        refine ⟨by simp [Reader.content], by dsimp only; omega, ?_, rfl, ?_, by simp, by simp⟩
        · rintro _ ⟨⟩
          exact ⟨rfl, rfl⟩
        · intro _ hchunk
          simpa [Reader.endsWithLast, heager] using hchunk
      next hlast =>
        refine ⟨by simp [Reader.content], by dsimp only; omega, by simp, rfl, by simp, ?_, ?_⟩
        · intro _
          cases rest with
          | nil =>
            have hlazy : eager = false := by simpa using hlast
            simp [Reader.endsWithLast, hlazy]
          | cons next rest => simp [Reader.endsWithLast]
        · intro _ _
          simp only [Reader.weight, Reader.content, List.flatten_cons, List.length_append,
            List.length_cons]
          omega

/-- What the reader behind a limit returns to reads of these sizes, until the limit is used up. -/
def LimitedReader.returned (l : LimitedReader ε) : List ℕ → List (ReadResult ε)
  | [] => []
  | size :: sizes =>
    if l.left = 0 then l.returned sizes
    else (l.read size).1 :: (l.read size).2.returned sizes

theorem returned_bounded (l : LimitedReader ε) (sizes : List ℕ) :
    ((l.returned sizes).flatMap ReadResult.bytes).length ≤ l.left := by
  induction sizes generalizing l with
  | nil => exact Nat.zero_le _
  | cons size sizes ih =>
    unfold LimitedReader.returned
    split
    next => exact ih l
    next hleft =>
      have hread := (read_reads l.reader (min size l.left)).bounded
      have hrest := ih (l.read size).2
      simp only [LimitedReader.read, hleft, ↓reduceIte, List.flatMap_cons, List.length_append]
        at hrest ⊢
      omega

end Read

section Copy

variable {size : ℕ} {writes : Writes ε} {l : LimitedReader ε} {stored : List UInt8}
  {c : Copied ε}

/-- What a copy from this reader does, behind the bytes that are stored already. -/
structure Copies (writes : Writes ε) (l : LimitedReader ε) (stored : List UInt8)
    (c : Copied ε) : Prop where
  taken : ∃ bytes, l.reader.content = bytes ++ c.source.reader.content ∧ bytes.length ≤ l.left
  done : c.err = none → c.stored = stored ++ l.reader.content.take l.left ∧
    (l.reader.content.length < l.left → l.reader.ending = .eof)
  fine : (∀ n, writes n = none) →
    l.reader.ending = .eof ∨ l.left < l.reader.content.length → c.err = none
  broken : (∀ n, writes n = none) → ∀ err, l.reader.ending = .failed err →
    l.reader.content.length < l.left → c.stored = stored ++ l.reader.content ∧ c.err = some err
  exact : (∀ n, writes n = none) → ∀ err, l.reader.ending = .failed err →
    l.reader.content.length = l.left → c.stored = stored ++ l.reader.content ∧
      c.err = if l.reader.endsWithLast then some err else none

/-- A reader without a byte has no last one. -/
theorem endsWithLast_nil {r : Reader ε} (h : r.content = []) : r.endsWithLast = false := by
  have hchunks : ∀ chunk ∈ r.chunks, chunk = [] := List.flatten_eq_nil_iff.mp h
  unfold Reader.endsWithLast
  cases hlast : r.chunks.getLast? with
  | none => simp
  | some chunk => simp [hchunks chunk (List.mem_of_getLast? hlast)]

theorem Ending.err_none {ending : Ending ε} (h : ending.err = none) : ending = .eof := by
  cases ending with
  | eof => rfl
  | failed err => cases h

/-- The end of the stream, together with the last bytes or without any. -/
theorem copies_end (left : ℕ) {result : ReadResult ε} {r' : Reader ε} {ending : Ending ε}
    (hleft : l.left ≠ 0) (hreads : Reads l.reader (min size l.left) result r')
    (hend : result.ending = some ending) :
    Copies writes l stored ⟨stored ++ result.bytes, ending.err, ⟨r', left⟩⟩ := by
  obtain ⟨rfl, hempty⟩ := hreads.ending ending hend
  have hcontent : l.reader.content = result.bytes := by
    rw [hreads.content, hempty, List.append_nil]
  have hbounded : l.reader.content.length ≤ l.left := by
    have hbytes := hreads.bounded
    rw [hcontent]
    omega
  refine ⟨⟨result.bytes, hreads.content, hcontent ▸ hbounded⟩, ?_, ?_, ?_, ?_⟩
  · intro herr
    refine ⟨?_, fun _ => Ending.err_none herr⟩
    rw [List.take_of_length_le hbounded, hcontent]
  · rintro _ (heof | hlong)
    · rw [heof]
      rfl
    · omega
  · intro _ err hfailed _
    rw [hfailed, hcontent]
    exact ⟨rfl, rfl⟩
  · intro _ err hfailed hall
    have hbytes : result.bytes ≠ [] := by
      rw [← hcontent, ← List.length_pos_iff]
      omega
    rw [hfailed, hcontent, hreads.together (by simp [hend]) hbytes]
    exact ⟨rfl, rfl⟩

/-- One read that does not end the stream, its write, and the copy of what is left. -/
theorem Copies.next {result : ReadResult ε} {r' : Reader ε}
    (hreads : Reads l.reader (min size l.left) result r') (hmore : result.ending = none)
    (h : Copies writes ⟨r', l.left - result.bytes.length⟩ (stored ++ result.bytes) c) :
    Copies writes l stored c := by
  have hbounded := hreads.bounded
  have hlength : l.reader.content.length = result.bytes.length + r'.content.length := by
    rw [hreads.content, List.length_append]
  obtain ⟨⟨bytes, hbytes, htaken⟩, hdone, hfine, hbroken, hexact⟩ := h
  refine ⟨⟨result.bytes ++ bytes, ?_, ?_⟩, ?_, ?_, ?_, ?_⟩
  · rw [hreads.content, hbytes, List.append_assoc]
  · rw [List.length_append]
    dsimp only at htaken
    omega
  · intro herr
    obtain ⟨hstored, heof⟩ := hdone herr
    have htake : result.bytes ++ r'.content.take (l.left - result.bytes.length) =
        l.reader.content.take l.left := by
      rw [hreads.content, List.take_append,
        List.take_of_length_le (show result.bytes.length ≤ l.left by omega)]
    refine ⟨?_, ?_⟩
    · rw [hstored, List.append_assoc, htake]
    · intro hshort
      rw [← hreads.same]
      exact heof (by dsimp only; omega)
  · intro hwrites hrest
    apply hfine hwrites
    rcases hrest with heof | hlong
    · exact Or.inl (hreads.same.trans heof)
    · exact Or.inr (by dsimp only; omega)
  · intro hwrites err hfailed hshort
    obtain ⟨hstored, herr⟩ := hbroken hwrites err (hreads.same.trans hfailed)
      (by dsimp only; omega)
    refine ⟨?_, herr⟩
    rw [hstored, hreads.content, List.append_assoc]
  · intro hwrites err hfailed hall
    obtain ⟨hstored, herr⟩ := hexact hwrites err (hreads.same.trans hfailed)
      (by dsimp only; omega)
    refine ⟨?_, ?_⟩
    · rw [hstored, hreads.content, List.append_assoc]
    · rw [herr, hreads.apart hmore]

theorem copyLoop_copies (hsize : 0 < size) (fuel n : ℕ) (hfuel : l.reader.weight < fuel) :
    Copies writes l stored (copyLoop size writes fuel n stored l) := by
  induction fuel generalizing n stored l with
  | zero => omega
  | succ fuel ih =>
    unfold copyLoop
    by_cases hleft : l.left = 0
    · simp only [LimitedReader.read, hleft, ↓reduceIte, Ending.err]
      refine ⟨⟨[], rfl, Nat.zero_le _⟩, ?_, fun _ _ => rfl, by omega, ?_⟩
      · intro _
        exact ⟨by simp [hleft], by omega⟩
      · intro _ err _ hall
        have hempty : l.reader.content = [] := List.eq_nil_of_length_eq_zero (hall.trans hleft)
        rw [hempty, endsWithLast_nil hempty, List.append_nil]
        exact ⟨rfl, rfl⟩
    · have hreads := read_reads l.reader (min size l.left)
      simp only [LimitedReader.read, hleft, ↓reduceIte]
      generalize (l.reader.read (min size l.left)).1 = result at hreads ⊢
      generalize (l.reader.read (min size l.left)).2 = r' at hreads ⊢
      have hnext : result.ending = none → r'.weight < fuel := by
        intro hnone
        have hless := hreads.progress hnone (by omega)
        omega
      split
      next hempty =>
        cases hend : result.ending with
        | none =>
          apply Copies.next hreads hend
          rw [hempty, List.append_nil]
          exact ih n (hnext hend)
        | some ending =>
          have hsame : stored ++ result.bytes = stored := by rw [hempty, List.append_nil]
          have hcopies : Copies writes l stored ⟨stored ++ result.bytes, ending.err, _⟩ :=
            copies_end (l.left - result.bytes.length) hleft hreads hend
          rw [hsame] at hcopies
          exact hcopies
      next hbytes =>
        cases hwrite : writes n with
        | some failure =>
          obtain ⟨count, err⟩ := failure
          have hnot : ¬ ∀ n, writes n = none := by
            intro hwrites
            rw [hwrites n] at hwrite
            cases hwrite
          refine ⟨⟨result.bytes, hreads.content, ?_⟩, ?_, fun hwrites => absurd hwrites hnot,
            fun hwrites => absurd hwrites hnot, fun hwrites => absurd hwrites hnot⟩
          · have hbounded := hreads.bounded
            omega
          · intro herr
            cases herr
        | none =>
          cases hend : result.ending with
          | none => exact Copies.next hreads hend (ih (n + 1) (hnext hend))
          | some ending => exact copies_end _ hleft hreads hend

theorem bufferSize_pos (limit : ℕ) : 0 < bufferSize limit := by
  unfold bufferSize
  split <;> omega

theorem copy_copies (writes : Writes ε) (l : LimitedReader ε) :
    Copies writes l [] (copy writes l) :=
  copyLoop_copies (bufferSize_pos l.left) _ 0 (Nat.lt_succ_self _)

end Copy

end GoIO
