/-
# `Proofs.Source.Lines` — where the lines of a buffer stand

`File.lines` cuts a content at its line feeds; `File.lineStart`, `File.line`,
`File.lineCount` and `File.lineOf` work with the offsets of the line feeds
instead.  Both say the same about every line, and the reason is one
description of where a line stands (`Line.StandsIn`): what is before it ends
in a line feed and has one line feed less than the number of the line, the
line has none, and what is behind it begins with one.

Every line of a buffer stands in it (`File.standsIn_of_mem_lines`), and the
number, start, text and coordinates of a line that stands in a buffer can be
read off.

In words of 32 bits the same is read as long as the buffer has fewer bytes than
words have values (`File.line?_eq`, `File.lines?_eq`, `File.text?_eq`), and for
coordinates one fewer (`File.position?_of_short`): a column is one higher than the
characters before it.
-/
import LineLexer.Proofs.Text.Decoding
import LineLexer.Source.File

namespace LineLexer

/-! ## Cutting at line feeds -/

namespace Bytes

theorem splitOn_of_not_mem {sep : UInt8} : ∀ {s : Bytes}, sep ∉ s → splitOn sep s = [s]
  | [], _ => rfl
  | b :: s, h => by
      have hb : ¬ b = sep := fun hb => h (by rw [hb]; exact List.mem_cons_self)
      rw [splitOn, if_neg hb, splitOn_of_not_mem fun hs => h (List.mem_cons_of_mem _ hs)]

theorem splitOn_append {sep : UInt8} (t : Bytes) : ∀ {s : Bytes}, sep ∉ s →
    splitOn sep (s ++ sep :: t) = s :: splitOn sep t
  | [], _ => by rw [List.nil_append, splitOn, if_pos rfl]
  | b :: s, h => by
      have hb : ¬ b = sep := fun hb => h (by rw [hb]; exact List.mem_cons_self)
      rw [List.cons_append, splitOn, if_neg hb,
        splitOn_append t fun hs => h (List.mem_cons_of_mem _ hs)]

theorem splitOn_ne_nil (sep : UInt8) : ∀ s : Bytes, splitOn sep s ≠ []
  | [] => List.cons_ne_nil _ _
  | b :: s => by
      rw [splitOn]
      split
      · exact List.cons_ne_nil _ _
      · split <;> exact List.cons_ne_nil _ _

theorem join_cons (sep p : Bytes) {ps : List Bytes} (h : ps ≠ []) :
    join sep (p :: ps) = p ++ (sep ++ join sep ps) := by
  cases ps with
  | nil => exact absurd rfl h
  | cons q qs => exact List.intercalate_cons_cons.trans (List.append_assoc _ _ _)

/-- The pieces of a text, joined again, are the text. -/
theorem join_splitOn (sep : UInt8) (s : Bytes) : join [sep] (splitOn sep s) = s := by
  induction s with
  | nil => exact List.intercalate_singleton
  | cons b s ih =>
      have hne := splitOn_ne_nil sep s
      rw [splitOn]
      split
      · rename_i hb
        rw [join_cons [sep] [] hne, ih, hb]
        rfl
      · cases hs : splitOn sep s with
        | nil => exact absurd hs hne
        | cons q qs =>
            rw [hs] at ih
            cases qs with
            | nil =>
                have hq : q = s := List.intercalate_singleton.symm.trans ih
                rw [hq]
                exact List.intercalate_singleton
            | cons r rs =>
                rw [join_cons [sep] q (List.cons_ne_nil r rs)] at ih
                rw [join_cons [sep] (b :: q) (List.cons_ne_nil r rs), List.cons_append, ih]

theorem slice?_of_le {s : Bytes} {lo hi : Nat} (hlo : lo ≤ hi) (hhi : hi ≤ s.length) :
    s.slice? lo hi = some (s.slice lo hi) :=
  if_pos ⟨hlo, hhi⟩

/-- There is nothing to be read behind the end. -/
theorem slice_min_length (s : Bytes) (lo hi : Nat) :
    s.slice lo (min hi s.length) = s.slice lo hi := by
  rw [slice, slice, List.take_eq_take_iff, List.length_drop]
  omega

end Bytes

namespace File

/-- The line feed. -/
abbrev feed : UInt8 := 0x0A

/-- A content has no line feed, or is cut at the first one. -/
theorem feed_cases (s : Bytes) : feed ∉ s ∨ ∃ a b, s = a ++ feed :: b ∧ feed ∉ a := by
  by_cases h : feed ∈ s
  · exact Or.inr (List.eq_append_cons_of_mem h)
  · exact Or.inl h

/-- Induction over a content line by line. -/
theorem feed_induction {P : Bytes → Prop} (last : ∀ s, feed ∉ s → P s)
    (cons : ∀ a b, feed ∉ a → P b → P (a ++ feed :: b)) (s : Bytes) : P s := by
  rcases feed_cases s with h | ⟨a, b, rfl, h⟩
  · exact last s h
  · have : b.length < (a ++ feed :: b).length := by simp; omega
    exact cons a b h (feed_induction last cons b)
termination_by s.length

theorem splitLines_last {s : Bytes} (h : feed ∉ s) : splitLines s = if s = [] then [] else [s] := by
  rw [splitLines, Bytes.splitOn_of_not_mem h]
  cases s <;> simp

theorem splitLines_append {a : Bytes} (b : Bytes) (h : feed ∉ a) :
    splitLines (a ++ feed :: b) = a :: splitLines b := by
  have hne := Bytes.splitOn_ne_nil feed b
  rw [splitLines, splitLines, Bytes.splitOn_append b h]
  rw [List.getLast?_cons_of_ne_nil hne, List.dropLast_cons_of_ne_nil hne]
  split <;> rfl

/-! ## The offsets of line feeds -/

theorem lineEndsFrom_append (b : Bytes) : ∀ (o : Nat) (a : Bytes),
    lineEndsFrom o (a ++ b) = lineEndsFrom o a ++ lineEndsFrom (o + a.length) b
  | _, [] => rfl
  | o, c :: a => by
      have ho : o + (c :: a).length = o + 1 + a.length := by simp; omega
      rw [List.cons_append, lineEndsFrom, lineEndsFrom, lineEndsFrom_append b (o + 1) a, ho]
      split <;> rfl

theorem lineEndsFrom_of_not_mem : ∀ (o : Nat) {s : Bytes}, feed ∉ s → lineEndsFrom o s = []
  | _, [], _ => rfl
  | o, b :: s, h => by
      have hb : ¬ b = feed := fun hb => h (by rw [hb]; exact List.mem_cons_self)
      rw [lineEndsFrom, if_neg hb]
      exact lineEndsFrom_of_not_mem (o + 1) fun hs => h (List.mem_cons_of_mem _ hs)

theorem length_lineEndsFrom : ∀ (o : Nat) (s : Bytes),
    (lineEndsFrom o s).length = s.count feed
  | _, [] => rfl
  | o, b :: s => by
      rw [lineEndsFrom]
      by_cases hb : b = feed
      · rw [if_pos hb, List.length_cons, length_lineEndsFrom (o + 1) s, hb, List.count_cons_self]
      · rw [if_neg hb, length_lineEndsFrom (o + 1) s, List.count_cons_of_ne hb]

theorem lt_length_of_mem_lineEndsFrom {e : Nat} {s : Bytes} (h : e ∈ lineEndsFrom 0 s) :
    e < s.length := by
  have hbound : ∀ (s : Bytes) (o : Nat), e ∈ lineEndsFrom o s → e < o + s.length := by
    intro s
    induction s with
    | nil =>
        intro o hmem
        exact absurd hmem List.not_mem_nil
    | cons b s ih =>
        intro o hmem
        have hrest : e ∈ lineEndsFrom (o + 1) s → e < o + (b :: s).length := by
          intro hmem'
          have := ih (o + 1) hmem'
          rw [List.length_cons]
          omega
        rw [lineEndsFrom] at hmem
        split at hmem
        · rcases List.mem_cons.mp hmem with rfl | hmem
          · rw [List.length_cons]
            omega
          · exact hrest hmem
        · exact hrest hmem
  simpa using hbound s 0 h

end File

/-! ## Where a line stands -/

/-- The line stands in a content between `pre` and `post`. -/
structure Line.StandsIn (l : Line) (content pre post : Bytes) : Prop where
  split : content = pre ++ (l.text ++ post)
  start_eq : l.start = pre.length
  num_eq : l.num = pre.count File.feed + 1
  opens : pre = [] ∨ ∃ q, pre = q ++ [File.feed]
  unbroken : File.feed ∉ l.text
  closes : (post = [] ∧ l.text ≠ []) ∨ ∃ q, post = File.feed :: q

namespace File

theorem standsIn_of_mem_numberLines (file : Nat) (s : Bytes) : ∀ (pre : Bytes) {l : Line},
    (pre = [] ∨ ∃ q, pre = q ++ [feed]) →
    l ∈ numberLines file (pre.count feed + 1) pre.length (splitLines s) →
    l.file = file ∧ ∃ pre' post, l.StandsIn (pre ++ s) pre' post := by
  induction s using feed_induction with
  | last s hs =>
      intro pre l hpre hl
      rw [splitLines_last hs] at hl
      split at hl
      · exact absurd hl List.not_mem_nil
      · rename_i hne
        obtain rfl : l = ⟨file, pre.count feed + 1, pre.length, s⟩ := List.mem_singleton.mp hl
        exact ⟨rfl, pre, [], by simp, rfl, rfl, hpre, hs, Or.inl ⟨rfl, hne⟩⟩
  | cons a b ha ih =>
      intro pre l hpre hl
      rw [splitLines_append b ha, numberLines] at hl
      rcases List.mem_cons.mp hl with rfl | hl
      · exact ⟨rfl, pre, feed :: b, by simp, rfl, rfl, hpre, ha, Or.inr ⟨b, rfl⟩⟩
      · have hcount : (pre ++ a ++ [feed]).count feed = pre.count feed + 1 := by
          simp [List.count_eq_zero_of_not_mem ha]
        have hlen : (pre ++ a ++ [feed]).length = pre.length + a.length + 1 := by simp; omega
        obtain ⟨hfile, pre', post, hstands⟩ :=
          ih (pre ++ a ++ [feed]) (Or.inr ⟨pre ++ a, rfl⟩) (by rwa [hcount, hlen])
        exact ⟨hfile, pre', post, by simpa using hstands⟩

/-- Every line of a buffer stands in it. -/
theorem standsIn_of_mem_lines {f : File} {l : Line} (h : l ∈ f.lines) :
    l.file = f.id ∧ ∃ pre post, l.StandsIn f.content pre post :=
  standsIn_of_mem_numberLines f.id f.content [] (Or.inl rfl) h

end File

/-! ## Where an offset is -/

namespace File

/-- A text that is made of lines with their line feeds, or empty. -/
def FullLines (u : Bytes) : Prop := u = [] ∨ ∃ q, u = q ++ [feed]

/-- A text is made of full lines, and a rest without line feeds. -/
theorem exists_fullLines (s : Bytes) : ∃ u x, s = u ++ x ∧ FullLines u ∧ feed ∉ x := by
  induction s using feed_induction with
  | last s hs => exact ⟨[], s, rfl, Or.inl rfl, hs⟩
  | cons a b ha ih =>
      obtain ⟨u, x, rfl, hu, hx⟩ := ih
      refine ⟨a ++ feed :: u, x, by simp, Or.inr ?_, hx⟩
      rcases hu with rfl | ⟨q, rfl⟩
      · exact ⟨a, rfl⟩
      · exact ⟨a ++ feed :: q, by simp⟩

/-- The last line feed of full lines is their last byte. -/
theorem FullLines.getLast?_lineEndsFrom {u : Bytes} (h : FullLines u) :
    (u = [] ∧ lineEndsFrom 0 u = []) ∨
      ∃ n, u.length = n + 1 ∧ (lineEndsFrom 0 u).getLast? = some n := by
  rcases h with rfl | ⟨q, rfl⟩
  · exact Or.inl ⟨rfl, rfl⟩
  · refine Or.inr ⟨q.length, by simp, ?_⟩
    rw [lineEndsFrom_append]
    simp [lineEndsFrom]

section

variable {f : File} {u x v : Bytes}

/-- An offset behind full lines, with no line feed between, is in the next line. -/
theorem FullLines.lineOf_eq (hu : FullLines u) (hsplit : f.content = u ++ (x ++ v))
    (hx : feed ∉ x) : f.lineOf (u.length + x.length) = (u.count feed + 1, u.length) := by
  have htake : f.content.take (u.length + x.length) = u ++ x := by
    rw [hsplit, List.take_length_add_append, List.take_left]
  rw [lineOf, htake, lineEndsFrom_append, lineEndsFrom_of_not_mem _ hx, List.append_nil]
  rcases hu.getLast?_lineEndsFrom with ⟨rfl, hends⟩ | ⟨n, hlen, hlast⟩
  · simp [hends]
  · simp only [hlast, length_lineEndsFrom, hlen]

/-- Its column counts the characters between. -/
theorem FullLines.position_eq (hu : FullLines u) (hsplit : f.content = u ++ (x ++ v))
    (hx : feed ∉ x) : f.position (u.length + x.length) = ⟨u.count feed + 1, x.charCount + 1⟩ := by
  have hslice : f.content.slice u.length (u.length + x.length) = x := by
    rw [Bytes.slice, hsplit, List.drop_left, Nat.add_sub_cancel_left, List.take_left]
  rw [position, hu.lineOf_eq hsplit hx]
  dsimp only
  rw [hslice]

/-- Behind the end coordinates do not change. -/
theorem position_min_length (f : File) (offset : Nat) :
    f.position (min offset f.content.length) = f.position offset := by
  have hline : f.lineOf (min offset f.content.length) = f.lineOf offset := by
    have htake : f.content.take (min offset f.content.length) = f.content.take offset := by
      rw [List.take_eq_take_iff]
      omega
    rw [lineOf, lineOf, htake]
  rw [position, position, hline]
  dsimp only
  rw [Bytes.slice_min_length]

/-- The line of an offset starts in the buffer, and not behind the offset. -/
theorem lineOf_start_le (f : File) (offset : Nat) :
    (f.lineOf offset).2 ≤ min offset f.content.length := by
  obtain ⟨u, x, htake, hu, hx⟩ := exists_fullLines (f.content.take offset)
  have hlen := congrArg List.length htake
  rw [List.length_take, List.length_append] at hlen
  rw [lineOf, htake, lineEndsFrom_append, lineEndsFrom_of_not_mem _ hx, List.append_nil]
  rcases hu.getLast?_lineEndsFrom with ⟨-, hends⟩ | ⟨n, hn, hlast⟩
  · rw [hends]
    exact Nat.zero_le _
  · rw [hlast]
    dsimp only
    omega

/-- A line has a number, one more than the line feeds before the offset, and a column is
one more than the characters there: neither is higher than the bytes allow. -/
theorem position_le (f : File) (offset : Nat) :
    (f.position offset).line = (f.content.take offset).count feed + 1 ∧
      (f.position offset).line ≤ min offset f.content.length + 1 ∧
      (f.position offset).column ≤ min offset f.content.length + 1 := by
  obtain ⟨u, x, htake, hu, hx⟩ := exists_fullLines (f.content.take offset)
  have hlen := congrArg List.length htake
  rw [List.length_take, List.length_append] at hlen
  have hsplit : f.content = u ++ (x ++ f.content.drop offset) := by
    rw [← List.append_assoc, ← htake, List.take_append_drop]
  have hcount : (f.content.take offset).count feed = u.count feed := by
    rw [htake, List.count_append, List.count_eq_zero_of_not_mem hx, Nat.add_zero]
  have hposition : f.position offset = ⟨u.count feed + 1, x.charCount + 1⟩ := by
    rw [← hu.position_eq hsplit hx, ← hlen]
    exact (f.position_min_length offset).symm
  have hfeeds : u.count feed ≤ u.length := List.count_le_length
  have hchars := x.charCount_le_length
  rw [hposition, hcount]
  dsimp only
  omega

/-- The coordinate of an offset in words: there is none if the number of the line, or the
number of the characters before, does not fit one. -/
theorem position?_eq_ite (f : File) (offset : Nat) :
    f.position? offset =
      if (f.position offset).line < wordLimit ∧ (f.position offset).column ≤ wordLimit then
        some ⟨(f.position offset).line, (f.position offset).column % wordLimit⟩
      else none := by
  have hslice := Bytes.slice?_of_le (f.lineOf_start_le offset) (Nat.min_le_right _ _)
  rw [Bytes.slice_min_length] at hslice
  have hposition : f.position offset =
      ⟨(f.lineOf offset).1, (f.content.slice (f.lineOf offset).2 offset).charCount + 1⟩ := rfl
  rw [position?, lineOf?, hposition]
  dsimp only
  by_cases hline : (f.lineOf offset).1 < wordLimit
  · rw [if_pos hline]
    show ((f.content.slice? (f.lineOf offset).2 (min offset f.content.length)).bind _) = _
    rw [hslice]
    show (if _ < wordLimit then _ else none) = _
    by_cases hcolumn : (f.content.slice (f.lineOf offset).2 offset).charCount < wordLimit
    · rw [if_pos hcolumn, if_pos ⟨hline, hcolumn⟩]
    · rw [if_neg hcolumn, if_neg fun h => hcolumn h.2]
  · rw [if_neg hline, if_neg fun h => hline h.1]
    rfl

/-- Up to the last offset but one that fits a word, every offset has its coordinate. -/
theorem position?_eq {f : File} {offset : Nat} (h : min offset f.content.length < 0xFFFFFFFF) :
    f.position? offset = some (f.position offset) := by
  obtain ⟨-, hline, hcolumn⟩ := f.position_le offset
  have hlimit : wordLimit = 0x100000000 := rfl
  have hsame : (f.position offset).column % wordLimit = (f.position offset).column :=
    Nat.mod_eq_of_lt (by omega)
  rw [position?_eq_ite, if_pos ⟨by omega, by omega⟩, hsame]

/-- In particular if the buffer is short enough, wherever the offset is. -/
theorem position?_of_short {f : File} (h : f.content.length < 0xFFFFFFFF) (offset : Nat) :
    f.position? offset = some (f.position offset) :=
  position?_eq (by omega)

/-- The line behind full lines starts where they end. -/
theorem FullLines.lineStart_eq (hu : FullLines u) (hsplit : f.content = u ++ v) :
    f.lineStart (u.count feed + 1) = u.length := by
  have hlen := length_lineEndsFrom 0 u
  rw [lineStart]
  rcases hu.getLast?_lineEndsFrom with ⟨rfl, -⟩ | ⟨n, hn, hlast⟩
  · rfl
  · have hpos : 0 < u.count feed := by
      rw [← hlen]
      exact List.length_pos_iff.mpr fun hnil => by rw [hnil] at hlast; simp at hlast
    rw [List.getLast?_eq_getElem?, hlen] at hlast
    have hidx : u.count feed + 1 - 2 = u.count feed - 1 := by omega
    rw [if_neg (by omega), lineEnds, hsplit, lineEndsFrom_append, hidx,
      List.getElem?_append_left (by omega), hlast, hn]
    rfl

/-- The next line end is behind what has no line feed, if that goes on to the end or
to a line feed. -/
theorem lineEnds_getD (hsplit : f.content = u ++ (x ++ v)) (hx : feed ∉ x)
    (hv : v = [] ∨ ∃ q, v = feed :: q) :
    f.lineEnds[u.count feed]?.getD f.content.length = u.length + x.length := by
  rw [← length_lineEndsFrom 0 u, lineEnds, hsplit, lineEndsFrom_append, lineEndsFrom_append,
    lineEndsFrom_of_not_mem _ hx, List.nil_append,
    List.getElem?_append_right (Nat.le_refl _), Nat.sub_self]
  rcases hv with rfl | ⟨q, rfl⟩
  · simp [lineEndsFrom]
  · simp [lineEndsFrom]

end

end File

/-- A buffer that is added is found under its number. -/
theorem FileSet.get?_add (fs : FileSet) (name content : Bytes) (flags : UInt8) :
    (fs.add name content flags).get? fs.nextId =
      some (File.store fs.nextId name content flags) :=
  Array.getElem?_push_size

theorem FileSet.add?_eq_some {fs fs' : FileSet} {name content : Bytes} {flags : UInt8} :
    fs.add? name content flags = some fs' ↔
      fs.add name content flags = fs' ∧ fs.nextId < wordLimit ∧
        ∀ e ∈ (File.store fs.nextId name content flags).lineEnds, e < wordLimit := by
  rw [add?]
  split
  · rename_i hfits
    exact ⟨fun h => ⟨Option.some.inj h, hfits⟩, fun h => congrArg some h.1⟩
  · rename_i hfits
    exact ⟨fun h => absurd h.symm (Option.some_ne_none _), fun h => absurd h.2 hfits⟩

/-- The ends of a span that have a coordinate are found in a known buffer. -/
theorem FileSet.resolve?_eq {fs : FileSet} {s : Span} {f : File} {c d : Coord}
    (hfile : fs.get? s.file = some f) (hstart : f.position? s.start = some c)
    (hstop : f.position? s.stop = some d) : fs.resolve? s = some (c, d) := by
  rw [resolve?, hfile]
  show ((f.position? s.start).bind fun start => (f.position? s.stop).bind _) = _
  rw [hstart, hstop]
  rfl

/-! ## What can be read off -/

namespace Line.StandsIn

variable {f : File} {l : Line} {pre post : Bytes}

/-- What is before a line is made of full lines. -/
theorem fullLines (h : l.StandsIn f.content pre post) : File.FullLines pre := h.opens

/-- The coordinate of an offset in a line: its number, and the characters up to
the offset. -/
theorem position_eq (h : l.StandsIn f.content pre post) {k : Nat} (hk : k ≤ l.text.length) :
    f.position (l.start + k) = ⟨l.num, Bytes.charCount (l.text.take k) + 1⟩ := by
  have hsplit : f.content = pre ++ (l.text.take k ++ (l.text.drop k ++ post)) := by
    rw [← List.append_assoc (l.text.take k), List.take_append_drop]
    exact h.split
  have hlen : pre.length + (l.text.take k).length = l.start + k := by
    rw [List.length_take, Nat.min_eq_left hk, h.start_eq]
  rw [← hlen, h.fullLines.position_eq hsplit fun hm => h.unbroken (List.mem_of_mem_take hm),
    h.num_eq]

theorem lineStart_eq (h : l.StandsIn f.content pre post) : f.lineStart l.num = l.start := by
  rw [h.num_eq, h.start_eq]
  exact h.fullLines.lineStart_eq h.split

/-- The first line feed from the line on is the byte behind it. -/
theorem lineEnds_getElem? (h : l.StandsIn f.content pre post) :
    f.lineEnds[l.num - 1]?.getD f.content.length = l.start + l.text.length := by
  rw [h.num_eq, h.start_eq, Nat.add_sub_cancel]
  exact File.lineEnds_getD h.split h.unbroken (h.closes.imp_left And.left)

theorem num_pos (h : l.StandsIn f.content pre post) : 0 < l.num := by
  rw [h.num_eq]
  exact Nat.succ_pos _

theorem num_le_lineCount (h : l.StandsIn f.content pre post) : l.num ≤ f.lineCount := by
  have hends : f.lineEnds.length = pre.count File.feed + post.count File.feed := by
    rw [File.lineEnds, File.length_lineEndsFrom, h.split, List.count_append, List.count_append,
      List.count_eq_zero_of_not_mem h.unbroken, Nat.zero_add]
  rw [File.lineCount, h.num_eq, hends]
  rcases h.closes with ⟨rfl, hne⟩ | ⟨q, rfl⟩
  · have hlast : f.content.getLast? = some (l.text.getLast hne) := by
      rw [h.split, List.append_nil, List.getLast?_append, List.getLast?_eq_some_getLast hne,
        Option.some_or]
    have hfeed : ¬ l.text.getLast hne = File.feed := fun he =>
      h.unbroken (he ▸ List.getLast_mem hne)
    rw [hlast]
    simp [hfeed]
  · have hne : f.content ≠ [] := by rw [h.split]; simp
    rw [List.getLast?_eq_some_getLast hne]
    dsimp only
    rw [List.count_cons_self]
    split <;> omega

/-- A line is the stretch of the content that begins at its start and is as long as it. -/
theorem slice_eq (h : l.StandsIn f.content pre post) :
    f.content.slice l.start (l.start + l.text.length) = l.text := by
  rw [Bytes.slice, Nat.add_sub_cancel_left, h.start_eq, h.split, List.drop_left, List.take_left]

theorem line_eq (h : l.StandsIn f.content pre post) : f.line l.num = l.text := by
  have hnum : ¬ (l.num = 0 ∨ f.lineCount < l.num) := by
    have := h.num_pos
    have := h.num_le_lineCount
    omega
  rw [File.line, if_neg hnum, h.lineStart_eq, h.lineEnds_getElem?]
  exact h.slice_eq

theorem end_le (h : l.StandsIn f.content pre post) :
    l.start + l.text.length ≤ f.content.length := by
  rw [h.split, h.start_eq, List.length_append, List.length_append]
  omega

end Line.StandsIn

/-! ## The lines as a whole -/

namespace File

theorem numberLines_num (file : Nat) : ∀ (ts : List Bytes) (num start : Nat),
    (numberLines file num start ts).map Line.num = List.range' num ts.length
  | [], _, _ => rfl
  | t :: ts, num, start => by
      rw [numberLines, List.map_cons, numberLines_num file ts, List.length_cons, List.range'_succ]

/-- The lines are numbered from one on. -/
theorem lines_num (f : File) : f.lines.map Line.num = List.range' 1 (splitLines f.content).length :=
  numberLines_num f.id _ 1 0

theorem numberLines_text (file : Nat) : ∀ (ts : List Bytes) (num start : Nat),
    (numberLines file num start ts).map Line.text = ts
  | [], _, _ => rfl
  | t :: ts, num, start => by rw [numberLines, List.map_cons, numberLines_text file ts]

theorem lines_text (f : File) : f.lines.map Line.text = splitLines f.content :=
  numberLines_text f.id _ 1 0

/-- A line is found under its number. -/
theorem getElem?_lines {f : File} {l : Line} (h : l ∈ f.lines) :
    f.lines[l.num - 1]? = some l := by
  obtain ⟨i, hi, rfl⟩ := List.mem_iff_getElem.mp h
  have hlen : i < (f.lines.map Line.num).length := by rwa [List.length_map]
  have hnum : f.lines[i].num = 1 + i := by
    rw [← List.getElem_map (h := hlen)]
    simp only [lines_num, List.getElem_range', Nat.one_mul]
  rw [hnum, Nat.add_sub_cancel_left]
  exact List.getElem?_eq_getElem hi

/-- A number belongs to one line only. -/
theorem eq_of_num_eq {f : File} {l l' : Line} (h : l ∈ f.lines) (h' : l' ∈ f.lines)
    (hnum : l.num = l'.num) : l = l' := by
  have hl := getElem?_lines h
  rw [hnum, getElem?_lines h'] at hl
  exact (Option.some.inj hl).symm

theorem length_splitLines (s : Bytes) : (splitLines s).length =
    s.count feed + if s = [] ∨ s.getLast? = some feed then 0 else 1 := by
  induction s using feed_induction with
  | last s hs =>
      have hlast : ¬ s.getLast? = some feed := fun h => hs (List.mem_of_getLast? h)
      rw [splitLines_last hs, List.count_eq_zero_of_not_mem hs]
      by_cases h : s = []
      · simp [h]
      · simp [h, hlast]
  | cons a b ha ih =>
      rw [splitLines_append b ha, List.length_cons, ih, List.count_append,
        List.count_eq_zero_of_not_mem ha, List.count_cons_self]
      by_cases hb : b = []
      · simp [hb]
      · simp [hb, List.getLast?_cons_of_ne_nil hb]
        omega

theorem lineCount_eq (f : File) : f.lineCount = (splitLines f.content).length := by
  rw [length_splitLines, lineCount, lineEnds, length_lineEndsFrom]
  cases hlast : f.content.getLast? with
  | none => simp [List.getLast?_eq_none_iff.mp hlast]
  | some b =>
      have hne : f.content ≠ [] := fun h => by simp [h] at hlast
      by_cases hb : b = feed
      · simp [hb]
      · simp [hne, hb]

/-- There are as many lines as are counted. -/
theorem length_lines (f : File) : f.lines.length = f.lineCount := by
  rw [lineCount_eq, ← List.length_map Line.num, lines_num, List.length_range']

/-- The line with a number, as the offsets of the line feeds give it. -/
def lineAt (f : File) (n : Nat) : Line := ⟨f.id, n, f.lineStart n, f.line n⟩

theorem lineAt_num {f : File} {l : Line} (h : l ∈ f.lines) : f.lineAt l.num = l := by
  obtain ⟨hfile, pre, post, hstands⟩ := standsIn_of_mem_lines h
  rw [lineAt, hstands.lineStart_eq, hstands.line_eq, ← hfile]

/-- The lines are those with the numbers from one up to their count. -/
theorem lines_eq_map (f : File) : f.lines = (List.range' 1 f.lineCount).map f.lineAt := by
  rw [lineCount_eq, ← lines_num, List.map_map]
  exact (List.map_id f.lines).symm.trans (List.map_congr_left fun l hl => (lineAt_num hl).symm)

/-- The line with a number stands in its buffer. -/
theorem standsIn_lineAt (f : File) {n : Nat} (hn : 1 ≤ n) (hle : n ≤ f.lineCount) :
    ∃ pre post, (f.lineAt n).StandsIn f.content pre post := by
  have hmem : f.lineAt n ∈ f.lines := by
    rw [lines_eq_map]
    refine List.mem_map_of_mem (List.mem_range'_1.mpr ⟨hn, ?_⟩)
    omega
  exact (standsIn_of_mem_lines hmem).2

/-! ## In words -/

section

variable {f : File}

theorem length?_eq (h : f.content.length < 0x100000000) : f.length? = some f.content.length :=
  if_pos h

theorem length?_eq_none (h : ¬ f.content.length < 0x100000000) : f.length? = none := if_neg h

theorem lines?_eq (h : f.content.length < 0x100000000) : f.lines? = some f.lines := by
  rw [lines?, length?_eq h]
  rfl

theorem text?_eq (h : f.content.length < 0x100000000) (s : Span) : f.text? s = some (f.text s) := by
  rw [text?, length?_eq h, text]
  split <;> rfl

/-- A line that there is starts inside of the buffer. -/
theorem lineStart_le (f : File) (n : Nat) : f.lineStart n ≤ f.content.length := by
  rw [lineStart]
  split
  · exact Nat.zero_le _
  · cases hend : f.lineEnds[n - 2]? with
    | none => exact Nat.zero_le _
    | some e => exact lt_length_of_mem_lineEndsFrom (List.mem_of_getElem? hend)

theorem startWord_eq (h : f.content.length < 0x100000000) (n : Nat) :
    f.startWord n = f.lineStart n :=
  Nat.mod_eq_of_lt (Nat.lt_of_le_of_lt (f.lineStart_le n) h)

/-- Every line can be read, whatever its number is. -/
theorem line?_eq (h : f.content.length < 0x100000000) (n : Nat) : f.line? n = some (f.line n) := by
  rw [line?, line, startWord_eq h, length?_eq h]
  split
  · rfl
  · rename_i hn
    obtain ⟨pre, post, hstands⟩ := f.standsIn_lineAt (n := n) (by omega) (by omega)
    have hstop : f.lineEnds[n - 1]?.getD f.content.length = f.lineStart n + (f.line n).length :=
      hstands.lineEnds_getElem?
    show f.content.slice? (f.lineStart n) (f.lineEnds[n - 1]?.getD f.content.length) = _
    rw [hstop]
    exact Bytes.slice?_of_le (Nat.le_add_right _ _) hstands.end_le

end

end File

end LineLexer
