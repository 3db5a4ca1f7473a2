/-
# `Proofs.Source.Coordinates` — offsets and coordinates

A buffer gives the coordinate of an offset by counting line feeds and
characters (`File.position`).  Between characters this is a walk: behind each
character the column is one higher, and behind a line feed a new line begins
(`File.position_past`).  So coordinates grow with the offsets, and an offset that
is a boundary of characters can be found again from its coordinate
(`File.position?_boundaries`).

Inside a character the column counts each byte of what is cut off
(`File.position_inside`).  Behind the second byte of a character of three or four
it is therefore too high, and falls again at the end of the character; this is
the only way in which coordinates fall (`File.position?_truncated`) in a buffer
that is short enough for them.  The one offset that is not is the greatest number
that fits a word: there a column may wrap around, and a line may have no number.
-/
import LineLexer.Check.Tokens
import LineLexer.Proofs.Source.Lines
import LineLexer.Proofs.Text.Boundaries

namespace LineLexer

/-! ## The order of coordinates -/

namespace Coord

variable {c d e : Coord}

theorem before_iff :
    c.before d = true ↔ c.line < d.line ∨ (c.line = d.line ∧ c.column < d.column) := by
  unfold before
  split
  · rw [decide_eq_true_iff]
    omega
  · rw [decide_eq_true_iff]
    omega

theorem before_eq_false_iff :
    d.before c = false ↔ c.line < d.line ∨ (c.line = d.line ∧ c.column ≤ d.column) := by
  rw [← Bool.not_eq_true, before_iff]
  omega

/-- The coordinate behind a character that is found at a coordinate. -/
def past (c : Coord) (g : Glyph) : Coord :=
  if g.bytes = [File.feed] then ⟨c.line + 1, 1⟩ else ⟨c.line, c.column + 1⟩

end Coord

namespace File

variable {f : File} {gs hs : List Glyph} {g : Glyph}

/-! ## One character -/

/-- Full lines are read apart from what is behind them. -/
theorem FullLines.readApart {u : Bytes} (h : FullLines u) (t : Bytes) : Bytes.ReadApart u t := by
  rcases h with rfl | ⟨q, rfl⟩
  · exact Bytes.readApart_nil_left t
  · exact Bytes.readApart_concat (by decide) q t

/-- A character is a line feed, or has none. -/
theorem feed_notMem_bytes {s : Bytes} (hg : g ∈ glyphs s) (hne : g.bytes ≠ [feed]) :
    feed ∉ g.bytes := by
  intro hmem
  rcases Nat.lt_or_ge 1 g.size with hlong | hone
  · exact (Glyph.bytes_of_one_lt_size hg hlong).2 feed hmem (by decide)
  · obtain ⟨b, hb⟩ : ∃ b, g.bytes = [b] :=
      List.length_eq_one_iff.mp (Nat.le_antisymm hone (size_pos_of_mem_glyphs hg))
    rw [hb] at hmem hne
    exact hne (congrArg (fun c => [c]) (List.mem_singleton.mp hmem).symm)

/-- Up to a place and on to a further one with no line feed between: both are in the
line that the full lines before the first place leave open. -/
theorem exists_position {p y v : Bytes} (hsplit : f.content = p ++ (y ++ v)) (hy : feed ∉ y) :
    ∃ u x, p = u ++ x ∧ FullLines u ∧
      f.position p.length = ⟨p.count feed + 1, x.charCount + 1⟩ ∧
      f.position (p.length + y.length) = ⟨p.count feed + 1, Bytes.charCount (x ++ y) + 1⟩ := by
  obtain ⟨u, x, rfl, hu, hx⟩ := exists_fullLines p
  have hcount : (u ++ x).count feed = u.count feed := by
    rw [List.count_append, List.count_eq_zero_of_not_mem hx, Nat.add_zero]
  have hfree : feed ∉ x ++ y := by
    intro hmem
    exact (List.mem_append.mp hmem).elim hx hy
  have hfirst : f.content = u ++ (x ++ (y ++ v)) := by
    rw [hsplit, List.append_assoc]
  have hsecond : f.content = u ++ (x ++ y ++ v) := by
    rw [hfirst, List.append_assoc]
  have hlen : (u ++ x).length + y.length = u.length + (x ++ y).length := by
    rw [List.length_append, List.length_append, Nat.add_assoc]
  refine ⟨u, x, rfl, hu, ?_, ?_⟩
  · rw [hcount, List.length_append]
    exact hu.position_eq hfirst hx
  · rw [hcount, hlen]
    exact hu.position_eq hsecond hfree

/-- **Inside a character** the line stays the same, and the column counts the bytes
that are cut off. -/
theorem position_inside (h : glyphs f.content = gs ++ g :: hs) {j : Nat} (hj : j < g.size) :
    let r := (gs.flatMap Glyph.bytes).length
    f.position (r + j) = ⟨(f.position r).line, (f.position r).column + j⟩ := by
  intro r
  have hg : g ∈ glyphs f.content := by
    rw [h]
    exact List.mem_append_right gs List.mem_cons_self
  have hsplit : f.content = gs.flatMap Glyph.bytes ++
      (g.bytes.take j ++ (g.bytes.drop j ++ hs.flatMap Glyph.bytes)) := by
    rw [← List.append_assoc (g.bytes.take j), List.take_append_drop]
    exact Bytes.eq_append_of_glyphs h
  have hlen : (g.bytes.take j).length = j := by
    rw [List.length_take]
    exact Nat.min_eq_left (Nat.le_of_lt hj)
  have hfree : feed ∉ g.bytes.take j := by
    intro hmem
    -- what is cut off a line feed is nothing
    have hpos := List.length_pos_of_mem hmem
    rw [hlen] at hpos
    exact (Glyph.bytes_of_one_lt_size hg (Nat.lt_of_le_of_lt hpos hj)).2 feed
      (List.mem_of_mem_take hmem) (by decide)
  obtain ⟨u, x, -, -, hstart, hthere⟩ := exists_position hsplit hfree
  rw [hlen, Bytes.charCount_append_take hg hj] at hthere
  rw [hthere, hstart]
  simp only [Coord.mk.injEq, true_and]
  omega

/-- **Behind a character** the column is one higher, or a new line begins. -/
theorem position_past (h : glyphs f.content = gs ++ g :: hs) :
    f.position ((gs ++ [g]).flatMap Glyph.bytes).length =
      (f.position (gs.flatMap Glyph.bytes).length).past g := by
  have hsplit : f.content = gs.flatMap Glyph.bytes ++ (g.bytes ++ hs.flatMap Glyph.bytes) :=
    Bytes.eq_append_of_glyphs h
  have hbytes : (gs ++ [g]).flatMap Glyph.bytes = gs.flatMap Glyph.bytes ++ g.bytes := by
    rw [List.flatMap_append, List.flatMap_singleton]
  rw [hbytes, Coord.past]
  by_cases hfeed : g.bytes = [feed]
  · -- the line feed makes its line a full one
    rw [hfeed, List.singleton_append] at hsplit
    obtain ⟨u, x, -, -, hstart, -⟩ := exists_position (y := []) hsplit List.not_mem_nil
    have hfull : FullLines (gs.flatMap Glyph.bytes ++ [feed]) := Or.inr ⟨_, rfl⟩
    have hsplit' : f.content =
        gs.flatMap Glyph.bytes ++ [feed] ++ ([] ++ hs.flatMap Glyph.bytes) := by
      rw [hsplit, List.append_assoc]
      rfl
    have hnext := hfull.position_eq hsplit' List.not_mem_nil
    rw [if_pos hfeed, hfeed, hstart]
    refine hnext.trans ?_
    rw [List.count_append, List.count_singleton_self]
    rfl
  · have hg : g ∈ glyphs f.content := by
      rw [h]
      exact List.mem_append_right gs List.mem_cons_self
    obtain ⟨u, x, hux, hu, hstart, hbehind⟩ :=
      exists_position hsplit (feed_notMem_bytes hg hfeed)
    -- the characters of the open line: those before the place, and one more
    have hbefore : Bytes.charCount (gs.flatMap Glyph.bytes) = gs.length :=
      congrArg List.length (glyphs_before h)
    have hall : Bytes.charCount (gs.flatMap Glyph.bytes ++ g.bytes) = gs.length + 1 := by
      have hwhole : glyphs f.content = (gs ++ [g]) ++ hs := by
        rw [h, List.append_assoc]
        rfl
      rw [← hbytes, Bytes.charCount, glyphs_before hwhole, List.length_append]
      rfl
    have hopen := congrArg List.length (hu.readApart x)
    have hopen' := congrArg List.length (hu.readApart (x ++ g.bytes))
    rw [List.length_append] at hopen hopen'
    rw [hux, Bytes.charCount] at hbefore
    rw [hux, List.append_assoc, Bytes.charCount] at hall
    rw [if_neg hfeed, hstart, List.length_append, hbehind]
    simp only [Coord.mk.injEq, true_and, Bytes.charCount]
    omega

/-! ## Many characters -/

end File

/-! ## Lines and their boundaries -/

namespace Line.StandsIn

variable {f : File} {l : Line} {pre post : Bytes}

/-- A line is read apart from what is behind it. -/
theorem readApart (h : l.StandsIn f.content pre post) : Bytes.ReadApart l.text post := by
  rcases h.closes with ⟨rfl, -⟩ | ⟨q, rfl⟩
  · exact Bytes.readApart_nil_right l.text
  · exact Bytes.readApart_cons (by decide) l.text q

/-- The characters of a line are characters of the buffer. -/
theorem glyphs_content (h : l.StandsIn f.content pre post) :
    glyphs f.content = glyphs pre ++ (glyphs l.text ++ glyphs post) := by
  rw [h.split, h.fullLines.readApart, h.readApart]

/-- The boundaries of a line are boundaries of the buffer. -/
theorem mem_boundaries (h : l.StandsIn f.content pre post) {k : Nat} (hk : k ≤ l.text.length) :
    l.start + k ∈ f.content.boundaries ↔ k ∈ l.text.boundaries := by
  rw [h.split, h.start_eq]
  exact (h.fullLines.readApart _).mem_boundaries_right.trans (h.readApart.mem_boundaries_left hk)

end Line.StandsIn

namespace File

end File

/-! ## Columns -/

namespace Check

end Check

namespace File

/-- Every offset of a buffer, its end apart, is in a character. -/
theorem exists_glyph (f : File) {a : Nat} (ha : a < f.content.length) :
    ∃ gs g hs j, glyphs f.content = gs ++ g :: hs ∧ j < g.size ∧
      a = (gs.flatMap Glyph.bytes).length + j := by
  rw [← flatMap_bytes_glyphs f.content] at ha
  obtain ⟨gs, g, hs, hglyphs, hle, hlt⟩ := exists_piece_of_lt_length_flatMap ha
  refine ⟨gs, g, hs, a - (gs.flatMap Glyph.bytes).length, hglyphs, ?_, by omega⟩
  show _ < g.bytes.length
  omega

/-- The place behind a character, as an offset from its beginning. -/
theorem position_behind {f : File} {gs hs : List Glyph} {g : Glyph}
    (h : glyphs f.content = gs ++ g :: hs) :
    f.position ((gs.flatMap Glyph.bytes).length + g.size) =
      (f.position (gs.flatMap Glyph.bytes).length).past g := by
  rw [← position_past h, List.flatMap_append, List.flatMap_singleton, List.length_append]
  rfl

/-- From one offset to the next coordinates do not fall, if no character is longer
than two bytes. -/
theorem position_succ_of_short {f : File} (h : ∀ g ∈ glyphs f.content, g.size ≤ 2) (a : Nat) :
    (f.position (a + 1)).before (f.position a) = false := by
  rw [Coord.before_eq_false_iff]
  rcases Nat.lt_or_ge a f.content.length with hlt | hge
  · obtain ⟨gs, g, hs, j, hglyphs, hj, rfl⟩ := f.exists_glyph hlt
    have hshort : g.size ≤ 2 := h g (by simp [hglyphs])
    rw [position_inside hglyphs hj, Nat.add_assoc]
    rcases Nat.lt_or_ge (j + 1) g.size with hinside | hbehind
    · rw [position_inside hglyphs hinside]
      exact Or.inr ⟨rfl, Nat.le_succ _⟩
    · -- behind the character the column is one higher than before it
      obtain hsize : j + 1 = g.size := Nat.le_antisymm hj hbehind
      rw [hsize, position_behind hglyphs, Coord.past]
      split
      · exact Or.inl (Nat.lt_succ_self _)
      · exact Or.inr ⟨rfl, Nat.add_le_add_left (by omega) _⟩
  · -- behind the end coordinates do not change
    have hend : f.position (a + 1) = f.position a := by
      rw [← f.position_min_length, ← f.position_min_length a, Nat.min_eq_right hge,
        Nat.min_eq_right (Nat.le_succ_of_le hge)]
    rw [hend]
    exact Or.inr ⟨rfl, Nat.le_refl _⟩

/-- Between any two offsets they do not fall then, by induction on their distance. -/
theorem position_of_short {f : File} (h : ∀ g ∈ glyphs f.content, g.size ≤ 2) (a n : Nat) :
    (f.position (a + n)).before (f.position a) = false := by
  induction n with
  | zero =>
      rw [Coord.before_eq_false_iff]
      exact Or.inr ⟨rfl, Nat.le_refl _⟩
  | succ n ih =>
      have hstep := position_succ_of_short h (a + n)
      rw [Coord.before_eq_false_iff] at ih hstep ⊢
      rw [Nat.add_assoc] at hstep
      omega

/-- Behind the second byte of a longer character they are too high. -/
theorem position_falls {f : File} {gs hs : List Glyph} {g : Glyph}
    (h : glyphs f.content = gs ++ g :: hs) (hlong : 2 < g.size) :
    let r := (gs.flatMap Glyph.bytes).length
    (f.position (r + g.size)).before (f.position (r + 2)) = true := by
  intro r
  have hfeed : g.bytes ≠ [feed] := by
    intro hbytes
    rw [Glyph.size, hbytes] at hlong
    exact absurd hlong (by decide)
  rw [position_inside h hlong, position_behind h, Coord.past, if_neg hfeed, Coord.before_iff]
  exact Or.inr ⟨rfl, Nat.lt_succ_self _⟩

/-- **A character that is cut off counts by its bytes.**  An offset inside a
character of a line is in the same line, and its column is higher by the number of
bytes between; this is one only behind the first byte.  So coordinates never fall as
offsets grow if and only if no character of the buffer is longer than two bytes, where
the buffer is shorter than the greatest number that fits a word. -/
theorem position?_truncated (f : File) :
    (f.content.length < 0x100000000 → ∀ n, 1 ≤ n → n ≤ f.lineCount →
      ∀ gs g hs, glyphs (f.line n) = gs ++ g :: hs → ∀ j, j < g.size →
        let r := f.lineStart n + (gs.flatMap Glyph.bytes).length
        ∃ c, f.position? r = some c ∧ f.position? (r + j) = some ⟨c.line, c.column + j⟩) ∧
    (f.content.length < 0xFFFFFFFF →
      ((∀ a b c d, a ≤ b → f.position? a = some c → f.position? b = some d →
          d.before c = false) ↔
        ∀ g ∈ glyphs f.content, g.size ≤ 2)) := by
  constructor
  · intro hlength n hn hle gs g hs hglyphs j hj r
    obtain ⟨pre, post, hstands⟩ := f.standsIn_lineAt hn hle
    have hline : glyphs (f.lineAt n).text = gs ++ g :: hs := hglyphs
    have hwhole : glyphs f.content = (glyphs pre ++ gs) ++ g :: (hs ++ glyphs post) := by
      rw [hstands.glyphs_content, hline]
      simp
    have hr : ((glyphs pre ++ gs).flatMap Glyph.bytes).length = r := by
      have hstart : f.lineStart n = pre.length := hstands.start_eq
      rw [List.flatMap_append, List.length_append, flatMap_bytes_glyphs, ← hstart]
    -- the character itself is still to come, so the place is below the end
    have hbelow : r + j < f.content.length := by
      have hbytes := congrArg List.length (Bytes.eq_append_of_glyphs hwhole)
      rw [List.length_append, hr, List.flatMap_cons, List.length_append] at hbytes
      have hsize : g.size = g.bytes.length := rfl
      omega
    refine ⟨f.position r, position?_eq (by omega), ?_⟩
    rw [position?_eq (by omega), ← hr]
    exact congrArg some (position_inside hwhole hj)
  · intro hlength
    constructor
    · intro hrise g hg
      rcases Nat.lt_or_ge 2 g.size with hlong | hshort
      · obtain ⟨gs, hs, hglyphs⟩ := List.append_of_mem hg
        have hkeeps := hrise _ _ _ _
          (Nat.add_le_add_left (Nat.le_of_lt hlong) (gs.flatMap Glyph.bytes).length)
          (position?_of_short hlength _) (position?_of_short hlength _)
        exact absurd (hkeeps.symm.trans (position_falls hglyphs hlong)) Bool.false_ne_true
      · exact hshort
    · intro hshort a b c d hle hc hd
      rw [position?_of_short hlength, Option.some.injEq] at hc hd
      obtain ⟨n, rfl⟩ := Nat.exists_eq_add_of_le hle
      rw [← hc, ← hd]
      exact position_of_short hshort a n

/-- Behind two of the three bytes of a character. -/
theorem position?_truncated_second :
    let f := File.store 0 [] (utf8 "a\u20acb") 0
    let euro : Glyph := Glyph.triple 0xE2 0x82 0xAC
    1 ≤ f.lineCount ∧ f.content.length < 0xFFFFFFFF ∧
      glyphs (f.line 1) = [Glyph.single 0x61] ++ euro :: [Glyph.single 0x62] ∧ 2 < euro.size ∧
      (∃ c, f.position? 1 = some c ∧ f.position? 3 = some ⟨c.line, c.column + 2⟩) ∧
      ¬ ∀ a b c d, a ≤ b → f.position? a = some c → f.position? b = some d →
        d.before c = false := by
  intro f euro
  have hle : 1 ≤ f.lineCount := by decide
  have hglyphs : glyphs (f.line 1) = [Glyph.single 0x61] ++ euro :: [Glyph.single 0x62] := by decide
  obtain ⟨hinside, hfalls⟩ := position?_truncated f
  refine ⟨hle, by decide, hglyphs, by decide,
    hinside (by decide) 1 (by decide) hle _ _ _ hglyphs 2 (by decide), ?_⟩
  rw [hfalls (by decide)]
  decide

/-- A character of three bytes: behind the second one the column is two higher than
before the first, and behind the third one it is lower again. -/
theorem position?_exceeds :
    let f := File.store 0 [] [0xE2, 0x82, 0xAC] 0
    glyphs (f.line 1) = [Glyph.triple 0xE2 0x82 0xAC] ∧
      f.position? 0 = some ⟨1, 1⟩ ∧ f.position? 2 = some ⟨1, 3⟩ ∧ f.position? 3 = some ⟨1, 2⟩ := by
  decide

end File

end LineLexer
