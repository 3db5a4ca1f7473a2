/-
# `Proofs.Scan.Segment` — a line cut by longest match

A line read from left to right, each time from a clean position, without
states and without looking at characters one late: what stands at the head
of the rest is decided by the whole rest (`Segment.first`), and reading goes
on behind it (`segments`).

    white character                      skipped
    quote, and another one behind it     a string
    quote, and no other one behind it    an open string, up to the end
    digit, letter or underscore          the longest run that goes on with it
    anything else                        the longest symbol that stands here

A run counts only if the line ends behind it or a character follows that is
white or starts a symbol; otherwise it is given up together with the
character that follows.  Where no symbol stands, the character may still be
the beginning of one (an orphan) or start nothing at all (a stray).

Each segment has at most one result (`Segment.result?`), and says by itself
where that is.  `Line.longestMatch` are the results of the segments of a
line; that the scanner delivers exactly these is shown in
`Proofs.Scan.LongestMatch`.
-/
import LineLexer.Proofs.Token.Vocabulary
import LineLexer.Scan.Line

namespace LineLexer

/-! ## Places behind characters -/

/-- The place behind some characters. -/
def Mark.after (m : Mark) (gs : List Glyph) : Mark :=
  ⟨m.off + (gs.flatMap Glyph.bytes).length, m.col + gs.length⟩

namespace Mark

@[simp] theorem after_nil (m : Mark) : m.after [] = m := rfl

@[simp] theorem after_col (m : Mark) (gs : List Glyph) : (m.after gs).col = m.col + gs.length :=
  rfl

@[simp] theorem after_off (m : Mark) (gs : List Glyph) :
    (m.after gs).off = m.off + (gs.flatMap Glyph.bytes).length := rfl

@[simp] theorem after_after (m : Mark) (gs hs : List Glyph) :
    (m.after gs).after hs = m.after (gs ++ hs) := by
  simp [after, Nat.add_assoc]

theorem past_eq_after (m : Mark) (g : Glyph) : m.past g = m.after [g] := by
  simp [past, after, Glyph.size]

end Mark

/-! ## Runs -/

/-- The two sorts of run. -/
inductive RunSort
  | word
  | number
deriving DecidableEq, Repr

namespace RunSort

/-- Whether a character goes on with a run. -/
def goesOn : RunSort → Char → Bool
  | word => isWordChar
  | number => isNumberChar

/-- The kind of token that a run makes. -/
def kind : RunSort → Bytes → Kind
  | word, s => if s ∈ keywords.entries then .keyword else .identifier
  | number, _ => .intLiteral

/-- The complaint about a character that a run cannot end at. -/
def complaint : RunSort → Bytes
  | word => utf8 "unexpected character while parsing id"
  | number => utf8 "unexpected character while parsing integer literal"

end RunSort

/-! ## Symbols -/

/-- The symbols whose first character is `g`. -/
def symbolsFrom (g : Glyph) : List Bytes :=
  symbols.entries.filter fun s => (glyphs s).head? = some g

/-- The longest symbol that stands at the head. -/
def longestSymbol? (gs : List Glyph) : Option Bytes :=
  (symbols.entries.filter fun s => (glyphs s).isPrefixOf gs).maxOn? List.length

/-- Whether a run may end in front of the character. -/
def endsRun (g : Glyph) : Bool := isSpace g.char || !(symbolsFrom g).isEmpty

/-! ## Segments -/

/-- What can stand at the head of the rest of a line. -/
inductive Segment
  | blank (g : Glyph)
  | string (quote : Glyph) (body : List Glyph) (close : Glyph)
  /-- A string without its closing quote, up to the end of the line. -/
  | openString (quote : Glyph) (body : List Glyph)
  | run (sort : RunSort) (gs : List Glyph)
  /-- A run, given up because of the character behind it. -/
  | brokenRun (sort : RunSort) (gs : List Glyph) (bad : Glyph)
  | symbol (s : Bytes)
  /-- The beginning of a symbol, and the character behind it, which does not
  belong to the segment; there is none at the end of the line. -/
  | orphan (g : Glyph) (next : Option Glyph)
  /-- A character that starts nothing. -/
  | stray (g : Glyph)
deriving DecidableEq, Repr

namespace Segment

/-- The characters of a segment. -/
def glyphs : Segment → List Glyph
  | blank g => [g]
  | string quote body close => quote :: body ++ [close]
  | openString quote body => quote :: body
  | run _ gs => gs
  | brokenRun _ gs bad => gs ++ [bad]
  | symbol s => LineLexer.glyphs s
  | orphan g _ => [g]
  | stray g => [g]

/-- What a quote begins. -/
def ofQuote (quote : Glyph) (rest : List Glyph) : Segment :=
  match rest.dropWhile fun h => h.char != '"' with
  | [] => openString quote rest
  | close :: _ => string quote (rest.takeWhile fun h => h.char != '"') close

/-- What the first character of a run begins. -/
def ofRun (sort : RunSort) (g : Glyph) (rest : List Glyph) : Segment :=
  let gs := g :: rest.takeWhile fun h => sort.goesOn h.char
  match rest.dropWhile fun h => sort.goesOn h.char with
  | [] => run sort gs
  | next :: _ => if endsRun next then run sort gs else brokenRun sort gs next

/-- What any other character begins. -/
def ofSymbol (g : Glyph) (rest : List Glyph) : Segment :=
  match longestSymbol? (g :: rest) with
  | some s => symbol s
  | none => if symbolsFrom g = [] then stray g else orphan g rest.head?

/-- What stands at the head of `g :: rest`. -/
def first (g : Glyph) (rest : List Glyph) : Segment :=
  if isSpace g.char then blank g
  else if g.char = '"' then ofQuote g rest
  else if g.char.isDigit then ofRun .number g rest
  else if isWordStart g.char then ofRun .word g rest
  else ofSymbol g rest

end Segment

/-- The characters of a line, cut into segments. -/
def segments : List Glyph → List Segment
  | [] => []
  | g :: rest =>
      let s := Segment.first g rest
      s :: segments (rest.drop (s.glyphs.length - 1))
termination_by gs => gs.length

/-! ## Results -/

namespace Line

/-- The character `g` at `here` is out of place. -/
def complainAt (ln : Line) (here : Mark) (g : Glyph) (context : Bytes) : LexError :=
  ⟨.invalidCharacter, g.char.toNat, ⟨ln.num, here.col⟩, context,
    ⟨ln.file, ln.start + here.off, ln.start + here.off + g.size⟩, []⟩

/-- The line ends too early: the error is at its last character, as read from
the left. -/
def complainAtEnd (ln : Line) (context : Bytes) (fixes : List Fix) : LexError :=
  let last := (glyphs ln.text).getLast?.elim 0 Glyph.size
  ⟨.unexpectedLineEnd, 0, ⟨ln.num, ln.text.charCount⟩, context,
    ⟨ln.file, ln.start + (ln.text.length - last), ln.start + ln.text.length⟩, fixes⟩

/-- Offers to replace the character `g` at `here` by the symbols it begins. -/
def offers (ln : Line) (here : Mark) (g : Glyph) : List Fix :=
  (symbolsFrom g).map fun s =>
    ⟨utf8 "replace with " ++ Text.quoted s,
      [⟨⟨ln.file, ln.start + here.off, ln.start + here.off + g.size⟩, s⟩]⟩

end Line

/-- The result of a segment of a line that starts at `here`. -/
def Segment.result? (ln : Line) (here : Mark) : Segment → Option Result
  | blank _ => none
  | string _ body _ =>
      some (.token ⟨.stringLiteral, body.flatMap Glyph.bytes, ⟨ln.num, here.col⟩⟩)
  | openString _ _ =>
      some (.error (ln.complainAtEnd (utf8 "unterminated string literal")
        [⟨utf8 "close the string literal",
          [⟨⟨ln.file, ln.start + ln.text.length, ln.start + ln.text.length⟩, utf8 "\""⟩]⟩]))
  | run sort gs =>
      let lexeme := gs.flatMap Glyph.bytes
      some (.token ⟨sort.kind lexeme, lexeme, ⟨ln.num, here.col⟩⟩)
  | brokenRun sort gs bad =>
      some (.error (ln.complainAt (here.after gs) bad sort.complaint))
  | symbol s => some (.token ⟨.punctuation, s, ⟨ln.num, here.col⟩⟩)
  | orphan g (some next) =>
      some (.error ⟨.invalidCharacter, g.char.toNat, ⟨ln.num, here.col⟩,
        utf8 "invalid punctuation sequence " ++ Text.quoted (g.bytes ++ Bytes.ofChar next.char),
        ⟨ln.file, ln.start + here.off, ln.start + here.off + g.size + next.size⟩,
        ln.offers here g⟩)
  | orphan g none =>
      some (.error (ln.complainAtEnd (utf8 "unterminated punctuation " ++ Text.quoted g.bytes)
        (ln.offers here g)))
  | stray g => some (.error (ln.complainAt here g (utf8 "character does not start any token")))

namespace Line

/-- The results of segments that follow one another from `here` on. -/
def resultsFrom (ln : Line) : Mark → List Segment → List Result
  | _, [] => []
  | here, s :: rest => (s.result? ln here).toList ++ ln.resultsFrom (here.after s.glyphs) rest

/-- The results of a line by longest match. -/
def longestMatch (ln : Line) : List Result :=
  ln.resultsFrom .start (segments (glyphs ln.text))

end Line

/-! ## What a segment is

`Segment.Fits s rest` collects what is known of a segment that stands in
front of `rest`.  It is read off `Segment.first` once (`Segment.first_fits`);
later proofs use it instead of going through the cases of `first` again. -/

/-- Whether a character starts a run. -/
def RunSort.starts : RunSort → Char → Bool
  | .word => isWordStart
  | .number => Char.isDigit

/-- A run: a character that starts it, and characters that go on with it. -/
def RunSort.IsRun (sort : RunSort) : List Glyph → Prop
  | [] => False
  | g :: gs => sort.starts g.char = true ∧ ∀ h ∈ gs, sort.goesOn h.char = true

/-- What is known of a segment in front of `rest`. -/
def Segment.Fits : Segment → List Glyph → Prop
  | blank g, _ => isSpace g.char = true
  | string quote body close, _ =>
      quote.char = '"' ∧ (∀ h ∈ body, h.char ≠ '"') ∧ close.char = '"'
  | openString quote body, rest => quote.char = '"' ∧ (∀ h ∈ body, h.char ≠ '"') ∧ rest = []
  | run sort gs, rest =>
      sort.IsRun gs ∧ ∀ h, rest.head? = some h → sort.goesOn h.char = false ∧ endsRun h = true
  | brokenRun sort gs bad, _ =>
      sort.IsRun gs ∧ sort.goesOn bad.char = false ∧ endsRun bad = false
  | symbol s, rest => longestSymbol? (LineLexer.glyphs s ++ rest) = some s
  | orphan g next, rest =>
      next = rest.head? ∧ symbolsFrom g ≠ [] ∧ longestSymbol? (g :: rest) = none
  | stray g, rest => symbolsFrom g = [] ∧ longestSymbol? (g :: rest) = none

theorem dropWhile_head_false {α : Type} {p : α → Bool} {l t : List α} {h : α}
    (hd : l.dropWhile p = h :: t) : p h = false := by
  have hne : l.dropWhile p ≠ [] := by simp [hd]
  have hhead := List.head_dropWhile_not p hne
  simpa [hd] using hhead

/-- A symbol found at the head is one of the table and stands there. -/
theorem longestSymbol?_some {gs : List Glyph} {s : Bytes} (h : longestSymbol? gs = some s) :
    s ∈ symbols.entries ∧ ∃ t, gs = glyphs s ++ t := by
  have hmem := List.maxOn?_mem h
  rw [List.mem_filter] at hmem
  obtain ⟨t, ht⟩ := List.isPrefixOf_iff_prefix.mp hmem.2
  exact ⟨hmem.1, t, ht.symm⟩

namespace Segment

theorem ofQuote_fits {quote : Glyph} (hq : quote.char = '"') (rest : List Glyph) :
    ∃ t, quote :: rest = (ofQuote quote rest).glyphs ++ t ∧ (ofQuote quote rest).Fits t := by
  have hbody : ∀ h ∈ rest.takeWhile fun h => h.char != '"', h.char ≠ '"' :=
    fun h hh => by simpa using List.all_eq_true.mp List.all_takeWhile h hh
  have hsplit := List.takeWhile_append_dropWhile (p := fun h => h.char != '"') (l := rest)
  unfold ofQuote
  split
  · rename_i hd
    rw [hd, List.append_nil] at hsplit
    rw [hsplit] at hbody
    exact ⟨[], by simp [glyphs], hq, hbody, rfl⟩
  · rename_i close t hd
    rw [hd] at hsplit
    refine ⟨t, ?_, hq, hbody, by simpa using dropWhile_head_false hd⟩
    conv => lhs; rw [← hsplit]
    simp [glyphs]

theorem ofRun_fits (sort : RunSort) {g : Glyph} (hg : sort.starts g.char = true)
    (rest : List Glyph) :
    ∃ t, g :: rest = (ofRun sort g rest).glyphs ++ t ∧ (ofRun sort g rest).Fits t := by
  have hrun : sort.IsRun (g :: rest.takeWhile fun h => sort.goesOn h.char) :=
    ⟨hg, fun h hh => by simpa using List.all_eq_true.mp List.all_takeWhile h hh⟩
  have hsplit := List.takeWhile_append_dropWhile (p := fun h => sort.goesOn h.char) (l := rest)
  unfold ofRun
  dsimp only
  split
  · rename_i hd
    rw [hd, List.append_nil] at hsplit
    exact ⟨[], by simp [glyphs, hsplit], hrun, by simp⟩
  · rename_i next t hd
    have hstop := dropWhile_head_false hd
    rw [hd] at hsplit
    split
    · rename_i hends
      refine ⟨next :: t, by simp [glyphs, hsplit], hrun, ?_⟩
      intro h hh
      obtain rfl : next = h := by simpa using hh
      exact ⟨hstop, hends⟩
    · rename_i hends
      refine ⟨t, ?_, hrun, hstop, by simpa using hends⟩
      conv => lhs; rw [← hsplit]
      simp [glyphs]

theorem ofSymbol_fits (g : Glyph) (rest : List Glyph) :
    ∃ t, g :: rest = (ofSymbol g rest).glyphs ++ t ∧ (ofSymbol g rest).Fits t := by
  unfold ofSymbol
  split
  · rename_i s hs
    obtain ⟨-, t, ht⟩ := longestSymbol?_some hs
    refine ⟨t, ht, ?_⟩
    rw [ht] at hs
    exact hs
  · rename_i hs
    split
    · rename_i hfrom
      exact ⟨rest, rfl, hfrom, hs⟩
    · rename_i hfrom
      exact ⟨rest, rfl, rfl, hfrom, hs⟩

/-- The first segment is the head of the characters, and fits there. -/
theorem first_fits (g : Glyph) (rest : List Glyph) :
    ∃ t, g :: rest = (first g rest).glyphs ++ t ∧ (first g rest).Fits t := by
  unfold first
  split
  · exact ⟨rest, rfl, by assumption⟩
  split
  · exact ofQuote_fits (by assumption) rest
  split
  · exact ofRun_fits .number (by assumption) rest
  split
  · exact ofRun_fits .word (by assumption) rest
  · exact ofSymbol_fits g rest

/-- A segment that fits has characters. -/
theorem Fits.glyphs_ne_nil : ∀ {s : Segment} {rest : List Glyph}, s.Fits rest → s.glyphs ≠ []
  | blank _, _, _ => List.cons_ne_nil _ _
  | string _ _ _, _, _ => List.cons_ne_nil _ _
  | openString _ _, _, _ => List.cons_ne_nil _ _
  | run _ (_ :: _), _, _ => List.cons_ne_nil _ _
  | run _ [], _, h => h.1.elim
  | brokenRun _ _ _, _, _ => by simp [glyphs]
  | symbol s, _, h => by
      obtain ⟨hmem, -⟩ := longestSymbol?_some h
      obtain ⟨hne, -⟩ := symbols_shape s hmem
      intro hnil
      rw [glyphs] at hnil
      exact hne (by rw [← flatMap_bytes_glyphs s, hnil]; rfl)
  | orphan _ _, _, _ => List.cons_ne_nil _ _
  | stray _, _, _ => List.cons_ne_nil _ _

end Segment

/-! ## Cutting loses nothing -/

theorem segments_cons {g : Glyph} {rest t : List Glyph}
    (h : g :: rest = (Segment.first g rest).glyphs ++ t) :
    segments (g :: rest) = Segment.first g rest :: segments t := by
  obtain ⟨t', ht', hfits⟩ := Segment.first_fits g rest
  have hne := hfits.glyphs_ne_nil
  obtain ⟨n, hn⟩ : ∃ n, (Segment.first g rest).glyphs.length = n + 1 :=
    Nat.exists_eq_add_one.mpr (List.length_pos_iff.mpr hne)
  have hdrop : rest.drop n = t := by
    have := congrArg (List.drop (n + 1)) h
    rwa [List.drop_succ_cons, ← hn, List.drop_left] at this
  rw [segments, hn, Nat.add_sub_cancel, hdrop]

/-- Induction along the cutting of a line: nothing is left, or the first segment
is cut off. -/
theorem segments_induction {P : List Glyph → Prop} (nil : P [])
    (cons : ∀ g rest t, g :: rest = (Segment.first g rest).glyphs ++ t →
      (Segment.first g rest).Fits t → P t → P (g :: rest)) (gs : List Glyph) : P gs := by
  match gs with
  | [] => exact nil
  | g :: rest =>
      obtain ⟨t, ht, hfits⟩ := Segment.first_fits g rest
      have hlen : t.length < rest.length + 1 := by
        have := congrArg List.length ht
        have hpos := List.length_pos_iff.mpr hfits.glyphs_ne_nil
        simp only [List.length_cons, List.length_append] at this
        omega
      exact cons g rest t ht hfits (segments_induction nil cons t)
termination_by gs.length

/-- The segments, put together, are the line. -/
theorem flatMap_glyphs_segments (gs : List Glyph) :
    (segments gs).flatMap Segment.glyphs = gs := by
  induction gs using segments_induction with
  | nil => simp [segments]
  | cons g rest t h _ ih => rw [segments_cons h, List.flatMap_cons, ih, ← h]

/-- Every segment fits in front of those behind it. -/
theorem segments_fits (gs : List Glyph) : ∀ {pre post : List Segment} {s : Segment},
    segments gs = pre ++ s :: post → s.Fits (post.flatMap Segment.glyphs) := by
  induction gs using segments_induction with
  | nil =>
      intro pre post s h
      simp [segments] at h
  | cons g rest t hcut hfits ih =>
      intro pre post s h
      rw [segments_cons hcut] at h
      cases pre with
      | nil =>
          obtain ⟨rfl, rfl⟩ := List.cons.inj h
          rwa [flatMap_glyphs_segments]
      | cons s' pre => exact ih (List.cons.inj h).2

/-- Only white characters have no result. -/
theorem Segment.result?_eq_none {ln : Line} {here : Mark} {s : Segment}
    (h : s.result? ln here = none) : ∃ g, s = .blank g := by
  cases s with
  | blank g => exact ⟨g, rfl⟩
  | orphan g next => cases next <;> cases h
  | string _ _ _ => cases h
  | openString _ _ => cases h
  | run _ _ => cases h
  | brokenRun _ _ _ => cases h
  | symbol _ => cases h
  | stray _ => cases h

namespace Line

/-- The results are those of the segments, each at the place where the segments
before it end. -/
theorem mem_resultsFrom (ln : Line) {r : Result} : ∀ {here : Mark} {ss : List Segment},
    r ∈ ln.resultsFrom here ss ↔
      ∃ pre s post, ss = pre ++ s :: post ∧
        s.result? ln (here.after (pre.flatMap Segment.glyphs)) = some r
  | _, [] => by simp [resultsFrom]
  | here, s :: ss => by
      rw [resultsFrom, List.mem_append, ln.mem_resultsFrom, Option.mem_toList]
      constructor
      · rintro (h | ⟨pre, s', post, rfl, h⟩)
        · exact ⟨[], s, ss, rfl, h⟩
        · exact ⟨s :: pre, s', post, rfl, by simpa using h⟩
      · rintro ⟨_ | ⟨s', pre⟩, s'', post, heq, h⟩
        · obtain ⟨rfl, rfl⟩ := List.cons.inj heq
          exact Or.inl h
        · obtain ⟨rfl, rfl⟩ := List.cons.inj heq
          exact Or.inr ⟨pre, s'', post, rfl, by simpa using h⟩

end Line

end LineLexer
