/-
# `Proofs.Scan.Place` — where results are

A line is cut into segments (`Line.Cut`), and a result belongs to one of them.
What it says about its place is compared here with the characters of the line:

  * a token stands at the first character of its segment, and its source text
    is the segment (`Token.SpelledBy`);
  * an error speaks of characters that the line has where it says, at the
    first of which its coordinate is (`LexError.PointsAt`);
  * what is given up for an error is its segment, which is not always what the
    error speaks of (`LexError.GivesUp`).

The coordinate lies inside the segment each time.  The segments follow one
another, so the results of a line, and those of a buffer, are in order
(`File.results_ordered`).
-/
import LineLexer.Proofs.Scan.LongestMatch
import LineLexer.Proofs.Source.Lines

namespace LineLexer

/-! ## Cutting a line -/

namespace Line

variable {ln : Line} {before behind : List Glyph} {s : Segment}

/-- The segment `s` of a line stands between `before` and `behind`. -/
def Cut (ln : Line) (before : List Glyph) (s : Segment) (behind : List Glyph) : Prop :=
  ∃ pre post, segments (glyphs ln.text) = pre ++ s :: post ∧
    before = pre.flatMap Segment.glyphs ∧ behind = post.flatMap Segment.glyphs

theorem Cut.split (h : ln.Cut before s behind) :
    glyphs ln.text = before ++ (s.glyphs ++ behind) := by
  obtain ⟨pre, post, hseg, rfl, rfl⟩ := h
  rw [← flatMap_glyphs_segments (glyphs ln.text), hseg, List.flatMap_append, List.flatMap_cons]

theorem Cut.fits (h : ln.Cut before s behind) : s.Fits behind := by
  obtain ⟨pre, post, hseg, -, rfl⟩ := h
  exact segments_fits _ hseg

/-- The results of a line are those of its segments. -/
theorem mem_scan {r : Result} : r ∈ ln.scan ↔
    ∃ before s behind, ln.Cut before s behind ∧
      s.result? ln (Mark.start.after before) = some r := by
  rw [scan_eq_resultsFrom, mem_resultsFrom]
  constructor
  · rintro ⟨pre, s, post, hseg, hr⟩
    exact ⟨_, s, _, ⟨pre, post, hseg, rfl, rfl⟩, hr⟩
  · rintro ⟨_, s, _, ⟨pre, post, hseg, rfl, rfl⟩, hr⟩
    exact ⟨pre, s, post, hseg, hr⟩

/-- Every character of a line is in one of its segments. -/
theorem exists_cut {i : Nat} (h : i < (glyphs ln.text).length) :
    ∃ before s behind, ln.Cut before s behind ∧ before.length ≤ i ∧
      i < before.length + s.glyphs.length := by
  rw [← flatMap_glyphs_segments (glyphs ln.text)] at h
  obtain ⟨pre, s, post, hseg, hle, hlt⟩ := exists_piece_of_lt_length_flatMap h
  exact ⟨_, s, _, ⟨pre, post, hseg, rfl, rfl⟩, hle, hlt⟩

end Line

/-! ## Tokens -/

/-- The token `t` is spelled by the characters `body` of a line. -/
structure Token.SpelledBy (t : Token) (ln : Line) (before body behind : List Glyph) : Prop where
  split : glyphs ln.text = before ++ (body ++ behind)
  body_ne : body ≠ []
  coord_eq : t.coord = ⟨ln.num, before.length + 1⟩
  source_eq : t.source = body.flatMap Glyph.bytes

/-- The token has one of the five kinds, and the one that the vocabularies give
its lexeme. -/
structure Token.Classified (t : Token) : Prop where
  valid : t.kind.isValid = true
  lexeme_ne : t.kind ≠ .stringLiteral → t.lexeme ≠ []
  word : t.kind = .keyword ∨ t.kind = .identifier → t.kind = .ofWord t.lexeme
  punctuation : t.kind = .punctuation → t.lexeme ∈ symbols.entries

theorem quote_bytes {g : Glyph} (hg : g.Canonical) (h : g.char = '"') : g.bytes = utf8 "\"" := by
  obtain ⟨b, hb, rfl⟩ := hg (by rw [h]; decide)
  have hnat := Glyph.single_char_toNat hb
  rw [h] at hnat
  have hb34 : b = 34 := UInt8.toNat_inj.mp hnat.symm
  rw [hb34]
  decide

theorem word_kind_cases (s : Bytes) :
    RunSort.word.kind s = .keyword ∨ RunSort.word.kind s = .identifier := by
  simp only [RunSort.kind]
  split
  · exact Or.inl rfl
  · exact Or.inr rfl

theorem flatMap_bytes_ne_nil {text : Bytes} {before body behind : List Glyph}
    (h : glyphs text = before ++ (body ++ behind)) (hne : body ≠ []) :
    body.flatMap Glyph.bytes ≠ [] := by
  intro hnil
  have hbody := glyphs_between (h.trans (List.append_assoc _ _ _).symm)
  rw [hnil, glyphs_nil] at hbody
  exact hne hbody.symm

namespace Line.Cut

variable {ln : Line} {before behind : List Glyph} {s : Segment}

theorem canonical (h : ln.Cut before s behind) {g : Glyph} (hg : g ∈ s.glyphs) : g.Canonical :=
  canonical_of_mem_glyphs (s := ln.text) (by
    rw [h.split]
    exact List.mem_append_right _ (List.mem_append_left _ hg))

/-- A token is spelled by its segment. -/
theorem spelledBy (h : ln.Cut before s behind) {t : Token}
    (hr : s.result? ln (Mark.start.after before) = some (.token t)) :
    t.SpelledBy ln before s.glyphs behind ∧ t.Classified := by
  have hcol : (Mark.start.after before).col = before.length + 1 := Nat.add_comm _ _
  have hfits := h.fits
  have hne := hfits.glyphs_ne_nil
  have hbytes := flatMap_bytes_ne_nil h.split hne
  cases s with
  | string quote body close =>
      obtain ⟨hquote, -, hclose⟩ := hfits
      have hq := quote_bytes (h.canonical (by simp [Segment.glyphs])) hquote
      have hc := quote_bytes (h.canonical (by simp [Segment.glyphs])) hclose
      cases hr
      refine ⟨⟨h.split, hne, by rw [hcol], ?_⟩, rfl, by simp, by simp, by simp⟩
      simp [Token.source, Segment.glyphs, hq, hc]
  | run sort gs =>
      cases hr
      cases sort with
      | number =>
          exact ⟨⟨h.split, hne, by rw [hcol], rfl⟩, rfl, fun _ => hbytes,
            by simp [RunSort.kind], by simp [RunSort.kind]⟩
      | word =>
          have hkind := word_kind_cases (gs.flatMap Glyph.bytes)
          refine ⟨⟨h.split, hne, by rw [hcol], if_neg ?_⟩, ?_, fun _ => hbytes,
            fun _ => (Line.kind_ofWord _).symm, ?_⟩
          all_goals rcases hkind with hk | hk <;> simp [hk, Kind.isValid]
  | symbol sym =>
      obtain ⟨hmem, -⟩ := longestSymbol?_some hfits
      cases hr
      refine ⟨⟨h.split, hne, by rw [hcol], ?_⟩, rfl, fun _ => ?_, by simp, fun _ => hmem⟩
      · exact (flatMap_bytes_glyphs sym).symm
      · exact (symbols_shape sym hmem).1
  | blank g => cases hr
  | openString quote body => cases hr
  | brokenRun sort gs bad => cases hr
  | orphan g next => cases next <;> cases hr
  | stray g => cases hr

end Line.Cut

/-! ## Errors -/

/-- The span lies in a line. -/
structure Span.Inside (sp : Span) (ln : Line) : Prop where
  file_eq : sp.file = ln.file
  le_start : ln.start ≤ sp.start
  start_le : sp.start ≤ sp.stop
  stop_le : sp.stop ≤ ln.start + ln.text.length

/-- The error `e` speaks of the characters `bad` of a line, and of the last one
if the line ends too early. -/
structure LexError.PointsAt (e : LexError) (ln : Line) (before bad behind : List Glyph) :
    Prop where
  split : glyphs ln.text = before ++ (bad ++ behind)
  bad_ne : bad ≠ []
  coord_eq : e.coord = ⟨ln.num, before.length + 1⟩
  span_eq : e.span = ⟨ln.file, ln.start + (before.flatMap Glyph.bytes).length,
    ln.start + ((before ++ bad).flatMap Glyph.bytes).length⟩
  atEnd : e.kind = .unexpectedLineEnd → bad.length = 1 ∧ behind = []
  fixes_inside : ∀ fix ∈ e.fixes, ∀ edit ∈ fix.edits, edit.span.Inside ln

/-- Characters that begin a symbol without being one. -/
structure IsOrphan (p : List Glyph) : Prop where
  ne_nil : p ≠ []
  not_symbol : p.flatMap Glyph.bytes ∉ symbols.entries
  begins : ∃ s ∈ symbols.entries, p.flatMap Glyph.bytes <+: s

/-- The error `e` gives up the characters of a line between `before` and `behind`,
which are its index.  What it points at need not be all of them, and may be more. -/
inductive LexError.GivesUp (e : LexError) (ln : Line) (before : List Glyph) :
    List Glyph → List Glyph → Prop
  /-- A run and the character behind it, which neither goes on with it nor ends it. -/
  | run {sort : RunSort} {w : List Glyph} {bad : Glyph} {behind : List Glyph} :
      e.kind = .invalidCharacter → e.context = sort.complaint → e.char = bad.char.toNat →
      sort.IsRun w → sort.goesOn bad.char = false → endsRun bad = false →
      e.PointsAt ln (before ++ w) [bad] behind → GivesUp e ln before (w ++ [bad]) behind
  /-- A character that starts nothing. -/
  | stray {bad : Glyph} {behind : List Glyph} :
      e.kind = .invalidCharacter → e.context = utf8 "character does not start any token" →
      e.char = bad.char.toNat → e.PointsAt ln before [bad] behind →
      GivesUp e ln before [bad] behind
  /-- The beginning of a symbol; the character behind it is pointed at as well, and
  kept. -/
  | orphan {p : List Glyph} {next : Glyph} {behind : List Glyph} :
      e.kind = .invalidCharacter →
      e.context = utf8 "invalid punctuation sequence " ++
        Text.quoted (p.flatMap Glyph.bytes ++ Bytes.ofChar next.char) →
      IsOrphan p → e.PointsAt ln before (p ++ [next]) behind →
      GivesUp e ln before p (next :: behind)
  /-- A string that the line ends in; its last character is pointed at. -/
  | openString {quote last : Glyph} {body mid : List Glyph} :
      e.kind = .unexpectedLineEnd → e.context = utf8 "unterminated string literal" →
      quote.char = '"' → (∀ h ∈ body, h.char ≠ '"') → quote :: body = mid ++ [last] →
      e.PointsAt ln (before ++ mid) [last] [] → GivesUp e ln before (quote :: body) []
  /-- The beginning of a symbol that the line ends in; its last character is pointed
  at. -/
  | openSymbol {last : Glyph} {p mid : List Glyph} :
      e.kind = .unexpectedLineEnd →
      e.context = utf8 "unterminated punctuation " ++ Text.quoted (p.flatMap Glyph.bytes) →
      IsOrphan p → p = mid ++ [last] → e.PointsAt ln (before ++ mid) [last] [] →
      GivesUp e ln before p []

/-- A character that begins symbols, none of which stands there, is an orphan. -/
theorem isOrphan_of_longestSymbol?_none {g : Glyph} {rest : List Glyph}
    (hfrom : symbolsFrom g ≠ []) (hnone : longestSymbol? (g :: rest) = none) : IsOrphan [g] := by
  obtain ⟨s, hs⟩ := List.exists_mem_of_ne_nil _ hfrom
  obtain ⟨hmem, a, t, rfl, ha, rfl⟩ := mem_symbolsFrom.mp hs
  refine ⟨List.cons_ne_nil _ _, fun hsymbol => ?_, a :: t, hmem, ?_⟩
  · have hhead : glyphs [a] <+: .single a :: rest := by
      rw [glyphs_one ha]
      exact ⟨rest, rfl⟩
    have hmem' : [a] ∈ symbols.entries.filter fun s => (glyphs s).isPrefixOf (.single a :: rest) :=
      List.mem_filter.mpr ⟨hsymbol, List.isPrefixOf_iff_prefix.mpr hhead⟩
    have hsome := List.isSome_maxOn?_of_mem (f := List.length) hmem'
    rw [← longestSymbol?, hnone] at hsome
    cases hsome
  · exact ⟨t, rfl⟩

namespace Line

variable {ln : Line} {before behind : List Glyph} {g : Glyph}

theorem length_text (h : glyphs ln.text = before ++ behind) :
    ln.text.length = (before.flatMap Glyph.bytes).length + (behind.flatMap Glyph.bytes).length := by
  rw [← flatMap_bytes_glyphs ln.text, h, List.flatMap_append, List.length_append]

theorem complainAt_pointsAt (h : glyphs ln.text = before ++ g :: behind) (context : Bytes) :
    (ln.complainAt (Mark.start.after before) g context).PointsAt ln before [g] behind := by
  refine ⟨h, List.cons_ne_nil _ _, ?_, ?_, by simp [complainAt], by simp [complainAt]⟩
  · simp [complainAt, Mark.start, Nat.add_comm]
  · simp [complainAt, Mark.start, Glyph.size, Nat.add_assoc]

theorem complainAtEnd_pointsAt (h : glyphs ln.text = before ++ [g]) (context : Bytes)
    {fixes : List Fix} (hfixes : ∀ fix ∈ fixes, ∀ edit ∈ fix.edits, edit.span.Inside ln) :
    (ln.complainAtEnd context fixes).PointsAt ln before [g] [] := by
  have hlen := length_text h
  have hlast : (glyphs ln.text).getLast?.elim 0 Glyph.size = g.size := by simp [h]
  refine ⟨by rw [h, List.append_nil], List.cons_ne_nil _ _, ?_, ?_, fun _ => ⟨rfl, rfl⟩, hfixes⟩
  · simp [complainAtEnd, Bytes.charCount, h]
  · simp only [complainAtEnd, hlast, List.flatMap_append, List.length_append, hlen]
    simp [Glyph.size]

/-- What is offered replaces a character of the line. -/
theorem offers_inside (h : glyphs ln.text = before ++ g :: behind) :
    ∀ fix ∈ ln.offers (Mark.start.after before) g, ∀ edit ∈ fix.edits, edit.span.Inside ln := by
  intro fix hfix edit hedit
  obtain ⟨sym, -, rfl⟩ := List.mem_map.mp hfix
  obtain rfl := List.mem_singleton.mp hedit
  have hlen := length_text h
  simp only [List.flatMap_cons, List.length_append] at hlen
  refine ⟨rfl, ?_, ?_, ?_⟩ <;>
    · simp only [Mark.after_off, Mark.start, Glyph.size]
      omega

end Line

namespace LexError.PointsAt

variable {e : LexError} {l : Line} {before bad behind : List Glyph}

theorem split_behind (h : e.PointsAt l before bad behind) :
    glyphs l.text = (before ++ bad) ++ behind := by
  rw [h.split, List.append_assoc]

theorem span_inside (h : e.PointsAt l before bad behind) : e.span.Inside l := by
  have hlen := Line.length_text h.split_behind
  rw [h.span_eq]
  refine ⟨rfl, Nat.le_add_right _ _, ?_, ?_⟩
  · simp only [List.flatMap_append, List.length_append]
    omega
  · simp only
    omega

end LexError.PointsAt

/-- What an error points at begins in what it gives up. -/
theorem LexError.GivesUp.pointsAt {e : LexError} {ln : Line} {before region behind : List Glyph}
    (h : e.GivesUp ln before region behind) :
    ∃ mid bad rest, mid.length < region.length ∧ e.PointsAt ln (before ++ mid) bad rest := by
  cases h with
  | run _ _ _ _ _ _ hat => exact ⟨_, _, _, by simp, hat⟩
  | stray _ _ _ hat => exact ⟨[], _, _, by simp, by rwa [List.append_nil]⟩
  | orphan _ _ horphan hat =>
      exact ⟨[], _, _, List.length_pos_iff.mpr horphan.ne_nil, by rwa [List.append_nil]⟩
  | openString _ _ _ _ hlast hat =>
      refine ⟨_, _, _, ?_, hat⟩
      rw [hlast]
      simp
  | openSymbol _ _ _ hlast hat =>
      refine ⟨_, _, _, ?_, hat⟩
      rw [hlast]
      simp

namespace Line.Cut

variable {ln : Line} {before behind : List Glyph} {s : Segment}

/-- An error gives up its segment. -/
theorem givesUp (h : ln.Cut before s behind) {e : LexError}
    (hr : s.result? ln (Mark.start.after before) = some (.error e)) :
    e.GivesUp ln before s.glyphs behind := by
  have hsplit := h.split
  have hfits := h.fits
  cases s with
  | openString quote body =>
      obtain ⟨hquote, hbody, rfl⟩ := hfits
      rw [Segment.glyphs, List.append_nil] at hsplit
      cases hr
      -- the last character may be the quote itself
      have hne : quote :: body ≠ [] := List.cons_ne_nil _ _
      have hlast := List.dropLast_concat_getLast hne
      refine .openString rfl rfl hquote hbody hlast.symm ?_
      refine complainAtEnd_pointsAt (by rw [hsplit, List.append_assoc, hlast]) _ ?_
      intro fix hfix edit hedit
      obtain rfl := List.mem_singleton.mp hfix
      obtain rfl := List.mem_singleton.mp hedit
      exact ⟨rfl, Nat.le_add_right _ _, Nat.le_refl _, Nat.le_refl _⟩
  | brokenRun sort gs bad =>
      obtain ⟨hrun, hstop, hends⟩ := hfits
      cases hr
      rw [Mark.after_after]
      refine .run rfl rfl rfl hrun hstop hends (complainAt_pointsAt ?_ _)
      simpa [Segment.glyphs] using hsplit
  | orphan g next =>
      obtain ⟨hnext, hfrom, hnone⟩ := hfits
      have horphan := isOrphan_of_longestSymbol?_none hfrom hnone
      cases behind with
      | nil =>
          obtain rfl : next = none := hnext
          cases hr
          have hlast : [g] = [] ++ [g] := rfl
          refine .openSymbol rfl (by simp [complainAtEnd, Segment.glyphs]) horphan hlast ?_
          rw [List.append_nil]
          exact complainAtEnd_pointsAt hsplit _ (offers_inside hsplit)
      | cons n rest =>
          obtain rfl : next = some n := hnext
          cases hr
          refine .orphan rfl (by simp [Segment.glyphs]) horphan ?_
          refine ⟨hsplit, List.cons_ne_nil _ _, ?_, ?_, by simp, offers_inside hsplit⟩
          · simp [Mark.start, Nat.add_comm]
          · simp [Mark.start, Segment.glyphs, Glyph.size, Nat.add_assoc]
  | stray g =>
      cases hr
      exact .stray rfl rfl rfl (complainAt_pointsAt hsplit _)
  | blank g => cases hr
  | string quote body close => cases hr
  | run sort gs => cases hr
  | symbol sym => cases hr

/-- An error points at characters of the line, the first of which is in its
segment. -/
theorem pointsAt (h : ln.Cut before s behind) {e : LexError}
    (hr : s.result? ln (Mark.start.after before) = some (.error e)) :
    ∃ mid bad rest, mid.length < s.glyphs.length ∧ e.PointsAt ln (before ++ mid) bad rest :=
  (h.givesUp hr).pointsAt

/-- The coordinate of a result lies in its segment. -/
theorem coord_mem (h : ln.Cut before s behind) {r : Result}
    (hr : s.result? ln (Mark.start.after before) = some r) :
    r.coord.line = ln.num ∧ before.length < r.coord.column ∧
      r.coord.column ≤ before.length + s.glyphs.length := by
  cases r with
  | token t =>
      obtain ⟨hspelled, -⟩ := h.spelledBy hr
      have hpos := List.length_pos_iff.mpr hspelled.body_ne
      rw [Result.coord, hspelled.coord_eq]
      exact ⟨rfl, Nat.lt_succ_self _, Nat.add_le_add_left hpos _⟩
  | error e =>
      obtain ⟨mid, bad, rest, hmid, hpoints⟩ := h.pointsAt hr
      rw [Result.coord, hpoints.coord_eq, List.length_append]
      refine ⟨rfl, ?_, ?_⟩
      · exact Nat.lt_succ_of_le (Nat.le_add_right _ _)
      · exact Nat.add_le_add_left hmid _

end Line.Cut

/-! ## Order -/

namespace Line

/-- Results that stay in their segments are in order. -/
theorem pairwise_resultsFrom (ln : Line) : ∀ (ss : List Segment) (here : Mark),
    (∀ pre s post r, ss = pre ++ s :: post →
      s.result? ln (here.after (pre.flatMap Segment.glyphs)) = some r →
      r.coord.line = ln.num ∧ here.col + (pre.flatMap Segment.glyphs).length ≤ r.coord.column ∧
        r.coord.column < here.col + (pre.flatMap Segment.glyphs).length + s.glyphs.length) →
    (ln.resultsFrom here ss).Pairwise fun a b => a.coord.before b.coord = true
  | [], _, _ => List.Pairwise.nil
  | s :: ss, here, h => by
      rw [resultsFrom, List.pairwise_append]
      refine ⟨?_, ln.pairwise_resultsFrom ss _ ?_, ?_⟩
      · cases s.result? ln here <;> simp
      · intro pre s' post r hss hr
        have := h (s :: pre) s' post r (by rw [hss]; rfl) (by simpa using hr)
        simp only [List.flatMap_cons, List.length_append, Mark.after_col] at this ⊢
        omega
      · intro a ha b hb
        -- `b` is in a later segment, and so behind all columns of `s`
        obtain ⟨pre, s', post, rfl, hr⟩ := ln.mem_resultsFrom.mp hb
        have ha' := h [] s _ a rfl (Option.mem_toList.mp ha)
        have hb' := h (s :: pre) s' post b rfl (by simpa using hr)
        simp only [List.flatMap_cons, List.flatMap_nil, List.length_append, List.length_nil]
          at ha' hb'
        simp only [Coord.before, ha'.1, hb'.1, if_true, decide_eq_true_eq]
        omega

theorem scan_ordered (ln : Line) :
    ln.scan.Pairwise fun a b => a.coord.before b.coord = true := by
  rw [scan_eq_resultsFrom]
  refine ln.pairwise_resultsFrom _ _ fun pre s post r hss hr => ?_
  have hcut : ln.Cut (pre.flatMap Segment.glyphs) s (post.flatMap Segment.glyphs) :=
    ⟨pre, post, hss, rfl, rfl⟩
  obtain ⟨hline, hlt, hle⟩ := hcut.coord_mem hr
  simp only [Mark.start]
  omega

theorem coord_line_of_mem_scan {ln : Line} {r : Result} (h : r ∈ ln.scan) :
    r.coord.line = ln.num := by
  obtain ⟨before, s, behind, hcut, hr⟩ := mem_scan.mp h
  exact (hcut.coord_mem hr).1

end Line

/-- Every result of a buffer is that of a segment of one of its lines. -/
theorem File.exists_cut {f : File} {r : Result} (h : r ∈ f.results) :
    ∃ l ∈ f.lines, ∃ before s behind, l.Cut before s behind ∧
      s.result? l (Mark.start.after before) = some r := by
  obtain ⟨l, hl, hscan⟩ := List.mem_flatMap.mp h
  exact ⟨l, hl, Line.mem_scan.mp hscan⟩

/-- **Results come in order**, over a whole buffer, tokens and errors together. -/
theorem File.results_ordered (f : File) :
    f.results.Pairwise fun a b => a.coord.before b.coord = true := by
  rw [results, List.pairwise_flatMap]
  refine ⟨fun ln _ => ln.scan_ordered, ?_⟩
  have hnums : (f.lines.map Line.num).Pairwise (· < ·) := by
    rw [lines_num]
    exact List.pairwise_lt_range'
  refine (List.pairwise_map.mp hnums).imp ?_
  intro l l' hlt a ha b hb
  have ha' := Line.coord_line_of_mem_scan ha
  have hb' := Line.coord_line_of_mem_scan hb
  simp only [Coord.before, ha', hb', Nat.ne_of_lt hlt, if_false, decide_eq_true_eq]
  exact hlt

end LineLexer
