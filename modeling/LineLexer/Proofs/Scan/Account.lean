/-
# `Proofs.Scan.Account` — nothing of a line is lost or counted twice

A line, however broken, is the concatenation of stretches
(`Line.scan_accounts`), and each of them is

  * one white character, for which there is no result;
  * the source text of one token; or
  * what is given up for one error (`LexError.GivesUp`): a run with the character
    behind it, a stray character, the beginning of a symbol, or all from the
    beginning of a string or symbol to the end of the line.

The results of the stretches, in order, are those of the line.  The span of an
error may reach into the next stretch, where an orphan is complained about
together with the character behind it; the stretches themselves do not overlap.
-/
import LineLexer.Proofs.Scan.Place

namespace LineLexer

/-- A stretch of a line, and the result that accounts for it. -/
structure Stretch where
  chars : List Glyph
  result? : Option Result

/-- What a stretch between `before` and `behind` is. -/
def Stretch.Accounted (p : Stretch) (ln : Line) (before behind : List Glyph) : Prop :=
  match p.result? with
  | none => ∃ g, p.chars = [g] ∧ isSpace g.char = true
  | some (.token t) => t.SpelledBy ln before p.chars behind
  | some (.error e) => e.GivesUp ln before p.chars behind

namespace Line

/-- The stretches of segments that follow one another from `here` on. -/
def stretchesFrom (ln : Line) : Mark → List Segment → List Stretch
  | _, [] => []
  | here, s :: rest =>
      ⟨s.glyphs, s.result? ln here⟩ :: ln.stretchesFrom (here.after s.glyphs) rest

theorem flatMap_chars_stretchesFrom (ln : Line) : ∀ (ss : List Segment) (here : Mark),
    (ln.stretchesFrom here ss).flatMap Stretch.chars = ss.flatMap Segment.glyphs
  | [], _ => rfl
  | s :: ss, here => by
      rw [stretchesFrom, List.flatMap_cons, List.flatMap_cons, ln.flatMap_chars_stretchesFrom ss]

theorem filterMap_result?_stretchesFrom (ln : Line) : ∀ (ss : List Segment) (here : Mark),
    (ln.stretchesFrom here ss).filterMap Stretch.result? = ln.resultsFrom here ss
  | [], _ => rfl
  | s :: ss, here => by
      rw [stretchesFrom, resultsFrom, List.filterMap_cons, ln.filterMap_result?_stretchesFrom ss]
      cases s.result? ln here <;> rfl

/-- Each stretch belongs to a segment, at the place where those before it end. -/
theorem stretchesFrom_eq_append (ln : Line) : ∀ {ss : List Segment} {here : Mark}
    {pre post : List Stretch} {p : Stretch}, ln.stretchesFrom here ss = pre ++ p :: post →
    ∃ preS s postS, ss = preS ++ s :: postS ∧
      p = ⟨s.glyphs, s.result? ln (here.after (preS.flatMap Segment.glyphs))⟩ ∧
      pre.flatMap Stretch.chars = preS.flatMap Segment.glyphs ∧
      post.flatMap Stretch.chars = postS.flatMap Segment.glyphs
  | [], _, pre, post, p, h => by simp [stretchesFrom] at h
  | s :: ss, here, [], post, p, h => by
      obtain ⟨rfl, rfl⟩ := List.cons.inj h
      exact ⟨[], s, ss, rfl, rfl, rfl, ln.flatMap_chars_stretchesFrom ss _⟩
  | s :: ss, here, q :: pre, post, p, h => by
      obtain ⟨rfl, hrest⟩ := List.cons.inj h
      obtain ⟨preS, s', postS, rfl, rfl, hpre, hpost⟩ := ln.stretchesFrom_eq_append hrest
      exact ⟨s :: preS, s', postS, rfl, by simp, by simp [hpre], hpost⟩

/-- A segment of a line is accounted for by its result. -/
theorem Cut.accounted {ln : Line} {before behind : List Glyph} {s : Segment}
    (h : ln.Cut before s behind) :
    (⟨s.glyphs, s.result? ln (Mark.start.after before)⟩ : Stretch).Accounted ln before behind := by
  cases hr : s.result? ln (Mark.start.after before) with
  | none =>
      obtain ⟨g, rfl⟩ := Segment.result?_eq_none hr
      exact ⟨g, rfl, h.fits⟩
  | some r =>
      cases r with
      | token t => exact (h.spelledBy hr).1
      | error e => exact h.givesUp hr

/-- **Nothing of a line is lost or counted twice**: it is the concatenation of
stretches, each of them accounted for where it stands, and their results are those
of the line. -/
theorem scan_accounts (ln : Line) :
    ∃ stretches : List Stretch,
      stretches.flatMap Stretch.chars = glyphs ln.text ∧
      stretches.flatMap (fun p => p.chars.flatMap Glyph.bytes) = ln.text ∧
      stretches.filterMap Stretch.result? = ln.scan ∧
      ∀ pre p post, stretches = pre ++ p :: post →
        p.Accounted ln (pre.flatMap Stretch.chars) (post.flatMap Stretch.chars) := by
  have hchars : (ln.stretchesFrom .start (segments (glyphs ln.text))).flatMap Stretch.chars
      = glyphs ln.text := by
    rw [flatMap_chars_stretchesFrom, flatMap_glyphs_segments]
  refine ⟨ln.stretchesFrom .start (segments (glyphs ln.text)), hchars, ?_, ?_, ?_⟩
  · rw [← List.flatMap_assoc, hchars, flatMap_bytes_glyphs]
  · rw [filterMap_result?_stretchesFrom, scan_eq_resultsFrom]
  · intro pre p post hsplit
    obtain ⟨preS, s, postS, hseg, rfl, hpre, hpost⟩ := ln.stretchesFrom_eq_append hsplit
    rw [hpre, hpost]
    exact Cut.accounted ⟨preS, postS, hseg, rfl, rfl⟩

end Line

end LineLexer
