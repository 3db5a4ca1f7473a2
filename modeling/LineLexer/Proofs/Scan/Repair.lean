/-
# `Proofs.Scan.Repair` — an offered fix repairs its error, and nothing else

An error may offer fixes.  A fix is one edit of the line it is in; the line with
the edit made is scanned again (`Line.fix_repairs`):

    before the error          the same results as before
    instead of the error      one token, where the broken lexeme started
    behind the error          the same results as before, moved by as many
                              characters as the edit adds

There are two sorts of fixes.  An open string is closed at the end of the line,
and an orphan is replaced by a symbol that it begins.  Either way a segment gives
way to one with the same first character, so the segments before it stay
(`segments_exchange`), and those behind it are only moved (`Line.scan_replace`).
-/
import LineLexer.Proofs.Scan.Place
import LineLexer.Proofs.Scan.Shift
import LineLexer.Proofs.Scan.Spelling

namespace LineLexer

/-! ## Results and segments -/

namespace Line

theorem resultsFrom_append (ln : Line) (ss' : List Segment) : ∀ (ss : List Segment) (here : Mark),
    ln.resultsFrom here (ss ++ ss') =
      ln.resultsFrom here ss ++ ln.resultsFrom (here.after (ss.flatMap Segment.glyphs)) ss'
  | [], _ => rfl
  | s :: ss, here => by
      rw [List.cons_append, resultsFrom, resultsFrom, ln.resultsFrom_append ss' ss,
        List.append_assoc, Mark.after_after, List.flatMap_cons]

/-- A result in the middle belongs to a segment in the middle. -/
theorem resultsFrom_eq_append (ln : Line) : ∀ {ss : List Segment} {here : Mark}
    {pre post : List Result} {r : Result}, ln.resultsFrom here ss = pre ++ r :: post →
    ∃ preS s postS, ss = preS ++ s :: postS ∧ ln.resultsFrom here preS = pre ∧
      s.result? ln (here.after (preS.flatMap Segment.glyphs)) = some r ∧
      ln.resultsFrom (here.after ((preS ++ [s]).flatMap Segment.glyphs)) postS = post
  | [], _, pre, post, r, h => by simp [resultsFrom] at h
  | s :: ss, here, pre, post, r, h => by
      rw [resultsFrom] at h
      cases hs : s.result? ln here with
      | none =>
          -- a blank: the result is further on, and so is all that stands before it
          rw [hs, Option.toList_none, List.nil_append] at h
          obtain ⟨preS, s', postS, rfl, hpre, hr, hpost⟩ := ln.resultsFrom_eq_append h
          exact ⟨s :: preS, s', postS, rfl, by simp [resultsFrom, hs, hpre], by simpa using hr,
            by simpa using hpost⟩
      | some r' =>
          rw [hs, Option.toList_some, List.singleton_append] at h
          cases pre with
          | nil =>
              obtain ⟨rfl, rfl⟩ := List.cons.inj h
              exact ⟨[], s, ss, rfl, rfl, hs, by simp⟩
          | cons r'' pre =>
              obtain ⟨rfl, hrest⟩ := List.cons.inj h
              obtain ⟨preS, s', postS, rfl, hpre, hr, hpost⟩ := ln.resultsFrom_eq_append hrest
              exact ⟨s :: preS, s', postS, rfl, by simp [resultsFrom, hs, hpre], by simpa using hr,
                by simpa using hpost⟩

/-! ## Replacing one segment -/

/-- The line `ln'` is the line `ln` with the segment `s` replaced by `s'`, which
begins with the same character and has `n` characters more, of one byte each. -/
structure Replaces (ln ln' : Line) (pre : List Segment) (s s' : Segment) (post : List Segment)
    (n : Nat) : Prop where
  file_eq : ln'.file = ln.file
  num_eq : ln'.num = ln.num
  start_eq : ln'.start = ln.start
  segments_eq : segments (glyphs ln.text) = pre ++ s :: post
  glyphs_eq : glyphs ln'.text =
    pre.flatMap Segment.glyphs ++ (s'.glyphs ++ post.flatMap Segment.glyphs)
  stands : s'.Stands (post.flatMap Segment.glyphs)
  head_eq : s'.glyphs.head? = s.glyphs.head?
  length_eq : s'.glyphs.length = s.glyphs.length + n
  bytes_eq : (s'.glyphs.flatMap Glyph.bytes).length = (s.glyphs.flatMap Glyph.bytes).length + n

namespace Replaces

variable {ln ln' : Line} {pre post : List Segment} {s s' : Segment} {n : Nat}

theorem glyphs_old (h : ln.Replaces ln' pre s s' post n) :
    glyphs ln.text = pre.flatMap Segment.glyphs ++ (s.glyphs ++ post.flatMap Segment.glyphs) := by
  rw [← flatMap_glyphs_segments (glyphs ln.text), h.segments_eq, List.flatMap_append,
    List.flatMap_cons]

theorem segments_new (h : ln.Replaces ln' pre s s' post n) :
    segments (glyphs ln'.text) = pre ++ s' :: post := by
  have hs : segments (s.glyphs ++ post.flatMap Segment.glyphs) = s :: post := by
    rw [← List.flatMap_cons]
    exact segments_suffix h.segments_eq
  have hne : s.glyphs ≠ [] := (segments_stands h.segments_eq).fits.glyphs_ne_nil
  have hold : segments (pre.flatMap Segment.glyphs ++ (s.glyphs ++ post.flatMap Segment.glyphs)) =
      pre ++ segments (s.glyphs ++ post.flatMap Segment.glyphs) := by
    rw [← h.glyphs_old, hs, h.segments_eq]
  rw [h.glyphs_eq, segments_exchange (by simp [hne]) ?_ hold, h.stands,
    segments_behind h.segments_eq]
  rw [List.head?_append, List.head?_append, h.head_eq]

/-- Something follows the segments before the replaced one, so none of them is
about the end of the line. -/
theorem reachesEnd_pre (h : ln.Replaces ln' pre s s' post n) :
    ∀ u ∈ pre, u.reachesEnd = false := by
  intro u hu
  obtain ⟨a, b, rfl⟩ := List.append_of_mem hu
  have hne : s.glyphs ≠ [] := (segments_stands h.segments_eq).fits.glyphs_ne_nil
  have hseg : segments (glyphs ln.text) = a ++ u :: (b ++ s :: post) := by
    rw [h.segments_eq, List.append_assoc, List.cons_append]
  exact (segments_stands hseg).fits.reachesEnd_eq_false (by simp [hne])

theorem resultsFrom_pre (h : ln.Replaces ln' pre s s' post n) :
    ln'.resultsFrom .start pre = ln.resultsFrom .start pre := by
  have hshift : Shifted ⟨0, 0, 0⟩ ln ln' .start .start :=
    ⟨h.file_eq, h.num_eq, rfl, by rw [h.start_eq]; rfl⟩
  have hid : Result.shift ⟨0, 0, 0⟩ = id := funext Result.shift_zero
  rw [resultsFrom_shift hshift fun u hu hend => by simp [h.reachesEnd_pre u hu] at hend, hid,
    List.map_id]

/-- Behind the replaced segment all places are moved by `n`, and so is the end of
the line. -/
theorem resultsFrom_post (h : ln.Replaces ln' pre s s' post n) :
    ln'.resultsFrom (Mark.start.after ((pre ++ [s']).flatMap Segment.glyphs)) post =
      (ln.resultsFrom (Mark.start.after ((pre ++ [s]).flatMap Segment.glyphs)) post).map
        (Result.shift ⟨0, n, n⟩) := by
  have hlength := h.length_eq
  have hbytes := h.bytes_eq
  have hshift : Shifted ⟨0, n, n⟩ ln ln' (Mark.start.after ((pre ++ [s]).flatMap Segment.glyphs))
      (Mark.start.after ((pre ++ [s']).flatMap Segment.glyphs)) := by
    refine ⟨h.file_eq, h.num_eq, ?_, ?_⟩
    · simp only [Mark.after_col, List.flatMap_append, List.flatMap_singleton, List.length_append]
      omega
    · simp only [Mark.after_off, h.start_eq, List.flatMap_append, List.flatMap_singleton,
        List.length_append]
      omega
  refine resultsFrom_shift hshift fun u hu _ => ?_
  -- there is a segment behind, so the last character is one of those behind
  have hne : post.flatMap Segment.glyphs ≠ [] := by
    obtain ⟨a, b, rfl⟩ := List.append_of_mem hu
    have hseg : segments (glyphs ln.text) = (pre ++ s :: a) ++ u :: b := by
      rw [h.segments_eq, List.append_assoc, List.cons_append]
    simp [(segments_stands hseg).fits.glyphs_ne_nil]
  have hlen := congrArg List.length (flatMap_bytes_glyphs ln.text)
  have hlen' := congrArg List.length (flatMap_bytes_glyphs ln'.text)
  rw [h.glyphs_old] at hlen
  rw [h.glyphs_eq] at hlen'
  simp only [List.flatMap_append, List.length_append] at hlen hlen'
  refine ⟨?_, ?_, ?_⟩
  · simp only [Bytes.charCount, h.glyphs_old, h.glyphs_eq, List.length_append]
    omega
  · rw [h.start_eq]
    dsimp only
    omega
  · have hlast (gs : List Glyph) : (gs ++ post.flatMap Segment.glyphs).getLast? =
        some ((post.flatMap Segment.glyphs).getLast hne) := by
      rw [List.getLast?_append, List.getLast?_eq_some_getLast hne, Option.some_or]
    rw [h.glyphs_old, h.glyphs_eq, ← List.append_assoc, ← List.append_assoc, hlast, hlast]

end Replaces

/-- **Replacing a segment** leaves the results before it and moves those behind it. -/
theorem scan_replace {ln ln' : Line} {pre post : List Segment} {s s' : Segment} {n : Nat}
    (h : ln.Replaces ln' pre s s' post n) :
    ln'.scan = ln.resultsFrom .start pre ++
      ((s'.result? ln' (Mark.start.after (pre.flatMap Segment.glyphs))).toList ++
        (ln.resultsFrom (Mark.start.after ((pre ++ [s]).flatMap Segment.glyphs)) post).map
          (Result.shift ⟨0, n, n⟩)) := by
  rw [scan_eq_resultsFrom, h.segments_new, resultsFrom_append, h.resultsFrom_pre, resultsFrom,
    Mark.after_after, ← h.resultsFrom_post, List.flatMap_append, List.flatMap_singleton]

/-! ## Making an edit -/

/-- The line with an edit made in it. -/
def edited (ln : Line) (e : Edit) : Line :=
  { ln with
    text := ln.text.take (e.span.start - ln.start) ++ e.text ++
      ln.text.drop (e.span.stop - ln.start) }

theorem edited_text {ln : Line} {e : Edit} {before mid behind : Bytes}
    (htext : ln.text = before ++ (mid ++ behind)) (hstart : e.span.start = ln.start + before.length)
    (hstop : e.span.stop = ln.start + before.length + mid.length) :
    (ln.edited e).text = before ++ (e.text ++ behind) := by
  have htake : ln.text.take (e.span.start - ln.start) = before := by
    rw [hstart, Nat.add_sub_cancel_left, htext, List.take_left]
  have hdrop : ln.text.drop (e.span.stop - ln.start) = behind := by
    rw [hstop, Nat.add_assoc, Nat.add_sub_cancel_left, htext, List.drop_length_add_append,
      List.drop_left]
  rw [edited, htake, hdrop, List.append_assoc]

end Line

/-! ## Repairs -/

/-- What a fix makes of a broken lexeme: the string that was left open, or the
symbol that the fix names. -/
inductive Fix.Mends (fix : Fix) : List Glyph → Kind → Bytes → Prop
  | string {quote : Glyph} {body : List Glyph} :
      quote.char = '"' → (∀ h ∈ body, h.char ≠ '"') →
      Mends fix (quote :: body) .stringLiteral (body.flatMap Glyph.bytes)
  | symbol {p : List Glyph} {s : Bytes} :
      IsOrphan p → s ∈ symbols.entries → p.flatMap Glyph.bytes <+: s →
      fix.title = utf8 "replace with " ++ Text.quoted s → Mends fix p .punctuation s

/-- A fix in its line: the edit, the broken lexeme and what is around it, the
token that it becomes, and the number of characters that are added. -/
structure Repair where
  edit : Edit
  before : List Glyph
  broken : List Glyph
  behind : List Glyph
  token : Token
  growth : Nat

/-- The repair does what the error `err`, between the results `pre` and `post`,
promises by offering `fix`. -/
structure Repair.Works (r : Repair) (ln : Line) (pre : List Result) (err : LexError)
    (post : List Result) (fix : Fix) : Prop where
  edits_eq : fix.edits = [r.edit]
  inside : r.edit.span.Inside ln
  split : glyphs ln.text = r.before ++ (r.broken ++ r.behind)
  /-- The broken lexeme is what was given up for the error. -/
  givesUp : err.GivesUp ln r.before r.broken r.behind
  mends : fix.Mends r.broken r.token.kind r.token.lexeme
  coord_eq : r.token.coord = ⟨ln.num, r.before.length + 1⟩
  text_eq : (ln.edited r.edit).text =
    r.before.flatMap Glyph.bytes ++ (r.token.source ++ r.behind.flatMap Glyph.bytes)
  growth_eq : (ln.edited r.edit).text.charCount = ln.text.charCount + r.growth
  scan_eq : (ln.edited r.edit).scan =
    pre ++ .token r.token :: post.map (Result.shift ⟨0, r.growth, r.growth⟩)

namespace Line

variable {ln : Line} {pre post : List Segment}

/-- The edit that closes an open string. -/
def closing (ln : Line) : Edit :=
  ⟨⟨ln.file, ln.start + ln.text.length, ln.start + ln.text.length⟩, utf8 "\""⟩

theorem edited_closing_text (ln : Line) :
    (ln.edited ln.closing).text = ln.text ++ [Byte.quote] := by
  have htext : ln.text = ln.text ++ ([] ++ []) := by rw [List.append_nil, List.append_nil]
  exact edited_text htext rfl rfl

/-- A quote at the end of the line makes a string of an open one. -/
theorem replaces_closing {quote : Glyph} {body : List Glyph}
    (h : segments (glyphs ln.text) = pre ++ .openString quote body :: post) :
    ln.Replaces (ln.edited ln.closing) pre (.openString quote body)
      (.string quote body (.single Byte.quote)) post 1 := by
  obtain ⟨hquote, hbody, hpost⟩ := (segments_stands h).fits
  have hfits : (Segment.string quote body (.single Byte.quote)).Fits
      (post.flatMap Segment.glyphs) := ⟨hquote, hbody, by decide⟩
  refine ⟨rfl, rfl, rfl, h, ?_, hfits.stands rfl, rfl, ?_, ?_⟩
  · rw [edited_closing_text, glyphs_append_of_lt (by decide),
      ← flatMap_glyphs_segments (glyphs ln.text), h]
    simp [hpost, Segment.glyphs]
  · simp [Segment.glyphs]
  · simp [Segment.glyphs, Nat.add_assoc]

/-- The edit that replaces the character `g` behind `before` by a symbol. -/
def replacing (ln : Line) (before : List Glyph) (g : Glyph) (sym : Bytes) : Edit :=
  ⟨⟨ln.file, ln.start + (Mark.start.after before).off,
    ln.start + (Mark.start.after before).off + g.size⟩, sym⟩

theorem edited_replacing_text {before behind : List Glyph} {g : Glyph}
    (h : glyphs ln.text = before ++ g :: behind) (sym : Bytes) :
    (ln.edited (ln.replacing before g sym)).text =
      before.flatMap Glyph.bytes ++ (sym ++ behind.flatMap Glyph.bytes) := by
  have htext : ln.text =
      before.flatMap Glyph.bytes ++ (g.bytes ++ behind.flatMap Glyph.bytes) := by
    rw [← flatMap_bytes_glyphs ln.text, h, List.flatMap_append, List.flatMap_cons]
  refine edited_text htext ?_ ?_
  · simp [replacing, Mark.start]
  · simp [replacing, Mark.start, Glyph.size]

/-- An orphan begins only symbols of two characters. -/
theorem symbolsFrom_orphan {g : Glyph} {sym : Bytes} (hg : IsOrphan [g]) (h : sym ∈ symbolsFrom g) :
    ∃ a b, sym = [a, b] ∧ g = .single a ∧ sym ∈ symbols.entries ∧ a < 0x80 ∧ b < 0x80 := by
  obtain ⟨hmem, a, t, rfl, ha, rfl⟩ := mem_symbolsFrom.mp h
  rcases symbol_cases hmem with ⟨a', hsym, -⟩ | ⟨a', b, hsym, -, hb⟩
  · rw [hsym, ← (List.cons.inj hsym).1] at hmem
    exact absurd hmem hg.not_symbol
  · obtain ⟨rfl, rfl⟩ := List.cons.inj hsym
    exact ⟨a, b, rfl, rfl, hmem, ha, hb⟩

/-- A symbol in the place of an orphan that begins it is taken whole. -/
theorem replaces_replacing {g : Glyph} {next : Option Glyph} {sym : Bytes}
    (h : segments (glyphs ln.text) = pre ++ .orphan g next :: post) (hsym : sym ∈ symbolsFrom g) :
    ln.Replaces (ln.edited (ln.replacing (pre.flatMap Segment.glyphs) g sym)) pre (.orphan g next)
      (.symbol sym) post 1 := by
  have hsplit : glyphs ln.text = pre.flatMap Segment.glyphs ++ g :: post.flatMap Segment.glyphs :=
    Cut.split ⟨pre, post, h, rfl, rfl⟩
  obtain ⟨-, hfrom, hnone⟩ := (segments_stands h).fits
  obtain ⟨a, b, rfl, rfl, hmem, ha, hb⟩ :=
    symbolsFrom_orphan (isOrphan_of_longestSymbol?_none hfrom hnone) hsym
  have hbehind : glyphs ln.text =
      (pre.flatMap Segment.glyphs ++ [.single a]) ++ post.flatMap Segment.glyphs := by
    rw [hsplit, List.append_assoc, List.singleton_append]
  have hglyphs : (Segment.symbol [a, b]).glyphs = [.single a, .single b] := glyphs_two ha hb
  have hfits : (Segment.symbol [a, b]).Fits (post.flatMap Segment.glyphs) := by
    rw [Segment.Fits, glyphs_two ha hb]
    exact longestSymbol?_two hmem
  refine ⟨rfl, rfl, rfl, h, ?_, hfits.stands rfl, by rw [hglyphs]; rfl, by rw [hglyphs]; rfl,
    by rw [hglyphs]; rfl⟩
  rw [edited_replacing_text hsplit, List.cons_append, List.singleton_append, glyphs_append_of_lt ha,
    glyphs_cons_of_lt hb, glyphs_before hsplit, glyphs_behind hbehind, hglyphs]
  rfl

/-- A fix whose edit replaces the segment of its error by that of a token works. -/
theorem Replaces.works {s s' : Segment} {n : Nat} {edit : Edit} {err : LexError} {fix : Fix}
    {t : Token} (h : ln.Replaces (ln.edited edit) pre s s' post n)
    (herr : s.result? ln (Mark.start.after (pre.flatMap Segment.glyphs)) = some (.error err))
    (hfix : fix ∈ err.fixes) (hedits : fix.edits = [edit])
    (htoken : s'.result? (ln.edited edit) (Mark.start.after (pre.flatMap Segment.glyphs)) =
      some (.token t))
    (hmends : fix.Mends s.glyphs t.kind t.lexeme) :
    (⟨edit, pre.flatMap Segment.glyphs, s.glyphs, post.flatMap Segment.glyphs, t, n⟩ : Repair).Works
      ln (ln.resultsFrom .start pre) err
      (ln.resultsFrom (Mark.start.after ((pre ++ [s]).flatMap Segment.glyphs)) post) fix := by
  have hold : ln.Cut (pre.flatMap Segment.glyphs) s (post.flatMap Segment.glyphs) :=
    ⟨pre, post, h.segments_eq, rfl, rfl⟩
  have hnew : (ln.edited edit).Cut (pre.flatMap Segment.glyphs) s' (post.flatMap Segment.glyphs) :=
    ⟨pre, post, h.segments_new, rfl, rfl⟩
  obtain ⟨hspelled, -⟩ := hnew.spelledBy htoken
  obtain ⟨_, _, _, -, hpoints⟩ := hold.pointsAt herr
  have hlength := h.length_eq
  refine ⟨hedits, ?_, h.glyphs_old, hold.givesUp herr, hmends, hspelled.coord_eq, ?_, ?_, ?_⟩
  · exact hpoints.fixes_inside fix hfix edit (by rw [hedits]; exact List.mem_singleton_self _)
  · rw [hspelled.source_eq, ← flatMap_bytes_glyphs (ln.edited edit).text, h.glyphs_eq,
      List.flatMap_append, List.flatMap_append]
  · simp only [Bytes.charCount, h.glyphs_old, h.glyphs_eq, List.length_append]
    omega
  · rw [scan_replace h, htoken, Option.toList_some, List.singleton_append]

/-- **Every offered fix repairs exactly its error**: with the edit made, the error
is a token, and all other results are the same but for their places. -/
theorem fix_repairs {ln : Line} {pre post : List Result} {err : LexError} {fix : Fix}
    (h : ln.scan = pre ++ .error err :: post) (hfix : fix ∈ err.fixes) :
    ∃ r : Repair, r.Works ln pre err post fix := by
  rw [scan_eq_resultsFrom] at h
  obtain ⟨pre, s, post, hseg, rfl, herr, rfl⟩ := ln.resultsFrom_eq_append h
  have hfits := (segments_stands hseg).fits
  cases s with
  | openString quote body =>
      obtain ⟨hquote, hbody, -⟩ := hfits
      refine ⟨_, (replaces_closing hseg).works herr hfix ?_ rfl ?_⟩
      all_goals
        cases herr
        obtain rfl := List.mem_singleton.mp hfix
      · rfl
      · exact .string hquote hbody
  | orphan g next =>
      obtain ⟨-, hfrom, hnone⟩ := hfits
      have horphan := isOrphan_of_longestSymbol?_none hfrom hnone
      -- the same symbols are offered whether or not something follows
      have hoffers : err.fixes = ln.offers (Mark.start.after (pre.flatMap Segment.glyphs)) g := by
        cases next <;> cases herr <;> rfl
      rw [hoffers] at hfix
      obtain ⟨sym, hsym, rfl⟩ := List.mem_map.mp hfix
      rw [← hoffers] at hfix
      obtain ⟨hmem, a, t, rfl, -, rfl⟩ := mem_symbolsFrom.mp hsym
      exact ⟨_, (replaces_replacing hseg hsym).works herr hfix rfl rfl
        (.symbol horphan hmem ⟨t, rfl⟩ rfl)⟩
  | brokenRun sort gs bad =>
      cases herr
      exact absurd hfix List.not_mem_nil
  | stray g =>
      cases herr
      exact absurd hfix List.not_mem_nil
  | blank g => cases herr
  | string quote body close => cases herr
  | run sort gs => cases herr
  | symbol sym => cases herr

/-- The second of two orphans, in front of a string that is left open with half a
character in it. -/
theorem fix_repairs_between_errors :
    let ln : Line := ⟨0, 3, 40, utf8 "a!!\"" ++ [0xC3]⟩
    let fix : Fix := ⟨utf8 "replace with \"!=\"", [⟨⟨0, 42, 43⟩, utf8 "!="⟩]⟩
    let err : LexError := ⟨.invalidCharacter, 33, ⟨3, 3⟩,
      utf8 "invalid punctuation sequence \"!\\\"\"", ⟨0, 42, 44⟩, [fix]⟩
    ln.scan = ln.scan.take 2 ++ .error err :: ln.scan.drop 3 ∧ fix ∈ err.fixes ∧
      ∃ r : Repair, r.Works ln (ln.scan.take 2) err (ln.scan.drop 3) fix := by
  intro ln fix err
  have hscan : ln.scan = ln.scan.take 2 ++ .error err :: ln.scan.drop 3 := by decide +kernel
  have hfix : fix ∈ err.fixes := List.mem_singleton_self fix
  exact ⟨hscan, hfix, fix_repairs hscan hfix⟩

end Line

end LineLexer
