/-
# `Proofs.Scan.Size` — results are no larger than their buffer

A buffer has at most as many results as bytes, and what a result says of it is
bounded by its length: lexemes, lines and columns, offsets.  The messages of
errors are short, whatever the buffer, because they quote two characters at
the most.
-/
import Mathlib.Data.Nat.Digits.Defs
import LineLexer.Proofs.Scan.Delivery
import LineLexer.Proofs.Scan.Place

namespace LineLexer

/-! ## Quoted characters -/

namespace Text

theorem length_encoded_le : ∀ cs : List Char,
    (cs.flatMap String.utf8EncodeChar).length ≤ 4 * cs.length
  | [] => Nat.le_refl _
  | c :: cs => by
      have hc := c.utf8Size_le_four
      have hcs := length_encoded_le cs
      rw [List.flatMap_cons, List.length_append, String.length_utf8EncodeChar, List.length_cons]
      omega

theorem length_hex_le (width : Nat) {n e : Nat} (he : 0 < e) (h : n < 16 ^ e) :
    (Bytes.hex width n).length ≤ width + 4 * e := by
  have hdigits := Nat.toDigits_length 16 n e he h
  have hbytes := length_encoded_le (Nat.toDigits 16 n)
  rw [Bytes.hex, Bytes.padLeft, List.length_append, List.length_replicate]
  omega

theorem length_ofChar_le (c : Char) : (Bytes.ofChar c).length ≤ 4 := by
  rw [Bytes.ofChar, String.length_utf8EncodeChar]
  exact c.utf8Size_le_four

theorem length_numberEscape_le {n : Nat} (h : n < 0x110000) : (numberEscape n).length ≤ 40 := by
  have hx : (utf8 "\\x").length = 2 := by decide
  have hu : (utf8 "\\u").length = 2 := by decide
  have hU : (utf8 "\\U").length = 2 := by decide
  unfold numberEscape
  split
  · have := length_hex_le 2 (n := n) (e := 2) (by decide) (by omega)
    rw [List.length_append]
    omega
  split
  · have := length_hex_le 4 (n := n) (e := 4) (by decide) (by omega)
    rw [List.length_append]
    omega
  · -- six digits are enough for every code point, and are filled up to eight
    have := length_hex_le 8 (n := n) (e := 6) (by decide) (by omega)
    rw [List.length_append]
    omega

theorem toNat_lt (c : Char) : c.toNat < 0x110000 := by
  rcases c.valid with h | ⟨-, h⟩
  · exact Nat.lt_trans h (by decide)
  · exact h

theorem length_controlLetter_le {c : Char} {l : String} (h : controlLetter? c = some l) :
    (utf8 l).length ≤ 1 := by
  unfold controlLetter? at h
  split at h <;> cases h <;> decide

theorem length_escapeChar_le (quote c : Char) : (escapeChar quote c).length ≤ 40 := by
  have hc := length_ofChar_le c
  have hslash : (utf8 "\\").length = 1 := by decide
  unfold escapeChar
  split
  · rw [List.length_append]
    omega
  split
  · omega
  split
  · rename_i l hl
    have := length_controlLetter_le hl
    rw [List.length_append]
    omega
  · exact length_numberEscape_le (toNat_lt c)

theorem length_escapeGlyph_le (g : Glyph) : (escapeGlyph g).length ≤ 40 := by
  unfold escapeGlyph
  split
  · rename_i hbroken
    obtain ⟨b, hb⟩ : ∃ b, g.bytes = [b] := by
      simp only [Glyph.isBroken, Bool.and_eq_true, beq_iff_eq] at hbroken
      exact List.length_eq_one_iff.mp hbroken.2
    have hx : (utf8 "\\x").length = 2 := by decide
    have := length_hex_le 2 (n := b.toNat) (e := 2) (by decide) b.toNat_lt
    rw [hb, Bytes.hexPairs, List.flatMap_singleton, List.length_append]
    omega
  · exact length_escapeChar_le _ _

theorem length_escapeGlyphs_le : ∀ gs : List Glyph,
    (gs.flatMap escapeGlyph).length ≤ 40 * gs.length
  | [] => Nat.le_refl _
  | g :: gs => by
      have hg := length_escapeGlyph_le g
      have hgs := length_escapeGlyphs_le gs
      rw [List.flatMap_cons, List.length_append, List.length_cons]
      omega

theorem length_quoted_le (s : Bytes) : (quoted s).length ≤ 2 + 40 * s.length := by
  have hquote : (utf8 "\"").length = 1 := by decide
  have hchars := length_escapeGlyphs_le (glyphs s)
  have hcount := Bytes.charCount_le_length s
  rw [Bytes.charCount] at hcount
  rw [quoted, List.length_append, List.length_append]
  omega

theorem length_quotedChar_le (code : Int) : (quotedChar code).length ≤ 42 := by
  have hquote : (utf8 "'").length = 1 := by decide
  have hchar := length_escapeChar_le '\'' (charOfCode code)
  rw [quotedChar, List.length_append, List.length_append]
  omega

end Text

/-! ## Errors are short -/

/-- An error that needs little room: its context is short, and so are its few
fixes. -/
structure LexError.Short (e : LexError) : Prop where
  context_le : e.context.length ≤ 512
  fixes_le : e.fixes.length ≤ 64
  title_le : ∀ fix ∈ e.fixes, fix.title.length ≤ 512
  edits_le : ∀ fix ∈ e.fixes, fix.edits.length ≤ 1
  text_le : ∀ fix ∈ e.fixes, ∀ edit ∈ fix.edits, edit.text.length ≤ 2

theorem LexError.Short.message_le {e : LexError} (h : e.Short) : e.message.length ≤ 1024 := by
  have hcontext := h.context_le
  have hchar := Text.length_quotedChar_le e.char
  have hintro : (utf8 "invalid character ").length = 18 := by decide
  have hcolon : (utf8 ": ").length = 2 := by decide
  unfold message
  split
  · simp only [List.length_append]
    omega
  · omega

theorem length_le_two_of_mem_symbols {s : Bytes} (h : s ∈ symbols.entries) : s.length ≤ 2 := by
  rcases symbol_cases h with ⟨a, rfl, -⟩ | ⟨a, b, rfl, -, -⟩
  · exact Nat.le_succ 1
  · exact Nat.le_refl 2

namespace Line

variable {ln : Line} {here : Mark} {g : Glyph}

theorem complainAt_short {context : Bytes} (h : context.length ≤ 512) :
    (ln.complainAt here g context).Short :=
  ⟨h, Nat.zero_le _, by simp [complainAt], by simp [complainAt], by simp [complainAt]⟩

/-- The fixes that are offered are few and short. -/
theorem offers_short {e : LexError} (hcontext : e.context.length ≤ 512)
    (hfixes : e.fixes = ln.offers here g) : e.Short := by
  have hcount : symbols.entries.length ≤ 64 := by decide
  have hintro : (utf8 "replace with ").length = 13 := by decide
  have hfix : ∀ fix ∈ e.fixes, fix.title.length ≤ 512 ∧ fix.edits.length ≤ 1 ∧
      ∀ edit ∈ fix.edits, edit.text.length ≤ 2 := by
    intro fix hmem
    rw [hfixes] at hmem
    obtain ⟨sym, hsym, rfl⟩ := List.mem_map.mp hmem
    have hlen := length_le_two_of_mem_symbols (List.mem_filter.mp hsym).1
    have hquoted := Text.length_quoted_le sym
    refine ⟨?_, Nat.le_refl 1, ?_⟩
    · simp only [List.length_append]
      omega
    · intro edit hedit
      obtain rfl := List.mem_singleton.mp hedit
      exact hlen
  refine ⟨hcontext, ?_, fun fix h => (hfix fix h).1, fun fix h => (hfix fix h).2.1,
    fun fix h => (hfix fix h).2.2⟩
  rw [hfixes, offers, List.length_map]
  exact Nat.le_trans (List.length_filter_le _ _) hcount

end Line

theorem Line.Cut.short {ln : Line} {before behind : List Glyph} {s : Segment}
    (h : ln.Cut before s behind) {e : LexError}
    (hr : s.result? ln (Mark.start.after before) = some (.error e)) : e.Short := by
  have hsize : ∀ g ∈ s.glyphs ++ behind, g.size ≤ 4 := fun g hg =>
    size_le_of_mem_glyphs (s := ln.text) (by
      rw [h.split]
      exact List.mem_append_right _ hg)
  cases s with
  | openString quote body =>
      cases hr
      have hcontext : (utf8 "unterminated string literal").length ≤ 512 := by decide
      have htitle : (utf8 "close the string literal").length ≤ 512 := by decide
      have htext : (utf8 "\"").length ≤ 2 := by decide
      exact ⟨hcontext, by simp [complainAtEnd], by simpa [complainAtEnd] using htitle,
        by simp [complainAtEnd], by simpa [complainAtEnd] using htext⟩
  | brokenRun sort gs bad =>
      cases hr
      exact complainAt_short (by cases sort <;> decide)
  | orphan g next =>
      have hg := hsize g (List.mem_append_left _ List.mem_cons_self)
      rw [Glyph.size] at hg
      cases next with
      | none =>
          cases hr
          have hquoted := Text.length_quoted_le g.bytes
          have hintro : (utf8 "unterminated punctuation ").length = 25 := by decide
          refine Line.offers_short ?_ rfl
          simp only [complainAtEnd, List.length_append]
          omega
      | some n =>
          cases hr
          have hquoted := Text.length_quoted_le (g.bytes ++ Bytes.ofChar n.char)
          have hchar := Text.length_ofChar_le n.char
          have hintro : (utf8 "invalid punctuation sequence ").length = 29 := by decide
          rw [List.length_append] at hquoted
          refine Line.offers_short ?_ rfl
          simp only [List.length_append]
          omega
  | stray g =>
      cases hr
      exact complainAt_short (by decide)
  | blank g => cases hr
  | string quote body close => cases hr
  | run sort gs => cases hr
  | symbol sym => cases hr

/-! ## Results are few -/

theorem length_segments_le (gs : List Glyph) : (segments gs).length ≤ gs.length := by
  induction gs using segments_induction with
  | nil => simp [segments]
  | cons g rest t h hfits ih =>
      have hpos := List.length_pos_iff.mpr hfits.glyphs_ne_nil
      have hlen := congrArg List.length h
      rw [List.length_append] at hlen
      rw [segments_cons h, List.length_cons]
      omega

namespace Line

theorem length_resultsFrom_le (ln : Line) : ∀ (ss : List Segment) (here : Mark),
    (ln.resultsFrom here ss).length ≤ ss.length
  | [], _ => Nat.le_refl _
  | s :: ss, here => by
      have hhead : (s.result? ln here).toList.length ≤ 1 := by
        cases s.result? ln here <;> simp
      have htail := ln.length_resultsFrom_le ss (here.after s.glyphs)
      rw [resultsFrom, List.length_append, List.length_cons]
      omega

theorem length_scan_le (ln : Line) : ln.scan.length ≤ ln.text.length := by
  rw [scan_eq_resultsFrom]
  calc (ln.resultsFrom .start (segments (glyphs ln.text))).length
      ≤ (segments (glyphs ln.text)).length := ln.length_resultsFrom_le _ _
    _ ≤ (glyphs ln.text).length := length_segments_le _
    _ ≤ ln.text.length := Bytes.charCount_le_length ln.text

end Line

namespace File

theorem sum_splitLines_le (s : Bytes) : ((splitLines s).map List.length).sum ≤ s.length := by
  induction s using feed_induction with
  | last s hs =>
      rw [splitLines_last hs]
      split <;> simp
  | cons a b ha ih =>
      rw [splitLines_append b ha, List.map_cons, List.sum_cons, List.length_append,
        List.length_cons]
      omega

theorem length_flatMap_scan_le : ∀ ls : List Line,
    (ls.flatMap Line.scan).length ≤ ((ls.map Line.text).map List.length).sum
  | [] => Nat.le_refl _
  | l :: ls => by
      have hl := l.length_scan_le
      have hls := length_flatMap_scan_le ls
      rw [List.flatMap_cons, List.length_append, List.map_cons, List.map_cons, List.sum_cons]
      omega

/-- A buffer has at most as many results as bytes. -/
theorem length_results_le (f : File) : f.results.length ≤ f.content.length := by
  have h := length_flatMap_scan_le f.lines
  rw [lines_text] at h
  exact Nat.le_trans h (sum_splitLines_le f.content)

theorem length_tokens_le (f : File) : f.tokens.length ≤ f.content.length :=
  Nat.le_trans (List.length_filterMap_le _ _) f.length_results_le

theorem length_findings_le (f : File) : f.findings.length ≤ f.content.length := by
  rw [findings, List.length_map]
  exact Nat.le_trans (List.length_filterMap_le _ _) f.length_results_le

end File

end LineLexer
