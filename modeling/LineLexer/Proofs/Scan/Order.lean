/-
# `Proofs.Scan.Order` — results and errors come from front to back

The coordinates of the results of a buffer increase (`File.results_ordered`),
tokens and errors together.  The spans of the errors are made of byte offsets
and not of coordinates, and they may overlap: the beginning of a symbol is
reported together with the character behind it, which may be an error of its
own.  Their starts increase nevertheless (`File.errors_starts_ordered`), since

  * in one line, a later column has more characters, and so more bytes, in front
    of it;
  * a line is over before the next one starts.

In particular no two findings of a buffer speak of the same place
(`File.findings_apart`).
-/
import LineLexer.Proofs.Scan.Endless
import LineLexer.Proofs.Scan.Place

namespace LineLexer

/-! ## Offsets in a line, and lines in a content -/

/-- Of two beginnings of a text, the one with fewer characters has fewer bytes. -/
theorem length_bytes_lt {s : Bytes} {a a' b b' : List Glyph} (ha : glyphs s = a ++ a')
    (hb : glyphs s = b ++ b') (hlt : a.length < b.length) :
    (a.flatMap Glyph.bytes).length < (b.flatMap Glyph.bytes).length := by
  obtain ⟨c, hc⟩ : a <+: b :=
    List.prefix_of_prefix_length_le ⟨a', ha.symm⟩ ⟨b', hb.symm⟩ (Nat.le_of_lt hlt)
  have hne : c ≠ [] := by
    rintro rfl
    rw [← hc, List.append_nil] at hlt
    exact Nat.lt_irrefl _ hlt
  have hsplit : glyphs s = a ++ (c ++ b') := by rw [hb, ← hc, List.append_assoc]
  have hpos := List.length_pos_iff.mpr (flatMap_bytes_ne_nil hsplit hne)
  rw [← hc, List.flatMap_append, List.length_append]
  exact Nat.lt_add_of_pos_right hpos

/-- A line is over before a line with a larger number starts. -/
theorem Line.StandsIn.end_lt_start {l l' : Line} {content pre post pre' post' : Bytes}
    (h : l.StandsIn content pre post) (h' : l'.StandsIn content pre' post')
    (hlt : l.num < l'.num) : l.start + l.text.length < l'.start := by
  rw [h.start_eq, h'.start_eq]
  apply Nat.lt_of_not_le
  intro hle
  -- otherwise what is before the later line has no more line feeds than this one ends
  have hbefore : pre' <+: pre ++ l.text := by
    refine List.prefix_of_prefix_length_le ⟨l'.text ++ post', h'.split.symm⟩ ⟨post, ?_⟩ ?_
    · rw [List.append_assoc]
      exact h.split.symm
    · rw [List.length_append]
      exact hle
  have hfeeds := hbefore.sublist.count_le File.feed
  rw [List.count_append, List.count_eq_zero_of_not_mem h.unbroken] at hfeeds
  rw [h.num_eq, h'.num_eq] at hlt
  omega

/-! ## Errors -/

namespace File

variable {f : File}

/-- Every error of a buffer points at characters of one of its lines. -/
theorem exists_pointsAt {e : LexError} (he : e ∈ f.errors) :
    ∃ l ∈ f.lines, ∃ before bad behind, e.PointsAt l before bad behind := by
  obtain ⟨l, hl, before, s, behind, hcut, hr⟩ := exists_cut (mem_errors.mp he)
  obtain ⟨mid, bad, rest, -, hpoints⟩ := hcut.pointsAt hr
  exact ⟨l, hl, before ++ mid, bad, rest, hpoints⟩

/-- An error with an earlier coordinate starts at a smaller offset. -/
theorem span_start_lt {e e' : LexError} (he : e ∈ f.errors) (he' : e' ∈ f.errors)
    (hlt : e.coord.before e'.coord = true) : e.span.start < e'.span.start := by
  obtain ⟨l, hl, before, bad, behind, hpoints⟩ := exists_pointsAt he
  obtain ⟨l', hl', before', bad', behind', hpoints'⟩ := exists_pointsAt he'
  have hstart : e.span.start = l.start + (before.flatMap Glyph.bytes).length := by
    rw [hpoints.span_eq]
  have hstart' : e'.span.start = l'.start + (before'.flatMap Glyph.bytes).length := by
    rw [hpoints'.span_eq]
  rw [hpoints.coord_eq, hpoints'.coord_eq, Coord.before] at hlt
  rw [hstart, hstart']
  by_cases hnum : l.num = l'.num
  · obtain rfl : l = l' := eq_of_num_eq hl hl' hnum
    have hcolumn : before.length < before'.length := by simpa using hlt
    exact Nat.add_lt_add_left (length_bytes_lt hpoints.split hpoints'.split hcolumn) _
  · have hlines : l.num < l'.num := by simpa [hnum] using hlt
    obtain ⟨-, pre, post, hstands⟩ := standsIn_of_mem_lines hl
    obtain ⟨-, pre', post', hstands'⟩ := standsIn_of_mem_lines hl'
    have hover := hstands.end_lt_start hstands' hlines
    have hlen := Line.length_text hpoints.split
    omega

/-- The coordinates of the errors increase. -/
theorem errors_ordered (f : File) :
    f.errors.Pairwise fun a b => a.coord.before b.coord = true := by
  refine List.Pairwise.filterMap _ ?_ f.results_ordered
  intro r r' hbefore e he e' he'
  cases r <;> cases he
  cases r' <;> cases he'
  exact hbefore

/-- The spans of the errors start further and further on. -/
theorem errors_starts_ordered (f : File) :
    f.errors.Pairwise fun a b => a.span.start < b.span.start := by
  refine f.errors_ordered.imp_of_mem ?_
  intro e e' he he' hlt
  exact span_start_lt he he' hlt

/-- No two findings speak of the same place. -/
theorem findings_apart (f : File) :
    f.findings.Pairwise fun d d' => d.primary ≠ d'.primary := by
  refine List.pairwise_map.mpr (f.errors_starts_ordered.imp ?_)
  intro e e' hlt hspan
  have hstart : e.span.start = e'.span.start := congrArg Span.start hspan
  exact Nat.ne_of_lt hlt hstart

/-- The findings of a buffer speak of that buffer. -/
theorem primary_file {d : Diagnostic} (hd : d ∈ f.findings) : d.primary.file = f.id := by
  obtain ⟨e, he, rfl⟩ := List.mem_map.mp hd
  obtain ⟨l, hl, before, bad, behind, hpoints⟩ := exists_pointsAt he
  obtain ⟨hfile, -⟩ := standsIn_of_mem_lines hl
  exact hpoints.span_inside.file_eq.trans hfile

end File

-- one step has two errors here, and the first one speaks of both characters
example : (File.store 0 [] (utf8 "!?") 0).errors.map LexError.span = [⟨0, 0, 2⟩, ⟨0, 1, 2⟩] := by
  decide

end LineLexer
