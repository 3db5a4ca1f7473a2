/-
# `Proofs.Report.Preview` — a preview shows the edit itself

An edit is previewed on whole lines: the block from the start of the line where its span
starts to the end of the line where its span ends.  The block is looked up through the
coordinates of the two ends of the span, and the edit is then made inside the block,
relative to its start.

A span cuts the content into five pieces (`CutAround`): full lines, the front of the line
where the span starts, the span, the rest of the line where it ends, and what follows that
line.  The two look-ups find the first and the last of the four cuts
(`CutAround.lineStart_eq`, `CutAround.lineStop_eq`), so that the block is the three pieces
in the middle and the span never reaches out of it.  Putting the edited block back in its
place is therefore the same as making the edit in the buffer (`Preview.ofEdit_shows`).

All numbers are words of 32 bits.  The lines around a span can be looked up if the length of
the buffer and the number of the line where the span ends fit one (`InWords`), and there is
no other reason for a look-up to fail (`block?_eq_none`).
-/
import LineLexer.Proofs.Source.Coordinates
import LineLexer.Report.Preview

namespace LineLexer.Report

open File (feed FullLines)

/-! ## The lines of a text -/

theorem join_previewLines (s : Bytes) : Bytes.join [feed] (previewLines s) = s := by
  rw [previewLines]
  split
  · rename_i hempty
    rw [List.isEmpty_iff.mp hempty]
    exact List.intercalate_nil
  · exact Bytes.join_splitOn feed s

/-- A span in a content: full lines `above`, the `front` of the line where the span
starts, what is `inside` the span, the `rest` of the line where it ends, and what is
`below` that line. -/
structure CutAround (content : Bytes) (s : Span) (above front inside rest below : Bytes) :
    Prop where
  split : content = above ++ (front ++ (inside ++ (rest ++ below)))
  start_eq : s.start = above.length + front.length
  stop_eq : s.stop = s.start + inside.length
  full : FullLines above
  front_unbroken : feed ∉ front
  rest_unbroken : feed ∉ rest
  below_closed : below = [] ∨ ∃ q, below = feed :: q

/-- A span that lies in a content cuts it in this way. -/
theorem exists_cutAround {content : Bytes} {s : Span} (hle : s.start ≤ s.stop)
    (hin : s.stop ≤ content.length) :
    ∃ above front inside rest below, CutAround content s above front inside rest below := by
  obtain ⟨above, front, hbefore, hfull, hfront⟩ := File.exists_fullLines (content.take s.start)
  obtain ⟨rest, below, hbehind, hrest, hbelow⟩ : ∃ rest below,
      content.drop s.stop = rest ++ below ∧ feed ∉ rest ∧ (below = [] ∨ ∃ q, below = feed :: q) := by
    rcases File.feed_cases (content.drop s.stop) with hfree | ⟨a, b, hab, ha⟩
    · exact ⟨_, [], (List.append_nil _).symm, hfree, Or.inl rfl⟩
    · exact ⟨a, feed :: b, hab, ha, Or.inr ⟨b, rfl⟩⟩
  have hmiddle : content.drop s.start = content.slice s.start s.stop ++ content.drop s.stop := by
    have hdrop : (content.drop s.start).drop (s.stop - s.start) = content.drop s.stop := by
      rw [List.drop_drop, Nat.add_sub_cancel' hle]
    rw [← hdrop]
    exact (List.take_append_drop _ _).symm
  refine ⟨above, front, content.slice s.start s.stop, rest, below, ?_, ?_, ?_, hfull, hfront,
    hrest, hbelow⟩
  · calc content = content.take s.start ++ content.drop s.start :=
          (List.take_append_drop _ _).symm
      _ = (above ++ front) ++ (content.slice s.start s.stop ++ (rest ++ below)) := by
          rw [hbefore, hmiddle, hbehind]
      _ = _ := List.append_assoc _ _ _
  · have hlen := congrArg List.length hbefore
    rw [List.length_take, List.length_append] at hlen
    omega
  · rw [Bytes.slice, List.length_take, List.length_drop]
    omega

/-- The lines around a span can be looked up in words of 32 bits: the length of the buffer
fits one, and so does the number of the line where the span ends. -/
def InWords (f : File) (s : Span) : Prop :=
  f.content.length < 0x100000000 ∧ (f.content.take s.stop).count feed < 0xFFFFFFFF

theorem exists_position? {f : File} (hlength : f.content.length < 0x100000000) {offset : Nat}
    (hlines : (f.content.take offset).count feed < 0xFFFFFFFF) :
    ∃ c, f.position? offset = some c ∧ c.line = (f.position offset).line := by
  obtain ⟨hline, -, hcolumn⟩ := f.position_le offset
  have hlimit : wordLimit = 0x100000000 := rfl
  rw [File.position?_eq_ite, if_pos ⟨by omega, by omega⟩]
  exact ⟨_, rfl, rfl⟩

/-- Otherwise there is no block. -/
theorem block?_eq_none {f : File} {s : Span} (h : ¬ InWords f s) : block? f s = none := by
  refine Option.bind_eq_none_iff.mpr fun first _ => Option.bind_eq_none_iff.mpr fun last hlast =>
    Option.bind_eq_none_iff.mpr fun stop _ => ?_
  by_cases hlength : f.content.length < 0x100000000
  · -- the line of the end of the span has no number
    have hlines : ¬ (f.content.take s.stop).count feed < 0xFFFFFFFF := fun hlt => h ⟨hlength, hlt⟩
    obtain ⟨hline, -, -⟩ := f.position_le s.stop
    have hlimit : wordLimit = 0x100000000 := rfl
    rw [File.position?_eq_ite, if_neg (by omega)] at hlast
    cases hlast
  · rw [File.text?, if_pos rfl, File.length?_eq_none hlength]
    rfl

namespace CutAround

section

variable {content : Bytes} {s : Span} {above front inside rest below : Bytes}

theorem drop_stop (h : CutAround content s above front inside rest below) :
    content.drop s.stop = rest ++ below := by
  have hlen : s.stop = (above ++ (front ++ inside)).length := by
    rw [List.length_append, List.length_append, h.stop_eq, h.start_eq, Nat.add_assoc]
  have hsplit : content = above ++ (front ++ inside) ++ (rest ++ below) := by
    rw [h.split, List.append_assoc, List.append_assoc]
  rw [hlen, hsplit]
  exact List.drop_left

theorem length_eq (h : CutAround content s above front inside rest below) :
    content.length = s.stop + rest.length + below.length := by
  rw [h.split, h.stop_eq, h.start_eq]
  simp only [List.length_append]
  omega

/-- The block is the front, the span and the rest. -/
theorem slice_block (h : CutAround content s above front inside rest below) :
    content.slice above.length (s.stop + rest.length) = front ++ (inside ++ rest) := by
  have hlen : s.stop + rest.length - above.length = (front ++ (inside ++ rest)).length := by
    rw [h.stop_eq, h.start_eq, List.length_append, List.length_append]
    omega
  have hbelow : front ++ (inside ++ (rest ++ below)) = front ++ (inside ++ rest) ++ below := by
    rw [List.append_assoc, List.append_assoc]
  rw [Bytes.slice, hlen, h.split, List.drop_left, hbelow, List.take_left]

end

section

variable {f : File} {s : Span} {above front inside rest below : Bytes}

/-- The line of the start of the span starts behind the full lines. -/
theorem lineStart_eq (h : CutAround f.content s above front inside rest below) :
    f.lineStart (f.position s.start).line = above.length := by
  rw [h.start_eq, h.full.position_eq h.split h.front_unbroken]
  exact h.full.lineStart_eq h.split

/-- The line of the end of the span ends behind the rest.  If the span goes over several
lines, that line starts inside it. -/
theorem lineStop?_eq (h : CutAround f.content s above front inside rest below)
    (hlength : f.content.length < 0x100000000) :
    lineStop? f (f.position s.stop).line = some (s.stop + rest.length) := by
  obtain ⟨u, x, hux, hu, hx⟩ := File.exists_fullLines (f.content.take s.stop)
  have hsplit : f.content = u ++ (x ++ (rest ++ below)) := by
    calc f.content = f.content.take s.stop ++ f.content.drop s.stop :=
          (List.take_append_drop _ _).symm
      _ = u ++ x ++ (rest ++ below) := by rw [hux, h.drop_stop]
      _ = u ++ (x ++ (rest ++ below)) := List.append_assoc _ _ _
  have hstop : s.stop = u.length + x.length := by
    have hlen := congrArg List.length hux
    rw [List.length_take, List.length_append, h.length_eq] at hlen
    omega
  have hfree : feed ∉ x ++ rest := by
    intro hmem
    exact (List.mem_append.mp hmem).elim hx h.rest_unbroken
  have hline : f.content = u ++ ((x ++ rest) ++ below) := by
    rw [hsplit, List.append_assoc x]
  have hend := File.lineEnds_getD hline hfree h.below_closed
  rw [List.length_append, ← Nat.add_assoc, ← hstop] at hend
  rw [hstop, hu.position_eq hsplit hx, ← hstop, lineStop?, if_neg (Nat.succ_ne_zero _),
    Nat.add_sub_cancel, File.length?_eq hlength, ← hend]
  cases f.lineEnds[u.count feed]? <;> rfl

/-- The block that is looked up is the front, the span and the rest. -/
theorem block?_eq (h : CutAround f.content s above front inside rest below) (hwords : InWords f s) :
    block? f s = some (above.length, front ++ (inside ++ rest)) := by
  obtain ⟨hlength, hlines⟩ := hwords
  have hstart : (f.content.take s.start).count feed ≤ (f.content.take s.stop).count feed := by
    have hle : s.start ≤ s.stop := by rw [h.stop_eq]; exact Nat.le_add_right _ _
    exact ((List.take_prefix_take_left hle).sublist).count_le feed
  obtain ⟨first, hfirst, hfirstLine⟩ := exists_position? hlength (Nat.lt_of_le_of_lt hstart hlines)
  obtain ⟨last, hlast, hlastLine⟩ := exists_position? hlength hlines
  have htext : f.text ⟨f.id, above.length, s.stop + rest.length⟩ = front ++ (inside ++ rest) :=
    (if_pos rfl).trans h.slice_block
  rw [block?, hfirst, hlast]
  show ((lineStop? f last.line).bind fun stop =>
    (f.text? ⟨f.id, f.startWord first.line, stop⟩).bind _) = _
  rw [hlastLine, h.lineStop?_eq hlength, hfirstLine, File.startWord_eq hlength, h.lineStart_eq]
  show ((f.text? _).bind _) = _
  rw [File.text?_eq hlength, htext]
  rfl

/-- An edit of the span leaves the front and the rest of the block. -/
theorem editedBlock?_eq {e : Edit} (h : CutAround f.content e.span above front inside rest below) :
    editedBlock? e above.length (front ++ (inside ++ rest)) = some (front ++ e.text ++ rest) := by
  have hhead : e.span.start - above.length = front.length := by
    rw [h.start_eq, Nat.add_sub_cancel_left]
  have hlength : e.span.length = inside.length := by
    rw [Span.length, h.stop_eq, Nat.add_sub_cancel_left]
  have hinside : above.length ≤ e.span.start ∧
      front.length + inside.length ≤ (front ++ (inside ++ rest)).length := by
    rw [h.start_eq, List.length_append, List.length_append]
    omega
  rw [editedBlock?, hhead, hlength, if_pos hinside, List.take_left, ← List.append_assoc,
    ← List.length_append, List.drop_left]

theorem ofEdit_eq {fs : FileSet} {e : Edit} (hfile : fs.get? e.span.file = some f)
    (h : CutAround f.content e.span above front inside rest below) (hwords : InWords f e.span) :
    Preview.ofEdit fs e = .ok
      ⟨previewLines (front ++ (inside ++ rest)), previewLines (front ++ e.text ++ rest)⟩ := by
  have hrange : ¬ (e.span.stop < e.span.start ∨ f.content.length < e.span.stop) := by
    have hstop := h.stop_eq
    have hlen := h.length_eq
    omega
  rw [Preview.ofEdit, hfile]
  dsimp only
  rw [if_neg hrange, h.block?_eq hwords]
  dsimp only
  rw [h.editedBlock?_eq]

end

end CutAround

/-! ## Previews -/

/-- Where the lines around a span cannot be looked up, the preview is refused. -/
theorem Preview.ofEdit_outOfWords {fs : FileSet} {e : Edit} {f : File}
    (hfile : fs.get? e.span.file = some f) (hle : e.span.start ≤ e.span.stop)
    (hin : e.span.stop ≤ f.content.length) (hwords : ¬ InWords f e.span) :
    Preview.ofEdit fs e = .error (.outOfWords e.span) := by
  have hrange : ¬ (e.span.stop < e.span.start ∨ f.content.length < e.span.stop) := by omega
  rw [Preview.ofEdit, hfile]
  dsimp only
  rw [if_neg hrange, block?_eq_none hwords]

/-- An edit with a preview is previewed by the lines around its span.  What else can come of
it: the buffer is unknown, it does not hold the span, or it cannot be looked up in words. -/
theorem Preview.ofEdit_cases (fs : FileSet) (e : Edit) :
    (fs.get? e.span.file = none ∧ Preview.ofEdit fs e = .error (.unknownFile e.span.file)) ∨
    ∃ f, fs.get? e.span.file = some f ∧
      (¬ (e.span.start ≤ e.span.stop ∧ e.span.stop ≤ f.content.length) ∧
          Preview.ofEdit fs e = .error (.outOfRange e.span) ∨
        ¬ InWords f e.span ∧ Preview.ofEdit fs e = .error (.outOfWords e.span) ∨
        ∃ above front inside rest below, CutAround f.content e.span above front inside rest below ∧
          Preview.ofEdit fs e = .ok ⟨previewLines (front ++ (inside ++ rest)),
            previewLines (front ++ e.text ++ rest)⟩) := by
  cases hfile : fs.get? e.span.file with
  | none =>
      left
      rw [Preview.ofEdit, hfile]
      exact ⟨rfl, rfl⟩
  | some f =>
      refine .inr ⟨f, rfl, ?_⟩
      by_cases hrange : e.span.start ≤ e.span.stop ∧ e.span.stop ≤ f.content.length
      · obtain ⟨hle, hin⟩ := hrange
        by_cases hwords : InWords f e.span
        · obtain ⟨above, front, inside, rest, below, hcut⟩ := exists_cutAround hle hin
          exact .inr (.inr ⟨above, front, inside, rest, below, hcut, hcut.ofEdit_eq hfile hwords⟩)
        · exact .inr (.inl ⟨hwords, ofEdit_outOfWords hfile hle hin hwords⟩)
      · refine .inl ⟨hrange, ?_⟩
        rw [Preview.ofEdit, hfile]
        exact if_pos (by omega)

end LineLexer.Report
