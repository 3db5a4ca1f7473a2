/-
# `Proofs.Scan.Reading` — what the machine has read in each of its states

Between two characters of a line the machine is in a state that depends on all the
characters before.  What a state says about them is an invariant: it holds at the
beginning, and every step keeps it (`State.Reads.step`), the steps that give a token
away and start the next one with the same character included.

    clean     nothing
    word      the text since the mark is spelled [A-Za-z_][A-Za-z0-9_]*
    number    the text since the mark is spelled [0-9][0-9_]*
    string    a quote stands at the mark, and none behind it
    symbol    the symbols left are those that begin with the text since the mark,
              in the order of the table; there are some, and not this text alone

The step is proved about characters.  Of the bytes it follows that marks are boundaries,
with their columns, and that the text since a mark is a slice of the line within its
bounds (`State.Reads.holds`).  So a machine that remembers marks only, and cuts the text
out of the line each time, is never out of bounds and delivers the same results
(`Line.scanMarked?_eq`).  A cursor stands at the same marks as long as the line fits its
words; behind the last character of the longest such line its column is zero.
-/
import LineLexer.Proofs.Scan.Counting
import LineLexer.Proofs.Scan.Spelling
import LineLexer.Proofs.Text.Boundaries

namespace LineLexer

/-! ## The symbols that a text begins -/

/-- The symbols that begin with a text, in the order of the table. -/
def symbolsBeginning (acc : Bytes) : List Bytes := symbols.entries.filter acc.isPrefixOf

/-- `left` are the symbols that begin with the text `acc`, which does not decide
between them yet. -/
structure Undecided (acc : Bytes) (left : List Bytes) : Prop where
  acc_ne : acc ≠ []
  left_ne : left ≠ []
  left_eq : left = symbolsBeginning acc
  left_ne_acc : left ≠ [acc]

theorem concat_prefix_iff {α : Type} {acc s : List α} {b : α} :
    acc ++ [b] <+: s ↔ acc <+: s ∧ s[acc.length]? = some b := by
  constructor
  · rintro ⟨t, rfl⟩
    exact ⟨⟨b :: t, by simp⟩, by simp⟩
  · rintro ⟨⟨t, rfl⟩, hb⟩
    rw [List.getElem?_append_right (Nat.le_refl _), Nat.sub_self] at hb
    cases t with
    | nil => cases hb
    | cons c t =>
        obtain rfl : c = b := Option.some.inj hb
        exact ⟨t, by simp⟩

/-- What the index has under a character are the symbols that its bytes begin. -/
theorem symbolsFrom_eq_beginning {g : Glyph} (hne : symbolsFrom g ≠ []) :
    symbolsFrom g = symbolsBeginning g.bytes := by
  obtain ⟨s, hs⟩ := List.exists_mem_of_ne_nil _ hne
  obtain ⟨-, a, -, -, ha, rfl⟩ := mem_symbolsFrom.mp hs
  refine List.filter_congr ?_
  intro s hs
  have hmem : s ∈ symbolsFrom (.single a) ↔ [a] <+: s := by
    rw [mem_symbolsFrom, and_iff_right hs]
    constructor
    · rintro ⟨b, t, rfl, -, heq⟩
      rw [Glyph.single_inj heq]
      exact ⟨t, rfl⟩
    · rintro ⟨t, rfl⟩
      exact ⟨a, t, rfl, ha, rfl⟩
  rw [symbolsFrom, List.mem_filter, and_iff_right hs] at hmem
  rw [Bool.eq_iff_iff, hmem]
  exact List.isPrefixOf_iff_prefix.symm

/-- Comparing one byte more narrows the symbols down to those that the longer text
begins. -/
theorem narrowed_symbolsBeginning (acc : Bytes) {g : Glyph} (hg : g.Canonical)
    (hne : Line.narrowed (symbolsBeginning acc) acc.length g.char ≠ []) :
    Line.narrowed (symbolsBeginning acc) acc.length g.char = symbolsBeginning (acc ++ g.bytes) := by
  obtain ⟨s, hs⟩ := List.exists_mem_of_ne_nil _ hne
  have hfits := (List.mem_filter.mp hs).2
  rw [Bool.and_eq_true, decide_eq_true_eq] at hfits
  obtain ⟨b, hb, rfl⟩ := hg hfits.1
  rw [Line.narrowed, symbolsBeginning, List.filter_filter]
  refine List.filter_congr ?_
  intro s _
  have hcode : (Glyph.single b).char.toNat = b.toNat := Glyph.single_char_toNat hb
  have hlt : b.toNat < 0x80 := by simpa [UInt8.lt_iff_toNat_lt] using hb
  rw [Bool.eq_iff_iff, Glyph.single_bytes, List.isPrefixOf_iff_prefix, concat_prefix_iff, hcode,
    UInt8.ofNat_toNat, decide_eq_true hlt, Bool.true_and, Bool.and_eq_true, beq_iff_eq,
    List.isPrefixOf_iff_prefix]
  exact and_comm

/-! ## States and characters -/

/-- What a state says about the characters `gs` read so far. -/
inductive State.Reads : List Glyph → State → Prop
  | clean (gs : List Glyph) : Reads gs .clean
  | run (before : List Glyph) {sort : RunSort} {ms : List Glyph} (h : sort.IsRun ms) :
      Reads (before ++ ms)
        (Line.runState sort (Mark.start.after before) (ms.flatMap Glyph.bytes).reverse)
  | string (before : List Glyph) {quote : Glyph} {ms : List Glyph} (hquote : quote.char = '"')
      (h : ∀ m ∈ ms, m.char ≠ '"') :
      Reads (before ++ quote :: ms)
        (.string (Mark.start.after before) (ms.flatMap Glyph.bytes).reverse)
  | symbol (before : List Glyph) {ms : List Glyph} {left : List Bytes}
      (h : Undecided (ms.flatMap Glyph.bytes) left) :
      Reads (before ++ ms)
        (.symbol (Mark.start.after before) (ms.flatMap Glyph.bytes).reverse left)

/-- The text read grows at its front. -/
theorem reverse_bytes_concat (ms : List Glyph) (g : Glyph) :
    g.bytes.reverse ++ (ms.flatMap Glyph.bytes).reverse =
      ((ms ++ [g]).flatMap Glyph.bytes).reverse := by
  rw [List.flatMap_append, List.flatMap_singleton, List.reverse_append]

theorem isRun_concat {sort : RunSort} {ms : List Glyph} {g : Glyph} (h : sort.IsRun ms)
    (hg : sort.goesOn g.char = true) : sort.IsRun (ms ++ [g]) := by
  cases ms with
  | nil => exact h.elim
  | cons m ms =>
      refine ⟨h.1, ?_⟩
      intro m' hm'
      rcases List.mem_append.mp hm' with hm' | hm'
      · exact h.2 m' hm'
      · rwa [List.mem_singleton.mp hm']

namespace State.Reads

/-- A symbol is taken, or waited for. -/
theorem settle (ln : Line) (before : List Glyph) {ms : List Glyph} {left : List Bytes}
    (hms : ms.flatMap Glyph.bytes ≠ []) (hne : left ≠ [])
    (hleft : left = symbolsBeginning (ms.flatMap Glyph.bytes)) :
    Reads (before ++ ms)
      (ln.settle (Mark.start.after before) (ms.flatMap Glyph.bytes).reverse left).1 := by
  unfold Line.settle
  split
  · rename_i s
    split
    · exact .clean _
    · rename_i hlen
      refine .symbol before ⟨hms, hne, hleft, ?_⟩
      intro heq
      obtain rfl : s = ms.flatMap Glyph.bytes := (List.cons.inj heq).1
      exact hlen List.length_reverse.symm
  · rename_i hlong
    refine .symbol before ⟨hms, hne, hleft, ?_⟩
    rintro rfl
    exact hlong _ rfl

variable {gs : List Glyph} {g : Glyph} {st : State}

/-- A character that starts something new. -/
theorem dispatch (ln : Line) (gs : List Glyph) (hg : g.Canonical) :
    Reads (gs ++ [g]) (ln.dispatch (Mark.start.after gs) g).1 := by
  have hbytes : [g].flatMap Glyph.bytes = g.bytes := List.flatMap_singleton ..
  have hone : ∀ sort : RunSort, sort.starts g.char = true →
      Reads (gs ++ [g]) (Line.runState sort (Mark.start.after gs) g.bytes.reverse) := by
    intro sort hstarts
    rw [← hbytes]
    exact .run gs ⟨hstarts, fun h hh => absurd hh List.not_mem_nil⟩
  unfold Line.dispatch
  split
  · rename_i hquote
    have hnone : ∀ m ∈ ([] : List Glyph), m.char ≠ '"' := fun m hm => absurd hm List.not_mem_nil
    exact .string gs hquote hnone
  split
  · rename_i hdigit
    exact hone .number hdigit
  split
  · rename_i hword
    exact hone .word hword
  split
  · exact .clean _
  rw [startingWith_eq_symbolsFrom hg]
  split
  · exact .clean _
  · rename_i hsome
    have hbytes_ne : [g].flatMap Glyph.bytes ≠ [] := by
      obtain ⟨s, hs⟩ := List.exists_mem_of_ne_nil _ hsome
      obtain ⟨-, a, -, -, -, rfl⟩ := mem_symbolsFrom.mp hs
      exact List.cons_ne_nil _ _
    rw [← hbytes]
    refine settle ln gs hbytes_ne hsome ?_
    rw [hbytes]
    exact symbolsFrom_eq_beginning hsome

/-- A character behind the beginning of a symbol. -/
theorem narrow (ln : Line) (before : List Glyph) {ms : List Glyph} {left : List Bytes}
    (h : Undecided (ms.flatMap Glyph.bytes) left) (hg : g.Canonical) :
    Reads (before ++ ms ++ [g]) (ln.narrow (Mark.start.after before)
      (ms.flatMap Glyph.bytes).reverse left (Mark.start.after (before ++ ms)) g).1 := by
  unfold Line.narrow
  rw [List.length_reverse, h.left_eq]
  split
  · dsimp only
    split
    · exact dispatch ln _ hg
    · exact dispatch ln _ hg
  · rename_i hsome
    have hacc : (ms ++ [g]).flatMap Glyph.bytes ≠ [] := by
      rw [List.flatMap_append]
      exact List.append_ne_nil_of_left_ne_nil h.acc_ne _
    rw [reverse_bytes_concat, List.append_assoc]
    refine settle ln before hacc hsome ?_
    rw [List.flatMap_append, List.flatMap_singleton]
    exact narrowed_symbolsBeginning _ hg hsome

/-- **Every step keeps what states say.** -/
theorem step (ln : Line) (hg : g.Canonical) (h : Reads gs st) :
    Reads (gs ++ [g]) (ln.step (Mark.start.after gs) g st).1 := by
  cases h with
  | clean => exact dispatch ln gs hg
  | @run before sort ms hrun =>
      rw [Line.step_runState]
      split
      · rename_i hgoes
        rw [reverse_bytes_concat, List.append_assoc]
        exact .run before (isRun_concat hrun hgoes)
      split
      · exact dispatch ln _ hg
      · exact .clean _
  | @string before quote ms hquote hbody =>
      rw [Line.step]
      split
      · exact .clean _
      · rename_i hother
        rw [reverse_bytes_concat, List.append_assoc]
        refine .string before hquote ?_
        intro m hm
        rcases List.mem_append.mp hm with hm | hm
        · exact hbody m hm
        · rwa [List.mem_singleton.mp hm]
  | symbol before hleft => exact narrow ln before hleft hg

end State.Reads

/-! ## The machine on the way through a line -/

namespace Line

/-- The state behind some characters, and the results until then. -/
def course (ln : Line) (st : State) (here : Mark) : List Glyph → State × List Result
  | [] => (st, [])
  | g :: gs =>
      let (next, out) := ln.step here g st
      let (last, more) := ln.course next (here.past g) gs
      (last, out ++ more)

theorem course_cons (ln : Line) (st : State) (here : Mark) (g : Glyph) (gs : List Glyph) :
    ln.course st here (g :: gs) =
      ((ln.course (ln.step here g st).1 (here.past g) gs).1,
        (ln.step here g st).2 ++ (ln.course (ln.step here g st).1 (here.past g) gs).2) := rfl

/-- The machine can be stopped behind some characters, and goes on from there. -/
theorem run_append (ln : Line) (rest gs : List Glyph) : ∀ (st : State) (here : Mark),
    ln.run st here (gs ++ rest) =
      (ln.course st here gs).2 ++ ln.run (ln.course st here gs).1 (here.after gs) rest := by
  induction gs with
  | nil =>
      intro st here
      rfl
  | cons g gs ih =>
      intro st here
      have hmark : here.after (g :: gs) = (here.past g).after gs := by
        rw [Mark.past_eq_after, Mark.after_after, List.singleton_append]
      rw [List.cons_append, run_cons, ih, course_cons, hmark, List.append_assoc]

/-- What states say stays so over a run. -/
theorem reads_course (ln : Line) (gs : List Glyph) : ∀ (before : List Glyph) (st : State),
    (∀ g ∈ gs, g.Canonical) → st.Reads before →
      (ln.course st (Mark.start.after before) gs).1.Reads (before ++ gs) := by
  induction gs with
  | nil =>
      intro before st _ h
      rwa [List.append_nil]
  | cons g gs ih =>
      intro before st hcanon h
      have hstep := h.step ln (hcanon g List.mem_cons_self)
      have hrest := ih (before ++ [g]) _ (fun m hm => hcanon m (List.mem_cons_of_mem g hm)) hstep
      rwa [← Mark.after_after, ← Mark.past_eq_after, List.append_assoc] at hrest

end Line

/-! ## States and bytes -/

/-- The place is the beginning of a character in front of `here`, with its column. -/
structure Mark.StartsIn (m : Mark) (text : Bytes) (here : Mark) : Prop where
  boundary : m.off ∈ text.boundaries
  earlier : m.off < here.off
  col_eq : m.col = 1 + Bytes.charCount (text.take m.off)

/-- What a state says about the bytes of the line in front of `here`. -/
def State.Holds (text : Bytes) (here : Mark) : State → Prop
  | .clean => True
  | .word start read =>
      start.StartsIn text here ∧ text.slice? start.off here.off = some read.reverse ∧
        RunSort.word.Spells read.reverse
  | .number start read =>
      start.StartsIn text here ∧ text.slice? start.off here.off = some read.reverse ∧
        RunSort.number.Spells read.reverse
  | .string start read =>
      start.StartsIn text here ∧ text[start.off]? = some Byte.quote ∧
        text.slice? (start.off + 1) here.off = some read.reverse ∧ Byte.quote ∉ read.reverse
  | .symbol start read left =>
      start.StartsIn text here ∧ text.slice? start.off here.off = some read.reverse ∧
        Undecided read.reverse left

section Slices

variable {text : Bytes} {before ms rest : List Glyph}

theorem Mark.boundary_after (h : glyphs text = before ++ rest) :
    (Mark.start.after before).off ∈ text.boundaries ∧
      (Mark.start.after before).col =
        1 + Bytes.charCount (text.take (Mark.start.after before).off) := by
  have hoff : (Mark.start.after before).off = (before.flatMap Glyph.bytes).length :=
    Nat.zero_add _
  rw [hoff, Bytes.charCount_take h]
  exact ⟨Bytes.mem_boundaries h, rfl⟩

theorem Mark.startsIn_after (h : glyphs text = before ++ ms ++ rest)
    (hms : ms.flatMap Glyph.bytes ≠ []) :
    (Mark.start.after before).StartsIn text (Mark.start.after (before ++ ms)) := by
  obtain ⟨hboundary, hcol⟩ := boundary_after (h.trans (List.append_assoc ..))
  refine ⟨hboundary, ?_, hcol⟩
  have hpos := List.length_pos_iff.mpr hms
  simp only [after_off, List.flatMap_append, List.length_append]
  omega

/-- The bytes between two places that characters end at. -/
theorem Bytes.slice?_after (h : glyphs text = before ++ ms ++ rest) :
    text.slice? (Mark.start.after before).off (Mark.start.after (before ++ ms)).off =
      some (ms.flatMap Glyph.bytes) := by
  have htext := eq_append_of_glyphs h
  rw [List.flatMap_append, List.append_assoc] at htext
  have hlen := congrArg List.length htext
  simp only [List.length_append] at hlen
  simp only [Mark.after_off, List.flatMap_append, List.length_append]
  rw [slice?_of_le (by omega) (by simp only [Mark.start]; omega), slice, htext]
  simp [Mark.start]

end Slices

/-- What a state says about characters, it says about bytes. -/
theorem State.Reads.holds {text : Bytes} {gs rest : List Glyph} {st : State}
    (htext : glyphs text = gs ++ rest) (h : st.Reads gs) :
    st.Holds text (Mark.start.after gs) := by
  cases h with
  | clean => trivial
  | @run before sort ms hrun =>
      have hspells : sort.Spells (ms.flatMap Glyph.bytes) := by
        rwa [← RunSort.isRun_glyphs_iff, glyphs_between htext]
      have hstart := Mark.startsIn_after htext hspells.ne_nil
      have hslice := Bytes.slice?_after htext
      cases sort <;> exact ⟨hstart, by rwa [List.reverse_reverse], by rwa [List.reverse_reverse]⟩
  | @string before quote ms hquote hbody =>
      have hmem : quote ∈ glyphs text := by
        rw [htext]
        simp
      obtain rfl := eq_single_quote (canonical_of_mem_glyphs hmem) hquote
      have hbehind : glyphs text = (before ++ [.single Byte.quote]) ++ ms ++ rest := by
        rw [htext]
        simp
      have hslice := Bytes.slice?_after hbehind
      rw [List.append_assoc, List.singleton_append] at hslice
      have hbytes := Bytes.eq_append_of_glyphs htext
      refine ⟨Mark.startsIn_after htext (List.cons_ne_nil _ _), ?_, ?_, ?_⟩
      · rw [hbytes]
        simp [Mark.start]
      · rw [List.reverse_reverse, ← hslice]
        simp [Nat.add_assoc]
      · rw [List.reverse_reverse, ← quote_notMem_iff, glyphs_between hbehind]
        exact hbody
  | symbol before hleft =>
      refine ⟨Mark.startsIn_after htext hleft.acc_ne, ?_, ?_⟩
      · rw [List.reverse_reverse]
        exact Bytes.slice?_after htext
      · rwa [List.reverse_reverse]

/-! ## A machine that remembers marks only -/

/-- What remains of a state without the text that was read. -/
inductive Bookmark
  | clean
  | word (start : Mark)
  | number (start : Mark)
  | string (start : Mark)
  | symbol (start : Mark) (left : List Bytes)
deriving DecidableEq, Repr

def State.bookmark : State → Bookmark
  | .clean => .clean
  | .word start _ => .word start
  | .number start _ => .number start
  | .string start _ => .string start
  | .symbol start _ left => .symbol start left

/-- The state, with its text cut out of the line; none if the line does not have it. -/
def Bookmark.reopen? (text : Bytes) (here : Mark) : Bookmark → Option State
  | clean => some .clean
  | word start => (text.slice? start.off here.off).map fun s => .word start s.reverse
  | number start => (text.slice? start.off here.off).map fun s => .number start s.reverse
  | string start => (text.slice? (start.off + 1) here.off).map fun s => .string start s.reverse
  | symbol start left =>
      (text.slice? start.off here.off).map fun s => .symbol start s.reverse left

/-- A state that holds is found again by its mark. -/
theorem State.Holds.reopen {text : Bytes} {here : Mark} {st : State} (h : st.Holds text here) :
    st.bookmark.reopen? text here = some st := by
  cases st with
  | clean => rfl
  | word start read => simp [bookmark, Bookmark.reopen?, h.2.1]
  | number start read => simp [bookmark, Bookmark.reopen?, h.2.1]
  | string start read => simp [bookmark, Bookmark.reopen?, h.2.2.1]
  | symbol start read left => simp [bookmark, Bookmark.reopen?, h.2.1]

/-- The cursor, so many characters further on. -/
def Cursor.moved (c : Cursor) : Nat → Cursor
  | 0 => c
  | n + 1 => c.bump.moved n

theorem Cursor.StandsAt.moved (n : Nat) : ∀ {c : Cursor} {m : Mark}, c.StandsAt m →
    (c.moved n).ahead = c.ahead.drop n ∧ (c.moved n).StandsAt (m.after (c.ahead.take n)) := by
  induction n with
  | zero => exact fun h => ⟨rfl, h⟩
  | succ n ih =>
      intro c m h
      cases hahead : c.ahead with
      | nil =>
          have hbump : c.bump = c := by rw [Cursor.bump, hahead]
          obtain ⟨hdrop, hstands⟩ := ih h
          rw [hahead, List.drop_nil] at hdrop
          rw [hahead, List.take_nil] at hstands
          rw [Cursor.moved, hbump]
          exact ⟨hdrop, hstands⟩
      | cons g rest =>
          have hrest : c.bump.ahead = rest := by rw [Cursor.bump, hahead]
          obtain ⟨hdrop, hstands⟩ := ih (h.bump hahead)
          rw [hrest] at hdrop hstands
          refine ⟨hdrop, ?_⟩
          rw [Mark.past_eq_after, Mark.after_after] at hstands
          exact hstands

namespace Line

/-- Runs the machine with marks in place of states: at each character, and at the end,
the text read is cut out of the line, with the bounds checked. -/
def runMarked? (ln : Line) (b : Bookmark) (here : Mark) : List Glyph → Option (List Result)
  | [] => (b.reopen? ln.text here).map (ln.finish here)
  | g :: rest =>
      (b.reopen? ln.text here).bind fun st =>
        let (next, out) := ln.step here g st
        (ln.runMarked? next.bookmark (here.past g) rest).map (out ++ ·)

/-- The results of the line, with marks in place of states. -/
def scanMarked? (ln : Line) : Option (List Result) :=
  ln.runMarked? .clean .start (glyphs ln.text)

theorem runMarked?_eq (ln : Line) (rest : List Glyph) : ∀ (before : List Glyph) (st : State),
    glyphs ln.text = before ++ rest → st.Reads before →
      ln.runMarked? st.bookmark (Mark.start.after before) rest =
        some (ln.run st (Mark.start.after before) rest) := by
  induction rest with
  | nil =>
      intro before st htext h
      rw [runMarked?, (h.holds htext).reopen]
      rfl
  | cons g rest ih =>
      intro before st htext h
      have hg : g.Canonical := canonical_of_mem_glyphs (s := ln.text) (by rw [htext]; simp)
      have hnext := ih (before ++ [g]) _ (by rw [htext]; simp) (h.step ln hg)
      rw [← Mark.after_after, ← Mark.past_eq_after] at hnext
      rw [runMarked?, (h.holds htext).reopen, run_cons]
      show (ln.runMarked? (ln.step _ g st).1.bookmark _ rest).map _ = _
      rw [hnext]
      rfl

/-- Marks are enough: the text read is never out of the bounds of the line. -/
theorem scanMarked?_eq (ln : Line) : ln.scanMarked? = some ln.scan :=
  ln.runMarked?_eq (glyphs ln.text) [] .clean rfl (.clean [])

/-- **The invariant of the machine.**  Behind any number of characters of a line the
machine stands at a boundary with its column, goes on from the state it has come to, and
this state says what was read (`State.Holds`).  Every text that a state needs lies
within the line: a machine that remembers marks only, and cuts texts out of the line,
delivers the same results, and so does one that keeps its place with a cursor. -/
theorem scan_invariant (ln : Line) :
    ln.scanMarked? = some ln.scan ∧ (ln.text.length < 0x100000000 → ln.walk = ln.scan) ∧ ∀ n,
      let gs := (glyphs ln.text).take n
      let here := Mark.start.after gs
      let (st, out) := ln.course .clean .start gs
      (here.off ∈ ln.text.boundaries ∧ here.col = 1 + Bytes.charCount (ln.text.take here.off)) ∧
        (ln.text.length < 0x100000000 →
          let c := (Cursor.ofText ln.text).moved n
          c.ahead = (glyphs ln.text).drop n ∧ c.off = here.off ∧
            c.col.toNat = here.col % 0x100000000) ∧
        ln.scan = out ++ ln.run st here ((glyphs ln.text).drop n) ∧ st.Holds ln.text here := by
  refine ⟨ln.scanMarked?_eq, walk_eq_scan, ?_⟩
  intro n gs here
  have htext : glyphs ln.text = gs ++ (glyphs ln.text).drop n := (List.take_append_drop n _).symm
  have hcanon : ∀ g ∈ gs, g.Canonical :=
    fun g hg => canonical_of_mem_glyphs (List.mem_of_mem_take hg)
  refine ⟨Mark.boundary_after htext, ?_, ?_,
    (ln.reads_course gs [] .clean hcanon (.clean [])).holds htext⟩
  · intro hlength
    have hchars := Nat.lt_of_le_of_lt ln.text.charCount_le_length hlength
    obtain ⟨hahead, hstands⟩ := (Cursor.StandsAt.ofText hchars).moved n
    exact ⟨hahead, hstands.off_eq, hstands.col_eq⟩
  · have hrun := ln.run_append ((glyphs ln.text).drop n) gs .clean .start
    rw [← htext] at hrun
    exact hrun

end Line

end LineLexer
