/-
# `Proofs.Report.Coloring` — colour changes nothing but escape sequences

A report is written twice, with colour and without, and the escape sequences are taken out
of the first one.  What is left is the second one, provided that no text from outside brings
the escape byte along.

The two reports are built side by side.  Each function of the report gives two texts of
which the first shows the second (`Shows`), or none in both cases, which `Option.Rel` says.
Nothing that decides whether there is a text, or how wide something is, depends on colour.
-/
import LineLexer.Proofs.Report.Escapes
import LineLexer.Proofs.Report.Preview
import LineLexer.Proofs.Report.Tabs
import LineLexer.Report.Tokens

namespace LineLexer.Report

/-! ## Two runs side by side -/

section

variable {α β γ δ : Type}

theorem rel_bind {R : α → β → Prop} {S : γ → δ → Prop} {x : Option α} {y : Option β}
    {f : α → Option γ} {g : β → Option δ} (h : Option.Rel R x y)
    (hk : ∀ a b, R a b → Option.Rel S (f a) (g b)) : Option.Rel S (x >>= f) (y >>= g) := by
  cases h with
  | none => exact .none
  | some hab => exact hk _ _ hab

/-- What both runs read is the same. -/
theorem rel_bind_same {S : γ → δ → Prop} {x : Option α} {f : α → Option γ} {g : α → Option δ}
    (hk : ∀ a, x = some a → Option.Rel S (f a) (g a)) : Option.Rel S (x >>= f) (x >>= g) := by
  cases x with
  | none => exact .none
  | some a => exact hk a rfl

/-- Texts side by side, put together. -/
theorem rel_texts? {f g : α → Option Bytes} (l : List α)
    (h : ∀ x ∈ l, Option.Rel Shows (f x) (g x)) :
    Option.Rel Shows (texts? f l) (texts? g l) := by
  have hall : Option.Rel (fun as bs : List Bytes => Shows as.flatten bs.flatten)
      (l.mapM f) (l.mapM g) := by
    induction l with
    | nil => exact .some .nil
    | cons x l ih =>
        rw [List.mapM_cons, List.mapM_cons]
        refine rel_bind (h x List.mem_cons_self) fun a b hab => ?_
        refine rel_bind (ih fun y hy => h y (List.mem_cons_of_mem x hy)) fun as bs habs => ?_
        refine .some ?_
        rw [List.flatten_cons, List.flatten_cons]
        exact hab.append habs
  rw [texts?, texts?]
  generalize l.mapM f = x at hall
  generalize l.mapM g = y at hall
  cases hall with
  | none => exact .none
  | some hshows => exact .some hshows

end

/-! ## Tokens -/

theorem shows_tokenLine (n : Nat) (t : Token) : Shows (tokenLine true n t) (tokenLine false n t) := by
  have hnumber : Plain (Bytes.padLeft 3 0x20 (Bytes.decimal n)) :=
    (plain_decimal n).padLeft (by decide) 3
  have hkind := shows_paint ((plain_kindName t.kind).padRight 13) (kindStyle t.kind)
  exact hnumber.shows
    |>.text (by decide)
    |>.append hkind
    |>.text (by decide)
    |>.text (plain_quoted t.lexeme)
    |>.text (by decide)
    |>.text (plain_coord t.coord)
    |>.text (by decide)

theorem shows_tokensPretty (ts : List Token) :
    Shows (tokensPretty true ts) (tokensPretty false ts) :=
  .flatMap ts.zipIdx fun (t, i) _ => shows_tokenLine (i + 1) t

/-! ## Snippets -/

/-- The options, with colour. -/
abbrev PrettyOptions.colored (o : PrettyOptions) : PrettyOptions := { o with color := true }

/-- The options, without colour. -/
abbrev PrettyOptions.uncolored (o : PrettyOptions) : PrettyOptions := { o with color := false }

section

variable (o : PrettyOptions)

theorem shows_margin (width : Nat) {label : Bytes} (h : Plain label) :
    Shows (margin o.colored width label) (margin o.uncolored width label) := by
  have hpadded : Plain (Bytes.padLeft width 0x20 label ++ utf8 " |") :=
    (h.padLeft (by decide) width).append (by decide)
  exact (shows_paint hpadded [.blue]).text (by decide)

theorem plain_printed {s : Bytes} (h : Plain s) : Plain (printed o s) := by
  rw [printed, expandTabs]
  split
  · intro hmem
    obtain ⟨g, hg, -, hcode⟩ :=
      exists_char_of_mem_expandFrom (by decide) (by decide) (glyphs s) 0 hmem
    exact h (Bytes.mem_of_mem_glyphs hg (by decide) hcode)
  · exact h

theorem shows_numberedLine (width : Nat) {l : Nat × Bytes} (h : Plain l.2) :
    Shows (numberedLine o.colored width l) (numberedLine o.uncolored width l) :=
  shows_margin o width (plain_decimal l.1)
    |>.text (plain_printed o.uncolored h)
    |>.text (by decide)

theorem shows_markLine (width : Nat) (before inside : Bytes) :
    Shows (markLine o.colored width before inside) (markLine o.uncolored width before inside) := by
  have hmarker : ∀ n, Plain (marker n) := fun n =>
    Plain.append (by decide) (plain_replicate (by decide) _)
  exact shows_margin o width List.not_mem_nil
    |>.text (plain_replicate (by decide) _)
    |>.append (shows_paint (hmarker _) [.red, .bold])
    |>.text (by decide)

variable {f : File}

theorem plain_slice {s : Bytes} (h : Plain s) (lo hi : Nat) : Plain (s.slice lo hi) :=
  h.of_subset fun _ hb => List.mem_of_mem_drop (List.mem_of_mem_take hb)

theorem plain_line (h : Plain f.content) (n : Nat) : Plain (f.line n) := by
  rw [File.line]
  split
  · exact List.not_mem_nil
  · exact plain_slice h _ _

theorem shows_snippet (h : Plain f.content) (s : Span) (line : Nat) :
    Shows (snippet o.colored f s line) (snippet o.uncolored f s line) := by
  refine .append (.flatMap _ fun l hl => ?_) (shows_markLine o _ _ _)
  obtain ⟨n, -, rfl⟩ := List.mem_map.mp hl
  exact shows_numberedLine o _ (plain_line h n)

theorem rel_snippet? (h : Plain f.content) (s : Span) (line : Nat) :
    Option.Rel Shows (snippet? o.colored f s line) (snippet? o.uncolored f s line) := by
  by_cases hline : line = 0 ∨ max f.lineCount 1 < line
  · rw [snippet?_beyond _ f s hline, snippet?_beyond _ f s hline]
    exact .some .nil
  · have hpos : line ≠ 0 := fun hzero => hline (.inl hzero)
    have hle : line ≤ max f.lineCount 1 := Nat.le_of_not_lt fun hlt => hline (.inr hlt)
    by_cases hwords : f.content.length < 0x100000000 ∧ line < 0xFFFFFFFF
    · rw [snippet?_eq _ hwords.1 s hwords.2 hpos hle, snippet?_eq _ hwords.1 s hwords.2 hpos hle]
      show Option.Rel Shows
        (if (shownLines o f line).all fun l => tabsFit o l.2 then _ else none)
        (if (shownLines o f line).all fun l => tabsFit o l.2 then _ else none)
      split
      · exact .some (shows_snippet o h s line)
      · exact .none
    · rw [snippet?_eq_none _ s hwords hpos hle, snippet?_eq_none _ s hwords hpos hle]
      exact .none

end

/-! ## Findings -/

/-- No name and no content of a buffer has the escape byte. -/
def PlainFiles (fs : FileSet) : Prop := ∀ f ∈ fs.files, Plain f.name ∧ Plain f.content

/-- No text of a finding has the escape byte. -/
structure PlainFinding (d : Diagnostic) : Prop where
  message : Plain d.message
  notes : ∀ n ∈ d.notes, Plain n.message
  titles : ∀ x ∈ d.fixes, Plain x.title
  edits : ∀ x ∈ d.fixes, ∀ e ∈ x.edits, Plain e.text

section

variable {fs : FileSet} (o : PrettyOptions) {name : Bytes}

theorem PlainFiles.of_get? (h : PlainFiles fs) {id : Nat} {f : File} (hf : fs.get? id = some f) :
    Plain f.name ∧ Plain f.content :=
  h f (Array.mem_of_getElem? hf)

theorem shows_headline {d : Diagnostic} (h : Plain d.message) :
    Shows (headline o.colored d) (headline o.uncolored d) :=
  shows_paint (plain_severityName d.severity) (severityStyle d.severity)
    |>.text (by decide)
    |>.text (plain_codeId d.code)
    |>.text (by decide)
    |>.text h
    |>.text (by decide)

theorem rel_noteText? (hname : Plain name) {n : Note} (h : Plain n.message) :
    Option.Rel Shows (noteText? fs o.colored name n) (noteText? fs o.uncolored name n) := by
  refine rel_bind_same fun (start, _) _ => .some ?_
  have hindent : Plain (utf8 "  ") := by decide
  have hlabel : Plain (utf8 "note:") := by decide
  exact hindent.shows
    |>.append (shows_paint hlabel [.cyan])
    |>.text (by decide)
    |>.text hname
    |>.text (by decide)
    |>.text (plain_coord start)
    |>.text (by decide)
    |>.text h
    |>.text (by decide)

theorem plain_of_mem_previewLines {s t : Bytes} (hs : Plain s) (h : t ∈ previewLines s) :
    Plain t := by
  rw [← join_previewLines s] at hs
  exact hs.of_subset (subset_join _ h)

theorem shows_previewText (style : Style) {sign : String} (hsign : Plain (utf8 sign))
    {lines : List Bytes} (h : ∀ l ∈ lines, Plain l) :
    Shows (previewText o.colored style sign lines) (previewText o.uncolored style sign lines) := by
  refine .flatMap lines fun l hl => ?_
  have hindent : Plain (utf8 "      ") := by decide
  exact hindent.shows
    |>.append (shows_paint (hsign.append (h l hl)) style)
    |>.text (by decide)

/-- A preview shows pieces of the buffer and the text of the edit. -/
theorem plain_of_shown? (hfs : PlainFiles fs) {e : Edit} (he : Plain e.text) {p : Preview}
    (h : Preview.shown? fs e = some (some p)) :
    (∀ l ∈ p.before, Plain l) ∧ ∀ l ∈ p.after, Plain l := by
  rw [Preview.shown?] at h
  rcases Preview.ofEdit_cases fs e with
    ⟨-, hp⟩ | ⟨f, hf, ⟨-, hp⟩ | ⟨-, hp⟩ | ⟨above, front, inside, rest, below, hcut, hp⟩⟩
  · rw [hp] at h
    cases h
  · rw [hp] at h
    cases h
  · rw [hp] at h
    cases h
  · rw [hp] at h
    cases h
    have hcontent : Plain f.content := (hfs.of_get? hf).2
    rw [hcut.split] at hcontent
    simp only [Plain, List.mem_append, not_or] at hcontent
    obtain ⟨-, hfront, hinside, hrest, -⟩ := hcontent
    have hblock : Plain (front ++ (inside ++ rest)) :=
      Plain.append hfront (Plain.append hinside hrest)
    have hedited : Plain (front ++ e.text ++ rest) := (Plain.append hfront he).append hrest
    exact ⟨fun l => plain_of_mem_previewLines hblock, fun l => plain_of_mem_previewLines hedited⟩

theorem rel_editPreview? (hfs : PlainFiles fs) {e : Edit} (he : Plain e.text) :
    Option.Rel Shows (editPreview? fs o.colored e) (editPreview? fs o.uncolored e) := by
  rw [editPreview?, editPreview?]
  split
  · cases hshown : Preview.shown? fs e with
    | none => exact .none
    | some preview =>
        cases preview with
        | none => exact .some .nil
        | some p =>
            obtain ⟨hbefore, hafter⟩ := plain_of_shown? hfs he hshown
            have hhead : Plain (utf8 "    preview:\n") := by decide
            refine .some ?_
            exact hhead.shows
              |>.append (shows_previewText o [.red] (by decide) hbefore)
              |>.append (shows_previewText o [.green] (by decide) hafter)
  · exact .some .nil

theorem rel_editText? (hfs : PlainFiles fs) (hname : Plain name) {e : Edit} (he : Plain e.text) :
    Option.Rel Shows (editText? fs o.colored name e) (editText? fs o.uncolored name e) := by
  refine rel_bind_same fun (start, stop) _ => ?_
  refine rel_bind (rel_editPreview? o hfs he) fun preview preview' hpreview => .some ?_
  have htext : Plain (utf8 "    " ++ name ++ utf8 ":" ++ start.text ++ utf8 "-" ++ stop.text
      ++ utf8 " apply=" ++ Text.quoted e.text ++ utf8 "\n") :=
    Plain.append (by decide) hname
      |>.append (by decide)
      |>.append (plain_coord start)
      |>.append (by decide)
      |>.append (plain_coord stop)
      |>.append (by decide)
      |>.append (plain_quoted e.text)
      |>.append (by decide)
  exact htext.shows.append hpreview

theorem rel_fixText? (hfs : PlainFiles fs) (hname : Plain name) (n : Nat) {x : Fix}
    (htitle : Plain x.title) (hedits : ∀ e ∈ x.edits, Plain e.text) :
    Option.Rel Shows (fixText? fs o.colored name n x) (fixText? fs o.uncolored name n x) := by
  refine rel_bind (rel_texts? x.edits fun e he => rel_editText? o hfs hname (hedits e he)) ?_
  intro edits edits' hall
  have hindent : Plain (utf8 "  ") := by decide
  have hnumber : Plain (utf8 "fix #" ++ Bytes.decimal n ++ utf8 ":") :=
    (Plain.append (by decide) (plain_decimal n)).append (by decide)
  refine .some ?_
  exact hindent.shows
    |>.append (shows_paint hnumber [.green])
    |>.text (by decide)
    |>.text htitle
    |>.text (by decide)
    |>.append hall

theorem rel_notesText? (hname : Plain name) {d : Diagnostic} (hd : PlainFinding d) :
    Option.Rel Shows (notesText? fs o.colored name d) (notesText? fs o.uncolored name d) := by
  rw [notesText?, notesText?]
  split
  · exact rel_texts? d.notes fun n hn => rel_noteText? o hname (hd.notes n hn)
  · exact .some .nil

theorem rel_fixesText? (hfs : PlainFiles fs) (hname : Plain name) {d : Diagnostic}
    (hd : PlainFinding d) :
    Option.Rel Shows (fixesText? fs o.colored name d) (fixesText? fs o.uncolored name d) := by
  rw [fixesText?, fixesText?]
  split
  · refine rel_texts? d.fixes.zipIdx fun (x, i) hx => ?_
    have hmem : x ∈ d.fixes := List.fst_mem_of_mem_zipIdx hx
    exact rel_fixText? o hfs hname (i + 1) (hd.titles x hmem) (hd.edits x hmem)
  · exact .some .nil

theorem rel_findingText? (hfs : PlainFiles fs) {d : Diagnostic} (hd : PlainFinding d) :
    Option.Rel Shows (findingText? fs o.colored d) (findingText? fs o.uncolored d) := by
  rw [findingText?, findingText?]
  cases hfile : fs.get? d.primary.file with
  | none => exact .some (shows_headline o hd.message)
  | some f =>
      obtain ⟨hfname, hcontent⟩ := hfs.of_get? hfile
      have hname : Plain (displayName o.names f.name) := plain_displayName o.names hfname
      refine rel_bind_same fun (start, _) _ => ?_
      refine rel_bind (rel_snippet? o hcontent d.primary start.line) fun lines lines' hlines => ?_
      refine rel_bind (rel_notesText? o hname hd) fun notes notes' hnotes => ?_
      refine rel_bind (rel_fixesText? o hfs hname hd) fun fixes fixes' hfixes => ?_
      have hplace : Plain (displayName o.names f.name ++ utf8 ":" ++ start.text ++ utf8 ":") :=
        hname.append (by decide) |>.append (plain_coord start) |>.append (by decide)
      refine .some ?_
      exact shows_paint hplace [.bold]
        |>.text (by decide)
        |>.append (shows_headline o hd.message)
        |>.append hlines
        |>.append hnotes
        |>.append hfixes

end

/-- **Colour changes nothing but escape sequences.**  A list of tokens in colour, without its
escape sequences, is the list without colour, whatever the tokens are.  So is a report of
findings, under all options, if neither the names and contents of buffers nor the texts of
the findings have the escape byte; and there is a report in colour if there is one without. -/
theorem colored_without_escapes :
    (∀ ts : List Token, withoutEscapes (tokensPretty true ts) = tokensPretty false ts) ∧
    (∀ (fs : FileSet) (o : PrettyOptions) (ds : List Diagnostic),
      PlainFiles fs → (∀ d ∈ ds, PlainFinding d) →
      (pretty? fs { o with color := true } ds).map withoutEscapes =
        pretty? fs { o with color := false } ds) := by
  refine ⟨fun ts => (shows_tokensPretty ts).withoutEscapes_eq, ?_⟩
  intro fs o ds hfs hds
  have hall : Option.Rel Shows (pretty? fs o.colored ds) (pretty? fs o.uncolored ds) :=
    rel_texts? ds fun d hd => rel_findingText? o hfs (hds d hd)
  show (pretty? fs o.colored ds).map withoutEscapes = pretty? fs o.uncolored ds
  generalize pretty? fs o.colored ds = x at hall
  generalize pretty? fs o.uncolored ds = y at hall
  cases hall with
  | none => rfl
  | some hshows => exact congrArg some hshows.withoutEscapes_eq

/-- An open string with a note and a fix, shown with a line above and a preview; and a token
that tries to bring an escape sequence along. -/
theorem colored_without_escapes_open :
    let f := File.store 0 (utf8 "main") (utf8 "x\n\t\u65e5 \"b\n") 0
    let fs : FileSet := ⟨#[f]⟩
    let d : Diagnostic := ⟨.error, .unexpectedLineEnd, utf8 "open string", ⟨0, 7, 9⟩,
      [⟨⟨0, 0, 1⟩, utf8 "see here"⟩], [⟨utf8 "close it", [⟨⟨0, 9, 9⟩, utf8 "\""⟩]⟩]⟩
    let o : PrettyOptions := { context := 1, notes := true, fixes := true, preview := true }
    let t : Token := ⟨.stringLiteral, utf8 "\x1b[31m", ⟨1, 1⟩⟩
    PlainFiles fs ∧ PlainFinding d ∧
      (∃ text, pretty? fs { o with color := true } [d] = some text ∧ 0x1B ∈ text) ∧
      (pretty? fs { o with color := true } [d]).map withoutEscapes =
        pretty? fs { o with color := false } [d] ∧
      withoutEscapes (tokensPretty true [t]) = tokensPretty false [t] := by
  intro f fs d o t
  have hfs : PlainFiles fs := by
    intro f' hf'
    rw [Array.mem_singleton.mp hf']
    decide
  have hd : PlainFinding d := by
    constructor <;> decide
  have hsome : ∃ text, pretty? fs { o with color := true } [d] = some text ∧ 0x1B ∈ text := by
    refine ⟨(pretty? fs { o with color := true } [d]).get (by decide +kernel), ?_, ?_⟩
    · exact (Option.some_get _).symm
    · decide +kernel
  obtain ⟨htokens, hreports⟩ := colored_without_escapes
  refine ⟨hfs, hd, hsome, hreports fs o [d] hfs ?_, htokens [t]⟩
  intro d' hd'
  rw [List.mem_singleton.mp hd']
  exact hd

end LineLexer.Report
