/-
# `Proofs.Scan.Reprint` — tokens that are printed are read again

The tokens of a buffer, written one after the other with single spaces between
them, are a line without errors, and scanning it gives the same tokens, up to
their places (`Token.printed_rescans`).  The buffer may be as broken as it likes.

What a scanner can deliver at all is said first (`Token.Lexical`): whatever came
before it in its line, a token is an item of the grammar, and has the kind that
its text alone decides.  A space behind an item ends it, so each item is cut off
again as it was.
-/
import LineLexer.Proofs.Scan.Endless
import LineLexer.Proofs.Scan.Grammar
import LineLexer.Proofs.Scan.Place

namespace LineLexer

/-! ## What a token can be -/

/-- The kind and the lexeme of the token that an item makes; a blank makes none. -/
def Item.reading? : Item → Option (Kind × Bytes)
  | blank _ => none
  | symbol s => some (.punctuation, s)
  | string body => some (.stringLiteral, body)
  | run sort w => some (sort.kind w, w)

theorem Item.result?_segment (item : Item) (ln : Line) (here : Mark) :
    item.segment.result? ln here =
      item.reading?.map fun r => .token ⟨r.1, r.2, ⟨ln.num, here.col⟩⟩ := by
  cases item with
  | blank b => rfl
  | symbol s => rfl
  | string body => simp [segment, Segment.result?, reading?, flatMap_bytes_glyphs]
  | run sort w => simp [segment, Segment.result?, reading?, flatMap_bytes_glyphs]

namespace Token

/-- A token without its place. -/
def reading (t : Token) : Kind × Bytes := (t.kind, t.lexeme)

/-- The item that a token of this kind and lexeme comes from. -/
def item (t : Token) : Item :=
  match t.kind with
  | .stringLiteral => .string t.lexeme
  | .intLiteral => .run .number t.lexeme
  | .keyword | .identifier => .run .word t.lexeme
  | .punctuation | .unknown _ => .symbol t.lexeme

/-- The token is one that its item makes. -/
structure Lexical (t : Token) : Prop where
  valid : t.item.Valid
  reading_eq : t.item.reading? = some t.reading

theorem text_item (t : Token) : t.item.text = t.source := by
  obtain ⟨kind, lexeme, coord⟩ := t
  cases kind <;> rfl

/-- An item makes a token from which the item can be told. -/
theorem item_of_reading? {item : Item} {kind : Kind} {lexeme : Bytes}
    (h : item.reading? = some (kind, lexeme)) (coord : Coord) :
    (⟨kind, lexeme, coord⟩ : Token).item = item := by
  cases item with
  | blank b => cases h
  | symbol s =>
      cases h
      rfl
  | string body =>
      cases h
      rfl
  | run sort w =>
      cases h
      cases sort with
      | number => rfl
      | word => rcases word_kind_cases lexeme with hk | hk <;> simp [item, hk]

end Token

/-- Every token of a line is one that an item makes. -/
theorem Line.Cut.lexical {ln : Line} {before behind : List Glyph} {s : Segment}
    (h : ln.Cut before s behind) {t : Token}
    (hr : s.result? ln (Mark.start.after before) = some (.token t)) : t.Lexical := by
  have hs : s.isBroken = false := by
    rw [← s.error?_result? ln (Mark.start.after before), hr]
    rfl
  obtain ⟨item, rfl, hvalid, -⟩ := h.fits.exists_item h.split hs
  rw [item.result?_segment] at hr
  obtain ⟨⟨kind, lexeme⟩, hreading, heq⟩ := Option.map_eq_some_iff.mp hr
  cases heq
  have hitem := Token.item_of_reading? hreading ⟨ln.num, (Mark.start.after before).col⟩
  exact ⟨by rwa [hitem], by rw [hitem, hreading]; rfl⟩

/-! ## Printing -/

/-- The source texts of tokens, with a space between neighbours. -/
def Token.printed (ts : List Token) : Bytes := Bytes.join (utf8 " ") (ts.map source)

theorem Token.printed_cons_cons (t t' : Token) (ts : List Token) :
    printed (t :: t' :: ts) = t.source ++ 0x20 :: printed (t' :: ts) := by
  rw [printed, printed, Bytes.join, Bytes.join, List.map_cons, List.map_cons,
    List.intercalate_cons_cons, List.append_assoc]
  rfl

/-- White space, or the end of the line, may follow every item and ends it. -/
theorem Item.Valid.stands_before_blank {item : Item} (h : item.Valid) {rest : Bytes}
    (hrest : ∀ b, rest.head? = some b → Byte.isBlank b = true) :
    item.segment.Stands (glyphs rest) := by
  refine h.stands ?_ ?_
  · cases item with
    | run sort w => exact fun b hb => Or.inl (hrest b hb)
    | blank b => trivial
    | symbol s => trivial
    | string body => trivial
  · cases item with
    | symbol s =>
        intro b hb hmem
        obtain ⟨hblank, -⟩ := Byte.symbol_classes hmem (b := b) (by simp)
        rw [hrest b hb] at hblank
        cases hblank
    | run sort w => trivial
    | blank b => trivial
    | string body => trivial

namespace Line

/-- In front of white space or the end of the line a token is read as itself. -/
theorem resultsFrom_source (ln : Line) (here : Mark) {t : Token} (h : t.Lexical) {rest : Bytes}
    (hrest : ∀ b, rest.head? = some b → Byte.isBlank b = true) :
    ln.resultsFrom here (segments (glyphs (t.source ++ rest))) =
      .token { t with coord := ⟨ln.num, here.col⟩ } ::
        ln.resultsFrom (here.after t.item.segment.glyphs) (segments (glyphs rest)) := by
  rw [← t.text_item, h.valid.glyphs_append, h.valid.stands_before_blank hrest, resultsFrom,
    Item.result?_segment, h.reading_eq]
  rfl

theorem resultsFrom_space (ln : Line) (here : Mark) (rest : Bytes) :
    ln.resultsFrom here (segments (glyphs (0x20 :: rest))) =
      ln.resultsFrom (here.after [.single 0x20]) (segments (glyphs rest)) := by
  have hvalid : (Item.blank 0x20).Valid := rfl
  rw [show (0x20 :: rest : Bytes) = (Item.blank 0x20).text ++ rest from rfl,
    hvalid.segments_append trivial trivial]
  rfl

/-- Printed tokens are read one by one, each from a clean position. -/
theorem resultsFrom_printed (ln : Line) : ∀ (ts : List Token) (here : Mark),
    (∀ t ∈ ts, t.Lexical) →
    ∃ ts' : List Token,
      ln.resultsFrom here (segments (glyphs (Token.printed ts))) = ts'.map .token ∧
        ts'.map Token.reading = ts.map Token.reading
  | [], here, _ => ⟨[], by simp [Token.printed, Bytes.join, segments, resultsFrom], rfl⟩
  | [t], here, h => by
      have hprinted : Token.printed [t] = t.source ++ [] := by simp [Token.printed, Bytes.join]
      rw [hprinted, ln.resultsFrom_source here (h t List.mem_cons_self) (by simp)]
      exact ⟨[{ t with coord := ⟨ln.num, here.col⟩ }], by simp [segments, resultsFrom], rfl⟩
  | t :: t' :: ts, here, h => by
      rw [Token.printed_cons_cons, ln.resultsFrom_source here (h t List.mem_cons_self) (by
        simp [Byte.isBlank]), resultsFrom_space]
      obtain ⟨us, hus, hreading⟩ := ln.resultsFrom_printed (t' :: ts)
        ((here.after t.item.segment.glyphs).after [.single 0x20])
        fun u hu => h u (List.mem_cons_of_mem t hu)
      rw [hus]
      exact ⟨{ t with coord := ⟨ln.num, here.col⟩ } :: us, rfl,
        congrArg (t.reading :: ·) hreading⟩

end Line

/-- The results are tokens without an error among them, and read like `ts`. -/
structure ReadLike (rs : List Result) (ts : List Token) : Prop where
  errorFree : rs.filterMap Result.error? = []
  same : (rs.filterMap Result.token?).map Token.reading = ts.map Token.reading

theorem Line.scan_printed {ts : List Token} (h : ∀ t ∈ ts, t.Lexical) {ln : Line}
    (htext : ln.text = Token.printed ts) : ReadLike ln.scan ts := by
  obtain ⟨ts', hts', hreading⟩ := ln.resultsFrom_printed ts .start h
  rw [scan_eq_resultsFrom, htext, hts']
  constructor
  · rw [List.filterMap_map]
    exact List.filterMap_eq_nil_iff.mpr fun _ _ => rfl
  · rw [List.filterMap_map, ← hreading]
    exact congrArg (List.map Token.reading) List.filterMap_some

/-! ## The printed line as a buffer -/

/-- Items begin with an ASCII byte, and so with no byte order mark. -/
theorem Item.Valid.head_lt {item : Item} (h : item.Valid) {b : UInt8}
    (hb : item.text.head? = some b) : b < 0x80 := by
  obtain ⟨t, ht⟩ := List.head?_eq_some_iff.mp hb
  have hmem : b ∈ item.text := by rw [ht]; exact List.mem_cons_self
  cases item with
  | blank c => exact Byte.lt_of_class b (Or.inl (by rwa [List.mem_singleton.mp hmem]))
  | symbol s => exact (symbols_shape s h).2.2 b hmem
  | string body =>
      obtain ⟨rfl, -⟩ := List.cons.inj ht
      decide
  | run sort w => exact RunSort.Spells.ascii h b hmem

namespace File

theorem withoutReturns_of_notMem : ∀ {s : Bytes}, feed ∉ s → withoutReturns s = s
  | [], _ => rfl
  | [_], _ => rfl
  | a :: b :: rest, h => by
      have hb : ¬ (a = 0x0D ∧ b = 0x0A) := fun hab => h (by rw [hab.2]; simp)
      have hrest : feed ∉ b :: rest := fun hm => h (List.mem_cons_of_mem a hm)
      rw [withoutReturns, if_neg hb, withoutReturns_of_notMem hrest]

theorem withoutMark?_of_lt {s : Bytes} (h : ∀ b, s.head? = some b → b < 0x80) :
    withoutMark? s = none := by
  unfold withoutMark?
  split
  · exact absurd (h 0xEF rfl) (by decide)
  · rfl

/-- A line is stored as it is. -/
theorem content_store_line (id : Nat) (name : Bytes) (flags : UInt8) {s : Bytes}
    (hfeed : feed ∉ s) (hhead : ∀ b, s.head? = some b → b < 0x80) :
    (store id name s flags).content = s := by
  simp [store, withoutMark?_of_lt hhead, withoutReturns_of_notMem hfeed]

/-- A buffer of one line is scanned as that line. -/
theorem results_store_line (id : Nat) (name : Bytes) (flags : UInt8) {s : Bytes}
    (hfeed : feed ∉ s) (hhead : ∀ b, s.head? = some b → b < 0x80) :
    (store id name s flags).results = Line.scan ⟨id, 1, 0, s⟩ := by
  have hid : (store id name s flags).id = id := rfl
  rw [results, lines, content_store_line id name flags hfeed hhead, hid, splitLines_last hfeed]
  by_cases hs : s = []
  · subst hs
    rfl
  · simp [hs, numberLines]

theorem lexical_of_mem_tokens {f : File} {t : Token} (h : t ∈ f.tokens) :
    t.Lexical ∧ feed ∉ t.source := by
  obtain ⟨l, hl, before, s, behind, hcut, hr⟩ := exists_cut (mem_tokens.mp h)
  obtain ⟨-, pre, post, hstands⟩ := standsIn_of_mem_lines hl
  obtain ⟨hspelled, -⟩ := hcut.spelledBy hr
  refine ⟨hcut.lexical hr, fun hfeed => hstands.unbroken ?_⟩
  rw [← flatMap_bytes_glyphs l.text, hspelled.split, List.flatMap_append, List.flatMap_append,
    ← hspelled.source_eq]
  simp [hfeed]

/-- A line can be scanned as a buffer of its own, unless it is too long for a word. -/
theorem scannable_store_line (id : Nat) (name : Bytes) (flags : UInt8) {s : Bytes}
    (hfeed : feed ∉ s) (hhead : ∀ b, s.head? = some b → b < 0x80)
    (hlength : s.length < 0x100000000) : (store id name s flags).Scannable := by
  have hcontent := content_store_line id name flags hfeed hhead
  refine ⟨by rwa [hcontent], ?_⟩
  rw [lineCount_eq, hcontent, splitLines_last hfeed]
  split
  · decide
  · rw [List.length_singleton]
    decide

end File

theorem Scanner.ofText?_line {s : Bytes} (hfeed : File.feed ∉ s)
    (hhead : ∀ b, s.head? = some b → b < 0x80) (level : Trace.Level) :
    ofText? s level = some (new (File.store 0 (utf8 "<string>") s File.virtualFlag) level) := by
  have hends : (File.store 0 (utf8 "<string>") s File.virtualFlag).lineEnds = [] := by
    rw [File.lineEnds, File.content_store_line _ _ _ hfeed hhead,
      File.lineEndsFrom_of_not_mem _ hfeed]
  have hadd : FileSet.empty.add? (utf8 "<string>") s File.virtualFlag =
      some (FileSet.empty.add (utf8 "<string>") s File.virtualFlag) := by
    refine FileSet.add?_eq_some.mpr ⟨rfl, by decide, ?_⟩
    show ∀ e ∈ (File.store 0 (utf8 "<string>") s File.virtualFlag).lineEnds, e < wordLimit
    rw [hends]
    exact fun e he => absurd he List.not_mem_nil
  rw [ofText?, hadd]
  rfl

namespace Token

theorem exists_printed_cons (t : Token) (ts : List Token) :
    ∃ rest, printed (t :: ts) = t.source ++ rest := by
  cases ts with
  | nil => exact ⟨[], by simp [printed, Bytes.join]⟩
  | cons t' ts => exact ⟨_, printed_cons_cons t t' ts⟩

theorem head_printed {ts : List Token} (h : ∀ t ∈ ts, t.Lexical) {b : UInt8}
    (hb : (printed ts).head? = some b) : b < 0x80 := by
  cases ts with
  | nil => simp [printed, Bytes.join] at hb
  | cons t ts =>
      obtain ⟨hvalid, -⟩ := h t List.mem_cons_self
      obtain ⟨rest, hrest⟩ := exists_printed_cons t ts
      obtain ⟨a, u, hu⟩ := List.exists_cons_of_ne_nil hvalid.text_ne_nil
      refine hvalid.head_lt ?_
      rw [hrest, ← t.text_item, hu] at hb
      rw [hu]
      exact hb

theorem feed_notMem_printed : ∀ {ts : List Token}, (∀ t ∈ ts, File.feed ∉ t.source) →
    File.feed ∉ printed ts
  | [], _ => by simp [printed, Bytes.join]
  | [t], h => by simpa [printed, Bytes.join] using h t
  | t :: t' :: ts, h => by
      have hts : File.feed ∉ printed (t' :: ts) :=
        feed_notMem_printed fun u hu => h u (List.mem_cons_of_mem t hu)
      have hspace : File.feed ≠ 0x20 := by decide
      rw [printed_cons_cons]
      simp [h t, hts, hspace]

/-- **Tokens that are printed are read again**: the tokens of a buffer, with or
without errors in it, written with single spaces between them, are one line;
scanned as a line of any buffer, or as a buffer of its own that is not too long for
a word, it has no errors and the same tokens. -/
theorem printed_rescans (f : File) (level level' : Trace.Level) :
    ((∃ drained, (Scanner.new f level).drain = some drained) ↔ f.Scannable) ∧
      ∀ results s signals, (Scanner.new f level).drain = some (results, s, signals) →
        let tokens := results.filterMap Result.token?
        File.feed ∉ printed tokens ∧
          (∀ file num start, ReadLike (Line.scan ⟨file, num, start, printed tokens⟩) tokens) ∧
          ((printed tokens).length < 0x100000000 →
            ∃ scanner results' s' signals', Scanner.ofText? (printed tokens) level' = some scanner ∧
              scanner.drain = some (results', s', signals') ∧ ReadLike results' tokens) := by
  refine ⟨Scanner.exists_drain_iff f level, ?_⟩
  intro results s signals hdrain tokens
  obtain ⟨-, rfl, -⟩ := Scanner.drain_eq_some hdrain
  have hlexical : ∀ t ∈ tokens, t.Lexical := fun t ht => (File.lexical_of_mem_tokens ht).1
  have hfeed : File.feed ∉ printed tokens := feed_notMem_printed fun t ht =>
    (File.lexical_of_mem_tokens ht).2
  refine ⟨hfeed, fun file num start => Line.scan_printed hlexical rfl, fun hlength => ?_⟩
  have hhead (b : UInt8) : (printed tokens).head? = some b → b < 0x80 := head_printed hlexical
  obtain ⟨s', signals', hdrain', -⟩ :=
    Scanner.drain_new (File.scannable_store_line 0 _ _ hfeed hhead hlength) level'
  rw [File.results_store_line _ _ _ hfeed hhead] at hdrain'
  exact ⟨_, _, s', signals', Scanner.ofText?_line hfeed hhead level', hdrain',
    Line.scan_printed hlexical rfl⟩

end Token

end LineLexer
