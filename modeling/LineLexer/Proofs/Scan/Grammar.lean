/-
# `Proofs.Scan.Grammar` — the scanner accepts exactly its grammar

A line is free of errors if its text is a sequence of items:

    blank     a white byte
    symbol    an entry of the table of symbols
    string    '"' [^"]* '"'
    run       [A-Za-z_][A-Za-z0-9_]*  or  [0-9][0-9_]*,
              at the end of the line or in front of a byte that is white or
              starts a symbol

As a way to split a text this is ambiguous: `<<` is one symbol or two, and `!==`
is `!=` and `=`.  The scanner takes the longest symbol each time.  That this
never leads it astray (`Grammatical.of_symbol_cons`) depends on the table: if
the second byte of one symbol is the first byte of another, what the other one
leaves is a symbol again.

`Line.scan_errorFree_iff` is the statement for whole lines.
-/
import LineLexer.Proofs.Scan.Spelling

namespace LineLexer

/-! ## Items -/

/-- A piece of a line without errors. -/
inductive Item
  | blank (b : UInt8)
  | symbol (s : Bytes)
  | string (body : Bytes)
  | run (sort : RunSort) (w : Bytes)
deriving DecidableEq, Repr

namespace Item

def text : Item → Bytes
  | blank b => [b]
  | symbol s => s
  | string body => Byte.quote :: body ++ [Byte.quote]
  | run _ w => w

/-- What an item may consist of. -/
def Valid : Item → Prop
  | blank b => Byte.isBlank b = true
  | symbol s => s ∈ symbols.entries
  | string body => Byte.quote ∉ body
  | run sort w => sort.Spells w

/-- What may follow an item: behind a run the line ends, or a byte follows that is
white or starts a symbol. -/
def MayPrecede : Item → Bytes → Prop
  | run _ _, rest =>
      ∀ b, rest.head? = some b → Byte.isBlank b = true ∨ Byte.startsSymbol b = true
  | _, _ => True

end Item

/-- The texts that can be split into items. -/
inductive Grammatical : Bytes → Prop
  | nil : Grammatical []
  | cons {item : Item} {rest : Bytes} :
      item.Valid → item.MayPrecede rest → Grammatical rest → Grammatical (item.text ++ rest)

/-! ## From items to segments -/

namespace Item

variable {item : Item} {rest : Bytes}

/-- The segment that an item is cut off as. -/
def segment : Item → Segment
  | blank b => .blank (.single b)
  | symbol s => .symbol s
  | string body => .string (.single Byte.quote) (glyphs body) (.single Byte.quote)
  | run sort w => .run sort (glyphs w)

/-- No symbol goes on with the item. -/
def IsLongest : Item → Bytes → Prop
  | symbol s, rest => ∀ b, rest.head? = some b → s ++ [b] ∉ symbols.entries
  | _, _ => True

theorem flatMap_bytes_segment (item : Item) :
    item.segment.glyphs.flatMap Glyph.bytes = item.text := by
  cases item with
  | blank b => rfl
  | symbol s => exact flatMap_bytes_glyphs s
  | string body => simp [segment, Segment.glyphs, text, flatMap_bytes_glyphs]
  | run sort w => exact flatMap_bytes_glyphs w

theorem Valid.text_ne_nil (h : item.Valid) : item.text ≠ [] := by
  cases item with
  | symbol s => exact (symbols_shape s h).1
  | run sort w => exact RunSort.Spells.ne_nil h
  | blank b => exact List.cons_ne_nil _ _
  | string body => exact List.cons_ne_nil _ _

/-- Behind an item the characters begin anew. -/
theorem Valid.glyphs_append (h : item.Valid) (rest : Bytes) :
    glyphs (item.text ++ rest) = item.segment.glyphs ++ glyphs rest := by
  cases item with
  | blank b => exact glyphs_cons_of_lt (Byte.lt_of_class b (Or.inl h)) rest
  | symbol s => exact glyphs_append_of_ascii (symbols_shape s h).2.2 rest
  | string body =>
      have hquote : Byte.quote < 0x80 := by decide
      have htext : (string body).text ++ rest = Byte.quote :: (body ++ Byte.quote :: rest) := by
        simp [text]
      rw [htext, glyphs_cons_of_lt hquote, glyphs_append_of_lt hquote]
      simp [segment, Segment.glyphs]
  | run sort w => exact glyphs_append_of_ascii (RunSort.Spells.ascii h) rest

/-- An item that no symbol goes on with is cut off. -/
theorem Valid.stands (h : item.Valid) (hnext : item.MayPrecede rest)
    (hlong : item.IsLongest rest) : item.segment.Stands (glyphs rest) := by
  cases item with
  | blank b =>
      have hfits : (blank b).segment.Fits (glyphs rest) := (Byte.single_classes b).1.trans h
      exact hfits.stands rfl
  | string body =>
      have hfits : (string body).segment.Fits (glyphs rest) :=
        ⟨by decide, quote_notMem_iff.mpr h, by decide⟩
      exact hfits.stands rfl
  | run sort w =>
      have hfits : (run sort w).segment.Fits (glyphs rest) := by
        refine ⟨RunSort.isRun_glyphs_iff.mpr h, fun g hg => ?_⟩
        obtain ⟨b, t, rfl, rfl⟩ := head?_glyphs hg
        have hends : endsRun (.first b t) = true := endsRun_first_iff.mpr (hnext b rfl)
        exact ⟨RunSort.goesOn_of_endsRun hends, hends⟩
      exact hfits.stands rfl
  | symbol s =>
      have hfits : (symbol s).segment.Fits (glyphs rest) := by
        rw [segment, Segment.Fits]
        rcases symbol_cases h with ⟨a, rfl, ha⟩ | ⟨a, b, rfl, ha, hb⟩
        · rw [glyphs_one ha]
          refine longestSymbol?_one h fun b t hb => hlong b ?_
          rw [← flatMap_bytes_glyphs rest, show glyphs rest = .single b :: t from hb]
          rfl
        · rw [glyphs_two ha hb]
          exact longestSymbol?_two h
      exact hfits.stands rfl

theorem Valid.segments_append (h : item.Valid) (hnext : item.MayPrecede rest)
    (hlong : item.IsLongest rest) :
    segments (glyphs (item.text ++ rest)) = item.segment :: segments (glyphs rest) := by
  rw [h.glyphs_append]
  exact h.stands hnext hlong

end Item

/-! ## From segments to items -/

namespace Segment

/-- Whether the result of a segment is an error. -/
def isBroken : Segment → Bool
  | blank _ | string _ _ _ | run _ _ | symbol _ => false
  | openString _ _ | brokenRun _ _ _ | orphan _ _ | stray _ => true

/-- A segment of a text that is not broken is an item. -/
theorem Fits.exists_item {s : Segment} {gs t : List Glyph} {text : Bytes} (h : s.Fits t)
    (hsplit : LineLexer.glyphs text = gs ++ (s.glyphs ++ t)) (hs : s.isBroken = false) :
    ∃ item : Item, s = item.segment ∧ item.Valid ∧ item.MayPrecede (t.flatMap Glyph.bytes) := by
  have hcanon : ∀ g ∈ s.glyphs, g.Canonical := fun g hg =>
    canonical_of_mem_glyphs (s := text) (by
      rw [hsplit]
      exact List.mem_append_right _ (List.mem_append_left _ hg))
  have ht : LineLexer.glyphs (t.flatMap Glyph.bytes) = t :=
    glyphs_behind (hsplit.trans (List.append_assoc _ _ _).symm)
  cases s with
  | blank g =>
      obtain ⟨b, hb, rfl⟩ := exists_blank (hcanon g (by simp [glyphs])) h
      exact ⟨.blank b, rfl, hb, trivial⟩
  | string quote body close =>
      obtain ⟨hquote, hbody, hclose⟩ := h
      have hinside : LineLexer.glyphs text = (gs ++ [quote]) ++ body ++ (close :: t) := by
        rw [hsplit]
        simp [glyphs]
      have hbytes := glyphs_between hinside
      refine ⟨.string (body.flatMap Glyph.bytes), ?_, ?_, trivial⟩
      · rw [Item.segment, hbytes, eq_single_quote (hcanon quote (by simp [glyphs])) hquote,
          eq_single_quote (hcanon close (by simp [glyphs])) hclose]
      · exact quote_notMem_iff.mp (by rwa [hbytes])
  | run sort w =>
      obtain ⟨hrun, hnext⟩ := h
      have hbytes : LineLexer.glyphs (w.flatMap Glyph.bytes) = w :=
        glyphs_between (hsplit.trans (List.append_assoc _ _ _).symm)
      refine ⟨.run sort (w.flatMap Glyph.bytes), by rw [Item.segment, hbytes], ?_, ?_⟩
      · exact RunSort.isRun_glyphs_iff.mp (by rwa [hbytes])
      · intro b hb
        obtain ⟨u, hu⟩ := List.head?_eq_some_iff.mp hb
        refine endsRun_first_iff (t := u) |>.mp (hnext _ ?_).2
        rw [← ht, hu, glyphs_cons]
        rfl
  | symbol sym =>
      obtain ⟨hmem, -⟩ := longestSymbol?_some h
      exact ⟨.symbol sym, rfl, hmem, trivial⟩
  | openString quote body => cases hs
  | brokenRun sort w bad => cases hs
  | orphan g next => cases hs
  | stray g => cases hs

end Segment

theorem Item.isBroken_segment (item : Item) : item.segment.isBroken = false := by
  cases item <;> rfl

/-- A text without broken segments can be split into items, namely its segments. -/
theorem grammatical_of_segments (gs : List Glyph) : ∀ {text : Bytes}, glyphs text = gs →
    (∀ s ∈ segments gs, s.isBroken = false) → Grammatical text := by
  induction gs using segments_induction with
  | nil =>
      intro text htext _
      rw [← flatMap_bytes_glyphs text, htext]
      exact .nil
  | cons g rest t hcut hfits ih =>
      intro text htext hs
      rw [segments_cons hcut] at hs
      rw [hcut] at htext
      have hsplit : glyphs text = [] ++ ((Segment.first g rest).glyphs ++ t) := htext
      obtain ⟨item, hitem, hvalid, hnext⟩ := hfits.exists_item hsplit (hs _ List.mem_cons_self)
      have hbytes : text = item.text ++ t.flatMap Glyph.bytes := by
        rw [← flatMap_bytes_glyphs text, htext, List.flatMap_append, hitem,
          item.flatMap_bytes_segment]
      rw [hbytes]
      exact .cons hvalid hnext (ih (glyphs_behind htext) fun s h => hs s (List.mem_cons_of_mem _ h))

/-! ## The longest symbol never leads astray -/

/-- Where two symbols overlap in a byte, what the second one leaves is a symbol. -/
theorem symbols_overlap : ∀ s ∈ symbols.entries, ∀ t ∈ symbols.entries,
    s.drop 1 ≠ [] → s.drop 1 = t.take 1 → t.drop 1 ≠ [] → t.drop 1 ∈ symbols.entries := by
  decide +kernel

namespace Grammatical

theorem exists_item {text : Bytes} (h : Grammatical text) (hne : text ≠ []) :
    ∃ (item : Item) (rest : Bytes), text = item.text ++ rest ∧ item.Valid ∧
      item.MayPrecede rest ∧ Grammatical rest := by
  cases h with
  | nil => exact absurd rfl hne
  | cons hvalid hnext hrest => exact ⟨_, _, rfl, hvalid, hnext, hrest⟩

/-- The byte that a symbol of two bytes takes away from a text leaves a text of
the grammar. -/
theorem of_symbol_cons {a b : UInt8} {rest : Bytes} (hab : [a, b] ∈ symbols.entries)
    (h : Grammatical (b :: rest)) : Grammatical rest := by
  obtain ⟨hblank, hquote, hdigit, hletter⟩ := Byte.symbol_classes hab (b := b) (by simp)
  obtain ⟨item, rest', heq, hvalid, hnext, hrest⟩ := h.exists_item (List.cons_ne_nil _ _)
  cases item with
  | blank c =>
      obtain ⟨rfl, -⟩ := List.cons.inj heq
      exact absurd hvalid (by simp [Item.Valid, hblank])
  | string body =>
      obtain ⟨rfl, -⟩ := List.cons.inj heq
      exact absurd rfl hquote
  | run sort w =>
      cases w with
      | nil => exact absurd rfl hvalid.text_ne_nil
      | cons c w =>
          obtain ⟨rfl, -⟩ := List.cons.inj heq
          cases sort with
          | word => exact absurd hvalid.1 (by simp [hletter])
          | number => exact absurd hvalid.1 (by simp [hdigit])
  | symbol s =>
      rcases symbol_cases hvalid with ⟨c, rfl, -⟩ | ⟨c, d, rfl, -, -⟩
      · obtain ⟨-, rfl⟩ := List.cons.inj heq
        exact hrest
      · -- the text goes on with a symbol that overlaps, and `[d]` is left of it
        obtain ⟨rfl, rfl⟩ := List.cons.inj heq
        have hd : (Item.symbol [d]).Valid :=
          symbols_overlap _ hab _ hvalid (by simp) rfl (by simp)
        exact .cons hd trivial hrest

/-- However a text is split, it begins with an item that no symbol goes on with,
and the rest is a text of the grammar. -/
theorem exists_longest_item {text : Bytes} (h : Grammatical text) (hne : text ≠ []) :
    ∃ (item : Item) (rest : Bytes), text = item.text ++ rest ∧ item.Valid ∧
      item.MayPrecede rest ∧ item.IsLongest rest ∧ Grammatical rest := by
  obtain ⟨item, rest, heq, hvalid, hnext, hrest⟩ := h.exists_item hne
  by_cases hlong : item.IsLongest rest
  · exact ⟨item, rest, heq, hvalid, hnext, hlong, hrest⟩
  · -- only a symbol can be gone on with, and only by one byte
    cases item with
    | symbol s =>
        simp only [Item.IsLongest, Classical.not_forall, Decidable.not_not] at hlong
        obtain ⟨b, hb, hsb⟩ := hlong
        obtain ⟨rest', rfl⟩ := List.head?_eq_some_iff.mp hb
        obtain ⟨a, rfl⟩ : ∃ a, s = [a] := by
          rcases symbol_cases hvalid with ⟨a, rfl, -⟩ | ⟨a, c, rfl, -, -⟩
          · exact ⟨a, rfl⟩
          · exact absurd (symbols_shape _ hsb).2.1 (by simp)
        refine ⟨.symbol [a, b], rest', by rw [heq]; rfl, hsb, trivial, ?_, hrest.of_symbol_cons hsb⟩
        intro c _ hc
        exact absurd (symbols_shape _ hc).2.1 (by simp)
    | blank b => exact absurd trivial hlong
    | string body => exact absurd trivial hlong
    | run sort w => exact absurd trivial hlong

/-- The segments of a text of the grammar are not broken. -/
theorem segments_not_broken {text : Bytes} (h : Grammatical text) :
    ∀ s ∈ segments (glyphs text), s.isBroken = false := by
  by_cases hne : text = []
  · subst hne
    simp [segments]
  · -- not by induction on the split: its first item may be exchanged for a longer one
    obtain ⟨item, rest, rfl, hvalid, hnext, hlong, hrest⟩ := h.exists_longest_item hne
    have hlen : rest.length < (item.text ++ rest).length := by
      have hpos := List.length_pos_iff.mpr hvalid.text_ne_nil
      rw [List.length_append]
      omega
    rw [hvalid.segments_append hnext hlong]
    intro s hs
    rcases List.mem_cons.mp hs with rfl | hs
    · exact item.isBroken_segment
    · exact hrest.segments_not_broken s hs
termination_by text.length

end Grammatical

/-! ## Lines -/

/-- Exactly the broken segments have errors. -/
theorem Segment.error?_result? (s : Segment) (ln : Line) (here : Mark) :
    ((s.result? ln here).bind Result.error?).isSome = s.isBroken := by
  cases s with
  | orphan g next => cases next <;> rfl
  | blank g => rfl
  | string quote body close => rfl
  | openString quote body => rfl
  | run sort gs => rfl
  | brokenRun sort gs bad => rfl
  | symbol sym => rfl
  | stray g => rfl

theorem Line.errors_resultsFrom_eq_nil (ln : Line) : ∀ (ss : List Segment) (here : Mark),
    (ln.resultsFrom here ss).filterMap Result.error? = [] ↔ ∀ s ∈ ss, s.isBroken = false
  | [], _ => by simp [resultsFrom]
  | s :: ss, here => by
      rw [resultsFrom, List.filterMap_append, List.append_eq_nil_iff,
        ln.errors_resultsFrom_eq_nil ss, List.forall_mem_cons, ← s.error?_result? ln here]
      refine and_congr_left fun _ => ?_
      cases s.result? ln here with
      | none => simp
      | some r => cases r <;> simp [Result.error?]

/-- **The scanner accepts exactly its grammar**: a line has no error if and only if
its text can be split into items. -/
theorem Line.scan_errorFree_iff (ln : Line) :
    ln.scan.filterMap Result.error? = [] ↔ Grammatical ln.text := by
  rw [scan_eq_resultsFrom, errors_resultsFrom_eq_nil]
  exact ⟨grammatical_of_segments _ rfl, Grammatical.segments_not_broken⟩

end LineLexer
