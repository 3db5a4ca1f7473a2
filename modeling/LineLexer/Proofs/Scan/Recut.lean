/-
# `Proofs.Scan.Recut` — the same segment in front of another text

`Segment.first` looks at the whole rest of a line.  Here is what it takes for a
given segment to be what is cut off (`Segment.Stands`):

  * it is enough that the segment fits (`Segment.Fits.stands`); only of a stray
    character does `Fits` say too little;
  * of what follows the segment only the first character matters, as long as
    something follows at all (`Segment.Stands.congr_head`).

So the segments up to some place of a line stay the same when the text from
there on is exchanged for one that begins with the same character
(`segments_exchange`).
-/
import LineLexer.Proofs.Scan.LongestMatch

namespace LineLexer

/-! ## What the first character decides -/

/-- No character of a symbol is white, a quote, a digit or a letter. -/
theorem symbols_plain : ∀ s ∈ symbols.entries, ∀ b ∈ s,
    isSpace (Glyph.single b).char = false ∧ (Glyph.single b).char ≠ '"' ∧
      (Glyph.single b).char.isDigit = false ∧ isWordStart (Glyph.single b).char = false := by
  decide +kernel

/-- The codes of the underscore and the letters. -/
theorem toNat_of_isWordStart {c : Char} (h : isWordStart c = true) :
    c.toNat = 0x5F ∨ (0x41 ≤ c.toNat ∧ c.toNat ≤ 0x5A) ∨ (0x61 ≤ c.toNat ∧ c.toNat ≤ 0x7A) := by
  rcases Bool.or_eq_true_iff.mp h with hline | halpha
  · obtain rfl := of_decide_eq_true hline
    decide
  · rcases Bool.or_eq_true_iff.mp halpha with hupper | hlower
    · obtain ⟨hle, hge⟩ := of_decide_eq_true hupper
      exact Or.inr (Or.inl ⟨hle, hge⟩)
    · obtain ⟨hle, hge⟩ := Bool.and_eq_true_iff.mp hlower
      exact Or.inr (Or.inr ⟨of_decide_eq_true hle, of_decide_eq_true hge⟩)

theorem toNat_of_isDigit {c : Char} (h : c.isDigit = true) : 0x30 ≤ c.toNat ∧ c.toNat ≤ 0x39 := by
  obtain ⟨hle, hge⟩ := Bool.and_eq_true_iff.mp h
  exact ⟨of_decide_eq_true hle, of_decide_eq_true hge⟩

theorem isDigit_of_isWordStart {c : Char} (h : isWordStart c = true) : c.isDigit = false := by
  have hword := toNat_of_isWordStart h
  cases hdigit : c.isDigit with
  | false => rfl
  | true =>
      have hcode := toNat_of_isDigit hdigit
      omega

namespace RunSort

variable {sort : RunSort} {c : Char}

/-- A character that starts a run is neither white nor a quote. -/
theorem starts_disjoint (h : sort.starts c = true) : isSpace c = false ∧ c ≠ '"' := by
  constructor
  · cases hspace : isSpace c with
    | false => rfl
    | true =>
        obtain ⟨-, hdigit, hword⟩ := Line.isSpace_disjoint hspace
        cases sort with
        | word => exact absurd h (by simp [starts, hword])
        | number => exact absurd h (by simp [starts, hdigit])
  · rintro rfl
    cases sort <;> revert h <;> decide

theorem goesOn_eq_false (hdigit : c.isDigit = false) (hword : isWordStart c = false) :
    sort.goesOn c = false := by
  cases sort with
  | word => simp [goesOn, isWordChar, hdigit, hword]
  | number =>
      have hline : c ≠ '_' := by
        rintro rfl
        exact absurd hword (by decide)
      simp [goesOn, isNumberChar, hdigit, hline]

/-- A character that ends runs does not go on with one. -/
theorem goesOn_of_endsRun {g : Glyph} (h : endsRun g = true) : sort.goesOn g.char = false := by
  rw [endsRun, Bool.or_eq_true] at h
  rcases h with hspace | hfrom
  · obtain ⟨-, hdigit, hword⟩ := Line.isSpace_disjoint hspace
    exact goesOn_eq_false hdigit hword
  · obtain ⟨s, hs⟩ := List.exists_mem_of_ne_nil (symbolsFrom g) (by simpa using hfrom)
    obtain ⟨hmem, a, t, rfl, -, rfl⟩ := mem_symbolsFrom.mp hs
    obtain ⟨-, -, hdigit, hword⟩ := symbols_plain _ hmem a List.mem_cons_self
    exact goesOn_eq_false hdigit hword

end RunSort

namespace Segment

variable {g : Glyph}

theorem first_of_isSpace (h : isSpace g.char = true) (rest : List Glyph) :
    first g rest = blank g := by
  rw [first, if_pos h]

theorem first_of_quote (h : g.char = '"') (rest : List Glyph) : first g rest = ofQuote g rest := by
  rw [first, if_neg (by rw [h]; decide), if_pos h]

theorem first_of_starts {sort : RunSort} (h : sort.starts g.char = true) (rest : List Glyph) :
    first g rest = ofRun sort g rest := by
  obtain ⟨hspace, hquote⟩ := RunSort.starts_disjoint h
  rw [first, if_neg (by simp [hspace]), if_neg hquote]
  cases sort with
  | number => exact if_pos h
  | word =>
      rw [if_neg (by simp [isDigit_of_isWordStart h])]
      exact if_pos h

/-- A character under which there are symbols begins one, or is an orphan. -/
theorem first_of_symbolsFrom (h : symbolsFrom g ≠ []) (rest : List Glyph) :
    first g rest = ofSymbol g rest := by
  obtain ⟨s, hs⟩ := List.exists_mem_of_ne_nil _ h
  obtain ⟨hmem, a, t, rfl, -, rfl⟩ := mem_symbolsFrom.mp hs
  obtain ⟨hspace, hquote, hdigit, hword⟩ := symbols_plain _ hmem a List.mem_cons_self
  rw [first, if_neg (by simp [hspace]), if_neg hquote, if_neg (by simp [hdigit]),
    if_neg (by simp [hword])]

theorem ofQuote_ne_stray (g h : Glyph) (rest : List Glyph) : ofQuote g rest ≠ stray h := by
  unfold ofQuote
  split <;>
    · intro hs
      cases hs

theorem ofRun_ne_stray (sort : RunSort) (g h : Glyph) (rest : List Glyph) :
    ofRun sort g rest ≠ stray h := by
  unfold ofRun
  dsimp only
  split
  · intro hs
    cases hs
  · split <;>
      · intro hs
        cases hs

/-- A stray character is one whatever follows. -/
theorem first_eq_stray {rest : List Glyph} (h : first g rest = stray g) (rest' : List Glyph) :
    first g rest' = stray g := by
  have hfrom : symbolsFrom g = [] := by
    obtain ⟨t, -, hfits⟩ := first_fits g rest
    rw [h] at hfits
    exact hfits.1
  have hother : ofSymbol g rest' = stray g := by
    rw [ofSymbol, longestSymbol?_stray hfrom]
    exact if_pos hfrom
  unfold first at h ⊢
  split at h
  · cases h
  split at h
  · exact absurd h (ofQuote_ne_stray _ _ _)
  split at h
  · exact absurd h (ofRun_ne_stray _ _ _ _)
  split at h
  · exact absurd h (ofRun_ne_stray _ _ _ _)
  rename_i hspace hquote hdigit hword
  rw [if_neg hspace, if_neg hquote, if_neg hdigit, if_neg hword, hother]

end Segment

/-! ## Standing in front of a text -/

namespace Segment

variable {s : Segment} {rest : List Glyph}

/-- The segment is what is cut off in front of `rest`. -/
def Stands (s : Segment) (rest : List Glyph) : Prop :=
  segments (s.glyphs ++ rest) = s :: segments rest

theorem stands_of_first {g : Glyph} {t : List Glyph} (hcut : s.glyphs ++ rest = g :: t)
    (h : first g t = s) : s.Stands rest := by
  rw [Stands, hcut, segments_cons (t := rest) (by rw [h, hcut]), h]

theorem Stands.first_eq {g : Glyph} {t : List Glyph} (h : s.Stands rest)
    (hcut : s.glyphs ++ rest = g :: t) : first g t = s := by
  obtain ⟨t', ht', -⟩ := first_fits g t
  rw [Stands, hcut, segments_cons ht'] at h
  exact (List.cons.inj h).1

theorem Stands.fits (h : s.Stands rest) : s.Fits rest := by
  have hcut : segments (s.glyphs ++ rest) = [] ++ s :: segments rest := h
  have hfits := segments_fits _ hcut
  rwa [flatMap_glyphs_segments] at hfits

end Segment

/-- Reading on while a condition holds stops where it fails first. -/
theorem span_append {α : Type} {p : α → Bool} {l r : List α} (hl : ∀ a ∈ l, p a = true)
    (hr : ∀ a, r.head? = some a → p a = false) :
    (l ++ r).takeWhile p = l ∧ (l ++ r).dropWhile p = r := by
  rw [List.takeWhile_append_of_pos hl, List.dropWhile_append_of_pos hl]
  cases r with
  | nil => simp
  | cons a r => simp [hr a rfl]

namespace Segment

theorem ofQuote_eq_string {quote close : Glyph} {body : List Glyph}
    (hbody : ∀ h ∈ body, h.char ≠ '"') (hclose : close.char = '"') (rest : List Glyph) :
    ofQuote quote (body ++ close :: rest) = string quote body close := by
  obtain ⟨htake, hdrop⟩ := span_append (p := fun h : Glyph => h.char != '"') (l := body)
    (r := close :: rest) (by simpa using hbody) (by simp [hclose])
  rw [ofQuote, htake, hdrop]

theorem ofQuote_eq_openString {quote : Glyph} {body : List Glyph}
    (hbody : ∀ h ∈ body, h.char ≠ '"') : ofQuote quote body = openString quote body := by
  obtain ⟨-, hdrop⟩ := span_append (p := fun h : Glyph => h.char != '"') (l := body)
    (r := []) (by simpa using hbody) (by simp)
  rw [List.append_nil] at hdrop
  rw [ofQuote, hdrop]

/-- A run is cut off as soon as the character behind it, if there is one, ends it. -/
theorem ofRun_eq_run {sort : RunSort} {g : Glyph} {gs rest : List Glyph}
    (hgs : ∀ h ∈ gs, sort.goesOn h.char = true)
    (hrest : ∀ h, rest.head? = some h → endsRun h = true) :
    ofRun sort g (gs ++ rest) = run sort (g :: gs) := by
  obtain ⟨htake, hdrop⟩ := span_append (p := fun h : Glyph => sort.goesOn h.char) (l := gs)
    (r := rest) hgs fun h hh => RunSort.goesOn_of_endsRun (hrest h hh)
  rw [ofRun, htake, hdrop]
  cases rest with
  | nil => rfl
  | cons next t => exact if_pos (hrest next rfl)

theorem ofRun_eq_brokenRun {sort : RunSort} {g bad : Glyph} {gs : List Glyph}
    (hgs : ∀ h ∈ gs, sort.goesOn h.char = true) (hstop : sort.goesOn bad.char = false)
    (hends : endsRun bad = false) (rest : List Glyph) :
    ofRun sort g (gs ++ bad :: rest) = brokenRun sort (g :: gs) bad := by
  obtain ⟨htake, hdrop⟩ := span_append (p := fun h : Glyph => sort.goesOn h.char) (l := gs)
    (r := bad :: rest) hgs (by simp [hstop])
  rw [ofRun, htake, hdrop]
  exact if_neg (by simp [hends])

/-- Whether a segment is a character that starts nothing. -/
def isStray : Segment → Bool
  | stray _ => true
  | _ => false

/-- **A segment that fits is cut off**, unless it is a stray character. -/
theorem Fits.stands {s : Segment} {rest : List Glyph} (h : s.Fits rest)
    (hs : s.isStray = false) : s.Stands rest := by
  cases s with
  | blank g => exact stands_of_first rfl (first_of_isSpace h rest)
  | string quote body close =>
      obtain ⟨hquote, hbody, hclose⟩ := h
      refine stands_of_first (g := quote) (t := body ++ close :: rest) (by simp [glyphs]) ?_
      rw [first_of_quote hquote, ofQuote_eq_string hbody hclose]
  | openString quote body =>
      obtain ⟨hquote, hbody, rfl⟩ := h
      refine stands_of_first (g := quote) (t := body) (by simp [glyphs]) ?_
      rw [first_of_quote hquote, ofQuote_eq_openString hbody]
  | run sort gs =>
      obtain ⟨hrun, hrest⟩ := h
      cases gs with
      | nil => exact hrun.elim
      | cons g gs =>
          refine stands_of_first (g := g) (t := gs ++ rest) rfl ?_
          rw [first_of_starts hrun.1, ofRun_eq_run hrun.2 fun h hh => (hrest h hh).2]
  | brokenRun sort gs bad =>
      obtain ⟨hrun, hstop, hends⟩ := h
      cases gs with
      | nil => exact hrun.elim
      | cons g gs =>
          refine stands_of_first (g := g) (t := gs ++ bad :: rest) (by simp [glyphs]) ?_
          rw [first_of_starts hrun.1, ofRun_eq_brokenRun hrun.2 hstop hends]
  | symbol sym =>
      obtain ⟨hmem, -⟩ := longestSymbol?_some h
      have hfits : (symbol sym).Fits rest := h
      obtain ⟨g, t, hg⟩ := List.exists_cons_of_ne_nil hfits.glyphs_ne_nil
      refine stands_of_first (g := g) (t := t ++ rest) (by rw [hg]; rfl) ?_
      have hhead : sym ∈ symbolsFrom g :=
        List.mem_filter.mpr ⟨hmem, by
          rw [glyphs] at hg
          simp [hg]⟩
      rw [first_of_symbolsFrom (List.ne_nil_of_mem hhead)]
      refine Line.ofSymbol_some ?_
      rw [← List.cons_append, ← hg]
      exact h
  | orphan g next =>
      obtain ⟨rfl, hfrom, hnone⟩ := h
      refine stands_of_first (g := g) (t := rest) rfl ?_
      rw [first_of_symbolsFrom hfrom, Line.ofSymbol_none hnone hfrom]
  | stray g => cases hs

end Segment

/-! ## Exchanging what follows -/

/-- No symbol is longer than two characters, so one character behind the first
decides. -/
theorem longestSymbol?_congr {g : Glyph} {t t' : List Glyph} (h : t.head? = t'.head?) :
    longestSymbol? (g :: t) = longestSymbol? (g :: t') := by
  have hprefix : ∀ u ∈ symbols.entries,
      (glyphs u).isPrefixOf (g :: t) = (glyphs u).isPrefixOf (g :: t') := by
    intro u hu
    rcases symbol_cases hu with ⟨a, rfl, ha⟩ | ⟨a, b, rfl, ha, hb⟩
    · rw [glyphs_one ha]
      rfl
    · rw [glyphs_two ha hb]
      cases t <;> cases t' <;> simp_all [List.isPrefixOf]
  rw [longestSymbol?, longestSymbol?, List.filter_congr hprefix]

namespace Segment

variable {s : Segment} {t t' : List Glyph}

theorem Fits.congr_head (h : s.Fits t) (hne : t ≠ []) (hhead : t'.head? = t.head?) :
    s.Fits t' := by
  cases s with
  | blank g => exact h
  | string quote body close => exact h
  | openString quote body => exact absurd h.2.2 hne
  | run sort gs =>
      refine ⟨h.1, ?_⟩
      rw [hhead]
      exact h.2
  | brokenRun sort gs bad => exact h
  | symbol sym =>
      obtain ⟨hmem, -⟩ := longestSymbol?_some h
      rw [Fits] at h ⊢
      rw [← h]
      rcases symbol_cases hmem with ⟨a, rfl, ha⟩ | ⟨a, b, rfl, ha, hb⟩
      · rw [glyphs_one ha]
        exact longestSymbol?_congr hhead
      · rw [glyphs_two ha hb]
        exact longestSymbol?_congr rfl
  | orphan g next =>
      obtain ⟨hnext, hfrom, hnone⟩ := h
      exact ⟨hnext.trans hhead.symm, hfrom, (longestSymbol?_congr hhead).trans hnone⟩
  | stray g =>
      obtain ⟨hfrom, -⟩ := h
      exact ⟨hfrom, longestSymbol?_stray hfrom⟩

/-- Of what follows a segment only the first character matters. -/
theorem Stands.congr_head (h : s.Stands t) (hne : t ≠ []) (hhead : t'.head? = t.head?) :
    s.Stands t' := by
  cases hs : s.isStray with
  | false => exact (h.fits.congr_head hne hhead).stands hs
  | true =>
      -- a stray character may fit without standing there, so how it was cut off is asked
      cases s with
      | stray g => exact stands_of_first rfl (first_eq_stray (h.first_eq rfl) t')
      | _ => cases hs

end Segment

/-- What is left behind some segments has the segments left. -/
theorem segments_suffix : ∀ {pre post : List Segment} {gs : List Glyph},
    segments gs = pre ++ post → segments (post.flatMap Segment.glyphs) = post
  | [], post, gs, h => by
      rw [List.nil_append] at h
      rw [← h, flatMap_glyphs_segments]
  | s :: pre, post, [], h => by simp [segments] at h
  | s :: pre, post, g :: rest, h => by
      obtain ⟨t, ht, -⟩ := Segment.first_fits g rest
      rw [segments_cons ht] at h
      exact segments_suffix (List.cons.inj h).2

theorem segments_behind {pre post : List Segment} {s : Segment} {gs : List Glyph}
    (h : segments gs = pre ++ s :: post) : segments (post.flatMap Segment.glyphs) = post := by
  have hsuffix : segments gs = (pre ++ [s]) ++ post := by
    rw [h, List.append_assoc, List.singleton_append]
  exact segments_suffix hsuffix

/-- Every segment of a line stands in front of those behind it. -/
theorem segments_stands {pre post : List Segment} {s : Segment} {gs : List Glyph}
    (h : segments gs = pre ++ s :: post) : s.Stands (post.flatMap Segment.glyphs) := by
  have hs : segments ((s :: post).flatMap Segment.glyphs) = s :: post := segments_suffix h
  rw [Segment.Stands, ← List.flatMap_cons, hs, segments_behind h]

/-- **Exchanging the text from some place on** leaves the segments up to there as
they are, if the first character stays. -/
theorem segments_exchange {t t' : List Glyph} (hne : t ≠ []) (hhead : t'.head? = t.head?) :
    ∀ {pre : List Segment}, segments (pre.flatMap Segment.glyphs ++ t) = pre ++ segments t →
      segments (pre.flatMap Segment.glyphs ++ t') = pre ++ segments t'
  | [], _ => rfl
  | s :: pre, h => by
      have hpre : segments (pre.flatMap Segment.glyphs ++ t) = pre ++ segments t := by
        have hcut : segments ((s :: pre).flatMap Segment.glyphs ++ t) =
            [] ++ s :: (pre ++ segments t) := h
        have hbehind := segments_behind hcut
        rwa [List.flatMap_append, flatMap_glyphs_segments] at hbehind
      rw [List.flatMap_cons, List.append_assoc] at h ⊢
      have hstands : s.Stands (pre.flatMap Segment.glyphs ++ t) := by
        rw [Segment.Stands, h, hpre]
        rfl
      -- whether or not `pre` is empty, the character behind `s` stays
      have hstands' : s.Stands (pre.flatMap Segment.glyphs ++ t') := by
        refine hstands.congr_head (by simp [hne]) ?_
        rw [List.head?_append, List.head?_append, hhead]
      rw [hstands', segments_exchange hne hhead hpre]
      rfl

end LineLexer
