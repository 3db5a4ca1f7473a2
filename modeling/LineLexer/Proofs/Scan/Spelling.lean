/-
# `Proofs.Scan.Spelling` — lexemes as bytes

The scanner sorts characters, but a text is bytes.  Everything that it takes
outside strings is ASCII, one byte to a character, so what it takes can be said
of the bytes alone:

    white space    space, tab, carriage return, vertical tab, form feed
    word           [A-Za-z_][A-Za-z0-9_]*
    number         [0-9][0-9_]*
    string body    any bytes but the quote, well-formed or not

The lemmas go between these classes and those of `Scan.Line`.  Cutting a text
in front of an ASCII byte never cuts a character
(`glyphs_append_of_not_isTail`), so lexemes can be put together and taken apart
as bytes.
-/
import LineLexer.Proofs.Scan.Recut

namespace LineLexer

/-! ## Classes of bytes -/

namespace Byte

/-- The byte that opens and closes strings. -/
abbrev quote : UInt8 := 0x22

/-- White space inside a line. -/
def isBlank (b : UInt8) : Bool := b = 0x20 || b = 0x09 || b = 0x0D || b = 0x0B || b = 0x0C

/-- The letters of ASCII, and the underscore. -/
def isLetter (b : UInt8) : Bool := 0x41 ≤ b && b ≤ 0x5A || 0x61 ≤ b && b ≤ 0x7A || b = 0x5F

def isDigit (b : UInt8) : Bool := 0x30 ≤ b && b ≤ 0x39

/-- Whether some symbol starts with the byte. -/
def startsSymbol (b : UInt8) : Bool := symbols.entries.any fun s => s.head? = some b

/-- What is so for every number below 256 is so for every byte. -/
theorem forall_of_lt {P : UInt8 → Prop} (h : ∀ n < 256, P (UInt8.ofNat n)) (b : UInt8) : P b := by
  have hb := h b.toNat b.toNat_lt
  rwa [UInt8.ofNat_toNat] at hb

/-- The classes of bytes are those of the characters that they spell alone. -/
theorem single_classes : ∀ b : UInt8,
    isSpace (Glyph.single b).char = isBlank b ∧ (Glyph.single b).char.isDigit = isDigit b ∧
      isWordStart (Glyph.single b).char = isLetter b ∧
      ((Glyph.single b).char = '_' ↔ b = 0x5F) ∧ ((Glyph.single b).char = '"' ↔ b = quote) :=
  forall_of_lt (by decide +kernel)

theorem lt_of_class : ∀ b : UInt8, isBlank b = true ∨ isLetter b = true ∨ isDigit b = true →
    b < 0x80 :=
  forall_of_lt (by decide +kernel)

theorem startsSymbol_iff {b : UInt8} : startsSymbol b = true ↔ ∃ t, b :: t ∈ symbols.entries := by
  rw [startsSymbol, List.any_eq_true]
  constructor
  · rintro ⟨s, hs, hhead⟩
    obtain ⟨t, rfl⟩ := List.head?_eq_some_iff.mp (by simpa using hhead)
    exact ⟨t, hs⟩
  · rintro ⟨t, ht⟩
    exact ⟨b :: t, ht, by simp⟩

/-- No byte of a symbol is white, a quote, a digit or a letter. -/
theorem symbol_classes {s : Bytes} (hs : s ∈ symbols.entries) {b : UInt8} (hb : b ∈ s) :
    isBlank b = false ∧ b ≠ quote ∧ isDigit b = false ∧ isLetter b = false := by
  simpa [single_classes] using symbols_plain s hs b hb

end Byte

/-! ## Texts of ASCII bytes -/

theorem glyphs_of_ascii : ∀ {s : Bytes}, (∀ b ∈ s, b < 0x80) → glyphs s = s.map .single
  | [], _ => rfl
  | a :: s, h => by
      rw [glyphs_cons_of_lt (h a List.mem_cons_self),
        glyphs_of_ascii fun b hb => h b (List.mem_cons_of_mem a hb)]
      rfl

/-- A text can be cut behind ASCII bytes. -/
theorem glyphs_append_of_ascii : ∀ {s : Bytes}, (∀ b ∈ s, b < 0x80) → ∀ t : Bytes,
    glyphs (s ++ t) = glyphs s ++ glyphs t
  | [], _, _ => rfl
  | a :: s, h, t => by
      have ha := h a List.mem_cons_self
      rw [List.cons_append, glyphs_cons_of_lt ha, glyphs_cons_of_lt ha,
        glyphs_append_of_ascii fun b hb => h b (List.mem_cons_of_mem a hb)]
      rfl

/-- The first character of a text begins with its first byte. -/
theorem head?_glyphs {s : Bytes} {g : Glyph} (h : (glyphs s).head? = some g) :
    ∃ b t, s = b :: t ∧ g = .first b t := by
  cases s with
  | nil => simp at h
  | cons b t =>
      rw [glyphs_cons] at h
      exact ⟨b, t, rfl, (Option.some.inj h).symm⟩

/-- A text whose characters are ASCII has a byte to a character. -/
theorem glyphs_eq_map_single : ∀ {s : Bytes}, (∀ g ∈ glyphs s, g.char.toNat < 0x80) →
    glyphs s = s.map .single
  | [], _ => rfl
  | a :: s, h => by
      have hfirst : (Glyph.first a s).char.toNat < 0x80 :=
        h _ (by rw [glyphs_cons]; exact List.mem_cons_self)
      obtain ⟨ha, -⟩ := Glyph.first_eq_single hfirst
      rw [glyphs_cons_of_lt ha] at h ⊢
      rw [glyphs_eq_map_single fun g hg => h g (List.mem_cons_of_mem _ hg)]
      rfl

/-! ## Runs -/

namespace RunSort

/-- The texts of runs. -/
def Spells : RunSort → Bytes → Prop
  | _, [] => False
  | word, b :: s => Byte.isLetter b = true ∧ ∀ c ∈ s, Byte.isLetter c = true ∨ Byte.isDigit c = true
  | number, b :: s => Byte.isDigit b = true ∧ ∀ c ∈ s, Byte.isDigit c = true ∨ c = 0x5F

variable {sort : RunSort} {s : Bytes}

theorem Spells.ne_nil (h : sort.Spells s) : s ≠ [] := by
  rintro rfl
  cases sort <;> exact h

theorem isRun_map_single : sort.IsRun (s.map .single) ↔ sort.Spells s := by
  cases s with
  | nil => cases sort <;> rfl
  | cons b s =>
      cases sort <;> simp [IsRun, Spells, starts, goesOn, isWordChar, isNumberChar,
        Byte.single_classes, or_comm]

theorem Spells.ascii (h : sort.Spells s) : ∀ b ∈ s, b < 0x80 := by
  intro b hb
  refine Byte.lt_of_class b ?_
  cases s with
  | nil => exact absurd hb List.not_mem_nil
  | cons a s =>
      cases sort with
      | word =>
          rcases List.mem_cons.mp hb with rfl | hb
          · exact Or.inr (Or.inl h.1)
          · exact Or.inr (h.2 b hb)
      | number =>
          rcases List.mem_cons.mp hb with rfl | hb
          · exact Or.inr (Or.inr h.1)
          · rcases h.2 b hb with hd | rfl
            · exact Or.inr (Or.inr hd)
            · exact Or.inr (Or.inl (by decide))

theorem goesOn_of_starts {c : Char} (h : sort.starts c = true) : sort.goesOn c = true := by
  cases sort with
  | word => exact Bool.or_eq_true_iff.mpr (Or.inl h)
  | number => exact Bool.or_eq_true_iff.mpr (Or.inr h)

theorem toNat_lt_of_goesOn {c : Char} (h : sort.goesOn c = true) : c.toNat < 0x80 := by
  have hword : isWordStart c = true ∨ c.isDigit = true := by
    cases sort with
    | word => exact Bool.or_eq_true_iff.mp h
    | number =>
        rcases Bool.or_eq_true_iff.mp h with hline | hdigit
        · obtain rfl := of_decide_eq_true hline
          exact Or.inl (by decide)
        · exact Or.inr hdigit
  rcases hword with hstart | hdigit
  · have hcode := toNat_of_isWordStart hstart
    omega
  · have hcode := toNat_of_isDigit hdigit
    omega

theorem isRun_glyphs_iff : sort.IsRun (glyphs s) ↔ sort.Spells s := by
  constructor
  · intro h
    have hascii : ∀ g ∈ glyphs s, g.char.toNat < 0x80 := by
      intro g hg
      suffices hgoes : sort.goesOn g.char = true from toNat_lt_of_goesOn hgoes
      cases hgs : glyphs s with
      | nil =>
          rw [hgs] at hg
          exact absurd hg List.not_mem_nil
      | cons g' gs =>
          rw [hgs] at h hg
          rcases List.mem_cons.mp hg with rfl | hg
          · exact goesOn_of_starts h.1
          · exact h.2 g hg
    rwa [glyphs_eq_map_single hascii, isRun_map_single] at h
  · intro h
    rwa [glyphs_of_ascii h.ascii, isRun_map_single]

end RunSort

/-! ## Strings, blanks and ends of runs -/

theorem toNat_lt_of_isSpace {c : Char} (h : isSpace c = true) : c.toNat < 0x80 := by
  simp only [isSpace, Bool.or_eq_true, decide_eq_true_eq] at h
  rcases h with (((rfl | rfl) | rfl) | rfl) | rfl <;> decide

/-- A white character is one byte. -/
theorem exists_blank {g : Glyph} (hg : g.Canonical) (h : isSpace g.char = true) :
    ∃ b, Byte.isBlank b = true ∧ g = .single b := by
  obtain ⟨b, -, rfl⟩ := hg (toNat_lt_of_isSpace h)
  exact ⟨b, by rwa [← (Byte.single_classes b).1], rfl⟩

/-- A quote is one byte. -/
theorem eq_single_quote {g : Glyph} (hg : g.Canonical) (h : g.char = '"') :
    g = .single Byte.quote := by
  obtain ⟨b, -, rfl⟩ := hg (by rw [h]; decide)
  rw [(Byte.single_classes b).2.2.2.2.mp h]

/-- A text has no quotes as characters if it has none as bytes. -/
theorem quote_notMem_iff {s : Bytes} :
    (∀ g ∈ glyphs s, g.char ≠ '"') ↔ Byte.quote ∉ s := by
  constructor
  · intro h hmem
    obtain ⟨p, t, rfl⟩ := List.append_of_mem hmem
    rw [glyphs_append_of_lt (by decide)] at h
    exact h (.single Byte.quote) (by simp) (by decide)
  · intro h g hg hchar
    have hquote := eq_single_quote (canonical_of_mem_glyphs hg) hchar
    refine h ?_
    rw [← flatMap_bytes_glyphs s]
    exact List.mem_flatMap.mpr ⟨g, hg, by rw [hquote]; exact List.mem_singleton_self _⟩

/-- The character in front of a text ends runs if its first byte is white or
starts a symbol. -/
theorem endsRun_first_iff {b : UInt8} {t : Bytes} :
    endsRun (Glyph.first b t) = true ↔ Byte.isBlank b = true ∨ Byte.startsSymbol b = true := by
  rw [endsRun, Bool.or_eq_true]
  constructor
  · rintro (h | h)
    · obtain ⟨-, hfirst⟩ := Glyph.first_eq_single (toNat_lt_of_isSpace h)
      rw [hfirst, (Byte.single_classes b).1] at h
      exact Or.inl h
    · obtain ⟨s, hs⟩ := List.exists_mem_of_ne_nil (symbolsFrom (.first b t)) (by simpa using h)
      obtain ⟨hmem, a, u, rfl, ha, heq⟩ := mem_symbolsFrom.mp hs
      obtain ⟨w, hw, -⟩ := Glyph.first_bytes b t
      obtain ⟨rfl, -⟩ : b = a ∧ w = [] := by
        rw [heq] at hw
        simpa [eq_comm] using hw
      exact Or.inr (Byte.startsSymbol_iff.mpr ⟨u, hmem⟩)
  · rintro (h | h)
    · rw [Glyph.first_of_lt (Byte.lt_of_class b (Or.inl h)), (Byte.single_classes b).1]
      exact Or.inl h
    · obtain ⟨u, hu⟩ := Byte.startsSymbol_iff.mp h
      have hb : b < 0x80 := (symbols_shape _ hu).2.2 b List.mem_cons_self
      refine Or.inr ?_
      rw [Glyph.first_of_lt hb]
      have hmem : b :: u ∈ symbolsFrom (.single b) := mem_symbolsFrom.mpr ⟨hu, b, u, rfl, hb, rfl⟩
      simpa using List.ne_nil_of_mem hmem

end LineLexer
