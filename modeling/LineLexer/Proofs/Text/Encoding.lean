/-
# `Proofs.Text.Encoding` — characters and the bytes that spell them

In well-formed UTF-8 every character is spelled by its own bytes and needs nothing
behind it.  So a well-formed text has the same characters whatever follows it
(`Bytes.readApart_of_isUtf8`), and writing its characters down again gives the text
(`Glyph.ofChar_char`).  The other way round, a text that begins with the bytes of a character
is read as beginning with that character (`Glyph.first_of_ofChar`); no text begins with the
bytes of two (`Bytes.ofChar_unique`).

Bytes of ASCII spell nothing but themselves: one of them is found in the spelling of a
character only if it is that character (`Bytes.toNat_of_mem_ofChar`), and the character is
found in a text only if the byte is (`Bytes.mem_of_mem_glyphs`).
-/
import LineLexer.Proofs.Text.Boundaries

namespace LineLexer

namespace Glyph

/-! ## Unbroken characters -/

theorem isBroken_broken (a : UInt8) : (broken a).isBroken = true := rfl

/-- A character that is not broken stays the first one, whatever follows. -/
theorem first_append_of_unbroken {a : UInt8} {u : Bytes} (h : (first a u).isBroken = false)
    (v : Bytes) : first a (u ++ v) = first a u := by
  by_cases ha : a < 0x80
  · rw [first_of_lt ha, first_of_lt ha]
  have hne : first a u ≠ broken a := by
    intro hbroken
    rw [hbroken, isBroken_broken] at h
    cases h
  match u with
  | [] => exact absurd (by simp [first, ha]) hne
  | [b] =>
      by_cases h2 : isPair a b
      · simp [first, ha, h2]
      · exact absurd (by simp [first, ha, h2]) hne
  | [b, c] =>
      by_cases h2 : isPair a b
      · simp [first, ha, h2]
      by_cases h3 : isTriple a b c
      · simp [first, ha, h2, h3]
      · exact absurd (by simp [first, ha, h2, h3]) hne
  | b :: c :: d :: u => simp [first]

end Glyph

/-! ## Spelling a character -/

namespace Bytes

/-- The bytes that spell a character, from its code. -/
theorem ofChar_eq (c : Char) : ofChar c =
    if c.toNat ≤ 0x7F then [UInt8.ofNat c.toNat]
    else if c.toNat ≤ 0x7FF then
      [UInt8.ofNat (c.toNat / 64 % 32 + 0xC0), UInt8.ofNat (c.toNat % 64 + 0x80)]
    else if c.toNat ≤ 0xFFFF then
      [UInt8.ofNat (c.toNat / 4096 % 16 + 0xE0), UInt8.ofNat (c.toNat / 64 % 64 + 0x80),
        UInt8.ofNat (c.toNat % 64 + 0x80)]
    else
      [UInt8.ofNat (c.toNat / 262144 % 8 + 0xF0), UInt8.ofNat (c.toNat / 4096 % 64 + 0x80),
        UInt8.ofNat (c.toNat / 64 % 64 + 0x80), UInt8.ofNat (c.toNat % 64 + 0x80)] :=
  rfl

theorem ofChar_ne_nil (c : Char) : ofChar c ≠ [] := by
  rw [ofChar_eq]
  repeat' split
  all_goals exact List.cons_ne_nil _ _

/-- A byte of ASCII spells itself only. -/
theorem toNat_of_mem_ofChar {b : UInt8} (hb : b < 0x80) {c : Char} (h : b ∈ ofChar c) :
    c.toNat = b.toNat := by
  have hlt : b.toNat < 128 := by simpa [UInt8.lt_iff_toNat_lt] using hb
  have hlong : ∀ n, 0x80 ≤ n → n < 0x100 → b ≠ UInt8.ofNat n := by
    intro n hle hn hbn
    rw [hbn, UInt8.toNat_ofNat'] at hlt
    omega
  rw [ofChar_eq] at h
  split at h
  · rw [List.mem_singleton.mp h, UInt8.toNat_ofNat']
    omega
  split at h
  · simp only [List.mem_cons, List.not_mem_nil, or_false] at h
    rcases h with h | h
    · exact absurd h (hlong _ (by omega) (by omega))
    · exact absurd h (hlong _ (by omega) (by omega))
  split at h
  · simp only [List.mem_cons, List.not_mem_nil, or_false] at h
    rcases h with h | h | h
    · exact absurd h (hlong _ (by omega) (by omega))
    · exact absurd h (hlong _ (by omega) (by omega))
    · exact absurd h (hlong _ (by omega) (by omega))
  · simp only [List.mem_cons, List.not_mem_nil, or_false] at h
    rcases h with h | h | h | h
    · exact absurd h (hlong _ (by omega) (by omega))
    · exact absurd h (hlong _ (by omega) (by omega))
    · exact absurd h (hlong _ (by omega) (by omega))
    · exact absurd h (hlong _ (by omega) (by omega))

end Bytes

namespace Glyph

/-- A character that is read unbroken is written with the bytes it was read from. -/
theorem ofChar_first {a : UInt8} {rest : Bytes} (h : (first a rest).isBroken = false) :
    Bytes.ofChar (first a rest).char = (first a rest).bytes := by
  have hbyte : ∀ {n : Nat} {b : UInt8}, n = b.toNat → UInt8.ofNat n = b := by
    intro n b hn
    rw [hn, UInt8.ofNat_toNat]
  rcases first_cases a rest with ⟨ha, hf⟩ | ⟨-, hf⟩ | ⟨b, t, -, hp, hf⟩ | ⟨b, c, t, -, hp, hf⟩ |
    ⟨b, c, d, t, -, hp, hf⟩
  · have hcode := single_char_toNat ha
    have hlt : a.toNat < 128 := by simpa [UInt8.lt_iff_toNat_lt] using ha
    rw [hf, Bytes.ofChar_eq, hcode, if_pos (by omega), UInt8.ofNat_toNat]
    rfl
  · rw [hf, isBroken_broken] at h
    cases h
  · simp [isPair, isTail, UInt8.le_iff_toNat_le] at hp
    simp only [hf, pair]
    rw [Bytes.ofChar_eq, toNat_charOfNat (isValidChar_iff.mpr (by unfold payload; omega))]
    unfold payload
    rw [if_neg (by omega), if_pos (by omega), hbyte (b := a) (by omega), hbyte (b := b) (by omega)]
  · simp [isTriple, isTail, UInt8.le_iff_toNat_le, ← UInt8.toNat_inj] at hp
    simp only [hf, triple]
    rw [Bytes.ofChar_eq, toNat_charOfNat (isValidChar_iff.mpr (by unfold payload; omega))]
    unfold payload
    rw [if_neg (by omega), if_neg (by omega), if_pos (by omega), hbyte (b := a) (by omega),
      hbyte (b := b) (by omega), hbyte (b := c) (by omega)]
  · simp [isQuad, isTail, UInt8.le_iff_toNat_le, ← UInt8.toNat_inj] at hp
    simp only [hf, quad]
    rw [Bytes.ofChar_eq, toNat_charOfNat (isValidChar_iff.mpr (by unfold payload; omega))]
    unfold payload
    rw [if_neg (by omega), if_neg (by omega), if_neg (by omega), hbyte (b := a) (by omega),
      hbyte (b := b) (by omega), hbyte (b := c) (by omega), hbyte (b := d) (by omega)]

theorem first_of_isPair {a b : UInt8} (h : isPair a b = true) (t : Bytes) :
    first a (b :: t) = pair a b := by
  have ha : ¬ a < 0x80 := by
    simp [isPair, isTail, UInt8.le_iff_toNat_le, UInt8.lt_iff_toNat_lt] at h ⊢
    omega
  simp [first, ha, h]

theorem first_of_isTriple {a b c : UInt8} (h : isTriple a b c = true) (t : Bytes) :
    first a (b :: c :: t) = triple a b c := by
  have ha : ¬ a < 0x80 := by
    simp [isTriple, isTail, UInt8.le_iff_toNat_le, UInt8.lt_iff_toNat_lt] at h ⊢
    omega
  simp [first, ha, not_isPair_of_isTriple h, h]

theorem first_of_isQuad {a b c d : UInt8} (h : isQuad a b c d = true) (t : Bytes) :
    first a (b :: c :: d :: t) = quad a b c d := by
  have ha : ¬ a < 0x80 := by
    simp [isQuad, isTail, UInt8.le_iff_toNat_le, UInt8.lt_iff_toNat_lt] at h ⊢
    omega
  simp [first, ha, not_isTriple_of_isQuad h, h]

/-- A character is read from the bytes that spell it, whatever follows them. -/
theorem first_of_ofChar {c : Char} {a : UInt8} {rest : Bytes}
    (h : Bytes.ofChar c <+: a :: rest) : first a rest = ⟨c, Bytes.ofChar c⟩ := by
  obtain ⟨t, h⟩ := h
  have hvalid : c.toNat < 0xD800 ∨ (0xDFFF < c.toNat ∧ c.toNat < 0x110000) := c.valid
  have hbyte : ∀ n, n < 0x100 → (UInt8.ofNat n).toNat = n := by
    intro n hn
    rw [UInt8.toNat_ofNat']
    omega
  have hread : ∀ n, n = c.toNat → Char.ofNat n = c := by
    intro n hn
    rw [hn, Char.ofNat_toNat]
  -- one case for each number of bytes: they have the form, and its code is that of `c`
  rw [Bytes.ofChar_eq] at h ⊢
  split at h
  · rename_i h1
    obtain ⟨rfl, rfl⟩ := List.cons.inj h
    have hlt : UInt8.ofNat c.toNat < 0x80 := by
      rw [UInt8.lt_iff_toNat_lt, hbyte _ (by omega)]
      exact Nat.lt_succ_of_le h1
    rw [if_pos h1, first_of_lt hlt, single, hread _ (hbyte _ (by omega))]
  split at h
  · rename_i h1 h2
    simp only [List.cons_append, List.nil_append, List.cons.injEq] at h
    obtain ⟨rfl, rfl⟩ := h
    rw [if_neg h1, if_pos h2, first_of_isPair, pair, hread]
    · unfold payload
      rw [hbyte _ (by omega), hbyte _ (by omega)]
      omega
    · simp [isPair, isTail, UInt8.le_iff_toNat_le]
      omega
  split at h
  · rename_i h1 h2 h3
    simp only [List.cons_append, List.nil_append, List.cons.injEq] at h
    obtain ⟨rfl, rfl⟩ := h
    rw [if_neg h1, if_neg h2, if_pos h3, first_of_isTriple, triple, hread]
    · unfold payload
      rw [hbyte _ (by omega), hbyte _ (by omega), hbyte _ (by omega)]
      omega
    · simp [isTriple, isTail, UInt8.le_iff_toNat_le, ← UInt8.toNat_inj]
      omega
  · rename_i h1 h2 h3
    simp only [List.cons_append, List.nil_append, List.cons.injEq] at h
    obtain ⟨rfl, rfl⟩ := h
    rw [if_neg h1, if_neg h2, if_neg h3, first_of_isQuad, quad, hread]
    · unfold payload
      rw [hbyte _ (by omega), hbyte _ (by omega), hbyte _ (by omega), hbyte _ (by omega)]
      omega
    · simp [isQuad, isTail, UInt8.le_iff_toNat_le, ← UInt8.toNat_inj]
      omega

end Glyph

/-- No text begins with the bytes of two characters. -/
theorem Bytes.ofChar_unique {c d : Char} {s : Bytes} (hc : ofChar c <+: s) (hd : ofChar d <+: s) :
    c = d := by
  cases s with
  | nil => exact absurd (List.prefix_nil.mp hc) (ofChar_ne_nil c)
  | cons a rest =>
      have hread := (Glyph.first_of_ofChar hc).symm.trans (Glyph.first_of_ofChar hd)
      exact congrArg Glyph.char hread

/-- A character of ASCII in a text is read from its byte. -/
theorem Glyph.bytes_of_ascii {s : Bytes} {g : Glyph} (hg : g ∈ glyphs s) {b : UInt8}
    (hb : b < 0x80) (h : g.char.toNat = b.toNat) : g.bytes = [b] := by
  have hlt : b.toNat < 0x80 := by simpa [UInt8.lt_iff_toNat_lt] using hb
  revert h
  refine forall_mem_glyphs (P := fun g => g.char.toNat = b.toNat → g.bytes = [b]) ?_ s g hg
  intro a rest h
  obtain ⟨ha, hfirst⟩ := Glyph.first_eq_single (h ▸ hlt)
  rw [hfirst, Glyph.single_char_toNat ha] at h
  rw [hfirst, UInt8.toNat_inj.mp h]
  rfl

/-- So the byte is one of the text. -/
theorem Bytes.mem_of_mem_glyphs {s : Bytes} {g : Glyph} (hg : g ∈ glyphs s) {b : UInt8}
    (hb : b < 0x80) (h : g.char.toNat = b.toNat) : b ∈ s := by
  rw [← flatMap_bytes_glyphs s]
  refine List.mem_flatMap.mpr ⟨g, hg, ?_⟩
  rw [Glyph.bytes_of_ascii hg hb h]
  exact List.mem_cons_self

/-! ## Well-formed texts -/

namespace Bytes

theorem isUtf8_iff {s : Bytes} : s.isUtf8 = true ↔ ∀ g ∈ glyphs s, g.isBroken = false := by
  rw [isUtf8, List.all_eq_true]
  exact forall₂_congr fun g _ => by rw [Bool.not_eq_true']

/-- A text without broken characters has them, whatever follows it. -/
theorem readApart_of_unbroken (t s : Bytes) :
    (∀ g ∈ glyphs s, g.isBroken = false) → ReadApart s t := by
  match s with
  | [] =>
      intro _
      exact readApart_nil_left t
  | a :: s =>
      intro h
      obtain ⟨u, hu, hg⟩ := glyphs_cons_append a s
      have : u.length < s.length + 1 := length_lt_of_first hu
      rw [hg] at h
      have hfirst : Glyph.first a (s ++ t) = Glyph.first a s :=
        Glyph.first_append_of_unbroken (h _ List.mem_cons_self) t
      have hrest : ReadApart u t :=
        readApart_of_unbroken t u fun g hmem => h g (List.mem_cons_of_mem _ hmem)
      show glyphs (a :: (s ++ t)) = glyphs (a :: s) ++ glyphs t
      rw [glyphs_cons, hfirst, hg, List.cons_append, ← hrest, ← List.cons_append, hu,
        List.append_assoc]
      exact congrArg (fun w => Glyph.first a s :: glyphs w) List.drop_left
termination_by s.length

theorem readApart_of_isUtf8 {s : Bytes} (h : s.isUtf8 = true) (t : Bytes) : ReadApart s t :=
  readApart_of_unbroken t s (isUtf8_iff.mp h)

end Bytes

end LineLexer
