/-
# `Proofs.Text.Boundaries` — offsets between and inside characters

The offsets at which the characters of a text begin, and its end, are its
boundaries.  The characters up to a boundary are characters of the text
(`Bytes.charCount_take`), and a boundary of a part is one of the whole if the
parts are read alike alone and together (`Bytes.ReadApart`).

An offset inside a character is something else.  What is cut off a longer form
is read byte by byte, so the count grows by one for each byte of it
(`Bytes.charCount_append_take`).
-/
import LineLexer.Proofs.Text.Decoding

namespace LineLexer

namespace Bytes

/-! ## Boundaries -/

/-- The offsets at which the characters of a text begin, and its end. -/
def boundaries (s : Bytes) : List Nat :=
  (List.range (s.charCount + 1)).map fun n => (((glyphs s).take n).flatMap Glyph.bytes).length

theorem mem_boundaries {s : Bytes} {gs hs : List Glyph} (h : glyphs s = gs ++ hs) :
    (gs.flatMap Glyph.bytes).length ∈ s.boundaries := by
  refine List.mem_map.mpr ⟨gs.length, ?_, by rw [h, List.take_left]⟩
  rw [List.mem_range, charCount, h, List.length_append]
  omega

/-- A boundary has characters before it and behind it. -/
theorem exists_of_mem_boundaries {s : Bytes} {k : Nat} (h : k ∈ s.boundaries) :
    ∃ gs hs, glyphs s = gs ++ hs ∧ k = (gs.flatMap Glyph.bytes).length := by
  obtain ⟨n, -, hn⟩ := List.mem_map.mp h
  exact ⟨(glyphs s).take n, (glyphs s).drop n, (List.take_append_drop n _).symm, hn.symm⟩

theorem take_bytes {s : Bytes} {gs hs : List Glyph} (h : glyphs s = gs ++ hs) :
    s.take (gs.flatMap Glyph.bytes).length = gs.flatMap Glyph.bytes := by
  conv => lhs; rw [← flatMap_bytes_glyphs s, h, List.flatMap_append]
  exact List.take_left

/-- The characters in front of a boundary. -/
theorem charCount_take {s : Bytes} {gs hs : List Glyph} (h : glyphs s = gs ++ hs) :
    charCount (s.take (gs.flatMap Glyph.bytes).length) = gs.length := by
  rw [take_bytes h, charCount, glyphs_before h]

/-- The bytes before a boundary and behind it. -/
theorem eq_append_of_glyphs {s : Bytes} {gs hs : List Glyph} (h : glyphs s = gs ++ hs) :
    s = gs.flatMap Glyph.bytes ++ hs.flatMap Glyph.bytes := by
  rw [← List.flatMap_append, ← h, flatMap_bytes_glyphs]

theorem length_mem_boundaries (s : Bytes) : s.length ∈ s.boundaries := by
  have h := mem_boundaries (List.append_nil (glyphs s)).symm
  rwa [flatMap_bytes_glyphs] at h

/-- The two parts have, read by themselves, the characters that they have in the
whole. -/
def ReadApart (s t : Bytes) : Prop := glyphs (s ++ t) = glyphs s ++ glyphs t

theorem readApart_nil_left (t : Bytes) : ReadApart [] t := rfl

theorem readApart_nil_right (s : Bytes) : ReadApart s [] := by
  show glyphs (s ++ []) = glyphs s ++ []
  rw [List.append_nil, List.append_nil]

/-- A byte that cannot follow a first byte begins a part. -/
theorem readApart_cons {a : UInt8} (ha : Glyph.isTail a = false) (s t : Bytes) :
    ReadApart s (a :: t) :=
  glyphs_append_of_not_isTail ha t s

/-- A byte of ASCII ends a part. -/
theorem readApart_concat {a : UInt8} (ha : a < 0x80) (s t : Bytes) : ReadApart (s ++ [a]) t := by
  show glyphs (s ++ [a] ++ t) = glyphs (s ++ [a]) ++ glyphs t
  rw [List.append_assoc, List.singleton_append, glyphs_append_of_lt ha, glyphs_append_of_lt ha,
    List.append_assoc]
  rfl

namespace ReadApart

variable {s t : Bytes} {k : Nat}

/-- A boundary in the first part. -/
theorem mem_boundaries_left (h : ReadApart s t) (hk : k ≤ s.length) :
    k ∈ (s ++ t).boundaries ↔ k ∈ s.boundaries := by
  constructor
  · intro hmem
    obtain ⟨gs, hs, hglyphs, rfl⟩ := exists_of_mem_boundaries hmem
    rcases List.append_eq_append_iff.mp (h.symm.trans hglyphs) with ⟨w, rfl, -⟩ | ⟨w, hw, -⟩
    · -- a boundary behind the first part is none but its end
      have hend : ((glyphs s ++ w).flatMap Glyph.bytes).length = s.length := by
        rw [List.flatMap_append, List.length_append, flatMap_bytes_glyphs] at hk ⊢
        omega
      rw [hend]
      exact length_mem_boundaries s
    · exact mem_boundaries hw
  · intro hmem
    obtain ⟨gs, hs, hglyphs, rfl⟩ := exists_of_mem_boundaries hmem
    have hwhole : glyphs (s ++ t) = gs ++ (hs ++ glyphs t) := by
      rw [← List.append_assoc, ← hglyphs]
      exact h
    exact mem_boundaries hwhole

/-- A boundary in the second part. -/
theorem mem_boundaries_right (h : ReadApart s t) :
    s.length + k ∈ (s ++ t).boundaries ↔ k ∈ t.boundaries := by
  constructor
  · intro hmem
    obtain ⟨gs, hs, hglyphs, hlen⟩ := exists_of_mem_boundaries hmem
    rcases List.append_eq_append_iff.mp (h.symm.trans hglyphs) with ⟨w, rfl, hw⟩ | ⟨w, hw, -⟩
    · rw [List.flatMap_append, List.length_append, flatMap_bytes_glyphs] at hlen
      obtain rfl : k = (w.flatMap Glyph.bytes).length := Nat.add_left_cancel hlen
      exact mem_boundaries hw
    · -- a boundary in the first part is at its end, so at the beginning of the second
      have hfirst := congrArg List.length (eq_append_of_glyphs hw)
      rw [List.length_append] at hfirst
      obtain rfl : k = 0 := by omega
      exact mem_boundaries (List.nil_append (glyphs t)).symm
  · intro hmem
    obtain ⟨gs, hs, hglyphs, rfl⟩ := exists_of_mem_boundaries hmem
    have hwhole : glyphs (s ++ t) = (glyphs s ++ gs) ++ hs := by
      rw [List.append_assoc, ← hglyphs]
      exact h
    have hin := mem_boundaries hwhole
    rwa [List.flatMap_append, List.length_append, flatMap_bytes_glyphs] at hin

end ReadApart

end Bytes

/-! ## Inside a character -/

namespace Glyph

theorem not_lt_of_isTail {b : UInt8} (h : isTail b = true) : ¬ b < 0x80 := by
  intro hlt
  rw [Byte.isTail_of_lt hlt] at h
  cases h

/-- A byte that can only follow begins no longer form. -/
theorem first_of_isTail {b : UInt8} (h : isTail b = true) (rest : Bytes) :
    first b rest = broken b := by
  obtain ⟨t, ht, -, -, hlead⟩ := first_bytes b rest
  rcases first_cases b rest with ⟨hlt, -⟩ | ⟨-, hbroken⟩ | ⟨c, u, -, -, hlong⟩ |
    ⟨c, d, u, -, -, hlong⟩ | ⟨c, d, e, u, -, -, hlong⟩
  · exact absurd hlt (not_lt_of_isTail h)
  · exact hbroken
  all_goals
    rw [hlong] at ht
    obtain rfl := (List.cons.inj ht).2
    have hlone := (hlead (List.cons_ne_nil _ _)).1
    rw [h] at hlone
    cases hlone

/-- Bytes that can only follow are read one by one. -/
theorem charCount_of_isTail : ∀ {t : Bytes}, (∀ b ∈ t, isTail b = true) →
    Bytes.charCount t = t.length
  | [], _ => rfl
  | b :: t, h => by
      have hrest := charCount_of_isTail fun c hc => h c (List.mem_cons_of_mem b hc)
      have hfirst := first_of_isTail (h b List.mem_cons_self) t
      rw [Bytes.charCount, glyphs_cons, hfirst, List.length_cons, List.length_cons, ← hrest]
      rfl

theorem not_isPair_of_isTriple {a b c : UInt8} (h : isTriple a b c = true) :
    isPair a b = false := by
  simp [isTriple, isPair, isTail, UInt8.le_iff_toNat_le] at h ⊢
  omega

theorem not_isTriple_of_isQuad {a b c d : UInt8} (h : isQuad a b c d = true) :
    isPair a b = false ∧ isTriple a b c = false := by
  simp [isQuad, isTriple, isPair, isTail, UInt8.le_iff_toNat_le] at h ⊢
  omega

/-- The first byte of a longer form that is cut off is read alone. -/
theorem first_truncated {a : UInt8} {rest t : Bytes} (ht : (first a rest).bytes = a :: t)
    {n : Nat} (hn : n < t.length) : first a (t.take n) = broken a := by
  obtain ⟨u, hu, -, -, hlead⟩ := first_bytes a rest
  obtain rfl : t = u := (List.cons.inj (ht.symm.trans hu)).2
  have hne : t ≠ [] := List.ne_nil_of_length_pos (Nat.lt_of_le_of_lt (Nat.zero_le n) hn)
  have ha : ¬ a < 0x80 := UInt8.not_lt.mpr (hlead hne).2
  rcases first_cases a rest with ⟨-, h⟩ | ⟨-, h⟩ | ⟨b, v, -, hp, h⟩ | ⟨b, c, v, -, hp, h⟩ |
    ⟨b, c, d, v, -, hp, h⟩
  all_goals
    rw [h] at ht
    obtain rfl := (List.cons.inj ht).2
  · exact absurd rfl hne
  · exact absurd rfl hne
  · obtain rfl : n = 0 := Nat.lt_one_iff.mp hn
    simp [first, ha]
  · have hpair := not_isPair_of_isTriple hp
    have hlt : n < 2 := hn
    obtain rfl | rfl : n = 0 ∨ n = 1 := by omega
    · simp [first, ha]
    · simp [first, ha, hpair]
  · obtain ⟨hpair, htriple⟩ := not_isTriple_of_isQuad hp
    have hlt : n < 3 := hn
    obtain rfl | rfl | rfl : n = 0 ∨ n = 1 ∨ n = 2 := by omega
    · simp [first, ha]
    · simp [first, ha, hpair]
    · simp [first, ha, hpair, htriple]

/-- What is cut off a character is read byte by byte. -/
theorem charCount_take_bytes {s : Bytes} {g : Glyph} (hg : g ∈ glyphs s) {j : Nat}
    (hj : j < g.size) : Bytes.charCount (g.bytes.take j) = j := by
  revert hj
  refine forall_mem_glyphs (P := fun g => j < g.size → Bytes.charCount (g.bytes.take j) = j)
    ?_ s g hg
  intro a rest hj
  obtain ⟨t, ht, -, htails, -⟩ := first_bytes a rest
  rw [size, ht, List.length_cons] at hj
  rw [ht]
  cases j with
  | zero => rfl
  | succ n =>
      have hfirst := first_truncated ht (Nat.lt_of_succ_lt_succ hj)
      have hrest : Bytes.charCount (t.take n) = (t.take n).length :=
        charCount_of_isTail fun b hb => htails b (List.mem_of_mem_take hb)
      rw [List.length_take] at hrest
      rw [List.take_succ_cons, Bytes.charCount, glyphs_cons, hfirst, List.length_cons]
      show Bytes.charCount (t.take n) + 1 = n + 1
      omega

/-- A longer form has a first byte that begins a character, and no byte of ASCII. -/
theorem bytes_of_one_lt_size {s : Bytes} {g : Glyph} (hg : g ∈ glyphs s) (hsize : 1 < g.size) :
    (∃ a t, g.bytes = a :: t ∧ isTail a = false) ∧ ∀ b ∈ g.bytes, ¬ b < 0x80 := by
  revert hsize
  refine forall_mem_glyphs (P := fun g => 1 < g.size →
    (∃ a t, g.bytes = a :: t ∧ isTail a = false) ∧ ∀ b ∈ g.bytes, ¬ b < 0x80) ?_ s g hg
  intro a rest hsize
  obtain ⟨t, ht, -, htails, hlead⟩ := first_bytes a rest
  have hne : t ≠ [] := by
    rintro rfl
    rw [size, ht] at hsize
    exact absurd hsize (Nat.lt_irrefl 1)
  refine ⟨⟨a, t, ht, (hlead hne).1⟩, ?_⟩
  intro b hb
  rw [ht] at hb
  rcases List.mem_cons.mp hb with rfl | hb
  · exact UInt8.not_lt.mpr (hlead hne).2
  · exact not_lt_of_isTail (htails b hb)

end Glyph

/-- The characters in front of an offset inside a character: those before it, and
one for each byte of what is cut off. -/
theorem Bytes.charCount_append_take {p : Bytes} {s : Bytes} {g : Glyph} (hg : g ∈ glyphs s)
    {j : Nat} (hj : j < g.size) : charCount (p ++ g.bytes.take j) = charCount p + j := by
  have hapart : ReadApart p (g.bytes.take j) := by
    cases j with
    | zero => exact readApart_nil_right p
    | succ n =>
        obtain ⟨⟨a, t, hbytes, ha⟩, -⟩ :=
          Glyph.bytes_of_one_lt_size hg (Nat.lt_of_le_of_lt (Nat.le_add_left 1 n) hj)
        rw [hbytes]
        exact readApart_cons ha p (t.take n)
  have hcount := congrArg List.length hapart
  rw [List.length_append] at hcount
  exact hcount.trans (congrArg (charCount p + ·) (Glyph.charCount_take_bytes hg hj))

end LineLexer
