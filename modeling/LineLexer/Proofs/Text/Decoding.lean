/-
# `Proofs.Text.Decoding` — how the characters of a text hang together

`glyphs` reads a text from the left.  Three facts carry everything that is
said about places in a text later on:

  * nothing is lost: the bytes of the characters, put together, are the text
    (`flatMap_bytes_glyphs`);
  * a piece of a text that begins and ends between characters has, read by
    itself, the characters it has inside the text (`glyphs_between`).  This is
    not so for pieces that cut a character;
  * the last character found from the right end alone is the last character
    read from the left (`lastLength_eq_size`).

The last one is self-synchronisation.  A byte that cannot follow a first
byte is always read as the beginning of a character, whatever stands before
it and however damaged that is (`glyphs_append_of_not_isTail`), so looking
back for such a byte finds a place where reading from the left stops too.
-/
import LineLexer.Text.Glyph

namespace LineLexer

namespace Glyph

/-! ## The first character -/

/-- All that can stand at the head of a text: a byte for itself, a byte that
belongs to nothing, or one of the three longer forms. -/
theorem first_cases (a : UInt8) (rest : Bytes) :
    (a < 0x80 ∧ first a rest = single a) ∨
    (0x80 ≤ a ∧ first a rest = broken a) ∨
    (∃ b t, rest = b :: t ∧ isPair a b = true ∧ first a rest = pair a b) ∨
    (∃ b c t, rest = b :: c :: t ∧ isTriple a b c = true ∧ first a rest = triple a b c) ∨
    (∃ b c d t, rest = b :: c :: d :: t ∧ isQuad a b c d = true ∧
      first a rest = quad a b c d) := by
  by_cases ha : a < 0x80
  · exact Or.inl ⟨ha, by simp [first, ha]⟩
  have ha' : 0x80 ≤ a := UInt8.not_lt.mp ha
  refine Or.inr ?_
  match rest with
  | [] => exact Or.inl ⟨ha', by simp [first, ha]⟩
  | b :: rest =>
      by_cases h2 : isPair a b
      · exact Or.inr (Or.inl ⟨b, rest, rfl, h2, by simp [first, ha, h2]⟩)
      match rest with
      | [] => exact Or.inl ⟨ha', by simp [first, ha, h2]⟩
      | c :: rest =>
          by_cases h3 : isTriple a b c
          · exact Or.inr (Or.inr (Or.inl ⟨b, c, rest, rfl, h3, by simp [first, ha, h2, h3]⟩))
          match rest with
          | [] => exact Or.inl ⟨ha', by simp [first, ha, h2, h3]⟩
          | d :: rest =>
              by_cases h4 : isQuad a b c d
              · exact Or.inr (Or.inr (Or.inr
                  ⟨b, c, d, rest, rfl, h4, by simp [first, ha, h2, h3, h4]⟩))
              · exact Or.inl ⟨ha', by simp [first, ha, h2, h3, h4]⟩

theorem first_of_lt {a : UInt8} (ha : a < 0x80) (rest : Bytes) : first a rest = single a := by
  simp [first, ha]

/-- The first character spells the beginning of the text. -/
theorem first_bytes_append (a : UInt8) (rest : Bytes) :
    ∃ t, a :: rest = (first a rest).bytes ++ t := by
  rcases first_cases a rest with ⟨_, h⟩ | ⟨_, h⟩ | ⟨b, t, rfl, _, h⟩ | ⟨b, c, t, rfl, _, h⟩ |
    ⟨b, c, d, t, rfl, _, h⟩ <;> rw [h]
  · exact ⟨rest, rfl⟩
  · exact ⟨rest, rfl⟩
  · exact ⟨t, rfl⟩
  · exact ⟨t, rfl⟩
  · exact ⟨t, rfl⟩

/-- A character is its first byte, followed by bytes that can only follow. -/
theorem first_bytes (a : UInt8) (rest : Bytes) :
    ∃ t, (first a rest).bytes = a :: t ∧ t.length ≤ 3 ∧ (∀ b ∈ t, isTail b = true) ∧
      (t ≠ [] → isTail a = false ∧ 0x80 ≤ a) := by
  rcases first_cases a rest with ⟨_, h⟩ | ⟨_, h⟩ | ⟨b, t, rfl, hp, h⟩ | ⟨b, c, t, rfl, hp, h⟩ |
    ⟨b, c, d, t, rfl, hp, h⟩ <;> rw [h]
  · exact ⟨[], rfl, by simp⟩
  · exact ⟨[], rfl, by simp⟩
  · simp [isPair, isTail, UInt8.le_iff_toNat_le] at hp
    exact ⟨[b], rfl, by simp [isTail, UInt8.le_iff_toNat_le]; omega⟩
  · simp [isTriple, isTail, UInt8.le_iff_toNat_le] at hp
    exact ⟨[b, c], rfl, by simp [isTail, UInt8.le_iff_toNat_le]; omega⟩
  · simp [isQuad, isTail, UInt8.le_iff_toNat_le] at hp
    exact ⟨[b, c, d], rfl, by simp [isTail, UInt8.le_iff_toNat_le]; omega⟩

theorem first_size_pos (a : UInt8) (rest : Bytes) : 0 < (first a rest).size := by
  obtain ⟨t, ht, -⟩ := first_bytes a rest
  simp [size, ht]

/-- What follows a character has no say in it: as long as the character is
there as a whole, the text may be cut off behind it. -/
theorem first_append {a : UInt8} {u v : Bytes} (h : (first a (u ++ v)).size ≤ u.length + 1) :
    first a u = first a (u ++ v) := by
  by_cases ha : a < 0x80
  · rw [first_of_lt ha, first_of_lt ha]
  match u, v with
  | [], [] => rfl
  | [], b :: v =>
      -- a whole character of one byte that is not ASCII can only be a broken one
      rcases first_cases a (b :: v) with ⟨h1, _⟩ | ⟨_, h1⟩ | ⟨b, t, _, _, h1⟩ |
        ⟨b, c, t, _, _, h1⟩ | ⟨b, c, d, t, _, _, h1⟩
      · exact absurd h1 ha
      · rw [List.nil_append, h1]; simp [first, ha]
      all_goals rw [List.nil_append, h1] at h; simp [size, pair, triple, quad] at h
  | [b], v =>
      rcases first_cases a (b :: v) with ⟨h1, _⟩ | ⟨_, h1⟩ | ⟨b', t, he, hp, h1⟩ |
        ⟨b, c, t, _, _, h1⟩ | ⟨b, c, d, t, _, _, h1⟩
      · exact absurd h1 ha
      · have h2 : isPair a b = false := by
          cases hp : isPair a b with
          | false => rfl
          | true => simp [first, ha, hp, pair, broken] at h1
        rw [List.singleton_append, h1]; simp [first, ha, h2]
      · cases he; rw [List.singleton_append, h1]; simp [first, ha, hp]
      all_goals rw [List.singleton_append, h1] at h; simp [size, triple, quad] at h
  | [b, c], v =>
      by_cases h2 : isPair a b
      · simp [first, ha, h2]
      by_cases h3 : isTriple a b c
      · simp [first, ha, h2, h3]
      cases v with
      | nil => simp
      | cons d v =>
          by_cases h4 : isQuad a b c d
          · simp [first, ha, h2, h3, h4, size, quad] at h
          · simp [first, ha, h2, h3, h4]
  | b :: c :: d :: u, v => simp [first]

/-! ## ASCII -/

/-- The code of a character made from a code that there is. -/
theorem toNat_charOfNat {n : Nat} (h : n.isValidChar) : (Char.ofNat n).toNat = n := by
  rw [Char.ofNat, dif_pos h]
  rfl

theorem single_char_toNat {a : UInt8} (ha : a < 0x80) : (single a).char.toNat = a.toNat := by
  have h : a.toNat < 128 := by simpa [UInt8.lt_iff_toNat_lt] using ha
  exact toNat_charOfNat (Or.inl (by omega))

theorem isValidChar_iff {n : Nat} :
    n.isValidChar ↔ n < 0xD800 ∨ (0xDFFF < n ∧ n < 0x110000) := Iff.rfl

/-- No longer form spells an ASCII character, and neither does a broken byte. -/
theorem le_first_char_toNat {a : UInt8} (ha : 0x80 ≤ a) (rest : Bytes) :
    0x80 ≤ (first a rest).char.toNat := by
  -- the longer forms are numbers from `0x80` on that characters have
  have key : ∀ n, 0x80 ≤ n → n.isValidChar → 0x80 ≤ (Char.ofNat n).toNat := by
    intro n hn hv
    rw [toNat_charOfNat hv]
    exact hn
  rcases first_cases a rest with ⟨h, _⟩ | ⟨_, h⟩ | ⟨b, t, rfl, hp, h⟩ | ⟨b, c, t, rfl, hp, h⟩ |
    ⟨b, c, d, t, rfl, hp, h⟩
  · exact absurd h (UInt8.not_lt.mpr ha)
  · rw [h]
    exact key 0xFFFD (by decide) (by decide)
  · simp [isPair, isTail, UInt8.le_iff_toNat_le] at hp
    simp only [h, pair]
    refine key _ (by omega) (isValidChar_iff.mpr ?_)
    unfold payload
    omega
  · simp [isTriple, isTail, UInt8.le_iff_toNat_le, ← UInt8.toNat_inj] at hp
    simp only [h, triple]
    refine key _ (by unfold payload; omega) (isValidChar_iff.mpr ?_)
    unfold payload
    omega
  · simp [isQuad, isTail, UInt8.le_iff_toNat_le, ← UInt8.toNat_inj] at hp
    simp only [h, quad]
    refine key _ (by unfold payload; omega) (isValidChar_iff.mpr ?_)
    unfold payload
    omega

/-- An ASCII character is spelled by the byte of its code, and by nothing else. -/
theorem first_eq_single {a : UInt8} {rest : Bytes} (h : (first a rest).char.toNat < 0x80) :
    a < 0x80 ∧ first a rest = single a := by
  have ha : a < 0x80 := by
    rcases UInt8.lt_or_le a 0x80 with ha | ha
    · exact ha
    · exact absurd (le_first_char_toNat ha rest) (by omega)
  exact ⟨ha, first_of_lt ha rest⟩

end Glyph

/-! ## All characters -/

theorem glyphsAfter_eq_drop : ∀ (n : Nat) (s : Bytes), glyphsAfter n s = glyphs (s.drop n)
  | 0, _ => rfl
  | _ + 1, [] => rfl
  | n + 1, _ :: s => by
      rw [glyphsAfter, List.drop_succ_cons]
      exact glyphsAfter_eq_drop n s

@[simp] theorem glyphs_nil : glyphs [] = [] := rfl

/-- The first character, and then the characters of what it leaves. -/
theorem glyphs_cons (a : UInt8) (s : Bytes) :
    glyphs (a :: s) = Glyph.first a s :: glyphs ((a :: s).drop (Glyph.first a s).size) := by
  obtain ⟨n, hn⟩ : ∃ n, (Glyph.first a s).size = n + 1 :=
    Nat.exists_eq_add_one.mpr (Glyph.first_size_pos a s)
  rw [hn, List.drop_succ_cons, ← glyphsAfter_eq_drop]
  rw [glyphs, glyphsAfter, hn]
  rfl

/-- Reading a text comes down to its first character and the text behind it. -/
theorem glyphs_cons_append (a : UInt8) (s : Bytes) :
    ∃ t, a :: s = (Glyph.first a s).bytes ++ t ∧
      glyphs (a :: s) = Glyph.first a s :: glyphs t := by
  obtain ⟨t, ht⟩ := Glyph.first_bytes_append a s
  refine ⟨t, ht, ?_⟩
  rw [glyphs_cons]
  conv in (a :: s).drop _ => rw [ht]
  simp [Glyph.size]

theorem length_lt_of_first {a : UInt8} {s t : Bytes}
    (h : a :: s = (Glyph.first a s).bytes ++ t) : t.length < (a :: s).length := by
  have hpos := Glyph.first_size_pos a s
  have hlen := congrArg List.length h
  simp only [List.length_append, Glyph.size] at hlen hpos
  omega

/-- The bytes of the characters of a text, put together, are the text. -/
theorem flatMap_bytes_glyphs (s : Bytes) : (glyphs s).flatMap Glyph.bytes = s := by
  match s with
  | [] => rfl
  | a :: s =>
      obtain ⟨t, ht, hg⟩ := glyphs_cons_append a s
      have : t.length < s.length + 1 := length_lt_of_first ht
      rw [hg, List.flatMap_cons, flatMap_bytes_glyphs t, ← ht]
termination_by s.length

/-- What holds of the first character of every text holds of all characters. -/
theorem forall_mem_glyphs {P : Glyph → Prop} (h : ∀ a rest, P (Glyph.first a rest)) (s : Bytes) :
    ∀ g ∈ glyphs s, P g := by
  match s with
  | [] => exact fun _ hg => absurd hg List.not_mem_nil
  | a :: s =>
      obtain ⟨t, ht, hg⟩ := glyphs_cons_append a s
      have : t.length < s.length + 1 := length_lt_of_first ht
      intro g hmem
      rw [hg] at hmem
      rcases List.mem_cons.mp hmem with rfl | hmem
      · exact h a s
      · exact forall_mem_glyphs h t g hmem
termination_by s.length

theorem size_pos_of_mem_glyphs {s : Bytes} {g : Glyph} (h : g ∈ glyphs s) : 0 < g.size :=
  forall_mem_glyphs (P := fun g => 0 < g.size) Glyph.first_size_pos s g h

theorem size_le_of_mem_glyphs {s : Bytes} {g : Glyph} (h : g ∈ glyphs s) : g.size ≤ 4 := by
  refine forall_mem_glyphs (P := fun g => g.size ≤ 4) ?_ s g h
  intro a rest
  obtain ⟨t, ht, hlen, -⟩ := Glyph.first_bytes a rest
  rw [Glyph.size, ht, List.length_cons]
  exact Nat.succ_le_succ hlen

theorem length_le_flatMap_bytes : ∀ {gs : List Glyph}, (∀ g ∈ gs, 0 < g.size) →
    gs.length ≤ (gs.flatMap Glyph.bytes).length
  | [], _ => Nat.le_refl _
  | g :: gs, h => by
      have hg := h g List.mem_cons_self
      have hgs := length_le_flatMap_bytes fun g' hg' => h g' (List.mem_cons_of_mem g hg')
      rw [Glyph.size] at hg
      rw [List.flatMap_cons, List.length_append, List.length_cons]
      omega

/-- A text has at least as many bytes as characters. -/
theorem Bytes.charCount_le_length (s : Bytes) : s.charCount ≤ s.length := by
  have h := length_le_flatMap_bytes fun g hg => size_pos_of_mem_glyphs (s := s) hg
  rwa [flatMap_bytes_glyphs] at h

/-! ## Pieces of a text -/

/-- A place in the concatenation of pieces lies in one of the pieces. -/
theorem exists_piece_of_lt_length_flatMap {α β : Type} {f : α → List β} :
    ∀ {l : List α} {i : Nat}, i < (l.flatMap f).length →
      ∃ pre a post, l = pre ++ a :: post ∧ (pre.flatMap f).length ≤ i ∧
        i < (pre.flatMap f).length + (f a).length
  | [], _, h => absurd h (Nat.not_lt_zero _)
  | a :: l, i, h => by
      rw [List.flatMap_cons, List.length_append] at h
      by_cases hi : i < (f a).length
      · exact ⟨[], a, l, rfl, Nat.zero_le _, by simpa using hi⟩
      · obtain ⟨pre, b, post, rfl, hle, hlt⟩ :=
          exists_piece_of_lt_length_flatMap (f := f) (l := l) (i := i - (f a).length) (by omega)
        refine ⟨a :: pre, b, post, rfl, ?_, ?_⟩
        · rw [List.flatMap_cons, List.length_append]
          omega
        · rw [List.flatMap_cons, List.length_append]
          omega

/-- Cutting a text between two characters leaves those behind the cut. -/
theorem glyphs_behind : ∀ {gs hs : List Glyph} {s : Bytes}, glyphs s = gs ++ hs →
    glyphs (hs.flatMap Glyph.bytes) = hs
  | [], hs, s, h => by
      rw [List.nil_append] at h
      rw [← h, flatMap_bytes_glyphs]
  | g :: gs, hs, [], h => by simp at h
  | g :: gs, hs, a :: s, h => by
      obtain ⟨t, -, hg⟩ := glyphs_cons_append a s
      rw [hg, List.cons_append] at h
      exact glyphs_behind (List.cons.inj h).2

/-- Cutting a text between two characters leaves those before the cut. -/
theorem glyphs_before : ∀ {gs hs : List Glyph} {s : Bytes}, glyphs s = gs ++ hs →
    glyphs (gs.flatMap Glyph.bytes) = gs
  | [], _, _, _ => rfl
  | g :: gs, hs, [], h => by simp at h
  | g :: gs, hs, a :: s, h => by
      obtain ⟨t, ht, hg⟩ := glyphs_cons_append a s
      rw [hg, List.cons_append] at h
      obtain ⟨hfirst, hrest⟩ := List.cons.inj h
      obtain ⟨u, hu, -⟩ := Glyph.first_bytes a s
      have htail : t = gs.flatMap Glyph.bytes ++ hs.flatMap Glyph.bytes := by
        rw [← flatMap_bytes_glyphs t, hrest, List.flatMap_append]
      have hs' : s = (u ++ gs.flatMap Glyph.bytes) ++ hs.flatMap Glyph.bytes := by
        rw [hu, htail] at ht
        simpa using ht
      -- the text behind the cut does not change the first character
      have hcut : Glyph.first a (u ++ gs.flatMap Glyph.bytes) = g := by
        rw [← hfirst]
        conv => rhs; rw [hs']
        refine Glyph.first_append ?_
        rw [← hs', Glyph.size, hu]
        simp
      have hbytes : g.bytes = a :: u := by rw [← hfirst, hu]
      rw [List.flatMap_cons, hbytes, List.cons_append, glyphs_cons, hcut, Glyph.size, hbytes]
      simp [glyphs_before hrest]

/-- A piece between two cuts has the characters that it has in the text. -/
theorem glyphs_between {s : Bytes} {gs ms hs : List Glyph} (h : glyphs s = gs ++ ms ++ hs) :
    glyphs (ms.flatMap Glyph.bytes) = ms :=
  glyphs_behind (glyphs_before h)

/-- A byte that cannot follow a first byte begins a character, whatever stands
before it. -/
theorem glyphs_append_of_not_isTail {a : UInt8} (ha : Glyph.isTail a = false) (t : Bytes)
    (p : Bytes) : glyphs (p ++ a :: t) = glyphs p ++ glyphs (a :: t) := by
  match p with
  | [] => rfl
  | b :: p =>
      obtain ⟨w, hw, hg⟩ := glyphs_cons_append b (p ++ a :: t)
      obtain ⟨u, hu, -, htails, -⟩ := Glyph.first_bytes b (p ++ a :: t)
      have hsplit : p ++ a :: t = u ++ w := by
        rw [hu] at hw
        simpa using hw
      -- the first character ends before `a`
      obtain ⟨x, hp, hwx⟩ : ∃ x, p = u ++ x ∧ w = x ++ a :: t := by
        rcases List.append_eq_append_iff.mp hsplit with ⟨x, hx, hx'⟩ | ⟨x, hx, hx'⟩
        · cases x with
          | nil => exact ⟨[], by simpa using hx.symm, by simpa using hx'.symm⟩
          | cons c x =>
              have hc : a = c := (List.cons.inj hx').1
              have hmem : a ∈ u := by rw [hx, hc]; simp
              rw [htails a hmem] at ha
              exact absurd ha (by decide)
        · exact ⟨x, hx, hx'⟩
      have hlen : x.length < p.length + 1 := by
        rw [hp, List.length_append]
        omega
      have hcut : Glyph.first b p = Glyph.first b (p ++ a :: t) := by
        refine Glyph.first_append ?_
        rw [Glyph.size, hu, hp]
        simp
      have hhead : glyphs (b :: p) = Glyph.first b (p ++ a :: t) :: glyphs x := by
        rw [glyphs_cons, hcut, Glyph.size, hu, hp]
        simp
      rw [List.cons_append, hg, hwx, glyphs_append_of_not_isTail ha t x, hhead, List.cons_append]
termination_by p.length

theorem Byte.isTail_of_lt {b : UInt8} (h : b < 0x80) : Glyph.isTail b = false := by
  simp [Glyph.isTail, UInt8.le_iff_toNat_le, UInt8.lt_iff_toNat_lt] at h ⊢
  omega

theorem glyphs_cons_of_lt {a : UInt8} (ha : a < 0x80) (s : Bytes) :
    glyphs (a :: s) = .single a :: glyphs s := by
  rw [glyphs_cons, Glyph.first_of_lt ha]
  rfl

theorem glyphs_append_of_lt {a : UInt8} (ha : a < 0x80) (s t : Bytes) :
    glyphs (s ++ a :: t) = glyphs s ++ .single a :: glyphs t := by
  rw [glyphs_append_of_not_isTail (Byte.isTail_of_lt ha), glyphs_cons_of_lt ha]

/-! ## The last character -/

theorem glyphs_eq_singleton {a : UInt8} {t : Bytes}
    (h : (Glyph.first a t).size = t.length + 1) : glyphs (a :: t) = [Glyph.first a t] := by
  rw [glyphs_cons, h]
  simp

namespace Bytes

/-- A last byte outside ASCII, up to two bytes before it that can only follow,
and a byte before those that cannot: the latter decides. -/
theorem lastLength_of_lead {p t : Bytes} {a z : UInt8} (hz : ¬ z < 0x80)
    (ha : Glyph.isTail a = false) (ht : ∀ b ∈ t, Glyph.isTail b = true) (hlen : t.length ≤ 2) :
    (p ++ a :: (t ++ [z])).lastLength =
      if (Glyph.first a (t ++ [z])).size = t.length + 2 then t.length + 2 else 1 := by
  have hrev : (p ++ a :: (t ++ [z])).reverse = z :: (t.reverse ++ a :: p.reverse) := by simp
  obtain ⟨k, hk⟩ : ∃ k, 3 = t.reverse.length + (k + 1) :=
    ⟨2 - t.length, by rw [List.length_reverse]; omega⟩
  have htake : (t.reverse ++ a :: p.reverse).take 3 = t.reverse ++ a :: p.reverse.take k := by
    rw [hk, List.take_length_add_append]
    rfl
  have hgap : ((t.reverse ++ a :: p.reverse.take k).takeWhile Glyph.isTail) = t.reverse := by
    rw [List.takeWhile_append_of_pos (fun b hb => ht b (List.mem_reverse.mp hb))]
    simp [ha]
  rw [lastLength, hrev]
  simp [hz, htake, hgap]

/-- Looking back from a last byte outside ASCII either finds such a byte, or
the last byte stands alone. -/
theorem lastLength_eq_one_or (p : Bytes) {z : UInt8} (hz : ¬ z < 0x80) :
    (p ++ [z]).lastLength = 1 ∨
      ∃ q a t, p = q ++ a :: t ∧ Glyph.isTail a = false ∧ (∀ b ∈ t, Glyph.isTail b = true) ∧
        t.length ≤ 2 := by
  let ws := (p.reverse.take 3).takeWhile Glyph.isTail
  have hsplit : p.reverse.take 3 = ws ++ (p.reverse.take 3).dropWhile Glyph.isTail :=
    List.takeWhile_append_dropWhile.symm
  cases hd : (p.reverse.take 3).dropWhile Glyph.isTail with
  | nil =>
      left
      have hall : (p.reverse.take 3).takeWhile Glyph.isTail = p.reverse.take 3 := by
        rw [hd, List.append_nil] at hsplit
        exact hsplit.symm
      have hnone : (p.reverse.take 3).drop (p.reverse.take 3).length = [] := List.drop_length
      simp only [lastLength, List.reverse_append, List.reverse_singleton, List.singleton_append,
        if_neg hz, hall, hnone]
  | cons a x =>
      right
      rw [hd] at hsplit
      refine ⟨(x ++ p.reverse.drop 3).reverse, a, ws.reverse, ?_, ?_, ?_, ?_⟩
      · have hp : p.reverse = ws ++ a :: x ++ p.reverse.drop 3 := by
          rw [← hsplit, List.take_append_drop]
        have hp' := congrArg List.reverse hp
        rw [List.reverse_reverse] at hp'
        conv => lhs; rw [hp']
        simp
      · have hne : (p.reverse.take 3).dropWhile Glyph.isTail ≠ [] := by simp [hd]
        have hhead := List.head_dropWhile_not Glyph.isTail hne
        simpa [hd] using hhead
      · intro b hb
        exact List.all_eq_true.mp List.all_takeWhile b (List.mem_reverse.mp hb)
      · have hl := congrArg List.length hsplit
        simp only [List.length_take, List.length_append, List.length_cons] at hl
        rw [List.length_reverse]
        omega

/-- The last character found from the right end is the last one read from the
left. -/
theorem lastLength_eq_size {s : Bytes} {gs : List Glyph} {g : Glyph}
    (h : glyphs s = gs ++ [g]) : s.lastLength = g.size := by
  have hs : s = gs.flatMap Glyph.bytes ++ g.bytes := by
    rw [← flatMap_bytes_glyphs s, h]
    simp
  have hone : glyphs g.bytes = [g] := by simpa using glyphs_behind h
  obtain ⟨a, t, hb⟩ : ∃ a t, g.bytes = a :: t := by
    cases hb : g.bytes with
    | nil => rw [hb] at hone; simp at hone
    | cons a t => exact ⟨a, t, rfl⟩
  have hg : g = Glyph.first a t := by
    rw [hb, glyphs_cons] at hone
    exact (List.cons.inj hone).1.symm
  obtain ⟨u, hu, hlen, htails, hlead⟩ := Glyph.first_bytes a t
  obtain rfl : t = u := by
    rw [← hg, hb] at hu
    exact (List.cons.inj hu).2
  rcases List.eq_nil_or_concat t with rfl | ⟨t', z, rfl⟩
  · -- one byte: had the search gone further back, the last character would be longer
    rw [Glyph.size, hb, hs, hb]
    by_cases hz : a < 0x80
    · simp [lastLength, hz]
    rcases lastLength_eq_one_or (gs.flatMap Glyph.bytes) hz with h1 | ⟨q, b, t, hp, hb', ht, hl⟩
    · exact h1
    have hjoin : gs.flatMap Glyph.bytes ++ [a] = q ++ b :: (t ++ [a]) := by rw [hp]; simp
    rw [hjoin, lastLength_of_lead hz hb' ht hl]
    rw [if_neg]
    · rfl
    intro hsize
    have hlast : glyphs s = glyphs q ++ [Glyph.first b (t ++ [a])] := by
      rw [hs, hb, hjoin, glyphs_append_of_not_isTail hb', glyphs_eq_singleton (by simpa using hsize)]
    rw [h] at hlast
    have hsame : g = Glyph.first b (t ++ [a]) := by
      simpa using congrArg List.getLast? hlast
    rw [← hsame, Glyph.size, hb] at hsize
    simp at hsize
  · -- a longer form: its first byte is the one that the search stops at
    obtain ⟨ha, -⟩ := hlead (by simp)
    simp only [List.concat_eq_append] at *
    have hz : Glyph.isTail z = true := htails z (by simp)
    have hz' : ¬ z < 0x80 := by
      simp [Glyph.isTail, UInt8.le_iff_toNat_le, UInt8.lt_iff_toNat_lt] at hz ⊢
      omega
    rw [hs, hb, lastLength_of_lead hz' ha (fun b hb => htails b (by simp [hb]))
      (by simp at hlen; omega)]
    have hsize : g.size = t'.length + 2 := by rw [Glyph.size, hb]; simp
    rw [← hg, hsize, if_pos rfl]

end Bytes

end LineLexer
