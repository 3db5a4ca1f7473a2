/-
# `Proofs.Token.Vocabulary` — the parts of a vocabulary

A vocabulary keeps its entries three times, as a list, as a set and under their
first characters, and the length of the longest one besides.  The four stay in
step however a vocabulary is put together: each of them by itself says what was
declared (`Represents.foldl_insert`).  So what is found under a character are the
entries that begin with it, in the order of declaration.

To begin with a character is to begin with the bytes that spell it
(`Bytes.BeginsWith`).  An entry that begins with the bytes of no character is
found under U+FFFD.

The last part are the facts about the table of symbols that a reader of symbols
may use: every symbol is one or two ASCII characters long.  They are checked
against the table, and no proof elsewhere looks at the table itself.
-/
import LineLexer.Proofs.Text.Encoding
import LineLexer.Token.Vocabulary

namespace LineLexer

/-! ## The first character of an entry -/

/-- The first character of a text has a code: that of the character whose bytes
the text begins with, and U+FFFD if it begins with the bytes of none. -/
def Bytes.BeginsWith (s : Bytes) (code : Int) : Prop :=
  (∃ c : Char, c.toNat = code ∧ Bytes.ofChar c <+: s) ∨
    (code = 0xFFFD ∧ ∀ c : Char, ¬ Bytes.ofChar c <+: s)

theorem Bytes.BeginsWith.unique {s : Bytes} {m n : Int} (hm : s.BeginsWith m)
    (hn : s.BeginsWith n) : m = n := by
  rcases hm with ⟨c, rfl, hc⟩ | ⟨rfl, hnone⟩
  · rcases hn with ⟨d, rfl, hd⟩ | ⟨-, hnone⟩
    · rw [Bytes.ofChar_unique hc hd]
    · exact absurd hc (hnone c)
  · rcases hn with ⟨d, -, hd⟩ | ⟨rfl, -⟩
    · exact absurd hd (hnone d)
    · rfl

namespace Vocabulary

theorem beginsWith_firstCode (s : Bytes) : s.BeginsWith (firstCode s) := by
  cases s with
  | nil =>
      refine Or.inr ⟨rfl, fun c hc => ?_⟩
      exact Bytes.ofChar_ne_nil c (List.prefix_nil.mp hc)
  | cons a rest =>
      by_cases h : ∃ c, Bytes.ofChar c <+: a :: rest
      · obtain ⟨c, hc⟩ := h
        refine Or.inl ⟨c, ?_, hc⟩
        rw [firstCode, Glyph.first_of_ofChar hc]
      -- an unbroken character would be one whose bytes stand there
      have hbroken : (Glyph.first a rest).isBroken = true := by
        rw [← Bool.not_eq_false]
        intro hunbroken
        obtain ⟨t, ht⟩ := Glyph.first_bytes_append a rest
        rw [← Glyph.ofChar_first hunbroken] at ht
        exact h ⟨_, t, ht.symm⟩
      have hchar : (Glyph.first a rest).char = replacement :=
        eq_of_beq (Bool.and_eq_true_iff.mp hbroken).1
      refine Or.inr ⟨?_, fun c hc => h ⟨c, hc⟩⟩
      rw [firstCode, hchar]
      rfl

theorem firstCode_eq_iff {s : Bytes} {code : Int} : firstCode s = code ↔ s.BeginsWith code := by
  constructor
  · rintro rfl
    exact beginsWith_firstCode s
  · exact (beginsWith_firstCode s).unique

instance (s : Bytes) (code : Int) : Decidable (s.BeginsWith code) :=
  decidable_of_iff _ firstCode_eq_iff

/-! ## List and index -/

/-- What the index has under a code are the entries that begin with it. -/
def Indexed (v : Vocabulary) : Prop :=
  ∀ code, v.startingWith code = v.entries.filter fun s => firstCode s = code

theorem lookup_addUnder (code : Int) (entry : Bytes) (c : Int) :
    ∀ idx : List (Int × List Bytes), (addUnder code entry idx).lookup c =
      if c = code then some ((idx.lookup code).getD [] ++ [entry]) else idx.lookup c
  | [] => by
      by_cases h : c = code
      · simp [addUnder, h]
      · simp [addUnder, List.lookup_cons, h, beq_false_of_ne h]
  | (d, es) :: idx => by
      by_cases hd : d = code
      · subst hd
        by_cases hc : c = d
        · simp [addUnder, hc]
        · simp [addUnder, List.lookup_cons, hc, beq_false_of_ne hc]
      · have hcode : ¬ code = d := fun h => hd h.symm
        rw [addUnder, if_neg hd]
        by_cases hc : c = d
        · subst hc
          simp [hd]
        · simp [List.lookup_cons, beq_false_of_ne hc, beq_false_of_ne hcode,
            lookup_addUnder code entry c idx]

theorem indexed_empty : Indexed empty := fun _ => rfl

theorem Indexed.insert {v : Vocabulary} (hv : Indexed v) (entry : Bytes) :
    Indexed (v.insert entry) := by
  intro code
  unfold Vocabulary.insert
  split
  · exact hv code
  · have hcode := hv code
    have hfirst := hv (firstCode entry)
    simp only [startingWith] at hcode hfirst ⊢
    rw [lookup_addUnder, List.filter_append]
    by_cases h : code = firstCode entry
    · subst h
      simp [hfirst]
    · have h' : ¬ firstCode entry = code := fun he => h he.symm
      simp [h, h', hcode]

theorem indexed_iff {v : Vocabulary} : v.Indexed ↔
    ∀ code, v.startingWith code = v.entries.filter fun s => s.BeginsWith code := by
  refine forall_congr' fun code => ?_
  have hfilter : (v.entries.filter fun s => firstCode s = code) =
      v.entries.filter fun s => s.BeginsWith code :=
    List.filter_congr fun s _ => decide_eq_decide.mpr firstCode_eq_iff
  rw [hfilter]

/-! ## The longest entry -/

/-- The greatest length of an entry; zero if there are no entries. -/
def Longest (entries : List Bytes) (n : Nat) : Prop :=
  (∀ s ∈ entries, s.length ≤ n) ∧ ((entries = [] ∧ n = 0) ∨ ∃ s ∈ entries, s.length = n)

theorem Longest.concat {entries : List Bytes} {n : Nat} (h : Longest entries n) (entry : Bytes) :
    Longest (entries ++ [entry]) (max n entry.length) := by
  obtain ⟨hle, hreached⟩ := h
  constructor
  · intro s hs
    rcases List.mem_append.mp hs with hs | hs
    · exact Nat.le_trans (hle s hs) (Nat.le_max_left ..)
    · rw [List.mem_singleton.mp hs]
      exact Nat.le_max_right ..
  · refine Or.inr ?_
    rcases Nat.lt_or_ge entry.length n with hlt | hge
    · rw [Nat.max_eq_left (Nat.le_of_lt hlt)]
      rcases hreached with ⟨-, hzero⟩ | ⟨s, hs, hlength⟩
      · omega
      · exact ⟨s, List.mem_append_left _ hs, hlength⟩
    · rw [Nat.max_eq_right hge]
      exact ⟨entry, List.mem_append_right _ List.mem_cons_self, rfl⟩

/-! ## All four parts -/

/-- Each part of the vocabulary says what was declared. -/
structure Represents (v : Vocabulary) (spellings : List Bytes) : Prop where
  /-- Every spelling stands where it was declared first, and nowhere else. -/
  entries_eq : v.entries = spellings.eraseDups
  contains_iff : ∀ s, v.contains s = true ↔ s ∈ spellings
  startingWith_eq : ∀ code, v.startingWith code = v.entries.filter fun s => s.BeginsWith code
  longest : Longest v.entries v.maxLength

theorem represents_empty : empty.Represents [] where
  entries_eq := rfl
  contains_iff s := by simp [contains, empty]
  startingWith_eq := indexed_iff.mp indexed_empty
  longest := ⟨fun s hs => absurd hs List.not_mem_nil, Or.inl ⟨rfl, rfl⟩⟩

namespace Represents

variable {v : Vocabulary} {spellings : List Bytes}

theorem contains_iff_mem_entries (h : v.Represents spellings) (s : Bytes) :
    v.contains s = true ↔ s ∈ v.entries := by
  rw [h.contains_iff, h.entries_eq, List.mem_eraseDups]

theorem startsAny_iff (h : v.Represents spellings) (code : Int) :
    v.startsAny code = true ↔ (v.entries.filter fun s => s.BeginsWith code) ≠ [] := by
  rw [startsAny, h.startingWith_eq, Bool.not_eq_true', List.isEmpty_eq_false_iff]

/-- One spelling more, declared before or not. -/
theorem insert (h : v.Represents spellings) (entry : Bytes) :
    (v.insert entry).Represents (spellings ++ [entry]) := by
  have hindex := indexed_iff.mp ((indexed_iff.mpr h.startingWith_eq).insert entry)
  by_cases hold : entry ∈ spellings
  · have hsame : v.insert entry = v := if_pos ((h.contains_iff entry).mpr hold)
    rw [hsame]
    refine ⟨?_, ?_, h.startingWith_eq, h.longest⟩
    · simp [h.entries_eq, List.eraseDups_append, List.removeAll, hold]
    · intro s
      rw [h.contains_iff, List.mem_append, List.mem_singleton]
      exact ⟨Or.inl, fun hs => hs.elim id fun heq => heq ▸ hold⟩
  · have hnew : v.insert entry = ⟨v.entries ++ [entry], entry :: v.members,
        addUnder (firstCode entry) entry v.byFirst, max v.maxLength entry.length⟩ :=
      if_neg fun hin => hold ((h.contains_iff entry).mp hin)
    rw [hnew] at hindex ⊢
    refine ⟨?_, ?_, hindex, h.longest.concat entry⟩
    · simp [h.entries_eq, List.eraseDups_append, List.eraseDups_cons, List.removeAll, hold]
    · intro s
      have hcontains := h.contains_iff s
      simp only [contains, List.contains_iff_mem] at hcontains ⊢
      rw [List.mem_cons, List.mem_append, List.mem_singleton, hcontains]
      exact or_comm

theorem foldl_insert (more : List Bytes) : ∀ {v : Vocabulary} {spellings : List Bytes},
    v.Represents spellings →
      (more.foldl Vocabulary.insert v).Represents (spellings ++ more) := by
  induction more with
  | nil =>
      intro v spellings h
      rwa [List.append_nil]
  | cons entry more ih =>
      intro v spellings h
      have hrest := ih (h.insert entry)
      rwa [List.append_assoc] at hrest

end Represents

theorem represents_foldl_insert (spellings : List Bytes) :
    (spellings.foldl Vocabulary.insert empty).Represents spellings :=
  represents_empty.foldl_insert spellings

/-- Declaring spellings one after the other ends at the first one that is empty. -/
theorem foldlM_insert? (spellings : List Bytes) : ∀ v : Vocabulary,
    spellings.foldlM insert? v =
      if [] ∈ spellings then none else some (spellings.foldl Vocabulary.insert v) := by
  induction spellings with
  | nil =>
      intro v
      rfl
  | cons entry spellings ih =>
      intro v
      rw [List.foldlM_cons, insert?]
      cases entry with
      | nil => simp
      | cons b entry => simpa using ih (v.insert (b :: entry))

/-- There is no vocabulary of spellings one of which is empty.  Of any others there is one.
Its list has each of them once, in the place where it was declared first; its set has the
same ones; under a code it finds those entries of the list whose first character has that
code, and it finds some there when there are any; the length it keeps is the greatest. -/
theorem parts_agree (spellings : List Bytes) :
    (ofList? spellings = none ↔ [] ∈ spellings) ∧
      ∀ v, ofList? spellings = some v → v.Represents spellings ∧
        ∀ code, v.startsAny code = true ↔
          (v.entries.filter fun s => s.BeginsWith code) ≠ [] := by
  rw [ofList?, foldlM_insert?]
  by_cases hempty : [] ∈ spellings
  · rw [if_pos hempty]
    exact ⟨iff_of_true rfl hempty, fun v hv => absurd hv.symm (Option.some_ne_none v)⟩
  · rw [if_neg hempty]
    refine ⟨iff_of_false (Option.some_ne_none _) hempty, ?_⟩
    rintro v ⟨⟩
    have hbuilt := represents_foldl_insert spellings
    exact ⟨hbuilt, hbuilt.startsAny_iff⟩

/-- Two entries begin with U+FFFD, one of them because its only byte is no character. -/
theorem parts_agree_damaged :
    let spellings := [utf8 "<=", [0xC3], utf8 "\u00e9", utf8 "<", utf8 "\ufffd", [0xC3], utf8 "<="]
    ∃ v, ofList? spellings = some v ∧ v.Represents spellings ∧
      v.entries = [utf8 "<=", [0xC3], utf8 "\u00e9", utf8 "<", utf8 "\ufffd"] ∧
      v.startingWith 0xFFFD = [[0xC3], utf8 "\ufffd"] ∧ v.startsAny 0xC3 = false ∧
      v.maxLength = 3 := by
  intro spellings
  have hbuilt : ofList? spellings = some (spellings.foldl Vocabulary.insert empty) := rfl
  refine ⟨_, hbuilt, ((parts_agree spellings).2 _ hbuilt).1, ?_⟩
  decide

end Vocabulary

/-! ## Keywords and symbols -/

theorem isKeyword_iff {word : Bytes} : isKeyword word = true ↔ word ∈ keywords.entries :=
  (Vocabulary.represents_foldl_insert _).contains_iff_mem_entries word

theorem contains_symbols_iff {s : Bytes} : symbols.contains s = true ↔ s ∈ symbols.entries :=
  (Vocabulary.represents_foldl_insert _).contains_iff_mem_entries s

theorem symbols_indexed : symbols.Indexed :=
  Vocabulary.indexed_iff.mpr (Vocabulary.represents_foldl_insert _).startingWith_eq

theorem symbols_shape : ∀ s ∈ symbols.entries, s ≠ [] ∧ s.length ≤ 2 ∧ ∀ b ∈ s, b < 0x80 := by
  decide +kernel

theorem symbols_nodup : symbols.entries.Nodup := by decide +kernel

/-- A symbol is one ASCII character, or two. -/
theorem symbol_cases {s : Bytes} (hs : s ∈ symbols.entries) :
    (∃ a, s = [a] ∧ a < 0x80) ∨ ∃ a b, s = [a, b] ∧ a < 0x80 ∧ b < 0x80 := by
  obtain ⟨hne, hlen, hascii⟩ := symbols_shape s hs
  match s with
  | [] => exact absurd rfl hne
  | [a] => exact Or.inl ⟨a, rfl, hascii a (by simp)⟩
  | [a, b] => exact Or.inr ⟨a, b, rfl, hascii a (by simp), hascii b (by simp)⟩
  | _ :: _ :: _ :: _ => simp at hlen

end LineLexer
