/-
# `Proofs.Source.Storing` — how line ends are written does not matter

The same text may come with a byte order mark in front or without one, and with
a carriage return in front of any of its line feeds (`File.respelled`).  Storing
takes both away again, and nothing else (`File.store_respelled`): the stored
content is the text, so its line ends, its digest and its results are those of
the text.  Only the flags tell how the text had come (`FileSet.add_respelled`).

A text that brings carriage returns before line feeds of its own, or a mark,
would lose those too; such texts are left out (`File.Plain`).
-/
import LineLexer.Proofs.Scan.Endless
import LineLexer.Proofs.Scan.Rebinding

namespace LineLexer

namespace File

/-! ## Other spellings of a text -/

/-- The carriage return. -/
abbrev carriageReturn : UInt8 := 0x0D

/-- The byte order mark. -/
def mark : Bytes := [0xEF, 0xBB, 0xBF]

/-- The text with a carriage return in front of the chosen line feeds; the first
byte of the text is at `offset`. -/
def withReturnsFrom (chosen : Nat → Bool) (offset : Nat) : Bytes → Bytes
  | [] => []
  | b :: t =>
      if b = feed ∧ chosen offset = true then
        carriageReturn :: b :: withReturnsFrom chosen (offset + 1) t
      else b :: withReturnsFrom chosen (offset + 1) t

/-- The text as it may come: with a mark or without, and with a carriage return
in front of the line feeds at the chosen offsets. -/
def respelled (marked : Bool) (chosen : Nat → Bool) (t : Bytes) : Bytes :=
  (if marked then mark else []) ++ withReturnsFrom chosen 0 t

theorem withReturnsFrom_false (t : Bytes) : ∀ offset : Nat,
    withReturnsFrom (fun _ => false) offset t = t := by
  induction t with
  | nil =>
      intro offset
      rfl
  | cons b t ih =>
      intro offset
      rw [withReturnsFrom, if_neg (fun h => Bool.false_ne_true h.2), ih]

/-- A text is one of its own spellings. -/
theorem respelled_self (t : Bytes) : respelled false (fun _ => false) t = t :=
  withReturnsFrom_false t 0

/-- The text has no mark in front and no carriage return before a line feed. -/
structure Plain (t : Bytes) : Prop where
  unmarked : ¬ mark <+: t
  unreturned : ¬ [carriageReturn, feed] <:+: t

/-! ## Carriage returns -/

/-- No line feed appears at the front that was not there. -/
theorem head?_withReturnsFrom {chosen : Nat → Bool} {offset : Nat} {t : Bytes}
    (h : (withReturnsFrom chosen offset t).head? = some feed) : t.head? = some feed := by
  cases t with
  | nil => cases h
  | cons b t =>
      rw [withReturnsFrom] at h
      split at h
      · exact absurd (Option.some.inj h) (by decide)
      · exact h

/-- A byte that is no carriage return before a line feed stays. -/
theorem withoutReturns_cons {b : UInt8} {s : Bytes}
    (h : ¬ (b = carriageReturn ∧ s.head? = some feed)) :
    withoutReturns (b :: s) = b :: withoutReturns s := by
  cases s with
  | nil => rfl
  | cons c s =>
      rw [withoutReturns, if_neg]
      rintro ⟨hb, hc⟩
      exact h ⟨hb, congrArg some hc⟩

/-- The carriage returns that were put in are those that are removed. -/
theorem withoutReturns_withReturnsFrom (chosen : Nat → Bool) {t : Bytes}
    (h : ¬ [carriageReturn, feed] <:+: t) : ∀ offset : Nat,
    withoutReturns (withReturnsFrom chosen offset t) = t := by
  induction t with
  | nil =>
      intro offset
      rfl
  | cons b t ih =>
      intro offset
      have htail := ih fun hinfix => h (List.infix_cons hinfix)
      rw [withReturnsFrom]
      split
      · rename_i hchosen
        obtain ⟨rfl, -⟩ := hchosen
        have hfeed : ¬ (feed = carriageReturn ∧
            (withReturnsFrom chosen (offset + 1) t).head? = some feed) := fun hbad =>
          absurd hbad.1 (by decide)
        rw [withoutReturns, if_pos ⟨rfl, rfl⟩, withoutReturns_cons hfeed, htail]
      · -- a carriage return of the text has no line feed behind it, put in or not
        have hkept : ¬ (b = carriageReturn ∧
            (withReturnsFrom chosen (offset + 1) t).head? = some feed) := by
          rintro ⟨rfl, hhead⟩
          obtain ⟨rest, rfl⟩ := List.head?_eq_some_iff.mp (head?_withReturnsFrom hhead)
          exact h ⟨[], rest, rfl⟩
        rw [withoutReturns_cons hkept, htail]

/-- Each chosen line feed makes the text one byte longer. -/
theorem length_withReturnsFrom (chosen : Nat → Bool) (t : Bytes) : ∀ offset : Nat,
    (withReturnsFrom chosen offset t).length =
      t.length + (lineEndsFrom offset t).countP chosen := by
  induction t with
  | nil =>
      intro offset
      rfl
  | cons b t ih =>
      intro offset
      rw [withReturnsFrom, lineEndsFrom]
      by_cases hb : b = feed
      · by_cases hc : chosen offset = true
        · rw [if_pos ⟨hb, hc⟩, if_pos hb, List.countP_cons_of_pos hc]
          simp only [List.length_cons, ih]
          omega
        · rw [if_neg (fun h => hc h.2), if_pos hb, List.countP_cons_of_neg hc]
          simp only [List.length_cons, ih]
          omega
      · rw [if_neg (fun h => hb h.1), if_neg hb]
        simp only [List.length_cons, ih]
        omega

/-! ## The mark -/

/-- A byte at the front that is no carriage return is the first byte of the text. -/
theorem withReturnsFrom_eq_cons {chosen : Nat → Bool} {offset : Nat} {t s : Bytes} {b : UInt8}
    (hb : b ≠ carriageReturn) (h : withReturnsFrom chosen offset t = b :: s) :
    ∃ t', t = b :: t' ∧ withReturnsFrom chosen (offset + 1) t' = s := by
  cases t with
  | nil => cases h
  | cons c t =>
      rw [withReturnsFrom] at h
      split at h
      · exact absurd (List.cons.inj h).1.symm hb
      · obtain ⟨rfl, htail⟩ := List.cons.inj h
        exact ⟨t, rfl, htail⟩

/-- Carriage returns do not make a mark. -/
theorem withoutMark?_withReturnsFrom (chosen : Nat → Bool) {t : Bytes} (h : ¬ mark <+: t) :
    withoutMark? (withReturnsFrom chosen 0 t) = none := by
  unfold withoutMark?
  split
  · rename_i rest heq
    obtain ⟨t₁, rfl, h₁⟩ := withReturnsFrom_eq_cons (by decide) heq
    obtain ⟨t₂, rfl, h₂⟩ := withReturnsFrom_eq_cons (by decide) h₁
    obtain ⟨t₃, rfl, -⟩ := withReturnsFrom_eq_cons (by decide) h₂
    exact absurd ⟨t₃, rfl⟩ h
  · rfl

/-! ## Storing -/

/-- The flags that tell how a text had come. -/
def spellingFlags (marked returned : Bool) : UInt8 :=
  (if marked then markFlag else 0) ||| (if returned then returnsFlag else 0)

/-- **Storing a text**, however it is spelled, keeps the text; the spelling shows
in the flags only. -/
theorem store_respelled (id : Nat) (name : Bytes) (flags : UInt8) {t : Bytes} (h : Plain t)
    (marked : Bool) (chosen : Nat → Bool) :
    store id name (respelled marked chosen t) flags =
      ⟨id, name, t, flags ||| spellingFlags marked ((lineEndsFrom 0 t).any chosen)⟩ := by
  have hbody : (withoutMark? (respelled marked chosen t)).isSome = marked ∧
      (withoutMark? (respelled marked chosen t)).getD (respelled marked chosen t) =
        withReturnsFrom chosen 0 t := by
    cases marked with
    | true => exact ⟨rfl, rfl⟩
    | false =>
        have hnone : withoutMark? (respelled false chosen t) = none :=
          withoutMark?_withReturnsFrom chosen h.unmarked
        rw [hnone]
        exact ⟨rfl, rfl⟩
  have hlonger : t.length < (withReturnsFrom chosen 0 t).length ↔
      (lineEndsFrom 0 t).any chosen = true := by
    rw [length_withReturnsFrom, Nat.lt_add_right_iff_pos, List.countP_pos_iff, List.any_eq_true]
  rw [store, hbody.1, hbody.2, withoutReturns_withReturnsFrom chosen h.unreturned, spellingFlags]
  simp only [hlonger]
  cases marked <;> cases (lineEndsFrom 0 t).any chosen <;> simp [UInt8.or_assoc]

/-- What is added to flags shows at a flag that was not set. -/
theorem or_and_of_and_eq_zero {flags flag : UInt8} (h : flags &&& flag = 0) (added : UInt8) :
    (flags ||| added) &&& flag = added &&& flag := by
  have hdistrib : (flags ||| added) &&& flag = flags &&& flag ||| added &&& flag :=
    UInt8.toBitVec_inj.mp BitVec.and_or_distrib_right
  rw [hdistrib, h, UInt8.zero_or]

theorem spellingFlags_mark : ∀ marked returned : Bool,
    spellingFlags marked returned &&& markFlag ≠ 0 ↔ marked = true := by decide

theorem spellingFlags_returns : ∀ marked returned : Bool,
    spellingFlags marked returned &&& returnsFlag ≠ 0 ↔ returned = true := by decide

end File

/-! ## Adding to a set -/

namespace FileSet

/-- **Line ends and marks do not matter**: a text is stored as it is, with the same
line ends and digest, and scans to the same results, whether or not it comes with
a mark in front and with carriage returns before some of its line feeds; the flags
tell whether it did.  Both can be added, and both can be scanned to the end, or
neither can. -/
theorem add_respelled (fs fs' : FileSet) (name name' : Bytes) (flags flags' : UInt8) (t : Bytes)
    (ht : File.Plain t) (marked : Bool) (chosen : Nat → Bool) :
    ∃ f g, (fs.add name (File.respelled marked chosen t) flags).get? fs.nextId = some f ∧
      (fs'.add name' t flags').get? fs'.nextId = some g ∧
      f.content = t ∧ g.content = t ∧ f.lineEnds = g.lineEnds ∧ f.hash = g.hash ∧
      (fs.nextId = fs'.nextId →
        ((∃ added, fs.add? name (File.respelled marked chosen t) flags = some added) ↔
          ∃ added, fs'.add? name' t flags' = some added)) ∧
      (∀ level level', (Scanner.new f level).drain.map Prod.fst =
        ((Scanner.new g level').drain.map Prod.fst).map (List.map (Result.rebind f.id))) ∧
      (fs.nextId = fs'.nextId → ∀ level level',
        (Scanner.new f level).drain.map Prod.fst = (Scanner.new g level').drain.map Prod.fst) ∧
      (flags &&& File.markFlag = 0 → (f.flags &&& File.markFlag ≠ 0 ↔ marked = true)) ∧
      (flags &&& File.returnsFlag = 0 →
        (f.flags &&& File.returnsFlag ≠ 0 ↔ ∃ e ∈ File.lineEndsFrom 0 t, chosen e = true)) := by
  let f := File.store fs.nextId name (File.respelled marked chosen t) flags
  let g := File.store fs'.nextId name' t flags'
  have hf : f = _ := File.store_respelled fs.nextId name flags ht marked chosen
  have hfcontent : f.content = t := congrArg File.content hf
  have hgcontent : g.content = t := by
    have hself := File.store_respelled fs'.nextId name' flags' ht false fun _ => false
    rw [File.respelled_self] at hself
    exact congrArg File.content hself
  have hcontent : f.content = g.content := hfcontent.trans hgcontent.symm
  have hends : f.lineEnds = g.lineEnds := congrArg (File.lineEndsFrom 0) hcontent
  have hscan : f.Scannable ↔ g.Scannable := File.scannable_congr hcontent
  refine ⟨f, g, fs.get?_add .., fs'.get?_add .., hfcontent, hgcontent, hends, ?_, ?_, ?_, ?_, ?_, ?_⟩
  · exact congrArg Text.digest hcontent
  · intro hid
    have hfits (h : FileSet) (n c : Bytes) (fl : UInt8) : (∃ added, h.add? n c fl = some added) ↔
        h.nextId < wordLimit ∧ ∀ e ∈ (File.store h.nextId n c fl).lineEnds, e < wordLimit := by
      simp only [add?_eq_some, exists_eq_left']
    rw [hfits, hfits, hid]
    show (_ ∧ ∀ e ∈ f.lineEnds, e < wordLimit) ↔ (_ ∧ ∀ e ∈ g.lineEnds, e < wordLimit)
    rw [hends]
  · intro level level'
    by_cases hg : g.Scannable
    · obtain ⟨_, _, hdrain, -⟩ := Scanner.drain_new (hscan.mpr hg) level
      obtain ⟨_, _, hdrain', -⟩ := Scanner.drain_new hg level'
      rw [hdrain, hdrain']
      exact congrArg some (File.results_eq_map hcontent)
    · rw [Scanner.drain_eq_none hg, Scanner.drain_eq_none (fun hf => hg (hscan.mp hf))]
      rfl
  · intro hid level level'
    have hlines : f.lines = g.lines := by
      show File.numberLines fs.nextId 1 0 (File.splitLines f.content) =
        File.numberLines fs'.nextId 1 0 (File.splitLines g.content)
      rw [hid, hcontent]
    by_cases hg : g.Scannable
    · obtain ⟨_, _, hdrain, -⟩ := Scanner.drain_new (hscan.mpr hg) level
      obtain ⟨_, _, hdrain', -⟩ := Scanner.drain_new hg level'
      rw [hdrain, hdrain']
      exact congrArg some (congrArg (List.flatMap Line.scan) hlines)
    · rw [Scanner.drain_eq_none hg, Scanner.drain_eq_none (fun hf => hg (hscan.mp hf))]
  · intro hflags
    rw [hf, File.or_and_of_and_eq_zero hflags]
    exact File.spellingFlags_mark marked _
  · intro hflags
    rw [hf, File.or_and_of_and_eq_zero hflags, File.spellingFlags_returns]
    exact List.any_eq_true

/-- A mark in front, a carriage return before the first of two line feeds, and one
that stands alone behind it. -/
theorem add_respelled_mixed :
    let t := utf8 "x\n\r y\n"
    ∃ f g, (empty.add (utf8 "a") (File.mark ++ utf8 "x\r\n\r y\n") 1).get? 0 = some f ∧
      (empty.add (utf8 "b") t 0).get? 0 = some g ∧
      f.content = t ∧ g.content = t ∧ f.lineEnds = g.lineEnds ∧ f.hash = g.hash ∧
      (Scanner.new f .off).drain.map Prod.fst = (Scanner.new g .off).drain.map Prod.fst ∧
      f.flags &&& File.markFlag ≠ 0 ∧ f.flags &&& File.returnsFlag ≠ 0 := by
  intro t
  have ht : File.Plain t := ⟨by decide, by decide⟩
  obtain ⟨f, g, hf, hg, hcontent, hcontent', hends, hhash, -, -, hresults, hmark, hreturns⟩ :=
    add_respelled empty empty (utf8 "a") (utf8 "b") 1 0 t ht true (· == 1)
  exact ⟨f, g, hf, hg, hcontent, hcontent', hends, hhash, hresults rfl .off .off,
    (hmark (by decide)).mpr rfl, (hreturns (by decide)).mpr ⟨1, by decide, rfl⟩⟩

end FileSet

end LineLexer
