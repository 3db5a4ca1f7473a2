/-
# `Proofs.Session.Usable` — settings that are allowed can be used

The rules for settings stand in three places: in the check of the settings,
where options are made from them, and where tracers and bags are made from
options.  The check is the strictest of them in all but one thing: it bounds
the size of a ring only from below.  Settings that it lets pass give options
for rendering; they give options for scanning, unless they ask for a ring
that no memory has room for.
-/
import LineLexer.Diagnostic.Bag
import LineLexer.Proofs.Text.Lowercase
import LineLexer.Proofs.Trace.Latest
import LineLexer.Session.Options

namespace LineLexer

/-! ## Names -/

namespace Trace

section

variable {α : Type} {names : List (UInt8 × String)} {mk : UInt8 → α} {a : α} {t : Bytes}

/-- What a table gives for a name is made from one of its entries. -/
theorem exists_of_find?_name
    (h : ((names.find? fun (_, name) => utf8 name = t).map fun (n, _) => mk n) = some a) :
    ∃ x ∈ names, utf8 x.2 = t ∧ mk x.1 = a := by
  obtain ⟨x, hfind, ha⟩ := Option.map_eq_some_iff.mp h
  exact ⟨x, List.mem_of_find?_eq_some hfind, by simpa using List.find?_some hfind, ha⟩

/-- If one entry alone gives a value, its name is the only one that means it. -/
theorem find?_name_iff (name : String) (honly : ∀ x ∈ names, mk x.1 = a → x.2 = name)
    (hname : ((names.find? fun (_, n) => utf8 n = utf8 name).map fun (n, _) => mk n) = some a) :
    ((names.find? fun (_, name) => utf8 name = t).map fun (n, _) => mk n) = some a ↔
      t = utf8 name := by
  constructor
  · intro h
    obtain ⟨x, hx, ht, ha⟩ := exists_of_find?_name h
    rw [← ht, honly x hx ha]
  · rintro rfl
    exact hname

end

theorem Level.ofName?_eq_off_iff {t : Bytes} :
    Level.ofName? t = some .off ↔ t = [] ∨ Text.Spells t (utf8 "off") := by
  rw [← Text.lowercase_eq_nil_iff, ← Text.lowercase_eq_iff (by decide)]
  by_cases hempty : Text.lowercase t = []
  · rw [Level.ofName?, hempty]
    exact iff_of_true rfl (.inl rfl)
  · have hnamed : ¬ (Text.lowercase t).isEmpty = true := fun h => hempty (List.isEmpty_iff.mp h)
    simp only [Level.ofName?, if_neg hnamed]
    rw [find?_name_iff "off" (by decide) (by decide), or_iff_right hempty]

theorem Storage.ofName?_eq_stream_iff {t : Bytes} :
    Storage.ofName? t = some .stream ↔ Text.Spells t (utf8 "stream") := by
  rw [← Text.lowercase_eq_iff (by decide), Storage.ofName?]
  exact find?_name_iff "stream" (by decide) (by decide)

/-- Only storages that tracers can be made for have names. -/
theorem Storage.of_ofName? {t : Bytes} {m : Storage} (h : Storage.ofName? t = some m) :
    m = .stream ∨ m = .ring ∨ m = .both := by
  obtain ⟨x, hx, -, rfl⟩ := exists_of_find?_name h
  have hnames : ∀ x ∈ Storage.names,
      (⟨x.1⟩ : Storage) = .stream ∨ (⟨x.1⟩ : Storage) = .ring ∨ (⟨x.1⟩ : Storage) = .both := by
    decide
  exact hnames x hx

/-! ## Tracers -/

theorem Level.isEnabled_eq_false_iff {l : Level} : l.isEnabled = false ↔ l = .off := by
  obtain ⟨rank⟩ := l
  simp [Level.isEnabled, Level.off]

section

variable (k : Recorder) {level : Level} {storage : Storage} (format : Format) {size : Int}
  (writer : Nat)

theorem Recorder.addRing?_of_le (level : Level) (hsize : size ≤ Ring.maxSize) :
    ∃ made, k.addRing? size level = some made ∧ made.2.level = level := by
  rw [Recorder.addRing?, Ring.new?_of_le level hsize]
  exact ⟨_, rfl, rfl⟩

theorem Recorder.addRing?_of_not_le (level : Level) (hsize : ¬ size ≤ Ring.maxSize) :
    k.addRing? size level = none := by
  rw [Recorder.addRing?, Ring.new?_of_not_le level hsize]
  rfl

/-- There is a tracer of the wanted level if nothing is recorded, if no ring is
wanted, and if there is room for the ring. -/
theorem Recorder.addTracer_ok (hstorage : storage = .stream ∨ storage = .ring ∨ storage = .both)
    (hroom : level = .off ∨ storage = .stream ∨ size ≤ Ring.maxSize) :
    ∃ k' t, k.addTracer level storage format size writer = .ok (k', t) ∧ t.level = level := by
  rw [Recorder.addTracer]
  by_cases hlevel : level = .off
  · rw [if_pos hlevel]
    exact ⟨k, .nop, rfl, hlevel.symm⟩
  rw [if_neg hlevel]
  rcases hstorage with rfl | rfl | rfl
  · exact ⟨_, _, rfl, rfl⟩
  · have hsize : size ≤ Ring.maxSize := (hroom.resolve_left hlevel).resolve_left (by decide)
    obtain ⟨made, hmade, hmadeLevel⟩ := k.addRing?_of_le level hsize
    rw [if_neg (by decide), if_pos rfl, hmade]
    exact ⟨made.1, made.2, rfl, hmadeLevel⟩
  · have hsize : size ≤ Ring.maxSize := (hroom.resolve_left hlevel).resolve_left (by decide)
    obtain ⟨made, hmade, -⟩ := (k.addStream level format writer).1.addRing?_of_le level hsize
    rw [if_neg (by decide), if_neg (by decide), if_pos rfl]
    dsimp only
    rw [hmade]
    exact ⟨_, _, rfl, rfl⟩

/-- Otherwise it is the ring that there is no room for. -/
theorem Recorder.addTracer_noRoom
    (hstorage : storage = .stream ∨ storage = .ring ∨ storage = .both)
    (hroom : ¬ (level = .off ∨ storage = .stream ∨ size ≤ Ring.maxSize)) :
    k.addTracer level storage format size writer = .error (.noRoom size) := by
  obtain ⟨hlevel, hstream, hsize⟩ : level ≠ .off ∧ storage ≠ .stream ∧ ¬ size ≤ Ring.maxSize :=
    ⟨fun h => hroom (.inl h), fun h => hroom (.inr (.inl h)), fun h => hroom (.inr (.inr h))⟩
  rw [Recorder.addTracer, if_neg hlevel, if_neg hstream]
  rcases hstorage.resolve_left hstream with rfl | rfl
  · rw [if_pos rfl, Recorder.addRing?_of_not_le k level hsize]
  · rw [if_neg (by decide), if_pos rfl]
    dsimp only
    rw [Recorder.addRing?_of_not_le _ level hsize]

end

end Trace

/-! ## Settings -/

namespace Settings

/-- The rules for settings. -/
structure Allowed (s : Settings) : Prop where
  maxDiagnostics : 0 ≤ s.scan.maxDiagnostics ∧ s.scan.maxDiagnostics ≤ 65535
  jobs : 0 ≤ s.scan.jobs
  level : ∃ level, Trace.Level.ofName? s.trace.level = some level
  format : ∃ format, Trace.Format.ofName? s.trace.format = some format
  mode : ∃ storage, Trace.Storage.ofName? s.trace.mode = some storage
  ringSize : 0 ≤ s.trace.ringSize
  context : 0 ≤ s.render.context ∧ s.render.context ≤ 255
  tabWidth : 0 ≤ s.render.tabWidth
  tokens : s.render.tokens = utf8 "pretty" ∨ s.render.tokens = utf8 "json"

theorem complaint_eq_nil_iff {ok : Bool} {v : Violation} : complaint ok v = [] ↔ ok = true := by
  cases ok <;> simp [complaint]

/-- Nothing is wrong with settings exactly when they keep all the rules. -/
theorem violations_eq_nil_iff {s : Settings} : s.violations = [] ↔ s.Allowed := by
  simp only [violations, List.append_eq_nil_iff, complaint_eq_nil_iff, Bool.and_eq_true,
    Bool.or_eq_true, decide_eq_true_eq, Option.isSome_iff_exists]
  constructor
  · rintro ⟨⟨⟨⟨⟨⟨⟨⟨hmax, hjobs⟩, hlevel⟩, hformat⟩, hmode⟩, hring⟩, hcontext⟩, htab⟩, htokens⟩
    exact ⟨hmax, hjobs, hlevel, hformat, hmode, hring, hcontext, htab, htokens⟩
  · intro h
    exact ⟨⟨⟨⟨⟨⟨⟨⟨h.maxDiagnostics, h.jobs⟩, h.level⟩, h.format⟩, h.mode⟩, h.ringSize⟩,
      h.context⟩, h.tabWidth⟩, h.tokens⟩

/-- The settings ask for no trace: they name the level `off`, or none. -/
def Silent (s : Settings) : Prop :=
  s.trace.level = [] ∨ Text.Spells s.trace.level (utf8 "off")

instance (s : Settings) : Decidable s.Silent :=
  inferInstanceAs (Decidable (_ ∨ _))

/-- The trace that the settings ask for needs no ring, or one that fits a
memory. -/
def HasRoom (s : Settings) : Prop :=
  s.Silent ∨ Text.Spells s.trace.mode (utf8 "stream") ∨ s.trace.ringSize ≤ Trace.Ring.maxSize

end Settings

namespace Session

theorem RenderOptions.ofSettings_ok {s : Settings} (h : s.Allowed) :
    ∃ r, ofSettings s = .ok r ∧ (r.pretty.context.toNat : Int) = s.render.context := by
  obtain ⟨hnonneg, hle⟩ := h.context
  obtain ⟨listing, hlisting⟩ : ∃ listing, ListingForm.ofName? s.render.tokens = some listing := by
    rcases h.tokens with htokens | htokens
    · exact ⟨.pretty, by rw [htokens]; decide⟩
    · exact ⟨.json, by rw [htokens]; decide⟩
  rw [ofSettings, hlisting]
  dsimp only
  rw [if_pos h.context]
  refine ⟨_, rfl, ?_⟩
  show ((UInt8.ofNat s.render.context.toNat).toNat : Int) = s.render.context
  rw [UInt8.toNat_ofNat']
  omega

theorem limit_withLimit {n : Int} (hn : 0 ≤ n ∧ n ≤ 65535) :
    ((Bag.withLimit n).limit : Int) = n := by
  show ((min n.toNat bagCeiling : Nat) : Int) = n
  unfold bagCeiling
  omega

/-- **Settings that are allowed can be used.**  There are options for rendering, with the lines
around a diagnostic that the settings give.  There are options for scanning unless a trace is
asked for that needs a ring, and no memory has room for the ring; a bag made with them has the
limit that the settings give, and nothing is recorded exactly when the settings name the level
`off`, in any letter case, or none. -/
theorem settings_usable (s : Settings) (k : Trace.Recorder) (writer : Nat)
    (hs : s.violations = []) :
    (∃ r, RenderOptions.ofSettings s = .ok r ∧
      (r.pretty.context.toNat : Int) = s.render.context) ∧
    (s.HasRoom → ∃ k' o, Options.ofSettings s k writer = .ok (k', o) ∧
      ((Bag.withLimit o.maxDiagnostics).limit : Int) = s.scan.maxDiagnostics ∧
      (o.tracer.isEnabled = false ↔ s.Silent)) ∧
    (¬ s.HasRoom →
      Options.ofSettings s k writer = .error (.tracer (.noRoom s.trace.ringSize))) := by
  have h : s.Allowed := Settings.violations_eq_nil_iff.mp hs
  obtain ⟨level, hlevel⟩ := h.level
  obtain ⟨format, hformat⟩ := h.format
  obtain ⟨storage, hmode⟩ := h.mode
  have hsilent : level = .off ↔ s.Silent := by
    rw [Settings.Silent, ← Trace.Level.ofName?_eq_off_iff, hlevel, Option.some.injEq]
  have hroom : level = .off ∨ storage = .stream ∨ s.trace.ringSize ≤ Trace.Ring.maxSize ↔
      s.HasRoom := by
    rw [Settings.HasRoom, hsilent, ← Trace.Storage.ofName?_eq_stream_iff, hmode,
      Option.some.injEq]
  have hstorage := Trace.Storage.of_ofName? hmode
  refine ⟨RenderOptions.ofSettings_ok h, ?_, ?_⟩
  · intro hfits
    obtain ⟨k', t, hadd, ht⟩ := k.addTracer_ok format writer hstorage (hroom.mpr hfits)
    simp only [Options.ofSettings, hlevel, hformat, hmode, hadd]
    refine ⟨k', _, rfl, limit_withLimit h.maxDiagnostics, ?_⟩
    show t.level.isEnabled = false ↔ s.Silent
    rw [Trace.Level.isEnabled_eq_false_iff, ht, hsilent]
  · intro hfull
    have hadd := k.addTracer_noRoom format writer hstorage (mt hroom.mp hfull)
    simp only [Options.ofSettings, hlevel, hformat, hmode, hadd]

/-- Settings at all the bounds, with a level and a storage in capital letters, one of them
outside ASCII: they are allowed, and there is room for the largest ring. -/
theorem settings_usable_bounds :
    let s : Settings := {
      scan := { maxDiagnostics := 65535 }
      trace := { level := utf8 "PHASE", format := [], mode := utf8 "RİNG",
                 ringSize := Trace.Ring.maxSize }
      render := { context := 255, tokens := utf8 "json" } }
    s.violations = [] ∧ ¬ s.Silent ∧ s.HasRoom ∧
      (∃ r, RenderOptions.ofSettings s = .ok r ∧ (r.pretty.context.toNat : Int) = 255) ∧
      ∃ k o, Options.ofSettings s ⟨0, #[], #[], #[], 0⟩ 0 = .ok (k, o) ∧
        (Bag.withLimit o.maxDiagnostics).limit = 65535 ∧ o.tracer.isEnabled = true := by
  intro s
  have hs : s.violations = [] := by decide +kernel
  have hsilent : ¬ s.Silent := by decide +kernel
  have hroom : s.HasRoom := .inr (.inr (Int.le_refl _))
  obtain ⟨hrender, hoptions, -⟩ := settings_usable s ⟨0, #[], #[], #[], 0⟩ 0 hs
  obtain ⟨k, o, hok, hlimit, hsilent'⟩ := hoptions hroom
  refine ⟨hs, hsilent, hroom, hrender, k, o, hok, Int.ofNat.inj hlimit, ?_⟩
  exact eq_true_of_ne_false fun h => hsilent (hsilent'.mp h)

/-- Settings that are allowed and ask for a ring that no memory has room for. -/
theorem settings_unusable :
    let s : Settings := {
      trace := { level := utf8 "phase", mode := utf8 "ring", ringSize := 9223372036854775807 } }
    s.violations = [] ∧
      Options.ofSettings s ⟨0, #[], #[], #[], 0⟩ 0 =
        .error (.tracer (.noRoom 9223372036854775807)) := by
  intro s
  exact ⟨by decide +kernel, rfl⟩

end Session

end LineLexer
