/-
# `Proofs.Session.Timings` — the finding about timings

A call with timings does what it does without them, and then adds a finding to
the bag of its result (`Session.tokenize_withTimings`).  It is added by merging a
bag of one, so that the limit of a full bag grows by one.

A limit cannot grow beyond the ceiling.  A bag with as many findings as are ever
allowed counts the one about timings as dropped instead of keeping it; with fewer
findings nothing is lost (`Session.tokenize_timed`).
-/
import LineLexer.Proofs.Diagnostic.Collecting
import LineLexer.Proofs.Scan.Reprint
import LineLexer.Proofs.Session.Transparency

namespace LineLexer

/-! ## How full a bag can be -/

namespace Bag

/-- The bag `b'` after some findings were offered to `b`: it has the limit that it
had, and has grown by no more than their number. -/
structure Grows (b : Bag) (n : Nat) (b' : Bag) : Prop where
  limit_eq : b'.limit = b.limit
  size_le : b'.size ≤ b.size + n
  within : b.size ≤ b.limit → b'.size ≤ b'.limit

theorem Grows.refl (b : Bag) : b.Grows 0 b := ⟨rfl, Nat.le_refl _, id⟩

theorem Grows.trans {b b' b'' : Bag} {m n : Nat} (h : b.Grows m b') (h' : b'.Grows n b'') :
    b.Grows (m + n) b'' := by
  refine ⟨h'.limit_eq.trans h.limit_eq, ?_, fun hle => h'.within (h.within hle)⟩
  have hfirst := h.size_le
  have hsecond := h'.size_le
  omega

theorem grows_add (b : Bag) (d : Diagnostic) : b.Grows 1 (b.add d) := by
  rcases Nat.lt_or_ge b.size b.limit with hlt | hge
  · rw [add_of_lt hlt]
    have hsize : (b.items.push d).size = b.size + 1 := Array.size_push d
    exact ⟨rfl, Nat.le_of_eq hsize, fun _ => Nat.le_trans (Nat.le_of_eq hsize) hlt⟩
  · rw [add_of_le hge]
    exact ⟨rfl, Nat.le_succ _, id⟩

end Bag

namespace Collector

/-- One finding is held back, or offered to the bag. -/
theorem grows_report (c : Collector) (d : Diagnostic) : c.bag.Grows 1 (c.report d).bag := by
  unfold report
  split
  · exact c.bag.grows_add d
  · split
    · exact ⟨rfl, Nat.le_succ _, id⟩
    · exact c.bag.grows_add d

/-- Many findings, one after the other. -/
theorem grows_foldl_report (ds : List Diagnostic) : ∀ c : Collector,
    c.bag.Grows ds.length (ds.foldl report c).bag := by
  induction ds with
  | nil =>
      intro c
      exact .refl c.bag
  | cons d ds ih =>
      intro c
      have hall := (c.grows_report d).trans (ih (c.report d))
      rw [Nat.add_comm] at hall
      exact hall

end Collector

/-! ## The findings of a buffer -/

/-- A finding of a scan is not about timings. -/
theorem File.code_findings_ne {f : File} {d : Diagnostic} (h : d ∈ f.findings) :
    d.code ≠ .timings := by
  obtain ⟨e, -, rfl⟩ := List.mem_map.mp h
  have hkind : ∀ kind : ErrorKind, kind.code ≠ .timings
    | .invalidCharacter => by decide
    | .unexpectedLineEnd => by decide
    | .other _ => show Code.unknown ≠ .timings by decide
  exact hkind e.kind

/-- A question mark starts no token. -/
theorem Line.dispatch_question (ln : Line) (here : Mark) : ln.dispatch here (.single 0x3F) =
    (.clean, [ln.misplaced here (.single 0x3F) (utf8 "character does not start any token")]) := by
  rfl

/-- Question marks are an error each. -/
theorem Line.length_errors_questions (ln : Line) (n : Nat) : ∀ here : Mark,
    ((ln.run .clean here (List.replicate n (.single 0x3F))).filterMap Result.error?).length = n := by
  induction n with
  | zero =>
      intro here
      rfl
  | succ n ih =>
      intro here
      rw [List.replicate_succ, run, step, dispatch_question]
      exact congrArg (· + 1) (ih (here.past (.single 0x3F)))

theorem File.length_errors_questions (n : Nat) :
    (store 0 (utf8 "a") (List.replicate n 0x3F) 0).errors.length = n := by
  have hmem : ∀ b ∈ List.replicate n (0x3F : UInt8), b = 0x3F :=
    fun b hb => (List.mem_replicate.mp hb).2
  rw [errors, results_store_line, Line.scan, glyphs_of_ascii,
    List.map_replicate]
  · exact Line.length_errors_questions _ n _
  · intro b hb
    rw [hmem b hb]
    decide
  · intro hfeed
    exact absurd (hmem _ hfeed) (by decide)
  · intro b hb
    rw [hmem b (List.mem_of_head? hb)]
    decide

namespace Session

/-! ## A finding that is forced into a bag -/

section

variable {b : Bag}

theorem forceAdd_eq (b : Bag) (d : Diagnostic) :
    let room := b.limitFor (b.size + 1) - b.size
    forceAdd b d = ⟨b.items ++ ([d].take room).toArray, b.limitFor (b.size + 1),
      b.dropped + .ofNat (1 - room)⟩ := by
  intro room
  have hmerge : forceAdd b d = ⟨b.items ++ ([d].take room).toArray, b.limitFor (b.size + 1),
      b.dropped + .ofNat (1 - room) + 0⟩ := Bag.merge_eq b ((Bag.withLimit 1).add d)
  rw [hmerge, Int64.add_zero]

/-- Below the ceiling the finding is the last item, and nothing is dropped. -/
theorem forceAdd_of_lt (h : b.size < bagCeiling) (d : Diagnostic) :
    (forceAdd b d).items.toList = b.items.toList ++ [d] ∧ (forceAdd b d).dropped = b.dropped := by
  have hroom : 1 ≤ b.limitFor (b.size + 1) - b.size := by
    have hle : b.size + 1 ≤ b.limitFor (b.size + 1) := b.le_limitFor h
    omega
  rw [forceAdd_eq, List.take_of_length_le hroom, Nat.sub_eq_zero_of_le hroom]
  exact ⟨Array.toList_append, Int64.add_zero _⟩

/-- At the ceiling it is dropped. -/
theorem forceAdd_of_full (hb : b.Bounded) (h : bagCeiling ≤ b.size) (d : Diagnostic) :
    forceAdd b d = { b with dropped := b.dropped + 1 } := by
  have hsize := hb.size_le
  have hlimit := hb.limit_le
  have hraised : b.limitFor (b.size + 1) = b.limit := by
    rw [Bag.limitFor, if_neg (by omega)]
    omega
  have hroom : b.limit - b.size = 0 := Nat.sub_eq_zero_of_le (Nat.le_trans hlimit h)
  rw [forceAdd_eq, hraised, hroom]
  show Bag.mk (b.items ++ #[]) b.limit (b.dropped + 1) = _
  rw [Array.append_empty]

end

/-! ## A call with timings -/

/-- What a call leaves behind, with the finding about timings in its result. -/
def addTimings (o : Options) (after : State × Call × Except Failure Outcome) :
    State × Call × Except Failure Outcome :=
  (after.1, after.2.1, after.2.2.map (·.withTimings o))

section

variable (f : File) (o : Options) (s : State) (c : Call)

theorem announce_untimed (e : PhaseEvent) :
    announce s c { o with timings := false } e = announce s c o e := rfl

/-- The phase of a scan has its result before the timings are added: neither what
the observer is told nor the scan depends on them. -/
theorem scanPhase_withTimings (t : Timing.Stopwatch) :
    scanPhase f o s c t = addTimings o (scanPhase f { o with timings := false } s c t) := by
  have hscan : ∀ k c', scanBuffer f { o with timings := false } k c' = scanBuffer f o k c' :=
    fun _ _ => rfl
  unfold scanPhase
  dsimp only
  rw [announce_untimed, hscan]
  generalize announce s c o ⟨f.name, utf8 "scan", .start⟩ = started
  generalize scanBuffer f o started.1.recorder started.2 = scanned
  obtain ⟨recorder, _ | ⟨results, stats, bag⟩⟩ := scanned
  · rfl
  · rfl

/-- So have the phases of a call, whether or not the cache has the scan. -/
theorem phases_withTimings (span : Nat) :
    phases f o span s c = addTimings o (phases f { o with timings := false } span s c) := by
  unfold phases
  dsimp only
  cases s.cache? with
  | none => exact scanPhase_withTimings f o s c _
  | some cache =>
      dsimp only
      rw [announce_untimed]
      generalize announce s c o ⟨f.name, utf8 "cache", .start⟩ = started
      generalize cache.get f = looked
      obtain ⟨cache', _ | _ | ⟨ts, ds⟩⟩ := looked
      · rfl
      · exact scanPhase_withTimings f o _ _ _
      · rfl

end

/-- A call with timings is the call without them, with the finding added at the
end. -/
theorem tokenize_withTimings (fs : FileSet) (id : Nat) (o : Options) (s : State) (c : Call) :
    tokenize fs id o s c = addTimings o (tokenize fs id { o with timings := false } s c) := by
  have htraced : traced c { o with timings := false } = traced c o := rfl
  unfold tokenize
  cases fs.get? id with
  | none => rfl
  | some f =>
      have hphases : phases f o = fun span s' c' =>
          addTimings o (phases f { o with timings := false } span s' c') :=
        funext fun span => funext fun s' => funext fun c' => phases_withTimings f o s' c' span
      dsimp only
      rw [htraced, hphases]
      rfl

theorem tokenize_ok_withTimings {fs : FileSet} {id : Nat} (o : Options) {s : State} {c : Call}
    {p : Outcome} (h : (tokenize fs id { o with timings := false } s c).2.2 = .ok p) :
    (tokenize fs id o s c).2.2 = .ok (p.withTimings o) := by
  rw [tokenize_withTimings]
  show Except.map _ (tokenize fs id { o with timings := false } s c).2.2 = _
  rw [h]
  rfl

/-- The bag of a result is within the limit of the options, and holds no more
than there are errors. -/
theorem Outcome.Collected.bounds {out : Outcome} {f : File} {o : Options}
    (h : out.Collected f o) :
    out.bag.Bounded ∧ out.bag.size ≤ min o.maxDiagnostics.toNat bagCeiling ∧
      out.bag.size ≤ out.stats.errors := by
  obtain ⟨ds, hlength, hbag⟩ := h.bag_eq
  have hgrows := Collector.grows_foldl_report ds (.new o.maxDiagnostics o.dedup)
  rw [← hbag, hlength] at hgrows
  have hlimit : out.bag.limit = min o.maxDiagnostics.toNat bagCeiling := hgrows.limit_eq
  have hsize : out.bag.size ≤ 0 + out.stats.errors := hgrows.size_le
  have hwithin := hgrows.within (Nat.zero_le _)
  rw [Nat.zero_add] at hsize
  refine ⟨⟨hwithin, ?_⟩, ?_, hsize⟩
  · rw [hlimit]
    exact Nat.min_le_right _ _
  · rw [← hlimit]
    exact hwithin

/-- **The finding about timings**: a call with timings leaves behind what the call
without them does, and fails as that does.  The bag of its result has the finding
as its last item, behind the items that are there without timings, and nothing
more is dropped, as long as there are fewer findings than a bag can ever hold; with
that many, the finding is itself dropped. -/
theorem tokenize_timed (fs : FileSet) (id : Nat) (o : Options) (s : State) (c : Call) :
    let plain := tokenize fs id { o with timings := false } s c
    let timed := tokenize fs id { o with timings := true } s c
    timed.1 = plain.1 ∧ timed.2.1 = plain.2.1 ∧
      (∀ e, timed.2.2 = .error e ↔ plain.2.2 = .error e) ∧
      ∀ out, timed.2.2 = .ok out → ∃ p, plain.2.2 = .ok p ∧
        out.file = p.file ∧ out.tokens = p.tokens ∧ out.stats = p.stats ∧
        p.bag.size ≤ min o.maxDiagnostics.toNat 65535 ∧ p.bag.size ≤ p.stats.errors ∧
        ∃ d, d = timingDiagnostic p.file p.watch p.cached ∧ d.code.id = utf8 "OBS6001" ∧
          (p.bag.size < 65535 → out.bag.items.toList = p.bag.items.toList ++ [d] ∧
            out.bag.dropped = p.bag.dropped) ∧
          (65535 ≤ p.bag.size → out.bag = { p.bag with dropped := p.bag.dropped + 1 }) := by
  intro plain timed
  have htimed : timed = addTimings { o with timings := true } plain :=
    tokenize_withTimings fs id { o with timings := true } s c
  have hanswer : timed.2.2 = plain.2.2.map (·.withTimings { o with timings := true }) :=
    congrArg (·.2.2) htimed
  refine ⟨congrArg (·.1) htimed, congrArg (·.2.1) htimed, ?_, ?_⟩
  · intro e
    rw [hanswer]
    cases plain.2.2 with
    | error e' => exact Iff.rfl
    | ok p =>
        constructor
        · intro h
          cases h
        · intro h
          cases h
  · intro out hout
    rw [hanswer] at hout
    cases hplain : plain.2.2 with
    | error e =>
        rw [hplain] at hout
        cases hout
    | ok p =>
        rw [hplain] at hout
        cases hout
        obtain ⟨f, -, hcollected⟩ := tokenize_collected rfl hplain
        obtain ⟨hbounded, hmax, herrors⟩ := hcollected.bounds
        have hid : Code.timings.id = utf8 "OBS6001" := by decide
        refine ⟨p, rfl, rfl, rfl, rfl, hmax, herrors, _, rfl, hid, ?_, ?_⟩
        · intro hlt
          exact forceAdd_of_lt hlt _
        · intro hfull
          exact forceAdd_of_full hbounded hfull _

/-- The bag of a complete scan holds the findings of the first errors, repeats
removed or not. -/
theorem Outcome.Scanned.bag_eq_take {p : Outcome} {f : File} {o : Options}
    (h : p.Scanned f o) :
    let cap := min o.maxDiagnostics.toNat bagCeiling
    p.bag = ⟨(f.findings.take cap).toArray, cap, .ofNat (f.errors.length - cap)⟩ := by
  intro cap
  have hbag : p.bag = (Bag.withLimit o.maxDiagnostics).addAll f.findings :=
    h.bag_eq.trans (Collector.bag_foldl_report f.findings_unlike
      (Collector.admits_new o.maxDiagnostics o.dedup f.findings))
  have hlength : f.findings.length = f.errors.length := List.length_map _
  rw [hbag, Bag.withLimit_addAll, hlength]

/-- The second error finds no room in a bag for one, but the timings do. -/
theorem tokenize_timed_full :
    let fs : FileSet := ⟨#[File.store 0 (utf8 "a") (utf8 "? ?") 0]⟩
    let call := fun timings =>
      (tokenize fs 0 { maxDiagnostics := 1, timings } { recorder := { start := 0 } } {}).2.2
    ∃ out p, call true = .ok out ∧ call false = .ok p ∧ p.bag.size = 1 ∧ p.bag.dropped = 1 ∧
      out.bag.items.toList = p.bag.items.toList ++ [timingDiagnostic p.file p.watch p.cached] ∧
      out.bag.dropped = 1 := by
  intro fs call
  have hun : Call.Uncancelled {} := ⟨rfl, fun _ => rfl, rfl⟩
  have herrors : (File.store 0 (utf8 "a") (utf8 "? ?") 0).errors.length = 2 := by decide
  obtain ⟨p, hp, hscan⟩ : ∃ p, call false = .ok p ∧
      p.Scanned (File.store 0 (utf8 "a") (utf8 "? ?") 0) { maxDiagnostics := 1 } :=
    tokenize_plain rfl rfl rfl hun
  have hsize : p.bag.size = 1 := by
    rw [hscan.bag_eq_take]
    decide
  have hdropped : p.bag.dropped = 1 := by
    rw [hscan.bag_eq_take, herrors]
    rfl
  have hout := tokenize_ok_withTimings { maxDiagnostics := 1, timings := true } hp
  obtain ⟨-, -, -, hok⟩ :=
    tokenize_timed fs 0 { maxDiagnostics := 1 } { recorder := { start := 0 } } {}
  obtain ⟨p', hp', -, -, -, -, -, d, rfl, -, hlt, -⟩ := hok _ hout
  obtain rfl : p = p' := Except.ok.inj (hp.symm.trans hp')
  obtain ⟨hitems, hsame⟩ := hlt (by rw [hsize]; decide)
  exact ⟨_, p, hout, hp, hsize, hdropped, hitems, hsame.trans hdropped⟩

/-! ## A bag that is as full as can be -/

/-- A buffer that fills a bag to the ceiling leaves no room for the timings. -/
theorem timings_lost {fs : FileSet} {id : Nat} {f : File} (hf : fs.get? id = some f)
    (herrors : bagCeiling ≤ f.errors.length) (o : Options) (ho : o.timings = true)
    (hmax : bagCeiling ≤ o.maxDiagnostics.toNat) (s : State) (hs : s.cache? = none) {c : Call}
    (hc : c.Uncancelled) :
    ∃ out, (tokenize fs id o s c).2.2 = .ok out ∧ out.bag.size = bagCeiling ∧
      out.bag.dropped = .ofNat (f.errors.length - bagCeiling) + 1 ∧
      ∀ d ∈ out.bag.items, d.code ≠ .timings := by
  obtain ⟨p, hp, hscan⟩ : ∃ p, (tokenize fs id { o with timings := false } s c).2.2 = .ok p ∧
      p.Scanned f { o with timings := false } := tokenize_plain hf rfl hs hc
  have hcap : min o.maxDiagnostics.toNat bagCeiling = bagCeiling := Nat.min_eq_right hmax
  have hbag : p.bag = ⟨(f.findings.take bagCeiling).toArray, bagCeiling,
      .ofNat (f.errors.length - bagCeiling)⟩ := by
    have htake := hscan.bag_eq_take
    dsimp only at htake
    rw [hcap] at htake
    exact htake
  have hsize : p.bag.size = bagCeiling := by
    rw [hbag]
    show (f.findings.take bagCeiling).toArray.size = bagCeiling
    rw [List.size_toArray, List.length_take, File.findings, List.length_map]
    exact Nat.min_eq_left herrors
  have hlost : (p.withTimings o).bag = { p.bag with dropped := p.bag.dropped + 1 } := by
    rw [Outcome.withTimings, if_pos ho]
    exact forceAdd_of_full ⟨by rw [hsize, hbag], by rw [hbag]⟩ (Nat.le_of_eq hsize.symm) _
  refine ⟨p.withTimings o, tokenize_ok_withTimings o hp, ?_, ?_, ?_⟩
  · rw [hlost]
    exact hsize
  · rw [hlost, hbag]
  · intro d hd
    rw [hlost, hbag] at hd
    exact File.code_findings_ne (List.mem_of_mem_take (List.mem_toArray.mp hd))

/-- Of so many question marks every one is reported, and the timings are dropped. -/
theorem tokenize_loses_timings :
    let fs : FileSet := ⟨#[File.store 0 (utf8 "a") (List.replicate 65535 0x3F) 0]⟩
    let o : Options := { maxDiagnostics := 65535, timings := true }
    ∃ out, (tokenize fs 0 o { recorder := { start := 0 } } {}).2.2 = .ok out ∧
      out.bag.size = 65535 ∧ out.bag.dropped = 1 ∧ ∀ d ∈ out.bag.items, d.code ≠ .timings := by
  intro fs o
  have hun : Call.Uncancelled {} := ⟨rfl, fun _ => rfl, rfl⟩
  have hf : fs.get? 0 = some (File.store 0 (utf8 "a") (List.replicate 65535 0x3F) 0) := rfl
  have herrors := File.length_errors_questions 65535
  obtain ⟨out, hout, hsize, hdropped, hcodes⟩ := timings_lost hf (Nat.le_of_eq herrors.symm) o rfl
    (Nat.le_refl _) { recorder := { start := 0 } } rfl hun
  rw [herrors] at hdropped
  exact ⟨out, hout, hsize, hdropped, hcodes⟩

end Session

end LineLexer
