/-
# `Proofs.Session.Transparency` — a cache changes no answer

Calls that share a cache give the answers that they would give without one
(`Session.serve_transparent`).  A hit goes a long way round: a listing is found
by a digest, read back from bytes, bound to another buffer, and its findings
are reported anew; a miss is scanned.

The invariant is that the cache keeps only listings of complete scans of
buffers of the set (`Cache.Complete`).  A call that is cancelled keeps nothing.
What is found for a buffer therefore belongs to one of the same content, if
equal digests mean equal contents, and is the scan of the buffer itself.
-/
import LineLexer.Proofs.Listing.Scanned
import LineLexer.Proofs.Scan.Rebinding
import LineLexer.Session.Tokenize

namespace LineLexer

/-- What calls rely on: buffers are not too long to be written, and a digest
belongs to one content. -/
structure FileSet.Cacheable (fs : FileSet) : Prop where
  sized : ∀ f ∈ fs.files, f.Sized
  content_eq : ∀ f ∈ fs.files, ∀ g ∈ fs.files, f.hash = g.hash → f.content = g.content

theorem FileSet.mem_of_get? {fs : FileSet} {id : Nat} {f : File} (h : fs.get? id = some f) :
    f ∈ fs.files := Array.mem_of_getElem? h

namespace Session

/-! ## The cache -/

/-- Every listing that is kept is that of a complete scan of a buffer of the set,
under the digest of its content. -/
def Cache.Complete (fs : FileSet) (c : Cache) : Prop :=
  ∀ entry ∈ c.entries, ∃ f ∈ fs.files, entry = (f.hash, f.listing.encode)

namespace Cache

variable {fs : FileSet} {c : Cache} {f g : File}

theorem complete_empty (fs : FileSet) : Complete fs {} := by
  intro entry h
  cases h

theorem Complete.put (h : c.Complete fs) (hf : f ∈ fs.files) :
    (c.put f f.tokens f.findings).Complete fs := by
  intro entry hentry
  rcases List.mem_cons.mp hentry with rfl | hold
  · exact ⟨f, hf, rfl⟩
  · exact h entry (List.mem_filter.mp hold).1

/-- The listing of a buffer, opened for one of the same content, is the scan of
that one. -/
theorem open?_listing (hg : g.Sized) (h : f.content = g.content) :
    open? f g.listing.encode = .ok (f.tokens, f.findings) := by
  obtain ⟨hdecode, htokens, hfindings⟩ := File.decode_listing hg []
  rw [List.append_nil] at hdecode
  rw [open?, hdecode]
  dsimp only
  rw [htokens, hfindings, ← File.tokens_eq h, ← File.findings_eq_map h]

/-- A look-up keeps the listings, and finds nothing or the scan of the buffer. -/
theorem Complete.get (h : c.Complete fs) (hfs : fs.Cacheable) (hf : f ∈ fs.files) :
    (c.get f).1.Complete fs ∧
      ((c.get f).2 = .ok none ∨ (c.get f).2 = .ok (some (f.tokens, f.findings))) := by
  unfold Cache.get
  cases hfound : c.entries.lookup f.hash with
  | none => exact ⟨h, Or.inl rfl⟩
  | some data =>
      obtain ⟨l₁, l₂, hentries, -⟩ := List.lookup_eq_some_iff.mp hfound
      -- what is found was kept for a buffer of the same digest, maybe another one
      obtain ⟨g, hg, hentry⟩ := h (f.hash, data) (by rw [hentries]; simp)
      obtain ⟨hhash, rfl⟩ := Prod.mk.inj hentry
      have hopen := open?_listing (hfs.sized g hg) (hfs.content_eq f hf g hg hhash)
      dsimp only
      rw [hopen]
      exact ⟨h, Or.inr rfl⟩

end Cache

/-! ## Calls that are not cancelled -/

/-- Nobody cancels the call, neither before it nor while it runs. -/
structure Call.Uncancelled (c : Call) : Prop where
  cancelled : c.cancelled = false
  cancels : ∀ e, c.cancels e = false
  patience : c.patience = none

theorem Call.Uncancelled.breaksOff {c : Call} (h : c.Uncancelled) (n : Nat) :
    c.breaksOff n = false := by
  rw [Call.breaksOff, Call.limit, h.cancelled, h.patience]
  rfl

theorem announce_cache? (s : State) (c : Call) (o : Options) (e : PhaseEvent) :
    (announce s c o e).1.cache? = s.cache? := by
  unfold announce
  split <;> rfl

theorem Call.Uncancelled.announce {c : Call} (h : c.Uncancelled) (s : State) (o : Options)
    (e : PhaseEvent) : (announce s c o e).2.Uncancelled := by
  unfold Session.announce
  split
  · exact ⟨by rw [h.cancelled, h.cancels]; rfl, h.cancels, h.patience⟩
  · exact h

theorem Call.Uncancelled.traced {c : Call} (h : c.Uncancelled) (o : Options) :
    (traced c o).Uncancelled := by
  unfold Session.traced
  split
  · exact ⟨h.cancelled, h.cancels, h.patience⟩
  · exact h

/-! ## Scans -/

/-- The bag that takes the findings of a buffer. -/
def Options.collect (o : Options) (f : File) : Bag :=
  (f.findings.foldl Collector.report (.new o.maxDiagnostics o.dedup)).bag

/-- The outcome tells of a complete scan. -/
structure Outcome.Scanned (out : Outcome) (f : File) (o : Options) : Prop where
  tokens_eq : out.tokens = f.tokens
  stats_eq : out.stats = f.stats
  bag_eq : out.bag = o.collect f

/-- The answer to a call: the outcome of a complete scan, or the call was
cancelled. -/
def Answers (f : File) (o : Options) (c : Call) (a : Except Failure Outcome) : Prop :=
  (a = .error .cancelled ∧ ¬ c.Uncancelled) ∨ ∃ out, a = .ok out ∧ out.Scanned f o

theorem Answers.mono {f : File} {o : Options} {c c' : Call} {a : Except Failure Outcome}
    (h : Answers f o c' a) (hc : c.Uncancelled → c'.Uncancelled) : Answers f o c a :=
  h.imp (fun ⟨ha, hcancel⟩ => ⟨ha, fun hun => hcancel (hc hun)⟩) id

theorem Outcome.withTimings_eq (out : Outcome) {o : Options} (ho : o.timings = false) :
    out.withTimings o = out := by
  rw [withTimings, ho]
  rfl

/-- A scan is complete, or the call was cancelled. -/
theorem scanBuffer_cases (f : File) (o : Options) (k : Trace.Recorder) (c : Call) :
    ((scanBuffer f o k c).2 = none ∧ ¬ c.Uncancelled) ∨
      (scanBuffer f o k c).2 = some (f.results, f.stats, o.collect f) := by
  obtain ⟨scanner, signals, hdrain, hstats, -, hfindings⟩ :=
    Delivery.drain_new f c.context.tracer.level
  unfold scanBuffer
  dsimp only
  split
  · rename_i hbreaks
    refine Or.inl ⟨rfl, fun h => ?_⟩
    rw [h.breaksOff] at hbreaks
    cases hbreaks
  · rw [hdrain]
    dsimp only
    rw [hstats, Collector.follow_eq, hfindings]
    exact Or.inr rfl

/-- The scan of a buffer is kept by the cache only if it is complete. -/
theorem scanPhase_spec (f : File) {o : Options} (ho : o.timings = false) (s : State) (c : Call)
    (t : Timing.Stopwatch) :
    ((scanPhase f o s c t).2.2 = .error .cancelled ∧ ¬ c.Uncancelled ∧
        (scanPhase f o s c t).1.cache? = s.cache?) ∨
      ∃ out, (scanPhase f o s c t).2.2 = .ok out ∧ out.file = f ∧ out.Scanned f o ∧
        (scanPhase f o s c t).1.cache? = s.cache?.map (·.put f f.tokens f.findings) := by
  have hcache := announce_cache? s c o ⟨f.name, utf8 "scan", .start⟩
  have hkeep : c.Uncancelled → (announce s c o ⟨f.name, utf8 "scan", .start⟩).2.Uncancelled :=
    fun h => h.announce s o _
  unfold scanPhase
  generalize announce s c o ⟨f.name, utf8 "scan", .start⟩ = started at hcache hkeep ⊢
  have hcases := scanBuffer_cases f o started.1.recorder started.2
  dsimp only
  generalize scanBuffer f o started.1.recorder started.2 = scanned at hcases ⊢
  obtain ⟨recorder, found⟩ := scanned
  rcases hcases with ⟨rfl, hcancel⟩ | rfl
  · exact Or.inl ⟨rfl, fun h => hcancel (hkeep h), hcache⟩
  · refine Or.inr ⟨_, rfl, ?_, ?_, ?_⟩
    · rw [Outcome.withTimings_eq _ ho]
    · rw [Outcome.withTimings_eq _ ho]
      exact ⟨rfl, rfl, rfl⟩
    · dsimp only
      rw [announce_cache?, ← hcache]
      rfl

/-- The session shares a cache or not, and the listings in it are those of
complete scans. -/
structure State.Complete (fs : FileSet) (shared : Bool) (s : State) : Prop where
  isSome_eq : s.cache?.isSome = shared
  listings : ∀ c, s.cache? = some c → c.Complete fs

theorem State.Complete.of_cache? {fs : FileSet} {shared : Bool} {s s' : State}
    (h : s.Complete fs shared) (hcache : s'.cache? = s.cache?) : s'.Complete fs shared :=
  ⟨by rw [hcache, h.isSome_eq], fun c hc => h.listings c (hcache ▸ hc)⟩

theorem State.complete_of_none (fs : FileSet) {s : State} (h : s.cache? = none) :
    s.Complete fs false :=
  ⟨by rw [h]; rfl, fun c hc => by rw [h] at hc; cases hc⟩

section

variable {fs : FileSet} {f : File} {o : Options} {shared : Bool}

theorem scanPhase_answers (hf : f ∈ fs.files) (ho : o.timings = false) {s : State}
    (hs : s.Complete fs shared) (c : Call) (t : Timing.Stopwatch) :
    Answers f o c (scanPhase f o s c t).2.2 ∧ (scanPhase f o s c t).1.Complete fs shared := by
  rcases scanPhase_spec f ho s c t with ⟨ha, hcancel, hcache⟩ | ⟨out, ha, -, hscan, hcache⟩
  · exact ⟨Or.inl ⟨ha, hcancel⟩, hs.of_cache? hcache⟩
  · refine ⟨Or.inr ⟨out, ha, hscan⟩, ?_, fun cache h => ?_⟩
    · rw [hcache, Option.isSome_map, hs.isSome_eq]
    · rw [hcache] at h
      obtain ⟨old, hold, rfl⟩ := Option.map_eq_some_iff.mp h
      exact (hs.listings old hold).put hf

/-- What the cache had is the outcome of a scan. -/
theorem reuse_scanned (f : File) (o : Options) (t : Timing.Stopwatch) :
    (reuse f o t f.tokens f.findings).Scanned f o := by
  refine ⟨rfl, ?_, rfl⟩
  rw [reuse, File.stats, File.findings, List.length_map]

/-- Whether or not the cache has the scan, a call is answered as if it had not. -/
theorem phases_answers (hfs : shared = true → fs.Cacheable) (hf : f ∈ fs.files) (ho : o.timings = false)
    (span : Nat) {s : State} (hs : s.Complete fs shared) (c : Call) :
    Answers f o c (phases f o span s c).2.2 ∧ (phases f o span s c).1.Complete fs shared := by
  unfold phases
  dsimp only
  split
  · exact scanPhase_answers hf ho hs c _
  · rename_i cache hcache
    have hshared : shared = true := by
      rw [← hs.isSome_eq, hcache]
      rfl
    obtain ⟨hcomplete, hfound⟩ := (hs.listings cache hcache).get (hfs hshared) hf
    have hkeep : c.Uncancelled → (announce s c o ⟨f.name, utf8 "cache", .start⟩).2.Uncancelled :=
      fun h => h.announce s o _
    generalize announce s c o ⟨f.name, utf8 "cache", .start⟩ = started at hkeep ⊢
    generalize cache.get f = looked at hcomplete hfound ⊢
    obtain ⟨cache', found⟩ := looked
    have hs' : State.Complete fs shared { started.1 with cache? := some cache' } := by
      refine ⟨hshared.symm, fun c' hc' => ?_⟩
      cases hc'
      exact hcomplete
    rcases hfound with rfl | rfl
    · -- a miss is a scan from the state that the look-up left
      obtain ⟨ha, hstate⟩ := scanPhase_answers hf ho (hs'.of_cache? (announce_cache? _ started.2 o
        ⟨f.name, utf8 "cache", .stop⟩)) (announce _ started.2 o ⟨f.name, utf8 "cache", .stop⟩).2 _
      exact ⟨ha.mono fun h => (hkeep h).announce _ o _, hstate⟩
    · -- a hit cannot be cancelled any more
      refine ⟨Or.inr ⟨_, rfl, ?_⟩, hs'.of_cache? (announce_cache? _ _ _ _)⟩
      rw [Outcome.withTimings_eq _ ho]
      exact reuse_scanned f o _

/-- A span around a part of a call has no say in its answer, nor in the cache. -/
theorem withinSpan_spec {α : Type} (s : State) (c : Call) (name key value : Bytes)
    (body : Nat → State → Call → State × Call × α) :
    ∃ span s' context,
      (withinSpan s c name key value body).2.2 = (body span s' { c with context }).2.2 ∧
      (withinSpan s c name key value body).1.cache? =
        (body span s' { c with context }).1.cache? ∧ s'.cache? = s.cache? :=
  ⟨_, _, _, rfl, rfl, rfl⟩

/-- A call is answered by a complete scan of its buffer, or it was cancelled;
either way the cache keeps complete scans only. -/
theorem tokenize_answers (hfs : shared = true → fs.Cacheable) {id : Nat} (hf : fs.get? id = some f)
    (ho : o.timings = false) {s : State} (hs : s.Complete fs shared) (c : Call) :
    Answers f o c (tokenize fs id o s c).2.2 ∧ (tokenize fs id o s c).1.Complete fs shared := by
  obtain ⟨span, s', context, ha, hcache, hcache'⟩ := withinSpan_spec s (traced c o)
    (utf8 "tokenize") (utf8 "file") f.name (phases f o)
  obtain ⟨hphases, hstate⟩ := phases_answers hfs (FileSet.mem_of_get? hf) ho span
    (hs.of_cache? hcache') { traced c o with context }
  rw [tokenize, hf]
  dsimp only
  rw [ha]
  refine ⟨hphases.mono fun h => ?_, hstate.of_cache? hcache⟩
  have htraced := h.traced o
  exact ⟨htraced.cancelled, htraced.cancels, htraced.patience⟩

/-- Without a cache, and if nobody cancels it, a call has the result of a complete
scan. -/
theorem tokenize_plain {id : Nat} (hf : fs.get? id = some f) (ho : o.timings = false) {s : State}
    (hs : s.cache? = none) {c : Call} (hc : c.Uncancelled) :
    ∃ out, (tokenize fs id o s c).2.2 = .ok out ∧ out.Scanned f o := by
  have hcache : false = true → fs.Cacheable := fun h => by cases h
  obtain ⟨⟨-, hcancel⟩ | hok, -⟩ :=
    tokenize_answers hcache hf ho (State.complete_of_none fs hs) c
  · exact absurd hc hcancel
  · exact hok

end

/-! ## Results, whatever the cache keeps -/

/-- The outcome is about the buffer, and its bag was offered as many findings as
there are errors. -/
structure Outcome.Collected (out : Outcome) (f : File) (o : Options) : Prop where
  file_eq : out.file = f
  bag_eq : ∃ ds : List Diagnostic, ds.length = out.stats.errors ∧
    out.bag = (ds.foldl Collector.report (.new o.maxDiagnostics o.dedup)).bag

section

variable {f : File} {o : Options} {out : Outcome}

theorem scanPhase_collected (ho : o.timings = false) {s : State} {c : Call}
    {t : Timing.Stopwatch} (h : (scanPhase f o s c t).2.2 = .ok out) : out.Collected f o := by
  rcases scanPhase_spec f ho s c t with ⟨ha, -, -⟩ | ⟨out', ha, hfile, hscan, -⟩
  · rw [ha] at h
    cases h
  · rw [ha] at h
    cases h
    refine ⟨hfile, f.findings, ?_, hscan.bag_eq⟩
    rw [hscan.stats_eq, File.findings, List.length_map]
    rfl

/-- What was in the cache need not be of this buffer, but its findings are
offered to the bag all the same. -/
theorem phases_collected (ho : o.timings = false) {span : Nat} {s : State} {c : Call}
    (h : (phases f o span s c).2.2 = .ok out) : out.Collected f o := by
  unfold phases at h
  dsimp only at h
  split at h
  · exact scanPhase_collected ho h
  · split at h
    · cases h
    · exact scanPhase_collected ho h
    · cases h
      rw [Outcome.withTimings_eq _ ho]
      exact ⟨rfl, _, rfl, rfl⟩

theorem tokenize_collected (ho : o.timings = false) {fs : FileSet} {id : Nat} {s : State}
    {c : Call} (h : (tokenize fs id o s c).2.2 = .ok out) :
    ∃ f, fs.get? id = some f ∧ out.Collected f o := by
  unfold tokenize at h
  split at h
  · cases h
  · rename_i f hf
    obtain ⟨span, s', context, ha, -, -⟩ := withinSpan_spec s (traced c o)
      (utf8 "tokenize") (utf8 "file") f.name (phases f o)
    rw [ha] at h
    exact ⟨f, hf, phases_collected ho h⟩

end

/-! ## Many calls -/

/-- One call of a session. -/
structure Request where
  id : Nat
  options : Options
  call : Call

/-- Calls one after another, each of which finds what the ones before it left
behind; the answers come in the same order. -/
def serve (fs : FileSet) : State → List Request → State × List (Except Failure Outcome)
  | s, [] => (s, [])
  | s, r :: rs =>
      let (s, _, answer) := tokenize fs r.id r.options s r.call
      let (s, answers) := serve fs s rs
      (s, answer :: answers)

/-- The answer to a request is the one that it would get without a cache if
nobody cancelled it; failing that, the request is for an unknown buffer, or was
cancelled. -/
def Request.AnsweredAlike (fs : FileSet) (r : Request) (a : Except Failure Outcome) : Prop :=
  (fs.get? r.id = none ∧ a = .error (.unknownFile r.id)) ∨
  (a = .error .cancelled ∧ ¬ r.call.Uncancelled) ∨
  ∃ out, a = .ok out ∧ ∀ (s : State) (c : Call), s.cache? = none → c.Uncancelled →
    ∃ plain, (tokenize fs r.id r.options s c).2.2 = .ok plain ∧
      out.tokens = plain.tokens ∧ out.stats = plain.stats ∧ out.bag = plain.bag

section

variable {fs : FileSet} {shared : Bool}

/-- One request, in a session whose cache keeps complete scans only. -/
theorem Request.answeredAlike (hfs : fs.Cacheable) (r : Request)
    (hoff : r.options.timings = false) {s : State} (hs : s.Complete fs shared) :
    r.AnsweredAlike fs (tokenize fs r.id r.options s r.call).2.2 ∧
      (tokenize fs r.id r.options s r.call).1.Complete fs shared := by
  cases hf : fs.get? r.id with
  | none =>
      rw [tokenize, hf]
      exact ⟨Or.inl ⟨hf, rfl⟩, hs⟩
  | some f =>
      obtain ⟨ha, hstate⟩ := tokenize_answers (fun _ => hfs) hf hoff hs r.call
      refine ⟨Or.inr (ha.imp_right ?_), hstate⟩
      rintro ⟨out, hout, hscan⟩
      refine ⟨out, hout, fun s' c' hnone hun => ?_⟩
      obtain ⟨plain, hplain, hscan'⟩ := tokenize_plain hf hoff hnone hun
      refine ⟨plain, hplain, ?_, ?_, ?_⟩
      · rw [hscan.tokens_eq, hscan'.tokens_eq]
      · rw [hscan.stats_eq, hscan'.stats_eq]
      · rw [hscan.bag_eq, hscan'.bag_eq]

/-- All requests, by induction on their number. -/
theorem serve_answeredAlike (hfs : fs.Cacheable) : ∀ (requests : List Request) {s : State},
    (∀ r ∈ requests, r.options.timings = false) → s.Complete fs shared →
    (serve fs s requests).1.Complete fs shared ∧
      ∀ (i : Nat) (r : Request), requests[i]? = some r →
        ∃ a, (serve fs s requests).2[i]? = some a ∧ r.AnsweredAlike fs a
  | [], s, _, hs => ⟨hs, fun i r h => by simp at h⟩
  | r :: rs, s, hoff, hs => by
      obtain ⟨halike, hs'⟩ := r.answeredAlike hfs (hoff r List.mem_cons_self) hs
      obtain ⟨hstate, hrest⟩ := serve_answeredAlike hfs rs
        (fun r' hr' => hoff r' (List.mem_cons_of_mem r hr')) hs'
      refine ⟨hstate, fun i r' hr' => ?_⟩
      cases i with
      | zero =>
          obtain rfl : r = r' := by simpa using hr'
          exact ⟨_, rfl, halike⟩
      | succ i => exact hrest i r' hr'

end

/-- **A cache changes no answer**: calls that share a cache, empty at first, are
answered as they would be without one, and only complete scans are ever kept. -/
theorem serve_transparent (fs : FileSet) (hfs : fs.Cacheable) (recorder : Trace.Recorder)
    (requests : List Request) (hoff : ∀ r ∈ requests, r.options.timings = false) :
    let served := serve fs { recorder, cache? := some {} } requests
    (∃ c, served.1.cache? = some c ∧ c.Complete fs) ∧
      ∀ (i : Nat) (r : Request), requests[i]? = some r →
        ∃ a, served.2[i]? = some a ∧ r.AnsweredAlike fs a := by
  have hstart : State.Complete fs true { recorder, cache? := some {} } := by
    refine ⟨rfl, fun c hc => ?_⟩
    cases hc
    exact Cache.complete_empty fs
  obtain ⟨hstate, hanswers⟩ := serve_answeredAlike hfs requests hoff hstart
  obtain ⟨c, hc⟩ := Option.isSome_iff_exists.mp hstate.isSome_eq
  exact ⟨⟨c, hc, hstate.listings c hc⟩, hanswers⟩

/-- One content under two names and numbers.  The first call is cancelled at its
second result; the second one fills the cache for the third, which keeps fewer
findings. -/
theorem serve_transparent_twins :
    let fs : FileSet := ⟨#[File.store 0 (utf8 "a") (utf8 "! x ?") 0,
      File.store 1 (utf8 "b") (utf8 "! x ?") 0]⟩
    let requests : List Request := [⟨0, { maxDiagnostics := 8 }, { patience := some 1 }⟩,
      ⟨0, { maxDiagnostics := 8 }, {}⟩, ⟨1, { maxDiagnostics := 1, dedup := true }, {}⟩]
    let served := serve fs { recorder := { start := 0 }, cache? := some {} } requests
    (∃ c, served.1.cache? = some c ∧ c.Complete fs) ∧
      ∃ out plain, served.2[2]? = some (.ok out) ∧
        (tokenize fs 1 { maxDiagnostics := 1, dedup := true } { recorder := { start := 0 } } {}).2.2
          = .ok plain ∧
        out.tokens = plain.tokens ∧ out.stats = plain.stats ∧ out.bag = plain.bag := by
  intro fs requests served
  have hfile : ∀ f ∈ fs.files, f.content = utf8 "! x ?" ∧ f.name.length = 1 := by
    intro f hf
    have hmem : f ∈ fs.files.toList := Array.mem_toList_iff.mpr hf
    simp only [fs, List.mem_cons, List.not_mem_nil, or_false] at hmem
    rcases hmem with rfl | rfl <;> decide
  have hfs : fs.Cacheable := by
    refine ⟨fun f hf => ?_, fun f hf g hg _ => ?_⟩
    · obtain ⟨hcontent, hname⟩ := hfile f hf
      exact ⟨by rw [hcontent]; decide, by rw [hname]; decide⟩
    · rw [(hfile f hf).1, (hfile g hg).1]
  have hun : Call.Uncancelled {} := ⟨rfl, fun _ => rfl, rfl⟩
  obtain ⟨hcache, hanswers⟩ := serve_transparent fs hfs { start := 0 } requests (by simp [requests])
  refine ⟨hcache, ?_⟩
  obtain ⟨a, ha, hknown | hcancel | ⟨out, rfl, hout⟩⟩ := hanswers 2 _ rfl
  · exact absurd hknown.1 (by simp [fs, FileSet.get?])
  · exact absurd hun hcancel.2
  · obtain ⟨plain, hplain, htokens, hstats, hbag⟩ := hout { recorder := { start := 0 } } {} rfl hun
    exact ⟨out, plain, ha, hplain, htokens, hstats, hbag⟩

end Session

end LineLexer
