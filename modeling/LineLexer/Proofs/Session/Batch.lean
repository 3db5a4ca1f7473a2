/-
# `Proofs.Session.Batch` — a batch ends at its first unknown buffer

The buffers of a batch are tokenized one after the other, and share a cache if
there is one.  Up to the first number that no buffer has, each has the result of a
call of its own; from there on there are no results, and that number is the
failure of the batch (`Session.tokenizeAll_upToUnknown`).

By induction on the numbers: a call that succeeds leaves a cache of complete scans
behind, and nobody cancelled (`Session.tokenize_known`), so that the rest of the
batch runs as if it were a batch of its own.  Once there is a failure nothing is
tokenized any more (`Session.batchFrom_failed`).
-/
import LineLexer.Proofs.Session.Transparency
import LineLexer.Session.Batch

namespace LineLexer.Session

/-! ## A call leaves the next one uncancelled -/

namespace Call.Uncancelled

variable {c : Call}

theorem within (h : c.Uncancelled) (context : Trace.Context) :
    Call.Uncancelled { c with context } :=
  ⟨h.cancelled, h.cancels, h.patience⟩

theorem scanPhase (h : c.Uncancelled) (f : File) (o : Options) (s : State)
    (t : Timing.Stopwatch) : (scanPhase f o s c t).2.1.Uncancelled := by
  unfold Session.scanPhase
  dsimp only
  split
  · exact h.announce s o _
  · exact (h.announce s o _).announce _ o _

theorem phases (h : c.Uncancelled) (f : File) (o : Options) (span : Nat) (s : State) :
    (phases f o span s c).2.1.Uncancelled := by
  unfold Session.phases
  dsimp only
  split
  · exact h.scanPhase f o s _
  · have hlooked := h.announce s o ⟨f.name, utf8 "cache", .start⟩
    split
    · exact hlooked
    · exact (hlooked.announce _ o _).scanPhase f o _ _
    · exact hlooked.announce _ o _

theorem tokenize (h : c.Uncancelled) (fs : FileSet) (id : Nat) (o : Options) (s : State) :
    (tokenize fs id o s c).2.1.Uncancelled := by
  unfold Session.tokenize
  split
  · exact h
  · exact (((h.traced o).within _).phases _ o _ _).within _

end Call.Uncancelled

/-! ## Steps of a batch -/

/-- The outcome is that of a call of its own for the buffer, without a cache. -/
def Outcome.AsAlone (r : Outcome) (fs : FileSet) (o : Options) (id : Nat) : Prop :=
  ∀ (s : State) (c : Call), s.cache? = none → c.Uncancelled →
    ∃ plain, (tokenize fs id o s c).2.2 = .ok plain ∧ r.file = plain.file ∧
      r.tokens = plain.tokens ∧ r.stats = plain.stats ∧ r.bag = plain.bag

section

variable {fs : FileSet} {o : Options} {shared : Bool}

/-- A buffer that is known has the result that it has alone, and the session goes
on with a cache of complete scans. -/
theorem tokenize_known (hfs : shared = true → fs.Cacheable) {id : Nat} {f : File}
    (hf : fs.get? id = some f) (ho : o.timings = false) {s : State} (hs : s.Complete fs shared)
    {c : Call} (hc : c.Uncancelled) :
    ∃ s' c' r, tokenize fs id o s c = (s', c', .ok r) ∧ s'.Complete fs shared ∧
      c'.Uncancelled ∧ r.AsAlone fs o id := by
  obtain ⟨⟨-, hcancel⟩ | ⟨r, hr, hscan⟩, hstate⟩ := tokenize_answers hfs hf ho hs c
  · exact absurd hc hcancel
  · refine ⟨_, _, r, by rw [← hr], hstate, hc.tokenize fs id o s, ?_⟩
    intro s' c' hnone hun
    obtain ⟨plain, hplain, hscan'⟩ := tokenize_plain hf ho hnone hun
    obtain ⟨g, hg, hcollected⟩ := tokenize_collected ho hr
    obtain ⟨g', hg', hcollected'⟩ := tokenize_collected ho hplain
    refine ⟨plain, hplain, ?_, ?_, ?_, ?_⟩
    · rw [hcollected.file_eq, hcollected'.file_eq]
      exact Option.some.inj (hg.symm.trans hg')
    · rw [hscan.tokens_eq, hscan'.tokens_eq]
    · rw [hscan.stats_eq, hscan'.stats_eq]
    · rw [hscan.bag_eq, hscan'.bag_eq]

end

theorem tokenize_unknown {fs : FileSet} {id : Nat} (h : fs.get? id = none) (o : Options)
    (s : State) (c : Call) : tokenize fs id o s c = (s, c, .error (.unknownFile id)) := by
  rw [tokenize, h]

/-- After a failure there are no more results, and no other failure. -/
theorem batchFrom_failed (fs : FileSet) (o : Options) (e : Failure) (s : State) (c : Call) :
    ∀ ids : List Nat,
      batchFrom fs o (some e) s c ids = (s, c, ⟨List.replicate ids.length none, some e⟩)
  | [] => rfl
  | id :: ids => by
      have hfailed : ((some e).isSome || c.cancelled) = true := rfl
      rw [batchFrom, if_pos hfailed, Option.getD_some, batchFrom_failed fs o e s c ids]
      rfl

/-! ## Whole batches -/

/-- The place of the first number that no buffer has; behind the last one if
there is none. -/
def firstUnknown (fs : FileSet) (ids : List Nat) : Nat :=
  ids.findIdx fun id => (fs.get? id).isNone

theorem firstUnknown_of_none {fs : FileSet} {id : Nat} (h : fs.get? id = none) (ids : List Nat) :
    firstUnknown fs (id :: ids) = 0 := by
  rw [firstUnknown, List.findIdx_cons, h]
  rfl

theorem firstUnknown_of_some {fs : FileSet} {id : Nat} {f : File} (h : fs.get? id = some f)
    (ids : List Nat) : firstUnknown fs (id :: ids) = firstUnknown fs ids + 1 := by
  rw [firstUnknown, List.findIdx_cons, h]
  rfl

/-- The batch has a result for each number before the first unknown one, and none
from there on; that number is its failure. -/
structure BatchResult.UpToUnknown (b : BatchResult) (fs : FileSet) (o : Options)
    (ids : List Nat) : Prop where
  length_eq : b.results.length = ids.length
  failure_eq : b.failure = ids[firstUnknown fs ids]?.map .unknownFile
  before : ∀ (i id : Nat), i < firstUnknown fs ids → ids[i]? = some id →
    ∃ r, b.results[i]? = some (some r) ∧ r.AsAlone fs o id
  behind : ∀ i, firstUnknown fs ids ≤ i → i < ids.length → b.results[i]? = some none

namespace BatchResult.UpToUnknown

variable {b : BatchResult} {fs : FileSet} {o : Options} {ids : List Nat} {id : Nat}

theorem nil (fs : FileSet) (o : Options) : UpToUnknown ⟨[], none⟩ fs o [] where
  length_eq := rfl
  failure_eq := rfl
  before := by
    intro i id hi hid
    cases hid
  behind := by
    intro i hi hlt
    cases hlt

/-- The batch stops at an unknown number. -/
theorem stop (h : fs.get? id = none) : UpToUnknown
    ⟨none :: List.replicate ids.length none, some (.unknownFile id)⟩ fs o (id :: ids) where
  length_eq := congrArg (· + 1) List.length_replicate
  failure_eq := by
    rw [firstUnknown_of_none h]
    rfl
  before := by
    intro i id hi
    rw [firstUnknown_of_none h] at hi
    cases hi
  behind := by
    intro i _ hi
    show (List.replicate (ids.length + 1) none)[i]? = some none
    rw [List.getElem?_replicate]
    exact if_pos hi

/-- A known number comes before the rest of the batch. -/
theorem cons (h : b.UpToUnknown fs o ids) {f : File} (hf : fs.get? id = some f) {r : Outcome}
    (hr : r.AsAlone fs o id) :
    UpToUnknown { b with results := some r :: b.results } fs o (id :: ids) where
  length_eq := congrArg (· + 1) h.length_eq
  failure_eq := by
    rw [firstUnknown_of_some hf]
    exact h.failure_eq
  before := by
    intro i id' hi hid'
    rw [firstUnknown_of_some hf] at hi
    cases i with
    | zero =>
        obtain rfl : id = id' := Option.some.inj hid'
        exact ⟨r, rfl, hr⟩
    | succ i => exact h.before i id' (Nat.lt_of_succ_lt_succ hi) hid'
  behind := by
    intro i hi hlt
    rw [firstUnknown_of_some hf] at hi
    cases i with
    | zero => cases hi
    | succ i => exact h.behind i (Nat.le_of_succ_le_succ hi) (Nat.lt_of_succ_lt_succ hlt)

end BatchResult.UpToUnknown

/-- The batch from some number on, in a session whose cache keeps complete scans
only. -/
theorem batchFrom_upToUnknown {fs : FileSet} {o : Options} {shared : Bool}
    (hfs : shared = true → fs.Cacheable) (ho : o.timings = false) :
    ∀ (ids : List Nat) {s : State} {c : Call}, s.Complete fs shared → c.Uncancelled →
      (batchFrom fs o none s c ids).2.2.UpToUnknown fs o ids
  | [], s, c, _, _ => .nil fs o
  | id :: ids, s, c, hs, hc => by
      rw [batchFrom, hc.cancelled, if_neg (by decide)]
      cases hf : fs.get? id with
      | none =>
          rw [tokenize_unknown hf]
          dsimp only
          rw [batchFrom_failed]
          exact .stop hf
      | some f =>
          obtain ⟨s', c', r, hcall, hs', hc', hr⟩ := tokenize_known hfs hf ho hs hc
          rw [hcall]
          exact (batchFrom_upToUnknown hfs ho ids hs' hc').cons hf hr

/-- **A batch ends at its first unknown buffer**: without a cache, or with an empty
one and digests that tell contents apart, the numbers before the first unknown one
have the results that calls of their own would have, whatever the calls before them
left in the cache.  There are no results from there on, and the failure is the one
about that number. -/
theorem tokenizeAll_upToUnknown (fs : FileSet) (ids : List Nat) (o : Options)
    (ho : o.timings = false) (s : State)
    (hs : ∀ cache, s.cache? = some cache → cache.entries = [] ∧ fs.Cacheable) (c : Call)
    (hc : c.Uncancelled) : (tokenizeAll fs ids o s c).2.2.UpToUnknown fs o ids := by
  cases ids with
  | nil => exact .nil fs o
  | cons id ids =>
      have hfs : s.cache?.isSome = true → fs.Cacheable := by
        intro hsome
        obtain ⟨cache, hcache⟩ := Option.isSome_iff_exists.mp hsome
        exact (hs cache hcache).2
      have hstart : s.Complete fs s.cache?.isSome := by
        refine ⟨rfl, fun cache hcache entry hentry => ?_⟩
        rw [(hs cache hcache).1] at hentry
        cases hentry
      obtain ⟨span, s', context, ha, -, hcache'⟩ := withinSpan_spec s (traced c o)
        (utf8 "tokenize-all") (utf8 "files") (Bytes.decimal (id :: ids).length)
        fun _ s c => batchFrom fs o none s c (id :: ids)
      rw [tokenizeAll, if_neg (by simp), ha]
      exact batchFrom_upToUnknown hfs ho (id :: ids) (hstart.of_cache? hcache')
        ((hc.traced o).within context)

/-- The second call finds its scan in the cache, and there is no buffer for the
third one. -/
theorem tokenizeAll_upToUnknown_gap :
    let fs : FileSet := ⟨#[File.store 0 (utf8 "a") (utf8 "! x ?") 0]⟩
    let o : Options := { maxDiagnostics := 1 }
    let s : State := { recorder := { start := 0 }, cache? := some {} }
    let batch := (tokenizeAll fs [0, 0, 7, 0] o s {}).2.2
    batch.results.length = 4 ∧ batch.failure = some (.unknownFile 7) ∧
      (∃ r, batch.results[1]? = some (some r) ∧ r.AsAlone fs o 0) ∧
      batch.results[3]? = some none := by
  intro fs o s batch
  have hmem : ∀ f ∈ fs.files, f = File.store 0 (utf8 "a") (utf8 "! x ?") 0 :=
    fun f hf => Array.mem_singleton.mp hf
  have hfs : fs.Cacheable := by
    refine ⟨fun f hf => ?_, fun f hf g hg _ => ?_⟩
    · rw [hmem f hf]
      exact ⟨by decide, by decide⟩
    · rw [hmem f hf, hmem g hg]
  have hcache : ∀ cache, s.cache? = some cache → cache.entries = [] ∧ fs.Cacheable := by
    intro cache h
    cases h
    exact ⟨rfl, hfs⟩
  have hbatch : batch.UpToUnknown fs o [0, 0, 7, 0] :=
    tokenizeAll_upToUnknown fs [0, 0, 7, 0] o rfl s hcache {} ⟨rfl, fun _ => rfl, rfl⟩
  have hplace : firstUnknown fs [0, 0, 7, 0] = 2 := rfl
  refine ⟨hbatch.length_eq, ?_, ?_, ?_⟩
  · have hfailure := hbatch.failure_eq
    rw [hplace] at hfailure
    exact hfailure
  · exact hbatch.before 1 0 (by rw [hplace]; decide) rfl
  · exact hbatch.behind 3 (by rw [hplace]; decide) (by decide)

end LineLexer.Session
