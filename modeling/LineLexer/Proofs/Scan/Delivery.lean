/-
# `Proofs.Scan.Delivery` — what is delivered

A delivery hands out results one at a time and keeps to itself which lines it
has opened.  Seen from outside only two things matter: the results that are
still to come (`Delivery.rest`) and the counts it would report if the lines
ahead were opened now (`Delivery.tally`).  One call of `next` either delivers
the first result to come or reports the end (`Delivery.next_cases`).  What any
number of calls deliver, count and report is one judgement (`Delivery.Yields`),
which is put together from single calls.
-/
import LineLexer.Scan.Delivery
import LineLexer.Proofs.Source.Lines

namespace LineLexer

/-! ## Findings among signals -/

/-- The finding that a signal carries. -/
def Signal.finding? : Signal → Option Diagnostic
  | finding d => some d
  | trace _ => none

/-- The findings among signals, in order. -/
def findingsOf (signals : List Signal) : List Diagnostic := signals.filterMap Signal.finding?

@[simp] theorem findingsOf_nil : findingsOf [] = [] := rfl

@[simp] theorem findingsOf_append (a b : List Signal) :
    findingsOf (a ++ b) = findingsOf a ++ findingsOf b := List.filterMap_append

/-- The findings that results stand for. -/
def diagnosticsOf (rs : List Result) : List Diagnostic :=
  (rs.filterMap Result.error?).map LexError.diagnostic

theorem diagnosticsOf_append (a b : List Result) :
    diagnosticsOf (a ++ b) = diagnosticsOf a ++ diagnosticsOf b := by
  rw [diagnosticsOf, List.filterMap_append, List.map_append]
  rfl

/-- A collector takes the findings among signals and nothing else. -/
theorem Collector.follow_eq : ∀ (signals : List Signal) (c : Collector),
    c.follow signals = (findingsOf signals).foldl Collector.report c
  | [], _ => rfl
  | .finding d :: signals, c => Collector.follow_eq signals (c.report d)
  | .trace _ :: signals, c => Collector.follow_eq signals c

namespace Delivery

@[simp] theorem findingsOf_note (s : Delivery) (a : TraceAction) : findingsOf (s.note a) = [] := by
  unfold note
  split <;> rfl

theorem findingsOf_findings (r : Result) : findingsOf (findings r) = diagnosticsOf [r] := by
  cases r <;> rfl

/-! ## One call -/

/-- The results that have not been delivered. -/
def rest (s : Delivery) : List Result := s.pending ++ s.ahead.flatMap ScannedLine.results

/-- The counts, with the lines ahead counted already. -/
def tally (s : Delivery) : Stats := { s.stats with lines := s.stats.lines + s.ahead.length }

theorem remaining_eq (s : Delivery) : s.remaining = s.rest.length := by
  rw [remaining, rest, List.length_append]

theorem length_rest_lt (s : Delivery) : s.rest.length < s.remaining + 1 := by
  rw [remaining_eq]
  omega

/-- Opening lines changes neither what is to come nor the counts that the lines
make, and stops at the end only if nothing is to come. -/
theorem seek_spec : ∀ (lns : List ScannedLine) (s : Delivery), s.pending = [] →
    let s' := (s.seek lns).1
    s'.rest = lns.flatMap ScannedLine.results ∧
      s'.tally = { s.stats with lines := s.stats.lines + lns.length } ∧
      (s'.pending = [] → s'.ahead = []) ∧ s'.done = s.done ∧ findingsOf (s.seek lns).2 = []
  | [], s, h => by simp [seek, rest, tally, h]
  | ln :: lns, s, h => by
      rw [seek]
      by_cases hr : ln.results = []
      · -- a line without results is counted and passed over
        obtain ⟨hrest, htally, hstop, hdone, hfind⟩ := seek_spec lns
          { s with
            pending := ln.results
            ahead := lns
            stats := { s.stats with lines := s.stats.lines + 1 } } hr
        simp only [hr, List.isEmpty_nil, if_true] at hrest htally hstop hdone hfind ⊢
        refine ⟨by simpa [hr] using hrest, ?_, hstop, hdone, by simpa using hfind⟩
        rw [htally, List.length_cons, Nat.add_assoc, Nat.add_comm 1]
      · have hempty : ln.results.isEmpty = false := by simpa using hr
        simp only [hempty, Bool.false_eq_true, if_false]
        refine ⟨by simp [rest], ?_, fun hnil => absurd hnil hr, trivial, findingsOf_note _ _⟩
        rw [tally, List.length_cons, Nat.add_assoc, Nat.add_comm 1]

/-- A call that delivers `r` leaves `s'` behind. -/
structure Delivers (s : Delivery) (r : Result) (s' : Delivery) (signals : List Signal) : Prop where
  rest_eq : s.rest = r :: s'.rest
  tally_eq : s'.tally = s.tally.count r
  done_eq : s'.done = s.done
  findings_eq : findingsOf signals = diagnosticsOf [r]

/-- A call that reports the end leaves `s'` behind. -/
structure Ends (s s' : Delivery) (signals : List Signal) : Prop where
  rest_eq : s.rest = []
  pending_eq : s'.pending = []
  ahead_eq : s'.ahead = []
  tally_eq : s'.tally = s.tally
  done_eq : s'.done = true
  findings_eq : findingsOf signals = []

/-- Delivering pending results. -/
theorem deliver_spec (s : Delivery) (h : s.pending = [] → s.ahead = []) :
    (∃ r s' signals, s.deliver = (some r, s', signals) ∧ s.Delivers r s' signals) ∨
      ∃ s' signals, s.deliver = (none, s', signals) ∧ s.Ends s' signals := by
  rw [deliver]
  cases hp : s.pending with
  | cons r rest =>
      refine Or.inl ⟨r, _, _, rfl, ?_, ?_, rfl, ?_⟩
      · simp [Delivery.rest, hp]
      · cases r <;> rfl
      · rw [findingsOf_append, findingsOf_note, List.append_nil, findingsOf_findings]
  | nil =>
      refine Or.inr ⟨_, _, rfl, ?_, rfl, h hp, rfl, rfl, findingsOf_note _ _⟩
      simp [Delivery.rest, hp, h hp]

/-- With nothing pending a call opens lines and delivers from them; what it
reports before that is no finding. -/
theorem next_of_pending_nil {s : Delivery} (hp : s.pending = []) (hdone : s.done = false) :
    ∃ opening, findingsOf opening = [] ∧ s.next =
      let (s, lines) := { s with begun := true }.seek s.ahead
      let (r, s, closing) := s.deliver
      (r, s, opening ++ lines ++ closing) := by
  refine ⟨if s.begun then [] else s.note (.begin s.file.name), ?_, ?_⟩
  · split
    · rfl
    · exact findingsOf_note _ _
  · rw [next]
    split
    · rename_i hcons
      rw [hp] at hcons
      cases hcons
    · rw [if_neg (by rw [hdone]; exact Bool.false_ne_true)]

/-- **One call** delivers the first result to come, or there is none and the end
is reported. -/
theorem next_cases (s : Delivery) (hdone : s.done = false) :
    (∃ r s' signals, s.next = (some r, s', signals) ∧ s.Delivers r s' signals) ∨
      ∃ s' signals, s.next = (none, s', signals) ∧ s.Ends s' signals := by
  cases hp : s.pending with
  | cons r rest =>
      have hnext : s.next = s.deliver := by rw [next, hp]
      rw [hnext]
      exact s.deliver_spec fun hnil => absurd (hp.symm.trans hnil) (List.cons_ne_nil _ _)
  | nil =>
      obtain ⟨opening, hopening, hnext⟩ := next_of_pending_nil hp hdone
      obtain ⟨hrest, htally, hstop, hkeep, hfind⟩ := seek_spec s.ahead { s with begun := true } hp
      have hahead : s.rest = s.ahead.flatMap ScannedLine.results := by
        rw [rest, hp, List.nil_append]
      have hsignals (closing : List Signal) :
          findingsOf (opening ++ ({ s with begun := true }.seek s.ahead).2 ++ closing)
            = findingsOf closing := by
        rw [findingsOf_append, findingsOf_append, hopening, hfind, List.nil_append, List.nil_append]
      -- opening lines has kept the view, so what `deliver` does to it is all
      rcases deliver_spec _ hstop with ⟨r, s', signals, heq, h⟩ | ⟨s', signals, heq, h⟩
      · simp only [heq] at hnext
        refine Or.inl ⟨r, s', _, hnext, ?_, ?_, h.done_eq.trans hkeep, ?_⟩
        · rw [hahead, ← hrest, h.rest_eq]
        · rw [h.tally_eq, htally]
          rfl
        · rw [hsignals, h.findings_eq]
      · simp only [heq] at hnext
        refine Or.inr ⟨s', _, hnext, ?_, h.pending_eq, h.ahead_eq, ?_, h.done_eq, ?_⟩
        · rw [hahead, ← hrest, h.rest_eq]
        · rw [h.tally_eq, htally]
          rfl
        · rw [hsignals, h.findings_eq]

/-! ## Many calls -/

/-- A delivery that has reported the end has opened all lines. -/
def Settled (s : Delivery) : Prop := s.done = true → s.pending = [] ∧ s.ahead = []

section

variable {s s' s'' : Delivery}

theorem Settled.rest_eq (h : s.Settled) (hdone : s.done = true) : s.rest = [] := by
  obtain ⟨hpending, hahead⟩ := h hdone
  rw [rest, hpending, hahead]
  rfl

/-- At the end there are no lines ahead that would have to be counted. -/
theorem Settled.stats_eq (h : s.Settled) (hdone : s.done = true) : s.stats = s.tally := by
  rw [tally, (h hdone).2]
  rfl

theorem settled_of_done_eq_false (hdone : s.done = false) : s.Settled := by
  intro h
  rw [hdone] at h
  cases h

/-- After the end a call changes nothing. -/
theorem Settled.next_eq (h : s.Settled) (hdone : s.done = true) : s.next = (none, s, []) := by
  rw [next, (h hdone).1]
  exact if_pos hdone

/-- Calls that deliver `rs`, one after the other, leave `s'` behind. -/
structure Yields (s : Delivery) (rs : List Result) (s' : Delivery) (signals : List Signal) :
    Prop where
  rest_eq : s.rest = rs ++ s'.rest
  tally_eq : s'.tally = rs.foldl Stats.count s.tally
  settled : s'.Settled
  findings_eq : findingsOf signals = diagnosticsOf rs

theorem Settled.yields_nil (h : s.Settled) : s.Yields [] s [] := ⟨rfl, rfl, h, rfl⟩

theorem Yields.trans {rs rs' : List Result} {signals more : List Signal}
    (h : s.Yields rs s' signals) (h' : s'.Yields rs' s'' more) :
    s.Yields (rs ++ rs') s'' (signals ++ more) := by
  refine ⟨?_, ?_, h'.settled, ?_⟩
  · rw [h.rest_eq, h'.rest_eq, List.append_assoc]
  · rw [h'.tally_eq, h.tally_eq, List.foldl_append]
  · rw [findingsOf_append, h.findings_eq, h'.findings_eq, diagnosticsOf_append]

theorem Delivers.yields {r : Result} {signals : List Signal} (h : s.Delivers r s' signals)
    (hdone : s.done = false) : s.Yields [r] s' signals :=
  ⟨h.rest_eq, h.tally_eq, settled_of_done_eq_false (h.done_eq.trans hdone), h.findings_eq⟩

theorem Ends.yields {signals : List Signal} (h : s.Ends s' signals) : s.Yields [] s' signals := by
  refine ⟨?_, h.tally_eq, fun _ => ⟨h.pending_eq, h.ahead_eq⟩, h.findings_eq⟩
  rw [h.rest_eq, rest, h.pending_eq, h.ahead_eq]
  rfl

/-- **One call**, whether or not the end has been reported: it delivers the first
result to come, or there is none and the end has been reported afterwards. -/
theorem next_yields (hs : s.Settled) :
    (∃ r s' signals, s.next = (some r, s', signals) ∧ s.Yields [r] s' signals ∧
        s'.done = false) ∨
      ∃ s' signals, s.next = (none, s', signals) ∧ s.Yields [] s' signals ∧ s'.done = true := by
  cases hdone : s.done with
  | true => exact Or.inr ⟨s, [], hs.next_eq hdone, hs.yields_nil, hdone⟩
  | false =>
      rcases s.next_cases hdone with ⟨r, s', signals, heq, h⟩ | ⟨s', signals, heq, h⟩
      · exact Or.inl ⟨r, s', signals, heq, h.yields hdone, h.done_eq.trans hdone⟩
      · exact Or.inr ⟨s', signals, heq, h.yields, h.done_eq⟩

/-- `n` calls deliver the first `n` results to come; if there are fewer, the end
is reported. -/
theorem take_yields (n : Nat) : ∀ {s : Delivery}, s.Settled →
    ∃ s' signals, s.take n = (s.rest.take n, s', signals) ∧
      s.Yields (s.rest.take n) s' signals ∧ (s.rest.length < n → s'.done = true) := by
  induction n with
  | zero => exact fun hs => ⟨_, [], rfl, hs.yields_nil, fun h => absurd h (Nat.not_lt_zero _)⟩
  | succ n ih =>
      intro s hs
      rw [take]
      rcases next_yields hs with ⟨r, s', signals, heq, h, -⟩ | ⟨s', signals, heq, h, hdone⟩
      · obtain ⟨s'', more, htake, hmore, hend⟩ := ih h.settled
        have hrest : s.rest = r :: s'.rest := h.rest_eq
        rw [heq, hrest, List.take_succ_cons]
        simp only [htake]
        refine ⟨s'', signals ++ more, rfl, h.trans hmore, fun hlt => hend ?_⟩
        rw [List.length_cons] at hlt
        omega
      · have hrest : s.rest = [] := by rw [h.rest_eq, h.settled.rest_eq hdone, List.nil_append]
        rw [heq, hrest, List.take_nil]
        exact ⟨s', signals, rfl, h, fun _ => hdone⟩

/-- Draining delivers all that is to come. -/
theorem drain_yields (hs : s.Settled) :
    ∃ s' signals, s.drain = (s.rest, s', signals) ∧ s.Yields s.rest s' signals ∧
      s'.done = true := by
  obtain ⟨s', signals, htake, h, hend⟩ := take_yields (s.remaining + 1) hs
  rw [List.take_of_length_le (Nat.le_of_lt s.length_rest_lt)] at htake h
  exact ⟨s', signals, htake, h, hend s.length_rest_lt⟩

end

end Delivery

/-- Counting results one by one. -/
theorem foldl_count : ∀ (rs : List Result) (st : Stats), rs.foldl Stats.count st =
    ⟨st.lines, st.tokens + (rs.filterMap Result.token?).length,
      st.errors + (rs.filterMap Result.error?).length⟩
  | [], _ => rfl
  | .token t :: rs, st => by
      rw [List.foldl_cons, foldl_count rs, List.filterMap_cons_some (by rfl),
        List.filterMap_cons_none (by rfl), List.length_cons, Stats.count]
      simp only [Nat.add_assoc, Nat.add_comm 1]
  | .error e :: rs, st => by
      rw [List.foldl_cons, foldl_count rs, List.filterMap_cons_none (by rfl),
        List.filterMap_cons_some (by rfl), List.length_cons, Stats.count]
      simp only [Nat.add_assoc, Nat.add_comm 1]

namespace Delivery.Yields

variable {s s' : Delivery} {rs : List Result} {signals : List Signal}

/-- Each token that is delivered is counted. -/
theorem tokens_eq (h : s.Yields rs s' signals) :
    s'.stats.tokens = s.stats.tokens + (rs.filterMap Result.token?).length := by
  have htally := h.tally_eq
  rw [foldl_count] at htally
  exact congrArg Stats.tokens htally

/-- Each error that is delivered is counted. -/
theorem errors_eq (h : s.Yields rs s' signals) :
    s'.stats.errors = s.stats.errors + (rs.filterMap Result.error?).length := by
  have htally := h.tally_eq
  rw [foldl_count] at htally
  exact congrArg Stats.errors htally

end Delivery.Yields

/-! ## A whole buffer -/

namespace File

/-- The tokens of a complete scan. -/
def tokens (f : File) : List Token := f.results.filterMap Result.token?

/-- The errors of a complete scan. -/
def errors (f : File) : List LexError := f.results.filterMap Result.error?

/-- The counts of a complete scan. -/
def stats (f : File) : Stats := ⟨f.lineCount, f.tokens.length, f.errors.length⟩

/-- The findings of a complete scan. -/
def findings (f : File) : List Diagnostic := f.errors.map LexError.diagnostic

theorem mem_tokens {f : File} {t : Token} : t ∈ f.tokens ↔ .token t ∈ f.results := by
  rw [tokens, List.mem_filterMap]
  constructor
  · rintro ⟨r, hr, ht⟩
    cases r with
    | token t' =>
        cases ht
        exact hr
    | error e => cases ht
  · exact fun h => ⟨_, h, rfl⟩

theorem mem_errors {f : File} {e : LexError} : e ∈ f.errors ↔ .error e ∈ f.results := by
  rw [errors, List.mem_filterMap]
  constructor
  · rintro ⟨r, hr, he⟩
    cases r with
    | token t => cases he
    | error e' =>
        cases he
        exact hr
  · exact fun h => ⟨_, h, rfl⟩

end File

namespace Delivery

theorem rest_new (f : File) (level : Trace.Level) : (new f level).rest = f.results := by
  simp [rest, new, ofLines, File.results, List.flatMap_map]

theorem tally_new (f : File) (level : Trace.Level) : (new f level).tally = ⟨f.lineCount, 0, 0⟩ := by
  simp [tally, new, ofLines, f.length_lines]

theorem settled_new (f : File) (level : Trace.Level) : (new f level).Settled :=
  settled_of_done_eq_false rfl

/-- **A drained delivery** has delivered the results of all lines, whatever is
recorded, has counted them, and has reported the errors among them. -/
theorem drain_new (f : File) (level : Trace.Level) :
    ∃ s signals, (new f level).drain = (f.results, s, signals) ∧ s.stats = f.stats ∧
      s.done = true ∧ findingsOf signals = f.findings := by
  obtain ⟨s, signals, hdrain, h, hdone⟩ := drain_yields (settled_new f level)
  rw [rest_new] at hdrain h
  refine ⟨s, signals, hdrain, ?_, hdone, h.findings_eq⟩
  rw [h.settled.stats_eq hdone, h.tally_eq, tally_new, foldl_count, Nat.zero_add, Nat.zero_add]
  rfl

end Delivery

end LineLexer
