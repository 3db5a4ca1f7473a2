/-
# `Proofs.Scan.Pulls` — however results are asked for

Results may be pulled one by one, in loops that are broken off, as tokens and
errors side by side, or all at once, and the ways may be mixed on one scanner.
What each call should get is said without a scanner: the results to come are
one list, and a call takes its share off the front of it (`Pull.share`,
`Pull.shares`) and is shown it in its own way (`Pull.answer`).

Calls one after the other take exactly that from a delivery
(`Delivery.pulls_yields`), and so from a scanner that can count its lines
(`Scanner.pulls_follows`).  Once the end has been reported no call does anything
(`Scanner.Ended.pulls`); a scanner that cannot count its lines never reports it
(`Scanner.Endless.pulls`).
-/
import LineLexer.Proofs.Scan.Endless

namespace LineLexer

/-! ## Calls and their answers -/

/-- A way to ask for results. -/
inductive Pull
  | next
  /-- A loop, broken off after `stop` results or never. -/
  | all (stop : Option Nat)
  | tokens (stop : Option Nat)
  | collect
deriving DecidableEq, Repr

namespace Pull

/-- What the one who asks gets to see. -/
inductive Answer
  | next (r : Option Result)
  | all (rs : List Result)
  | tokens (ps : List (Token × Option LexError))
  | collect (ts : List Token) (es : List LexError)
deriving DecidableEq, Repr

/-- How many results a call asks for, if not for all. -/
def stop : Pull → Option Nat
  | next => some 1
  | all stop => stop
  | tokens stop => stop
  | collect => none

/-- The first `stop` results, or all of them. -/
def upTo (stop : Option Nat) (rs : List Result) : List Result :=
  match stop with
  | some n => rs.take n
  | none => rs

/-- What a call should take of the results to come. -/
def share (c : Pull) (rs : List Result) : List Result := upTo c.stop rs

/-- How a call shows what it has taken. -/
def answer : Pull → List Result → Answer
  | next, rs => .next rs.head?
  | all _, rs => .all rs
  | tokens _, rs => .tokens (rs.map Result.pair)
  | collect, rs => .collect (rs.filterMap Result.token?) (rs.filterMap Result.error?)

/-- What calls one after the other should take: each begins where the one before
it has stopped. -/
def shares : List Pull → List Result → List (List Result)
  | [], _ => []
  | c :: cs, rs => c.share rs :: shares cs (rs.drop (c.share rs).length)

end Pull

/-! ## Calls on a delivery -/

namespace Delivery

/-- Up to `stop` results, or all of them. -/
def all (s : Delivery) (stop : Option Nat) : List Result × Delivery × List Signal :=
  match stop with
  | some n => s.take n
  | none => s.drain

/-- What calls one after the other take, with all their signals. -/
def pulls (s : Delivery) : List Pull → List (List Result) × Delivery × List Signal
  | [] => ([], s, [])
  | c :: cs =>
      let (rs, s, signals) := s.all c.stop
      let (rss, s, more) := s.pulls cs
      (rs :: rss, s, signals ++ more)

section

variable {s : Delivery}

/-- **A call** takes its share of what is to come. -/
theorem all_yields (hs : s.Settled) (stop : Option Nat) :
    ∃ s' signals, s.all stop = (Pull.upTo stop s.rest, s', signals) ∧
      s.Yields (Pull.upTo stop s.rest) s' signals := by
  cases stop with
  | some n =>
      obtain ⟨s', signals, htake, h, -⟩ := take_yields n hs
      exact ⟨s', signals, htake, h⟩
  | none =>
      obtain ⟨s', signals, hdrain, h, -⟩ := drain_yields hs
      exact ⟨s', signals, hdrain, h⟩

theorem settled_all (hs : s.Settled) (stop : Option Nat) : (s.all stop).2.1.Settled := by
  obtain ⟨s', signals, hall, h⟩ := all_yields hs stop
  rw [hall]
  exact h.settled

/-- **Calls one after the other** take their shares, by induction on their number:
what one of them leaves is what is to come for the next. -/
theorem pulls_yields (cs : List Pull) : ∀ {s : Delivery}, s.Settled →
    ∃ s' signals, s.pulls cs = (Pull.shares cs s.rest, s', signals) ∧
      s.Yields (Pull.shares cs s.rest).flatten s' signals := by
  induction cs with
  | nil => exact fun hs => ⟨_, [], rfl, hs.yields_nil⟩
  | cons c cs ih =>
      intro s hs
      obtain ⟨s', signals, hall, h⟩ := all_yields hs c.stop
      obtain ⟨s'', more, hpulls, hmore⟩ := ih h.settled
      have hdrop : s.rest.drop (c.share s.rest).length = s'.rest := by
        have hrest : s.rest = c.share s.rest ++ s'.rest := h.rest_eq
        generalize c.share s.rest = taken at hrest
        rw [hrest, List.drop_left]
      have hshares : Pull.shares (c :: cs) s.rest = c.share s.rest :: Pull.shares cs s'.rest := by
        rw [Pull.shares, hdrop]
      rw [pulls, hall, hshares]
      simp only [hpulls]
      exact ⟨s'', signals ++ more, rfl, h.trans hmore⟩

/-- What a call leaves behind is settled. -/
theorem settled_next (hs : s.Settled) : s.next.2.1.Settled := by
  rcases next_yields hs with ⟨r, s', signals, heq, h, -⟩ | ⟨s', signals, heq, h, -⟩
  · rw [heq]
    exact h.settled
  · rw [heq]
    exact h.settled

/-! ### After the end -/

theorem Settled.take_eq (hs : s.Settled) (hdone : s.done = true) (n : Nat) :
    s.take n = ([], s, []) := by
  cases n with
  | zero => rfl
  | succ n => rw [take, hs.next_eq hdone]

theorem Settled.all_eq (hs : s.Settled) (hdone : s.done = true) (stop : Option Nat) :
    s.all stop = ([], s, []) := by
  cases stop with
  | some n => exact hs.take_eq hdone n
  | none => exact hs.take_eq hdone _

/-- After the end calls deliver nothing, report nothing and change nothing. -/
theorem Settled.pulls_eq (hs : s.Settled) (hdone : s.done = true) (cs : List Pull) :
    s.pulls cs = (cs.map fun _ => [], s, []) := by
  induction cs with
  | nil => rfl
  | cons c cs ih =>
      rw [pulls, hs.all_eq hdone]
      simp only [ih]
      rfl

end

end Delivery

/-! ## Calls on a scanner -/

namespace Scanner

/-- One call. -/
def pull (s : Scanner) : Pull → Option (Pull.Answer × Scanner × List Signal)
  | .next => do
      let (r, s, signals) ← s.next
      return (.next r, s, signals)
  | .all stop => do
      let (rs, s, signals) ← s.all stop
      return (.all rs, s, signals)
  | .tokens stop => do
      let (ps, s, signals) ← s.tokens stop
      return (.tokens ps, s, signals)
  | .collect => do
      let ((ts, es), s, signals) ← s.collect
      return (.collect ts es, s, signals)

/-- Calls one after the other, with all their signals. -/
def pulls (s : Scanner) : List Pull → Option (List Pull.Answer × Scanner × List Signal)
  | [] => some ([], s, [])
  | c :: cs => do
      let (answer, s, signals) ← s.pull c
      let (answers, s, more) ← s.pulls cs
      return (answer :: answers, s, signals ++ more)

/-- A call is a loop, whose results are shown in the way of the call. -/
theorem pull_eq (s : Scanner) (c : Pull) :
    s.pull c = (s.all c.stop).bind fun x => some (c.answer x.1, x.2) := by
  cases c with
  | next =>
      show s.next.bind _ = (s.next.bind _).bind _
      rcases s.next with _ | ⟨_ | r, s', signals⟩
      · rfl
      · rfl
      · show some _ = some (_, s', signals ++ [])
        rw [List.append_nil]
        rfl
  | all stop => rfl
  | tokens stop =>
      show ((s.all stop).bind _).bind _ = _
      rw [Option.bind_assoc]
      rfl
  | collect =>
      show ((s.all none).bind _).bind _ = _
      rw [Option.bind_assoc]
      rfl

section

variable {s : Scanner}

theorem all_follows (h : s.Counts) (hs : s.shadow.Settled) (stop : Option Nat) :
    Follows (s.all stop) (s.shadow.all stop) := by
  cases stop with
  | some n => exact take_follows n h
  | none => exact drain_follows h hs

theorem pull_follows (h : s.Counts) (hs : s.shadow.Settled) (c : Pull) :
    Follows (s.pull c) (c.answer (s.shadow.all c.stop).1, (s.shadow.all c.stop).2) := by
  rw [pull_eq]
  exact (all_follows h hs c.stop).bind fun s' hcounts hshadow => ⟨s', rfl, hcounts, hshadow⟩

/-- **Calls one after the other** on a scanner that can count its lines do what they do on
the delivery of its lines. -/
theorem pulls_follows (cs : List Pull) : ∀ {s : Scanner}, s.Counts → s.shadow.Settled →
    Follows (s.pulls cs)
      (List.zipWith Pull.answer cs (s.shadow.pulls cs).1, (s.shadow.pulls cs).2) := by
  induction cs with
  | nil => exact fun h _ => ⟨_, rfl, h, rfl⟩
  | cons c cs ih =>
      intro s h hs
      refine (pull_follows h hs c).bind fun s' hcounts hshadow => ?_
      have hsettled := Delivery.settled_all hs c.stop
      have hmore := ih hcounts (hshadow ▸ hsettled)
      rw [hshadow] at hmore
      exact hmore.bind fun s'' hcounts' hshadow' => ⟨s'', rfl, hcounts', hshadow'⟩

/-! ### After the end -/

/-- The end has been reported, and nothing is left. -/
structure Ended (s : Scanner) : Prop where
  done_eq : s.done = true
  pending_eq : s.delivery.pending = []

theorem Ended.next (h : s.Ended) : s.next = some (none, s, []) := by
  have hnext : s.delivery.next = (none, s.delivery, []) := by
    rw [Delivery.next, h.pending_eq]
    exact if_pos h.done_eq
  rw [Scanner.next, h.done_eq, Bool.not_true, Bool.and_false, hnext]
  rfl

theorem Ended.all (h : s.Ended) (stop : Option Nat) : s.all stop = some ([], s, []) := by
  cases stop with
  | none =>
      show s.drain = _
      rw [drain, h.next]
      rfl
  | some n =>
      cases n with
      | zero => rfl
      | succ n =>
          show s.take (n + 1) = _
          rw [take, h.next]
          rfl

/-- After the end calls deliver nothing, report nothing and change nothing. -/
theorem Ended.pulls (h : s.Ended) (cs : List Pull) :
    s.pulls cs = some (cs.map fun c => c.answer [], s, []) := by
  induction cs with
  | nil => rfl
  | cons c cs ih =>
      rw [Scanner.pulls, pull_eq, h.all]
      show (s.pulls cs).bind _ = _
      rw [ih]
      rfl

/-! ### Without end -/

theorem Endless.all (h : s.Endless) {stop : Option Nat} {rs : List Result} {s' : Scanner}
    {signals : List Signal} (hall : s.all stop = some (rs, s', signals)) : s'.Endless := by
  cases stop with
  | some n => exact h.take n hall
  | none =>
      have hnone : s.all none = none := h.drain
      rw [hnone] at hall
      cases hall

/-- **A scanner without end** stays one, whatever calls come back from it. -/
theorem Endless.pulls (cs : List Pull) : ∀ {s s' : Scanner} {answers : List Pull.Answer}
    {signals : List Signal}, s.Endless → s.pulls cs = some (answers, s', signals) →
      s'.Endless := by
  induction cs with
  | nil =>
      intro s s' answers signals h hpulls
      cases hpulls
      exact h
  | cons c cs ih =>
      intro s s' answers signals h hpulls
      obtain ⟨⟨answer, s₁, first⟩, hpull, hpulls⟩ := Option.bind_eq_some_iff.mp hpulls
      obtain ⟨⟨answers', s₂, more⟩, hmore, hpulls⟩ := Option.bind_eq_some_iff.mp hpulls
      cases hpulls
      rw [pull_eq] at hpull
      obtain ⟨⟨rs, s₃, signals⟩, hall, hpull⟩ := Option.bind_eq_some_iff.mp hpull
      cases hpull
      exact ih (h.all hall) hmore

/-- All that is left of a scanner without end cannot be had. -/
theorem Endless.pulls_collect (cs ds : List Pull) : ∀ {s : Scanner}, s.Endless →
    s.pulls (cs ++ .collect :: ds) = none := by
  induction cs with
  | nil =>
      intro s h
      have hnone : s.all Pull.collect.stop = none := h.drain
      rw [List.nil_append, Scanner.pulls, pull_eq, hnone]
      rfl
  | cons c cs ih =>
      intro s h
      rw [List.cons_append, Scanner.pulls, pull_eq]
      rcases hall : s.all c.stop with _ | ⟨rs, s', signals⟩
      · rfl
      · show (s'.pulls (cs ++ .collect :: ds)).bind _ = none
        rw [ih (h.all hall)]
        rfl

end

/-! ## A whole buffer -/

end Scanner

end LineLexer
