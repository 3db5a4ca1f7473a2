/-
# `Proofs.Scan.Outlook` — what a delivery has still to tell

A delivery makes its entries in the record when it comes to them: it begins the
span at the first call, notes a line when it opens it and a result when it
delivers it, and ends the span with the end of the buffer.  What it has still to
tell can be said beforehand (`Delivery.outlook`).  A call tells the front of it, as
far as the level admits (`Delivery.next_tells`), and so do calls one after the
other (`Delivery.pulls_tells`); when the end has been reported all has been told
(`Delivery.Tells.actions_of_done`).
-/
import LineLexer.Proofs.Scan.Pulls

namespace LineLexer

/-! ## Entries among signals -/

/-- The entry that a signal carries. -/
def Signal.action? : Signal → Option TraceAction
  | finding _ => none
  | trace a => some a

/-- The entries among signals, in order. -/
def actionsOf (signals : List Signal) : List TraceAction := signals.filterMap Signal.action?

theorem actionsOf_append (a b : List Signal) : actionsOf (a ++ b) = actionsOf a ++ actionsOf b :=
  List.filterMap_append

/-- The entries that a level admits. -/
def admitted (level : Trace.Level) (as : List TraceAction) : List TraceAction :=
  as.filter fun a => level.admits a.scope

theorem admitted_append (level : Trace.Level) (as bs : List TraceAction) :
    admitted level (as ++ bs) = admitted level as ++ admitted level bs :=
  List.filter_append ..

namespace Delivery

theorem actionsOf_note (s : Delivery) (a : TraceAction) :
    actionsOf (s.note a) = admitted s.level [a] := by
  rw [note, admitted, List.filter_cons]
  cases s.level.admits a.scope <;> rfl

theorem actionsOf_findings (r : Result) : actionsOf (findings r) = [] := by
  cases r <;> rfl

/-! ## What is still to be told -/

/-- The entries of a line: one for the line, and one for each result. -/
def lineActions (ln : ScannedLine) : List TraceAction :=
  lineAction ln :: ln.results.map resultAction

/-- The entries for what is to be delivered. -/
def body (s : Delivery) : List TraceAction :=
  s.pending.map resultAction ++ s.ahead.flatMap lineActions

/-- The counts that will be reported with the end. -/
def total (s : Delivery) : Stats := s.rest.foldl Stats.count s.tally

/-- The entries that are still to be made, whatever the level. -/
def outlook (s : Delivery) : List TraceAction :=
  if s.done then []
  else (if s.begun then [] else [.begin s.file.name]) ++ (s.body ++ [.finish s.total])

/-- Nothing is pending before the record has begun, nor after the end. -/
structure Ready (s : Delivery) : Prop where
  fresh : s.begun = false → s.pending = []
  settled : s.Settled

/-- On the way from `s` to `s'` the front of what was to be told is told by
signals, as far as the level admits it; unless nothing happens, the record has
begun. -/
structure Tells (s s' : Delivery) (signals : List Signal) : Prop where
  level_eq : s'.level = s.level
  begun_or_eq : s'.begun = true ∨ s' = s
  told : ∃ as, s.outlook = as ++ s'.outlook ∧ actionsOf signals = admitted s.level as

section

variable {s s' s'' : Delivery} {signals more : List Signal}

theorem Tells.refl (s : Delivery) : s.Tells s [] := ⟨rfl, Or.inr rfl, [], rfl, rfl⟩

theorem Tells.trans (h : s.Tells s' signals) (h' : s'.Tells s'' more) :
    s.Tells s'' (signals ++ more) := by
  obtain ⟨as, houtlook, hactions⟩ := h.told
  obtain ⟨bs, houtlook', hmore⟩ := h'.told
  rw [h.level_eq] at hmore
  refine ⟨h'.level_eq.trans h.level_eq, ?_, as ++ bs, ?_, ?_⟩
  · rcases h'.begun_or_eq with hbegun | rfl
    · exact Or.inl hbegun
    · exact h.begun_or_eq
  · rw [houtlook, houtlook', List.append_assoc]
  · rw [actionsOf_append, admitted_append, hactions, hmore]

theorem Tells.ready (h : s.Tells s' signals) (hs : s.Ready) (hs' : s'.Settled) : s'.Ready := by
  refine ⟨?_, hs'⟩
  intro hfalse
  rcases h.begun_or_eq with hbegun | rfl
  · rw [hbegun] at hfalse
    cases hfalse
  · exact hs.fresh hfalse

theorem outlook_of_begun (hdone : s.done = false) (hbegun : s.begun = true) :
    s.outlook = s.body ++ [.finish s.total] := by
  rw [outlook, hdone, hbegun]
  rfl

/-- The record begins with the first call. -/
theorem begun_tells (hdone : s.done = false) :
    s.Tells { s with begun := true } (if s.begun then [] else s.note (.begin s.file.name)) := by
  have hafter : { s with begun := true }.outlook = s.body ++ [.finish s.total] :=
    outlook_of_begun hdone rfl
  refine ⟨rfl, Or.inl rfl, if s.begun then [] else [.begin s.file.name], ?_, ?_⟩
  · rw [hafter, outlook, hdone]
    rfl
  · cases s.begun with
    | true => rfl
    | false => exact s.actionsOf_note _

/-- Opening lines tells of them; what is told of their results comes later. -/
theorem seek_body : ∀ (lns : List ScannedLine) (s : Delivery), s.pending = [] →
    let sought := s.seek lns
    sought.1.level = s.level ∧ sought.1.begun = s.begun ∧ sought.1.done = s.done ∧
      ∃ as, lns.flatMap lineActions = as ++ sought.1.body ∧
        actionsOf sought.2 = admitted s.level as := by
  intro lns
  induction lns with
  | nil =>
      intro s hp
      refine ⟨rfl, rfl, rfl, [], ?_, rfl⟩
      rw [seek, body, hp]
      rfl
  | cons ln lns ih =>
      intro s hp
      rw [seek, List.flatMap_cons, lineActions]
      by_cases hr : ln.results = []
      · obtain ⟨hlevel, hbegun, hdone, as, hbody, hactions⟩ := ih
          { s with
            pending := ln.results
            ahead := lns
            stats := { s.stats with lines := s.stats.lines + 1 } } hr
        simp only [hr, List.isEmpty_nil, if_true] at hlevel hbegun hdone hbody hactions ⊢
        refine ⟨hlevel, hbegun, hdone, [lineAction ln] ++ as, ?_, ?_⟩
        · rw [hbody]
          rfl
        · rw [actionsOf_append, hactions, admitted_append]
          exact congrArg (· ++ _) (s.actionsOf_note (lineAction ln))
      · have hempty : ln.results.isEmpty = false := by simpa using hr
        simp only [hempty, Bool.false_eq_true, if_false]
        exact ⟨trivial, trivial, trivial, [lineAction ln], rfl, s.actionsOf_note (lineAction ln)⟩

/-- Opening lines keeps what is to be told behind the lines that it tells of. -/
theorem seek_tells (hp : s.pending = []) (hdone : s.done = false) (hbegun : s.begun = true) :
    s.Tells (s.seek s.ahead).1 (s.seek s.ahead).2 := by
  obtain ⟨hlevel, hbegun', hdone', as, hbody, hactions⟩ := seek_body s.ahead s hp
  obtain ⟨hrest, htally, -⟩ := seek_spec s.ahead s hp
  have htotal : (s.seek s.ahead).1.total = s.total := by
    rw [total, total, hrest, htally, rest, hp, List.nil_append]
    rfl
  refine ⟨hlevel, Or.inl (hbegun'.trans hbegun), as, ?_, hactions⟩
  rw [outlook_of_begun hdone hbegun, outlook_of_begun (hdone'.trans hdone) (hbegun'.trans hbegun),
    htotal, body, hp, List.map_nil, List.nil_append, hbody, List.append_assoc]

/-- A result that is delivered is told, and so is the end. -/
theorem deliver_tells (hdone : s.done = false) (hbegun : s.begun = true)
    (hstop : s.pending = [] → s.ahead = []) :
    s.Tells s.deliver.2.1 s.deliver.2.2 := by
  rw [deliver]
  cases hp : s.pending with
  | cons r rest =>
      have hrest : s.rest = r :: (rest ++ s.ahead.flatMap ScannedLine.results) := by
        rw [Delivery.rest, hp]
        rfl
      have htotal : { s with pending := rest, stats := s.stats.count r }.total = s.total := by
        rw [total, total, hrest]
        cases r <;> rfl
      have hafter := outlook_of_begun (s := { s with pending := rest, stats := s.stats.count r })
        hdone hbegun
      refine ⟨rfl, Or.inl hbegun, [resultAction r], ?_, ?_⟩
      · rw [outlook_of_begun hdone hbegun, hafter, htotal, body, hp]
        rfl
      · rw [actionsOf_append, actionsOf_findings, actionsOf_note]
        rfl
  | nil =>
      have htotal : s.total = s.stats := by
        rw [total, Delivery.rest, tally, hp, hstop hp]
        rfl
      refine ⟨rfl, Or.inl hbegun, [.finish s.stats], ?_, s.actionsOf_note _⟩
      rw [outlook_of_begun hdone hbegun, body, hp, hstop hp, htotal]
      rfl

/-- With nothing pending, a call begins the record if need be, opens lines, and
delivers from them. -/
theorem next_parts (hp : s.pending = []) (hdone : s.done = false) :
    let opened := { s with begun := true }.seek s.ahead
    s.next.2 = (opened.1.deliver.2.1,
      (if s.begun then [] else s.note (.begin s.file.name)) ++ opened.2 ++
        opened.1.deliver.2.2) := by
  rw [next]
  split
  · rename_i hcons
    rw [hp] at hcons
    cases hcons
  · rw [hdone]
    rfl

theorem begun_of_pending (hs : s.Ready) (hp : s.pending ≠ []) : s.begun = true := by
  cases hbegun : s.begun with
  | true => rfl
  | false => exact absurd (hs.fresh hbegun) hp

/-- **One call** tells the front of what is to be told. -/
theorem next_tells (hs : s.Ready) : s.Tells s.next.2.1 s.next.2.2 := by
  cases hdone : s.done with
  | true =>
      rw [hs.settled.next_eq hdone]
      exact Tells.refl s
  | false =>
      cases hp : s.pending with
      | cons r rest =>
          have hne : s.pending ≠ [] := hp ▸ List.cons_ne_nil r rest
          have hnext : s.next = s.deliver := by rw [next, hp]
          rw [hnext]
          exact deliver_tells hdone (begun_of_pending hs hne) fun hnil => absurd hnil hne
      | nil =>
          obtain ⟨-, hbegun, hkeep, -⟩ := seek_body s.ahead { s with begun := true } hp
          obtain ⟨-, -, hstop, -⟩ := seek_spec s.ahead { s with begun := true } hp
          have hopened := seek_tells (s := { s with begun := true }) hp hdone rfl
          have hclosed := deliver_tells (hkeep.trans hdone) hbegun hstop
          rw [next_parts hp hdone]
          exact ((begun_tells hdone).trans hopened).trans hclosed

/-- **Calls for several results**, by induction on their number. -/
theorem take_tells (n : Nat) : ∀ {s : Delivery}, s.Ready →
    s.Tells (s.take n).2.1 (s.take n).2.2 ∧ (s.take n).2.1.Ready := by
  induction n with
  | zero =>
      intro s hs
      exact ⟨Tells.refl s, hs⟩
  | succ n ih =>
      intro s hs
      have htells := next_tells hs
      have hready := htells.ready hs (settled_next hs.settled)
      rw [take]
      generalize s.next = called at htells hready ⊢
      obtain ⟨r, s', signals⟩ := called
      cases r with
      | none => exact ⟨htells, hready⟩
      | some r =>
          obtain ⟨hmore, hready'⟩ := ih hready
          exact ⟨htells.trans hmore, hready'⟩

theorem all_tells (hs : s.Ready) (stop : Option Nat) :
    s.Tells (s.all stop).2.1 (s.all stop).2.2 ∧ (s.all stop).2.1.Ready := by
  cases stop with
  | some n => exact take_tells n hs
  | none => exact take_tells (s.remaining + 1) hs

/-- **Calls one after the other** tell what is to be told, front to back. -/
theorem pulls_tells (cs : List Pull) : ∀ {s : Delivery}, s.Ready →
    s.Tells (s.pulls cs).2.1 (s.pulls cs).2.2 ∧ (s.pulls cs).2.1.Ready := by
  induction cs with
  | nil =>
      intro s hs
      exact ⟨Tells.refl s, hs⟩
  | cons c cs ih =>
      intro s hs
      obtain ⟨htells, hready⟩ := all_tells hs c.stop
      obtain ⟨hmore, hready'⟩ := ih hready
      exact ⟨htells.trans hmore, hready'⟩

/-- When the end has been reported, all has been told. -/
theorem Tells.actions_of_done (h : s.Tells s' signals) (hdone : s'.done = true) :
    actionsOf signals = admitted s.level s.outlook := by
  obtain ⟨as, houtlook, hactions⟩ := h.told
  have hnil : s'.outlook = [] := by rw [outlook, if_pos hdone]
  rw [houtlook, hnil, List.append_nil, hactions]

/-- As long as there are results to come the end is not reported. -/
theorem done_take (n : Nat) : ∀ {s : Delivery}, s.Settled → s.done = false → n ≤ s.rest.length →
    (s.take n).2.1.done = false := by
  induction n with
  | zero =>
      intro s _ hdone _
      exact hdone
  | succ n ih =>
      intro s hs hdone hle
      rw [take]
      rcases next_yields hs with ⟨r, s', signals, heq, h, hdone'⟩ | ⟨s', signals, heq, h, hdone'⟩
      · have hlt : n ≤ s'.rest.length := by
          rw [h.rest_eq, List.length_append, List.length_singleton] at hle
          omega
        rw [heq]
        exact ih h.settled hdone' hlt
      · have hrest : s.rest = [] := by rw [h.rest_eq, h.settled.rest_eq hdone', List.nil_append]
        rw [hrest] at hle
        exact absurd hle (Nat.not_succ_le_zero n)

/-- **Calls that stop before the end** have begun the record and not ended it. -/
theorem take_unfinished {n : Nat} (hs : s.Ready) (hdone : s.done = false)
    (hlt : n < s.rest.length) :
    let s' := (s.take (n + 1)).2.1
    ∃ as, s.outlook = as ++ (s'.body ++ [.finish s'.total]) ∧
      actionsOf (s.take (n + 1)).2.2 = admitted s.level as := by
  obtain ⟨htells, -⟩ := take_tells (n + 1) hs
  obtain ⟨as, houtlook, hactions⟩ := htells.told
  refine ⟨as, ?_, hactions⟩
  rw [houtlook, outlook_of_begun (done_take (n + 1) hs.settled hdone hlt) ?_]
  rcases htells.begun_or_eq with hbegun | hsame
  · exact hbegun
  · -- a result has been delivered, so the delivery is not the same
    obtain ⟨s', signals, htake, h, -⟩ := take_yields (n + 1) hs.settled
    have hs' : s = s' := hsame.symm.trans (congrArg (·.2.1) htake)
    have hlength := congrArg List.length h.rest_eq
    rw [← hs', List.length_append, List.length_take] at hlength
    omega

/-! ## The end -/

theorem Yields.total_eq {rs : List Result} {signals : List Signal}
    (h : s.Yields rs s' signals) : s'.total = s.total := by
  rw [total, total, h.tally_eq, h.rest_eq, List.foldl_append]

theorem Settled.total_eq (h : s.Settled) (hdone : s.done = true) : s.total = s.stats := by
  rw [total, h.rest_eq hdone, h.stats_eq hdone]
  rfl

theorem done_drain (hs : s.Settled) : s.drain.2.1.done = true := by
  obtain ⟨s', signals, hdrain, -, hdone⟩ := drain_yields hs
  rw [hdrain]
  exact hdone

theorem pulls_append (ds : List Pull) : ∀ (cs : List Pull) (s : Delivery),
    let pulled := (s.pulls cs).2
    (s.pulls (cs ++ ds)).2 = ((pulled.1.pulls ds).2.1, pulled.2 ++ (pulled.1.pulls ds).2.2) := by
  intro cs
  induction cs with
  | nil =>
      intro s
      rfl
  | cons c cs ih =>
      intro s
      have htail := ih (s.all c.stop).2.1
      show ((_ : Delivery), (s.all c.stop).2.2 ++ _) = (_, (s.all c.stop).2.2 ++ _ ++ _)
      rw [List.append_assoc]
      exact congrArg (fun pulled => (pulled.1, (s.all c.stop).2.2 ++ pulled.2)) htail

theorem settled_pulls (hs : s.Settled) (cs : List Pull) : (s.pulls cs).2.1.Settled := by
  obtain ⟨s', signals, hpulls, h⟩ := pulls_yields cs hs
  rw [hpulls]
  exact h.settled

/-- After the end, calls leave the delivery and its signals as they are. -/
theorem pulls_after {cs : List Pull} (hs : s.Settled) (hdone : (s.pulls cs).2.1.done = true)
    (ds : List Pull) : (s.pulls (cs ++ ds)).2 = (s.pulls cs).2 := by
  rw [pulls_append, (settled_pulls hs cs).pulls_eq hdone]
  exact congrArg (Prod.mk _) (List.append_nil _)

/-- Once all is collected the end has been reported. -/
theorem done_pulls_collect (hs : s.Settled) (cs ds : List Pull) :
    (s.pulls (cs ++ .collect :: ds)).2.1.done = true := by
  have hcollect : (s.pulls (cs ++ [.collect])).2.1.done = true := by
    rw [pulls_append]
    exact done_drain (settled_pulls hs cs)
  rw [List.append_cons, pulls_after hs hcollect]
  exact hcollect

/-- Then all has been told. -/
theorem actionsOf_pulls_collect (hs : s.Ready) (cs ds : List Pull) :
    actionsOf (s.pulls (cs ++ .collect :: ds)).2.2 = admitted s.level s.outlook :=
  (pulls_tells (cs ++ .collect :: ds) hs).1.actions_of_done (done_pulls_collect hs.settled cs ds)

/-- Then all has been counted. -/
theorem stats_pulls_collect (hs : s.Settled) (cs ds : List Pull) :
    (s.pulls (cs ++ .collect :: ds)).2.1.stats = s.total := by
  have hdone := done_pulls_collect hs cs ds
  obtain ⟨s', signals, hpulls, h⟩ := pulls_yields (cs ++ .collect :: ds) hs
  rw [hpulls] at hdone ⊢
  rw [← h.settled.total_eq hdone, h.total_eq]

end

/-! ## A whole buffer -/

theorem total_new (f : File) (level : Trace.Level) : (new f level).total = f.stats := by
  rw [total, rest_new, tally_new, foldl_count, Nat.zero_add, Nat.zero_add]
  rfl

theorem outlook_new (f : File) (level : Trace.Level) :
    (new f level).outlook = .begin f.name :: ((new f level).body ++ [.finish f.stats]) := by
  rw [← total_new f level]
  rfl

theorem ready_new (f : File) (level : Trace.Level) : (new f level).Ready :=
  ⟨fun _ => rfl, settled_new f level⟩

end Delivery

end LineLexer
