/-
# `Proofs.Trace.Latest` — a ring keeps the latest events

A ring puts event number `n` into slot `(n - 1) % size` and, once it has overwritten
one, reads from slot `n % size` on.  A ring with room grows by the event; a full one
gives up its oldest event for it (`Ring.snapshot_emit_full`), since the slot to be
written is the one where reading starts, and reading then starts behind it.  So a ring
holds at any time the last of all events that it has taken in (`Ring.Holds`).

A stream passes over the same events and gives the others the same numbers
(`Stream.records_eq`).  What is dumped from a ring is therefore the end of what a stream
writes for the same events (`Ring.emitAll_latest`).
-/
import LineLexer.Proofs.Trace.Emission
import LineLexer.Trace.Sink
import Mathlib.Data.List.DropRight
import Mathlib.Data.List.Rotate

namespace LineLexer.Trace

/-! ## Numbers and times -/

/-- Events with the numbers that a sink gives them if it has taken in `n` before. -/
def numberedFrom (n : Nat) : List Event → List Event
  | [] => []
  | e :: es => { e with seq := n + 1 } :: numberedFrom (n + 1) es

theorem length_numberedFrom (es : List Event) : ∀ n : Nat,
    (numberedFrom n es).length = es.length := by
  induction es with
  | nil =>
      intro n
      rfl
  | cons e es ih =>
      intro n
      exact congrArg (· + 1) (ih (n + 1))

/-- The numbers are consecutive. -/
theorem seq_numberedFrom (es : List Event) : ∀ n : Nat,
    (numberedFrom n es).map Event.seq = List.range' (n + 1) es.length := by
  induction es with
  | nil =>
      intro n
      rfl
  | cons e es ih =>
      intro n
      exact congrArg ((n + 1) :: ·) (ih (n + 1))

/-- An event that has a time keeps it. -/
theorem Event.admitted_of_timed {e : Event} (h : e.time ≠ none) (seq : Nat) (now : Int) :
    e.admitted seq now = { e with seq } := by
  obtain ⟨t, ht⟩ := Option.ne_none_iff_exists'.mp h
  rw [admitted, ht]
  rfl

/-- A record has at least its line break. -/
theorem Event.written_ne_nil (e : Event) (format : Format) : e.written format ≠ [] := by
  have hbreak : utf8 "\n" ≠ [] := by decide
  cases format with
  | text => exact List.append_ne_nil_of_right_ne_nil _ hbreak
  | ndjson => exact List.append_ne_nil_of_right_ne_nil _ hbreak

/-! ## Rings -/

namespace Ring

/-- The ring after events one after the other; the clock shows `now i` when the `i`-th
arrives. -/
def emitAll (r : Ring) (now : Nat → Int) : List Event → Ring
  | [] => r
  | e :: es => (r.emit (now 0) e).emitAll (fun i => now (i + 1)) es

section

variable {r : Ring} {e : Event}

theorem emit_of_not_admits (h : ¬ r.level.admits e.scope = true) (now : Int) : r.emit now e = r :=
  if_neg h

theorem level_emit (r : Ring) (now : Int) (e : Event) : (r.emit now e).level = r.level := by
  rw [emit]
  split <;> rfl

theorem size_emit (r : Ring) (now : Int) (e : Event) : (r.emit now e).size = r.size := by
  rw [emit]
  split <;> rfl

theorem total_emit (h : r.level.admits e.scope = true) (now : Int) :
    (r.emit now e).total = r.total + 1 := by
  rw [emit, if_pos h]

/-- With room for it, the event gets a slot of its own. -/
theorem slots_emit_room (h : r.level.admits e.scope = true) (hroom : r.slots.size < r.size)
    (now : Int) : (r.emit now e).slots = r.slots.push (e.admitted (r.total + 1) now) := by
  rw [emit, if_pos h]
  exact if_pos hroom

/-- In a full ring the slots are used in turn. -/
theorem slots_emit_full (h : r.level.admits e.scope = true) (hfull : r.slots.size = r.size)
    (now : Int) : (r.emit now e).slots =
      r.slots.setIfInBounds (r.total % r.size) (e.admitted (r.total + 1) now) := by
  rw [emit, if_pos h]
  exact if_neg (Nat.not_lt_of_le (Nat.le_of_eq hfull.symm))

/-- A full ring is read from the slot that is to be written next, all the way round.  At the
moment when the last slot has been filled, that is the first one. -/
theorem snapshot_of_full (hfull : r.slots.size = r.size) (hle : r.size ≤ r.total) :
    r.snapshot = r.slots.toList.rotate r.total := by
  have hlen : r.slots.toList.length = r.size := hfull
  rw [snapshot, List.rotate_eq_drop_append_take_mod, hlen]
  split
  · rename_i htotal
    rw [Nat.le_antisymm htotal hle, Nat.mod_self]
    exact (List.append_nil _).symm
  · rfl

/-- Writing the slot where reading starts replaces the first event read. -/
theorem rotate_set {l : List Event} {x : Event} (hpos : 0 < l.length) (n : Nat) :
    (l.set (n % l.length) x).rotate n = x :: (l.rotate n).tail := by
  have hlt : n % l.length < l.length := Nat.mod_lt n hpos
  have hdrop : l.drop (n % l.length) ≠ [] := by
    intro hnil
    exact Nat.not_le_of_lt hlt (List.drop_eq_nil_iff.mp hnil)
  rw [List.rotate_eq_drop_append_take_mod, List.rotate_eq_drop_append_take_mod, List.length_set,
    List.tail_append_of_ne_nil hdrop, List.tail_drop, List.drop_set, List.take_set,
    if_neg (Nat.lt_irrefl _), Nat.sub_self, List.set_eq_of_length_le (List.length_take_le _ _),
    List.drop_eq_getElem_cons hlt]
  rfl

/-- A full ring gives up its oldest event. -/
theorem snapshot_emit_full (h : r.level.admits e.scope = true) (hpos : 0 < r.size)
    (hfull : r.slots.size = r.size) (hle : r.size ≤ r.total) (now : Int) :
    (r.emit now e).snapshot = r.snapshot.tail ++ [e.admitted (r.total + 1) now] := by
  have hslots := slots_emit_full h hfull now
  have htotal := total_emit h now
  have hsize := size_emit r now e
  have hfull' : (r.emit now e).slots.size = (r.emit now e).size := by
    rw [hslots, hsize, Array.size_setIfInBounds, hfull]
  have hlen : r.slots.toList.length = r.size := hfull
  have hwritten : (r.emit now e).slots.toList =
      r.slots.toList.set (r.total % r.slots.toList.length) (e.admitted (r.total + 1) now) := by
    rw [hslots, hlen]
    exact Array.toList_setIfInBounds
  rw [snapshot_of_full hfull' (by omega), snapshot_of_full hfull hle, htotal, hwritten,
    ← List.rotate_rotate, rotate_set (by omega), List.rotate_cons_succ, List.rotate_zero]

/-- A ring with room grows by the event. -/
theorem snapshot_emit_room (h : r.level.admits e.scope = true) (hroom : r.slots.size < r.size)
    (hlt : r.total < r.size) (now : Int) :
    (r.emit now e).snapshot = r.snapshot ++ [e.admitted (r.total + 1) now] := by
  have hle : r.total + 1 ≤ r.size := hlt
  rw [snapshot, snapshot, total_emit h, size_emit, if_pos hle, if_pos (Nat.le_of_lt hlt),
    slots_emit_room h hroom]
  exact Array.toList_push

end

/-! ## What a ring holds -/

/-- Of all events that a ring has taken in, it holds the last ones. -/
structure Holds (r : Ring) (taken : List Event) : Prop where
  size_pos : 0 < r.size
  total_eq : r.total = taken.length
  slots_size : r.slots.size = min taken.length r.size
  snapshot_eq : r.snapshot = taken.rtake r.size

/-- The number of slots of a ring of the given size. -/
def slotsOf (size : Int) : Nat := if size ≤ 0 then defaultSize else size.toNat

theorem slotsOf_le_iff {size : Int} : slotsOf size ≤ maxSize ↔ size ≤ maxSize := by
  have hdefault : defaultSize ≤ maxSize := by decide
  unfold slotsOf
  split
  · omega
  · omega

theorem new?_of_le {size : Int} (level : Level) (hsize : size ≤ maxSize) :
    new? size level = some ⟨level, slotsOf size, #[], 0⟩ :=
  if_pos (slotsOf_le_iff.mpr hsize)

theorem new?_of_not_le {size : Int} (level : Level) (hsize : ¬ size ≤ maxSize) :
    new? size level = none :=
  if_neg (mt slotsOf_le_iff.mp hsize)

theorem holds_empty (size : Int) (level : Level) : Holds ⟨level, slotsOf size, #[], 0⟩ [] := by
  refine ⟨?_, rfl, rfl, ?_⟩
  · show 0 < if size ≤ 0 then defaultSize else size.toNat
    split
    · decide
    · omega
  · rw [List.rtake_nil]
    rfl

/-- One event more: it is the last one, and the first one goes if there was no room. -/
theorem Holds.emit {r : Ring} {taken : List Event} {e : Event} (h : r.Holds taken)
    (he : r.level.admits e.scope = true) (now : Int) :
    (r.emit now e).Holds (taken ++ [e.admitted (taken.length + 1) now]) := by
  have hsize := r.size_emit now e
  have htotal := total_emit he now
  rw [h.total_eq] at htotal
  have hslots := h.slots_size
  rcases Nat.lt_or_ge taken.length r.size with hlt | hle
  · have hroom : r.slots.size < r.size := by omega
    refine ⟨?_, ?_, ?_, ?_⟩
    · rw [hsize]
      exact h.size_pos
    · rw [htotal, List.length_append, List.length_singleton]
    · rw [slots_emit_room he hroom, hsize, Array.size_push, List.length_append,
        List.length_singleton]
      omega
    · have hrest : (taken ++ [e.admitted (taken.length + 1) now]).length - r.size = 0 := by
        rw [List.length_append, List.length_singleton]
        omega
      rw [snapshot_emit_room he hroom (by rw [h.total_eq]; exact hlt), h.snapshot_eq, h.total_eq,
        hsize, List.rtake, List.rtake, hrest, Nat.sub_eq_zero_of_le (Nat.le_of_lt hlt)]
      rfl
  · have hfull : r.slots.size = r.size := by omega
    refine ⟨?_, ?_, ?_, ?_⟩
    · rw [hsize]
      exact h.size_pos
    · rw [htotal, List.length_append, List.length_singleton]
    · rw [slots_emit_full he hfull, hsize, Array.size_setIfInBounds, List.length_append,
        List.length_singleton]
      omega
    · obtain ⟨k, hk⟩ := Nat.exists_eq_add_one.mpr h.size_pos
      have htail : (taken.rtake r.size).tail = taken.rtake k := by
        rw [List.rtake, List.rtake, List.tail_drop]
        exact congrArg taken.drop (by omega)
      rw [snapshot_emit_full he h.size_pos hfull (by rw [h.total_eq]; exact hle), h.snapshot_eq,
        h.total_eq, hsize, htail, hk, List.rtake_concat_succ]

/-- A run of events: those that the level admits, with their numbers. -/
theorem Holds.emitAll (es : List Event) : ∀ {r : Ring} {taken : List Event},
    r.Holds taken → ∀ now : Nat → Int, (∀ e ∈ es, e.time ≠ none) →
    (r.emitAll now es).Holds (taken ++ numberedFrom taken.length (r.level.select es)) ∧
      (r.emitAll now es).size = r.size := by
  induction es with
  | nil =>
      intro r taken h now _
      refine ⟨?_, rfl⟩
      show r.Holds (taken ++ [])
      rw [List.append_nil]
      exact h
  | cons e es ih =>
      intro r taken h now htimed
      have htime := htimed e List.mem_cons_self
      have hrest : ∀ e' ∈ es, e'.time ≠ none := fun e' he' => htimed e' (List.mem_cons_of_mem e he')
      show ((r.emit (now 0) e).emitAll _ es).Holds _ ∧ ((r.emit (now 0) e).emitAll _ es).size = _
      by_cases hadmits : r.level.admits e.scope = true
      · have hstep := h.emit hadmits (now 0)
        rw [Event.admitted_of_timed htime] at hstep
        obtain ⟨hrun, hsize⟩ := ih hstep (fun i => now (i + 1)) hrest
        refine ⟨?_, hsize.trans (r.size_emit (now 0) e)⟩
        rw [level_emit, List.append_assoc, List.length_append, List.length_singleton] at hrun
        rw [Level.select_cons hadmits]
        exact hrun
      · have hskip : r.level.select (e :: es) = r.level.select es := List.filter_cons_of_neg hadmits
        rw [emit_of_not_admits hadmits, hskip]
        exact ih h _ hrest

end Ring

/-! ## Streams -/

namespace Stream

/-- The records that a stream writes for events, one for each that it takes; the clock shows
`now i` when the `i`-th arrives. -/
def records (s : Stream) (now : Nat → Int) : List Event → List Bytes
  | [] => []
  | e :: es =>
      let emitted := s.emit (now 0) e
      let later := emitted.1.records (fun i => now (i + 1)) es
      if emitted.2.isEmpty then later else emitted.2 :: later

/-- A stream passes over the same events as a ring and gives the same numbers. -/
theorem records_eq (es : List Event) : ∀ (s : Stream) (now : Nat → Int),
    (∀ e ∈ es, e.time ≠ none) →
    s.records now es = (numberedFrom s.seq (s.level.select es)).map (·.written s.format) := by
  induction es with
  | nil =>
      intro s now _
      rfl
  | cons e es ih =>
      intro s now htimed
      have htime := htimed e List.mem_cons_self
      have hrest : ∀ e' ∈ es, e'.time ≠ none := fun e' he' => htimed e' (List.mem_cons_of_mem e he')
      by_cases hadmits : s.level.admits e.scope = true
      · have hemit : s.emit (now 0) e =
            ({ s with seq := s.seq + 1 }, ({ e with seq := s.seq + 1 } : Event).written s.format) := by
          rw [emit, if_pos hadmits, Event.admitted_of_timed htime]
        have hne : (({ e with seq := s.seq + 1 } : Event).written s.format).isEmpty = false :=
          List.isEmpty_eq_false_iff.mpr (Event.written_ne_nil _ _)
        rw [records, hemit, Level.select_cons hadmits]
        dsimp only
        rw [hne, ih _ _ hrest]
        rfl
      · have hskip : s.level.select (e :: es) = s.level.select es := List.filter_cons_of_neg hadmits
        have hemit : s.emit (now 0) e = (s, []) := if_neg hadmits
        rw [records, hemit, hskip]
        exact ih s _ hrest

end Stream

/-! ## Rings and streams -/

/-- What a ring is asked for is what it has: of the events that its level admits it keeps the
last ones, as many as it has slots. -/
theorem Ring.Holds.latest {slots : Nat} {level : Level} {now : Nat → Int} {es : List Event}
    (hstart : Ring.Holds ⟨level, slots, #[], 0⟩ []) (htimed : ∀ e ∈ es, e.time ≠ none) :
    let taken := level.select es
    let kept := min taken.length slots
    let after := Ring.emitAll ⟨level, slots, #[], 0⟩ now es
    after.total = taken.length ∧
      after.snapshot = (numberedFrom 0 taken).drop (taken.length - kept) := by
  intro taken kept after
  obtain ⟨hholds, hsize⟩ := hstart.emitAll es now htimed
  have hlen := length_numberedFrom taken 0
  have hskip : (numberedFrom 0 taken).length - slots = taken.length - kept := by
    omega
  refine ⟨hholds.total_eq.trans hlen, ?_⟩
  rw [hholds.snapshot_eq, hsize, ← hskip]
  rfl

/-- **A ring keeps the latest events.**  There is a ring of every size that a memory has room
for.  Of the events that its level admits it keeps the last ones, as many as it has slots,
oldest first, under consecutive numbers of which the last one is the number of all that it
took in.  Dumped, they are the last records that a stream of the same level and format writes
for the same events, whatever the two clocks show. -/
theorem Ring.emitAll_latest (size : Int) (level : Level) (now : Nat → Int) (es : List Event)
    (htimed : ∀ e ∈ es, e.time ≠ none) :
    (2932031007402 < size → Ring.new? size level = none) ∧
    (size ≤ 2932031007402 → ∃ r, Ring.new? size level = some r ∧
      let slots := if size ≤ 0 then 4096 else size.toNat
      let taken := level.select es
      let kept := min taken.length slots
      let after := r.emitAll now es
      after.total = taken.length ∧
        after.snapshot = (numberedFrom 0 taken).drop (taken.length - kept) ∧
        after.snapshot.map Event.seq = List.range' (taken.length - kept + 1) kept ∧
        ∀ (format : Format) (now' : Nat → Int) (writer : Nat),
          let records := (Stream.new level format writer).records now' es
          records.length = taken.length ∧
            after.dump format = (records.drop (taken.length - kept)).flatten) := by
  have hmax : (2932031007402 : Int) = Ring.maxSize := by decide
  rw [hmax]
  refine ⟨fun hlt => new?_of_not_le level (by omega), fun hle => ?_⟩
  refine ⟨_, new?_of_le level hle, ?_⟩
  intro slots taken kept after
  obtain ⟨htotal, hsnapshot⟩ : after.total = taken.length ∧
      after.snapshot = (numberedFrom 0 taken).drop (taken.length - kept) :=
    (holds_empty size level).latest htimed
  refine ⟨htotal, hsnapshot, ?_, ?_⟩
  · have hkept : taken.length - (taken.length - kept) = kept :=
      Nat.sub_sub_self (Nat.min_le_left _ _)
    rw [hsnapshot, List.map_drop, seq_numberedFrom, List.drop_range', hkept]
    exact congrArg (List.range' · kept) (by omega)
  · intro format now' writer records
    have hrecords : records = (numberedFrom 0 taken).map (·.written format) :=
      Stream.records_eq es _ now' htimed
    refine ⟨?_, ?_⟩
    · rw [hrecords, List.length_map, length_numberedFrom]
    · rw [hrecords, ← List.map_drop, ← hsnapshot]
      rfl

/-- Four events, one of them too fine for the level, in a ring of two slots. -/
theorem Ring.emitAll_latest_overwritten :
    let event (scope : Scope) (name : String) : Event :=
      ⟨some 0, 0, .point, scope, 0, 0, utf8 name, [], []⟩
    let es := [event .driver "a", event .pass "b", event .token "c", event .pass "d"]
    (∀ e ∈ es, e.time ≠ none) ∧ (Level.select ⟨2⟩ es).length = 3 ∧
      ∃ r, Ring.new? 2 ⟨2⟩ = some r ∧
        let after := r.emitAll (fun _ => 7) es
        after.total = 3 ∧
        after.snapshot = [{ event .pass "b" with seq := 2 }, { event .pass "d" with seq := 3 }] ∧
        after.snapshot.map Event.seq = [2, 3] ∧
        after.dump .text =
          (((Stream.new ⟨2⟩ .text 0).records (fun _ => 8) es).drop 1).flatten := by
  intro event es
  have htimed : ∀ e ∈ es, e.time ≠ none := by decide
  obtain ⟨r, hr, htotal, hsnapshot, hseq, hdump⟩ :=
    (Ring.emitAll_latest 2 ⟨2⟩ (fun _ => 7) es htimed).2 (by decide)
  exact ⟨htimed, rfl, r, hr, htotal, hsnapshot, hseq, (hdump .text (fun _ => 8) 0).2⟩

/-- No memory has room for a ring of the largest size that can be named. -/
theorem Ring.new?_largest : Ring.new? 9223372036854775807 ⟨1⟩ = none := by
  decide

end LineLexer.Trace
