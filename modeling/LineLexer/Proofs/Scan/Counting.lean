/-
# `Proofs.Scan.Counting` — lines are counted in a word

A scanner reads the line whose number is in a word of 32 bits, and a cursor keeps its column
in one.  For a column that is wide enough: on every line that can be read, reading with a
cursor has the results of the line (`Line.walk_eq_scan`), although the column may wrap around
behind the last character.

For the lines it is wide enough where the length of the buffer fits a word and the number
behind its last line does (`File.Scannable`).  A scanner then follows the delivery of all its
lines (`Scanner.shadow`): each call comes to an end and does what the same call does there
(`Scanner.next_follows`, `Scanner.drain_follows`).
-/
import LineLexer.Proofs.Scan.Delivery
import LineLexer.Scan.Scanner

namespace LineLexer

/-! ## Columns -/

/-- The cursor stands at a mark, whose column may be one too high for a word at the end of
the line. -/
structure Cursor.StandsAt (c : Cursor) (m : Mark) : Prop where
  off_eq : c.off = m.off
  col_eq : c.col.toNat = m.col % 0x100000000
  col_pos : 1 ≤ m.col
  room : m.col + c.ahead.length ≤ 0x100000000

namespace Cursor.StandsAt

variable {c : Cursor} {m : Mark}

theorem ofText {s : Bytes} (h : s.charCount < 0x100000000) :
    (Cursor.ofText s).StandsAt .start := by
  refine ⟨rfl, rfl, Nat.le_refl 1, ?_⟩
  show 1 + s.charCount ≤ 0x100000000
  omega

theorem mark_eq (h : c.StandsAt m) (hne : c.ahead ≠ []) : c.mark = m := by
  have hpos := List.length_pos_iff.mpr hne
  have hroom := h.room
  have hcol : c.col.toNat = m.col := by
    rw [h.col_eq]
    exact Nat.mod_eq_of_lt (by omega)
  rw [Cursor.mark, h.off_eq, hcol]

/-- The column of the last character is the same, whether or not the one behind it has
wrapped around. -/
theorem eol_eq (h : c.StandsAt m) : c.eol = m := by
  have hcol := h.col_eq
  have hpos := h.col_pos
  have hroom := h.room
  have hlast : (c.col - 1).toNat + 1 = m.col := by
    rw [UInt32.toNat_sub]
    have hone : (1 : UInt32).toNat = 1 := rfl
    omega
  rw [Cursor.eol, h.off_eq, hlast]

theorem bump (h : c.StandsAt m) {g : Glyph} {rest : List Glyph} (hahead : c.ahead = g :: rest) :
    c.bump.StandsAt (m.past g) := by
  have hroom := h.room
  have hcol := h.col_eq
  rw [hahead, List.length_cons] at hroom
  rw [Cursor.bump, hahead]
  refine ⟨congrArg (· + g.size) h.off_eq, ?_, Nat.succ_le_succ (Nat.zero_le _), ?_⟩
  · show (c.col + 1).toNat = (m.col + 1) % 0x100000000
    rw [UInt32.toNat_add]
    have hone : (1 : UInt32).toNat = 1 := rfl
    omega
  · show m.col + 1 + rest.length ≤ 0x100000000
    omega

end Cursor.StandsAt

namespace Line

/-- A cursor takes the machine through the characters ahead, one by one. -/
theorem walkFrom_eq (ln : Line) (gs : List Glyph) : ∀ {c : Cursor} {m : Mark} (st : State),
    c.ahead = gs → c.StandsAt m → ln.walkFrom st c = ln.run st m gs := by
  induction gs with
  | nil =>
      intro c m st hahead h
      have hpeek : c.peek? = none := by
        rw [Cursor.peek?, hahead]
        rfl
      rw [walkFrom]
      split
      · rw [h.eol_eq]
        rfl
      · rename_i g hsome
        rw [hpeek] at hsome
        cases hsome
  | cons g gs ih =>
      intro c m st hahead h
      have hpeek : c.peek? = some g := by
        rw [Cursor.peek?, hahead]
        rfl
      have hrest : c.bump.ahead = gs := by rw [Cursor.bump, hahead]
      have hmark : c.mark = m := h.mark_eq (hahead ▸ List.cons_ne_nil g gs)
      rw [walkFrom]
      split
      · rename_i hnone
        rw [hpeek] at hnone
        cases hnone
      · rename_i g' hsome
        obtain rfl : g = g' := Option.some.inj (hpeek.symm.trans hsome)
        rw [hmark]
        exact congrArg (_ ++ ·) (ih (ln.step m g st).1 hrest (h.bump hahead))

/-- A line that is short enough to be read has its results, read with a cursor. -/
theorem walk_eq_scan {ln : Line} (h : ln.text.length < 0x100000000) : ln.walk = ln.scan :=
  ln.walkFrom_eq _ .clean rfl (.ofText (Nat.lt_of_le_of_lt ln.text.charCount_le_length h))

end Line

/-! ## Buffers that can be scanned -/

namespace File

/-- The length of the buffer and the number behind its last line fit a word. -/
def Scannable (f : File) : Prop :=
  f.content.length < 0x100000000 ∧ f.lineCount < 0xFFFFFFFF

instance (f : File) : Decidable f.Scannable := inferInstanceAs (Decidable (_ ∧ _))

/-- Whether the lines can be counted is a matter of the content. -/
theorem scannable_congr {f g : File} (h : f.content = g.content) : f.Scannable ↔ g.Scannable := by
  rw [Scannable, Scannable, lineCount_eq, lineCount_eq, h]

/-- The lines from a number on, with their results. -/
def scannedFrom (f : File) (n : Nat) : List ScannedLine :=
  (List.range' n (f.lineCount + 1 - n)).map fun k => ⟨k, (f.lineAt k).scan⟩

theorem scannedFrom_one (f : File) :
    f.scannedFrom 1 = f.lines.map fun ln => ⟨ln.num, ln.scan⟩ := by
  rw [lines_eq_map, List.map_map, scannedFrom, Nat.add_sub_cancel]
  rfl

theorem scannedFrom_cons {f : File} {n : Nat} (h : n ≤ f.lineCount) :
    f.scannedFrom n = ⟨n, (f.lineAt n).scan⟩ :: f.scannedFrom (n + 1) := by
  rw [scannedFrom, scannedFrom, Nat.add_sub_add_right, Nat.succ_sub h, List.range'_succ,
    List.map_cons]

theorem scannedFrom_nil {f : File} {n : Nat} (h : f.lineCount < n) : f.scannedFrom n = [] := by
  rw [scannedFrom, Nat.sub_eq_zero_of_le h]
  rfl

/-- No line is longer than its buffer. -/
theorem length_text_le {f : File} {l : Line} (h : l ∈ f.lines) :
    l.text.length ≤ f.content.length := by
  obtain ⟨-, pre, post, hstands⟩ := standsIn_of_mem_lines h
  exact Nat.le_trans (Nat.le_add_left _ _) hstands.end_le

end File

/-! ## Reading lines -/

/-- The lines `front` are read before the lines `rest`: all but the last are without results,
and the last one has some, or there is nothing behind. -/
inductive Fetched : List ScannedLine → List ScannedLine → Prop
  | end : Fetched [] []
  | stop {ln : ScannedLine} {rest : List ScannedLine} : ln.results ≠ [] → Fetched [ln] rest
  | pass {ln : ScannedLine} {front rest : List ScannedLine} :
      ln.results = [] → Fetched front rest → Fetched (ln :: front) rest

namespace Delivery

/-- The delivery with one of its lines opened. -/
def opened (d : Delivery) (ln : ScannedLine) : Delivery :=
  { d with pending := ln.results, stats := { d.stats with lines := d.stats.lines + 1 } }

section

variable {d : Delivery} {ln : ScannedLine}

/-- What lies ahead has no say in which lines are opened. -/
theorem seek_onto (d : Delivery) (ahead lns : List ScannedLine) :
    (d.onto ahead).seek lns = d.seek lns := by
  cases lns <;> rfl

theorem seek_stop (h : ln.results ≠ []) (rest : List ScannedLine) :
    d.seek (ln :: rest) = ((d.opened ln).onto rest, d.note (lineAction ln)) := by
  rw [seek, List.isEmpty_eq_false_iff.mpr h]
  rfl

theorem seek_pass (h : ln.results = []) (rest : List ScannedLine) :
    d.seek (ln :: rest) = (((d.opened ln).seek rest).1,
      d.note (lineAction ln) ++ ((d.opened ln).seek rest).2) := by
  rw [seek, List.isEmpty_iff.mpr h, ← seek_onto (d.opened ln) rest rest]
  rfl

end

/-- Opening lines stops with those that are fetched. -/
theorem seek_fetched {front rest : List ScannedLine} (h : Fetched front rest) :
    ∀ d : Delivery, (d.seek front).1.ahead = [] ∧
      d.seek (front ++ rest) = ((d.seek front).1.onto rest, (d.seek front).2) := by
  induction h with
  | «end» =>
      intro d
      exact ⟨rfl, rfl⟩
  | stop hne =>
      intro d
      rw [List.singleton_append, seek_stop hne, seek_stop hne]
      exact ⟨rfl, rfl⟩
  | pass hnil _ ih =>
      intro d
      obtain ⟨hahead, hseek⟩ := ih (d.opened _)
      rw [List.cons_append, seek_pass hnil, seek_pass hnil, hseek]
      exact ⟨hahead, rfl⟩

theorem deliver_onto (d : Delivery) (ahead : List ScannedLine) :
    (d.onto ahead).deliver = (d.deliver.1, d.deliver.2.1.onto ahead, d.deliver.2.2) ∧
      d.deliver.2.1.ahead = d.ahead := by
  obtain ⟨file, level, lns, pending, begun, stats, done⟩ := d
  cases pending <;> exact ⟨rfl, rfl⟩

/-- A call where nothing is pending: it begins the record, opens lines and delivers. -/
theorem next_opening {d : Delivery} (hpending : d.pending = []) (hdone : d.done = false)
    (ahead : List ScannedLine) :
    let d' : Delivery := ⟨d.file, d.level, [], [], true, d.stats, false⟩
    (d.onto ahead).next = ((d'.seek ahead).1.deliver.1, (d'.seek ahead).1.deliver.2.1,
      (if d.begun then [] else d.note (.begin d.file.name)) ++ (d'.seek ahead).2 ++
        (d'.seek ahead).1.deliver.2.2) := by
  obtain ⟨file, level, lns, pending, begun, stats, done⟩ := d
  obtain rfl : pending = [] := hpending
  obtain rfl : done = false := hdone
  intro d'
  rw [← seek_onto d' ahead ahead]
  rfl

/-- Where the lines that are fetched are all that a call opens, it does the same without the
others. -/
theorem next_fetched {front rest : List ScannedLine} (h : Fetched front rest) {d : Delivery}
    (hpending : d.pending = []) (hdone : d.done = false) :
    (d.onto (front ++ rest)).next =
        ((d.onto front).next.1, (d.onto front).next.2.1.onto rest, (d.onto front).next.2.2) ∧
      (d.onto front).next.2.1.ahead = [] := by
  let d' : Delivery := ⟨d.file, d.level, [], [], true, d.stats, false⟩
  obtain ⟨hahead, hseek⟩ := seek_fetched h d'
  obtain ⟨hdeliver, hkeep⟩ := deliver_onto (d'.seek front).1 rest
  rw [next_opening hpending hdone, next_opening hpending hdone, hseek]
  dsimp only
  rw [hdeliver]
  exact ⟨rfl, hkeep.trans hahead⟩

/-- Where results are pending, and behind the end, no line is opened. -/
theorem next_onto {d : Delivery} (h : d.pending ≠ [] ∨ d.done = true)
    (ahead : List ScannedLine) :
    (d.onto ahead).next = (d.next.1, d.next.2.1.onto ahead, d.next.2.2) ∧
      d.next.2.1.ahead = d.ahead := by
  obtain ⟨file, level, lns, pending, begun, stats, done⟩ := d
  cases pending with
  | cons r rs => exact ⟨rfl, rfl⟩
  | nil =>
      obtain rfl : done = true := h.resolve_left (not_not_intro rfl)
      exact ⟨rfl, rfl⟩

/-- A call stays with its buffer. -/
theorem next_file (d : Delivery) : d.next.2.1.file = d.file := by
  have hseek : ∀ (lns : List ScannedLine) (d : Delivery), (d.seek lns).1.file = d.file := by
    intro lns
    induction lns with
    | nil =>
        intro d
        rfl
    | cons ln lns ih =>
        intro d
        rw [seek]
        dsimp only
        split
        · exact ih _
        · rfl
  have hdeliver : ∀ d : Delivery, d.deliver.2.1.file = d.file := by
    intro d
    rw [deliver]
    cases d.pending <;> rfl
  rw [next]
  split
  · exact hdeliver d
  · split
    · rfl
    · exact (hdeliver _).trans (hseek _ _)

/-- A call that delivers nothing has reported the end. -/
theorem done_of_next {d : Delivery} (h : d.next.1 = none) : d.next.2.1.done = true := by
  have hdeliver : ∀ d : Delivery, d.deliver.1 = none → d.deliver.2.1.done = true := by
    intro d
    rw [deliver]
    cases d.pending with
    | nil => exact fun _ => rfl
    | cons r rs => exact fun h => absurd h (Option.some_ne_none r)
  revert h
  rw [next]
  split
  · exact hdeliver d
  · split
    · exact fun _ => ‹_›
    · exact hdeliver _

end Delivery

namespace File

/-- A line that there is is read under its number. -/
theorem numbered_eq {f : File} {n : UInt32} (hpos : 1 ≤ n.toNat) (hle : n.toNat ≤ f.lineCount) :
    f.numbered f.lines.toArray n = f.lineAt n.toNat := by
  have hne : n ≠ 0 := by
    rintro rfl
    exact absurd hpos (by decide)
  have hlt : n.toNat - 1 < (List.range' 1 f.lineCount).length := by
    rw [List.length_range']
    omega
  have hline : f.lines.toArray[n.toNat - 1]? = some (f.lineAt n.toNat) := by
    rw [List.getElem?_toArray, f.lines_eq_map, List.getElem?_map, List.getElem?_eq_getElem hlt,
      List.getElem_range']
    have hnum : 1 + 1 * (n.toNat - 1) = n.toNat := by omega
    rw [hnum]
    rfl
  rw [numbered, if_neg hne, hline]
  rfl

theorem toNat_succ {n : UInt32} (h : n.toNat < 0xFFFFFFFF) : (n + 1).toNat = n.toNat + 1 := by
  rw [UInt32.toNat_add]
  have hone : (1 : UInt32).toNat = 1 := rfl
  omega

/-- **Reading lines** of a buffer whose lines can be counted comes to an end, by induction on
the number of the lines to come. -/
theorem fetch_spec {f : File} (hf : f.Scannable) (k : Nat) : ∀ {n : UInt32},
    1 ≤ n.toNat → n.toNat + k = f.lineCount + 1 →
    ∃ front behind, f.fetch f.lines.toArray n = some (front, behind) ∧
      f.scannedFrom n.toNat = front ++ f.scannedFrom behind.toNat ∧
      Fetched front (f.scannedFrom behind.toNat) ∧
      1 ≤ behind.toNat ∧ behind.toNat ≤ f.lineCount + 1 := by
  obtain ⟨hlength, hcount⟩ := hf
  have hsize : f.lines.toArray.size = f.lineCount := by
    rw [List.size_toArray, f.length_lines]
  induction k with
  | zero =>
      intro n hpos hn
      have hnil : f.scannedFrom n.toNat = [] := scannedFrom_nil (by omega)
      refine ⟨[], n, ?_, rfl, ?_, hpos, by omega⟩
      · rw [fetch, hsize]
        exact if_pos (by omega)
      · rw [hnil]
        exact .end
  | succ k ih =>
      intro n hpos hn
      have hmem : f.lineAt n.toNat ∈ f.lines := by
        rw [f.lines_eq_map]
        exact List.mem_map_of_mem (List.mem_range'_1.mpr ⟨hpos, by omega⟩)
      have hwalk : (f.numbered f.lines.toArray n).walk = (f.lineAt n.toNat).scan := by
        rw [numbered_eq hpos (by omega)]
        exact Line.walk_eq_scan (Nat.lt_of_le_of_lt (length_text_le hmem) hlength)
      have hnext := toNat_succ (n := n) (by omega)
      have hcons := scannedFrom_cons (f := f) (n := n.toNat) (by omega)
      rw [fetch, if_neg (by omega)]
      dsimp only
      rw [hwalk]
      cases hscan : (f.lineAt n.toNat).scan with
      | nil =>
          obtain ⟨front, behind, hfetch, hsplit, hfetched, hbounds⟩ :=
            ih (n := n + 1) (by omega) (by omega)
          rw [hscan, ← hnext, hsplit] at hcons
          refine ⟨⟨n.toNat, []⟩ :: front, behind, ?_, hcons, .pass rfl hfetched, hbounds⟩
          rw [List.isEmpty_nil, if_pos rfl, hfetch]
          rfl
      | cons r rs =>
          rw [hscan, ← hnext] at hcons
          exact ⟨[⟨n.toNat, r :: rs⟩], n + 1, rfl, hcons, .stop (List.cons_ne_nil r rs), by omega,
            by omega⟩

end File

/-! ## A scanner that can count its lines -/

namespace Scanner

/-- The lines of the buffer can be counted, and those before the one to be read next have
been opened. -/
structure Counts (s : Scanner) : Prop where
  scannable : s.delivery.file.Scannable
  lines_eq : s.lines? = some s.delivery.file.lines.toArray
  upcoming_pos : 1 ≤ s.upcoming.toNat
  upcoming_le : s.upcoming.toNat ≤ s.delivery.file.lineCount + 1
  ahead_eq : s.delivery.ahead = []

/-- The delivery of all lines that a scanner has before it. -/
def shadow (s : Scanner) : Delivery :=
  s.delivery.onto (s.delivery.file.scannedFrom s.upcoming.toNat)

theorem counts_new {f : File} (hf : f.Scannable) (level : Trace.Level) : (new f level).Counts := by
  refine ⟨hf, ?_, Nat.le_refl 1, Nat.le_add_left 1 f.lineCount, rfl⟩
  rw [new, File.lines?_eq hf.1]
  rfl

theorem shadow_new (f : File) (level : Trace.Level) : (new f level).shadow = .new f level :=
  congrArg (Delivery.ofLines f level) f.scannedFrom_one

/-- A call on a scanner comes to an end and does what the same call does on a delivery. -/
def Follows {α : Type} (called : Option (α × Scanner × List Signal))
    (given : α × Delivery × List Signal) : Prop :=
  ∃ s, called = some (given.1, s, given.2.2) ∧ s.Counts ∧ s.shadow = given.2.1

/-- What is done after a call that follows. -/
theorem Follows.bind {α β : Type} {called : Option (α × Scanner × List Signal)}
    {given : α × Delivery × List Signal} {given' : β × Delivery × List Signal}
    {go : α × Scanner × List Signal → Option (β × Scanner × List Signal)} (h : Follows called given)
    (hgo : ∀ s, s.Counts → s.shadow = given.2.1 → Follows (go (given.1, s, given.2.2)) given') :
    Follows (called.bind go) given' := by
  obtain ⟨s, rfl, hcounts, hshadow⟩ := h
  exact hgo s hcounts hshadow

/-- **One call** on a scanner that can count its lines. -/
theorem next_follows {s : Scanner} (h : s.Counts) : Follows s.next s.shadow.next := by
  obtain ⟨d, lines?, upcoming⟩ := s
  obtain ⟨hscannable, hlines, hpos, hle, hahead⟩ := h
  obtain rfl : lines? = some d.file.lines.toArray := hlines
  rw [next, shadow]
  split
  · rename_i hopen
    rw [Bool.and_eq_true, List.isEmpty_iff, Bool.not_eq_true'] at hopen
    obtain ⟨hpending, hdone⟩ := hopen
    obtain ⟨front, behind, hfetch, hsplit, hfetched, hbehind⟩ :=
      File.fetch_spec hscannable _ hpos (Nat.add_sub_of_le hle)
    obtain ⟨hnext, hused⟩ := Delivery.next_fetched hfetched hpending hdone
    have hfile : (d.onto front).next.2.1.file = d.file := Delivery.next_file (d.onto front)
    refine ⟨⟨(d.onto front).next.2.1, some d.file.lines.toArray, behind⟩, ?_,
      ⟨?_, ?_, hbehind.1, ?_, hused⟩, ?_⟩
    · show (d.file.fetch d.file.lines.toArray upcoming).bind _ = _
      rw [hfetch, hsplit, hnext]
      rfl
    · rwa [hfile]
    · rw [hfile]
    · rw [hfile]
      exact hbehind.2
    · rw [shadow, hfile, hsplit, hnext]
  · rename_i hclosed
    have hkept : d.pending ≠ [] ∨ d.done = true := by
      rw [Bool.not_eq_true, Bool.and_eq_false_iff, List.isEmpty_eq_false_iff,
        Bool.not_eq_false'] at hclosed
      exact hclosed
    obtain ⟨hnext, hused⟩ := Delivery.next_onto hkept (d.file.scannedFrom upcoming.toNat)
    have hfile := Delivery.next_file d
    refine ⟨⟨d.next.2.1, some d.file.lines.toArray, upcoming⟩, ?_,
      ⟨?_, ?_, hpos, ?_, hused.trans hahead⟩, ?_⟩
    · rw [hnext]
    · rwa [hfile]
    · rw [hfile]
    · rwa [hfile]
    · rw [shadow, hfile, hnext]

/-- Up to `n` calls. -/
theorem take_follows (n : Nat) : ∀ {s : Scanner}, s.Counts →
    Follows (s.take n) (s.shadow.take n) := by
  induction n with
  | zero => exact fun h => ⟨_, rfl, h, rfl⟩
  | succ n ih =>
      intro s h
      rw [Delivery.take]
      refine (next_follows h).bind fun s' hcounts hshadow => ?_
      rcases hd : s.shadow.next with ⟨_ | r, d, signals⟩
      · rw [hd] at hshadow
        exact ⟨s', rfl, hcounts, hshadow⟩
      · rw [hd] at hshadow
        obtain rfl : s'.shadow = d := hshadow
        exact (ih hcounts).bind fun s'' hcounts' hshadow' => ⟨s'', rfl, hcounts', hshadow'⟩

/-- **Draining** a scanner that can count its lines comes to an end, by induction on the
number of results to come. -/
theorem drain_follows_take (n : Nat) : ∀ {s : Scanner}, s.Counts → s.shadow.Settled →
    s.shadow.rest.length < n → Follows s.drain (s.shadow.take n) := by
  induction n with
  | zero => exact fun _ _ h => absurd h (Nat.not_lt_zero _)
  | succ n ih =>
      intro s h hs hlt
      rw [drain, Delivery.take]
      refine (next_follows h).bind fun s' hcounts hshadow => ?_
      rcases Delivery.next_yields hs with ⟨r, d, signals, hd, hyields, -⟩ | ⟨d, signals, hd, -⟩
      · rw [hd] at hshadow ⊢
        obtain rfl : s'.shadow = d := hshadow
        have hrest := congrArg List.length hyields.rest_eq
        rw [List.singleton_append, List.length_cons] at hrest
        exact (ih hcounts hyields.settled (by omega)).bind
          fun s'' hcounts' hshadow' => ⟨s'', rfl, hcounts', hshadow'⟩
      · rw [hd] at hshadow ⊢
        exact ⟨s', rfl, hcounts, hshadow⟩

theorem drain_follows {s : Scanner} (h : s.Counts) (hs : s.shadow.Settled) :
    Follows s.drain s.shadow.drain :=
  drain_follows_take _ h hs s.shadow.length_rest_lt

/-- **A buffer whose lines can be counted** is scanned to its end. -/
theorem drain_new {f : File} (hf : f.Scannable) (level : Trace.Level) :
    ∃ s signals, (new f level).drain = some (f.results, s, signals) ∧ s.stats = f.stats ∧
      s.done = true ∧ findingsOf signals = f.findings := by
  obtain ⟨d, signals, hd, hstats, hdone, hfindings⟩ := Delivery.drain_new f level
  have hfollows := drain_follows (counts_new hf level)
  rw [shadow_new, hd] at hfollows
  obtain ⟨s, hdrain, -, rfl⟩ := hfollows (Delivery.settled_new f level)
  exact ⟨s, signals, hdrain, hstats, hdone, hfindings⟩

end Scanner

end LineLexer
