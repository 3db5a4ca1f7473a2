/-
# `Proofs.Diagnostic.Accounting` — every finding offered to a bag is accounted for

A bag is changed by adding a finding, by merging another bag, by sorting and by
removing repeats (`Bag.Step`).  Whatever is done to it, and in whatever order, a
finding that was ever offered is kept, counted as dropped, or was removed as a
repeat, and it is only one of the three (`Bag.run_accounts`).

Adding many findings is to take those that there is room for and to count the
rest (`Bag.addAll_eq`); merging is the same, after the limit has been raised
(`Bag.merge_eq`).  One step keeps a bag within its limits, lowers no limit and
balances the account (`Bag.Bounded.step`), and so does a run of them.

The count is kept in 64 bits, and a merge adds two counts.  So it is the number of
the dropped findings only as long as that fits.  Two bags that are merged into each
other in turn grow like the Fibonacci numbers, and after 91 merges it does not
(`Bag.run_wraps`).
-/
import Mathlib.Data.Nat.Fib.Basic
import LineLexer.Diagnostic.Bag

namespace LineLexer

namespace Bag

/-! ## Adding many findings -/

/-- A full bag counts the finding. -/
theorem add_of_le {b : Bag} (h : b.limit ≤ b.size) (d : Diagnostic) :
    b.add d = { b with dropped := b.dropped + 1 } :=
  if_pos (decide_eq_true h)

/-- A bag with room takes the finding. -/
theorem add_of_lt {b : Bag} (h : b.size < b.limit) (d : Diagnostic) :
    b.add d = { b with items := b.items.push d } :=
  if_neg fun hfull => absurd h (Nat.not_lt_of_le (of_decide_eq_true hfull))

/-- As many findings are taken as there is room for, and the others are counted. -/
theorem addAll_eq (ds : List Diagnostic) : ∀ b : Bag,
    b.addAll ds = ⟨b.items ++ (ds.take (b.limit - b.size)).toArray, b.limit,
      b.dropped + .ofNat (ds.length - (b.limit - b.size))⟩ := by
  induction ds with
  | nil =>
      intro b
      rw [List.take_nil, List.length_nil, Nat.zero_sub]
      show b = ⟨b.items ++ #[], b.limit, b.dropped + 0⟩
      rw [Array.append_empty, Int64.add_zero]
  | cons d ds ih =>
      intro b
      show (b.add d).addAll ds = _
      rcases Nat.lt_or_ge b.size b.limit with hlt | hle
      · -- the finding takes up one place
        have hroom : b.limit - b.size = b.limit - (b.items.push d).size + 1 := by
          rw [Array.size_push]
          exact (Nat.sub_add_cancel (Nat.sub_pos_of_lt hlt)).symm
        rw [add_of_lt hlt, ih, hroom, List.take_succ_cons, List.length_cons,
          Nat.add_sub_add_right]
        simp [size]
      · have hroom : b.limit - b.size = 0 := Nat.sub_eq_zero_of_le hle
        rw [add_of_le hle, ih]
        show Bag.mk (b.items ++ (ds.take (b.limit - b.size)).toArray) b.limit
          (b.dropped + 1 + .ofNat (ds.length - (b.limit - b.size))) = _
        rw [hroom, List.take_zero, List.take_zero, List.length_cons, Nat.sub_zero, Nat.sub_zero,
          Int64.ofNat_add, Int64.add_assoc, Int64.add_comm 1]
        rfl

/-- An empty bag takes the first findings, up to its limit. -/
theorem withLimit_addAll (max : Int) (ds : List Diagnostic) :
    let cap := min max.toNat bagCeiling
    (withLimit max).addAll ds = ⟨(ds.take cap).toArray, cap, .ofNat (ds.length - cap)⟩ := by
  intro cap
  rw [addAll_eq]
  show Bag.mk (#[] ++ (ds.take cap).toArray) cap (0 + .ofNat (ds.length - cap)) = _
  rw [Array.empty_append, Int64.zero_add]

/-! ## Merging -/

/-- The limit that a bag has after it was to hold `total` findings: the old one
if they fit, and else as many as are allowed. -/
def limitFor (b : Bag) (total : Nat) : Nat :=
  if total ≤ b.limit then b.limit else min total bagCeiling

theorem raise_eq (b : Bag) (total : Nat) :
    b.raise total = { b with limit := b.limitFor total } := by
  unfold raise limitFor
  by_cases h : total ≤ b.limit
  · rw [if_neg (Nat.not_lt_of_le h), if_pos h]
  · rw [if_pos (Nat.lt_of_not_le h), if_neg h]

theorem le_limitFor (b : Bag) {total : Nat} (h : total ≤ bagCeiling) : total ≤ b.limitFor total := by
  unfold limitFor
  split
  · assumption
  · exact Nat.le_min.mpr ⟨Nat.le_refl _, h⟩

/-- The items of the other bag are taken as far as the raised limit allows. -/
theorem merge_eq (b other : Bag) :
    let room := b.limitFor (b.size + other.size) - b.size
    b.merge other = ⟨b.items ++ (other.items.toList.take room).toArray,
      b.limitFor (b.size + other.size),
      b.dropped + .ofNat (other.size - room) + other.dropped⟩ := by
  intro room
  rw [merge, takeItems, Array.length_toList, raise_eq, addAll_eq, Array.length_toList]
  rfl

/-- Below the ceiling nothing is lost in a merge. -/
theorem toList_merge_of_le (b other : Bag) (h : b.size + other.size ≤ bagCeiling) :
    (b.merge other).items.toList = b.items.toList ++ other.items.toList := by
  have hroom : other.items.toList.length ≤ b.limitFor (b.size + other.size) - b.size := by
    have hle := b.le_limitFor h
    have hsize : other.items.toList.length = other.size := Array.length_toList
    omega
  rw [merge_eq, List.take_of_length_le hroom, Array.toList_append]

/-- The bag is within its limit, and the limit within the ceiling. -/
structure Bounded (b : Bag) : Prop where
  size_le : b.size ≤ b.limit
  limit_le : b.limit ≤ bagCeiling

theorem bounded_withLimit (limit : Int) : (withLimit limit).Bounded :=
  ⟨Nat.zero_le _, Nat.min_le_right _ _⟩

/-- Raising a limit does not lower it, and the ceiling holds. -/
theorem Bounded.limitFor_mem {b : Bag} (h : b.Bounded) (total : Nat) :
    b.limit ≤ b.limitFor total ∧ b.limitFor total ≤ bagCeiling := by
  have hle := h.limit_le
  unfold limitFor
  split
  · exact ⟨Nat.le_refl _, hle⟩
  · exact ⟨Nat.le_min.mpr ⟨by omega, hle⟩, Nat.min_le_right _ _⟩

/-- After a merge the bag holds the first items of both, as many as it may. -/
theorem Bounded.toList_merge {b : Bag} (h : b.Bounded) (other : Bag) :
    (b.merge other).items.toList =
      (b.items.toList ++ other.items.toList).take (b.limitFor (b.size + other.size)) := by
  obtain ⟨hraise, -⟩ := h.limitFor_mem (b.size + other.size)
  have hsize : b.items.toList.length = b.size := Array.length_toList
  have hall : b.items.toList.length ≤ b.limitFor (b.size + other.size) := by
    rw [hsize]
    exact Nat.le_trans h.size_le hraise
  rw [merge_eq, List.take_append, List.take_of_length_le hall, hsize, Array.toList_append]

/-! ## Sorting and removing repeats -/

theorem size_sort (b : Bag) : b.sort.size = b.size := by
  show (b.items.toList.mergeSort _).toArray.size = b.items.size
  rw [List.size_toArray, List.length_mergeSort, Array.length_toList]

/-- Removing repeats takes elements out and leaves the others in order. -/
theorem distinctFrom_sublist {α κ : Type} [BEq κ] [Hashable κ] (key : α → κ) (xs : List α) :
    ∀ seen : Std.HashSet κ, (distinctFrom key seen xs).Sublist xs := by
  induction xs with
  | nil =>
      intro seen
      exact List.Sublist.slnil
  | cons x xs ih =>
      intro seen
      rw [distinctFrom]
      split
      · exact (ih seen).cons x
      · exact (ih _).cons_cons x

theorem size_dedup_le (b : Bag) : b.dedup.size ≤ b.size := by
  show (distinctBy _ b.items.toList).toArray.size ≤ b.items.size
  rw [List.size_toArray, ← Array.length_toList]
  exact (distinctFrom_sublist _ _ ∅).length_le

/-! ## Steps and runs -/

/-- What can be done to a bag. -/
inductive Step
  | add (d : Diagnostic)
  | merge (other : Bag)
  | sort
  | dedup

/-- The bag after a step. -/
def step (b : Bag) : Step → Bag
  | .add d => b.add d
  | .merge other => b.merge other
  | .sort => b.sort
  | .dedup => b.dedup

/-- The number of findings that a step offers to a bag.  A bag that is merged
brings along the findings that it says it has dropped. -/
def Step.offered : Step → Int
  | .add _ => 1
  | .merge other => other.size + other.dropped.toInt
  | .sort => 0
  | .dedup => 0

/-- The number of repeats that a step removes from the bag `b`. -/
def Step.removed (b : Bag) : Step → Nat
  | .dedup => b.size - b.dedup.size
  | _ => 0

/-- The bag after steps, one after the other. -/
def run (b : Bag) : List Step → Bag
  | [] => b
  | s :: steps => (b.step s).run steps

/-- The number of findings that steps offer, all together. -/
def offered : List Step → Int
  | [] => 0
  | s :: steps => s.offered + offered steps

/-- The number of repeats that steps remove, all together, from `b` on. -/
def removed (b : Bag) : List Step → Nat
  | [] => 0
  | s :: steps => s.removed b + (b.step s).removed steps

/-- The way from `b` to `b'`, on which so many findings were offered and so many
repeats removed: it stays within the limits, lowers none, and what it loses is
added to the count. -/
structure Leads (b : Bag) (offered : Int) (removed : Nat) (b' : Bag) : Prop where
  bounded : b'.Bounded
  limit_le : b.limit ≤ b'.limit
  account : b'.dropped = b.dropped + .ofInt (b.size + offered - b'.size - removed)

theorem Leads.trans {b b' b'' : Bag} {m m' : Int} {n n' : Nat} (h : b.Leads m n b')
    (h' : b'.Leads m' n' b'') : b.Leads (m + m') (n + n') b'' := by
  refine ⟨h'.bounded, Nat.le_trans h.limit_le h'.limit_le, ?_⟩
  rw [h'.account, h.account, Int64.add_assoc, ← Int64.ofInt_add]
  congr 2
  push_cast
  omega

namespace Bounded

variable {b : Bag}

theorem add (h : b.Bounded) (d : Diagnostic) : b.Leads 1 0 (b.add d) := by
  rcases Nat.lt_or_ge b.size b.limit with hlt | hle
  · have hsize : (b.items.push d).size = b.size + 1 := Array.size_push d
    rw [add_of_lt hlt]
    refine ⟨⟨?_, h.limit_le⟩, Nat.le_refl _, ?_⟩
    · show (b.items.push d).size ≤ b.limit
      omega
    · have hzero : (b.size + 1 - (b.items.push d).size - (0 : Nat) : Int) = 0 := by omega
      show b.dropped = b.dropped + .ofInt (b.size + 1 - (b.items.push d).size - (0 : Nat))
      rw [hzero]
      exact (Int64.add_zero _).symm
  · have hone : (b.size + 1 - b.size - (0 : Nat) : Int) = 1 := by omega
    rw [add_of_le hle]
    refine ⟨⟨h.size_le, h.limit_le⟩, Nat.le_refl _, ?_⟩
    show b.dropped + 1 = b.dropped + .ofInt (b.size + 1 - b.size - (0 : Nat))
    rw [hone]
    rfl

theorem merge (h : b.Bounded) (other : Bag) :
    b.Leads (other.size + other.dropped.toInt) 0 (b.merge other) := by
  obtain ⟨hraise, hceiling⟩ := h.limitFor_mem (b.size + other.size)
  have hsize : (b.merge other).size = b.size +
      min (b.limitFor (b.size + other.size) - b.size) other.size := by
    rw [merge_eq]
    simp [Bag.size]
  have hdropped : (b.merge other).dropped = b.dropped +
      .ofNat (other.size - (b.limitFor (b.size + other.size) - b.size)) + other.dropped := by
    rw [merge_eq]
  have hlimit : (b.merge other).limit = b.limitFor (b.size + other.size) := by rw [merge_eq]
  have hle := h.size_le
  refine ⟨⟨?_, ?_⟩, ?_, ?_⟩
  · omega
  · rw [hlimit]
    exact hceiling
  · rw [hlimit]
    exact hraise
  · -- what finds no room is counted, and the other count is added
    have hlost : (b.size + (other.size + other.dropped.toInt) - (b.merge other).size -
        (0 : Nat) : Int) = (other.size - (b.limitFor (b.size + other.size) - b.size) : Nat) +
          other.dropped.toInt := by omega
    rw [hdropped, hlost, Int64.ofInt_add, Int64.ofInt_toInt, Int64.ofInt_eq_ofNat,
      Int64.add_assoc]

theorem sort (h : b.Bounded) : b.Leads 0 0 b.sort := by
  have hsize := b.size_sort
  have hzero : (b.size + 0 - b.sort.size - (0 : Nat) : Int) = 0 := by omega
  refine ⟨⟨?_, h.limit_le⟩, Nat.le_refl _, ?_⟩
  · rw [hsize]
    exact h.size_le
  · rw [hzero]
    exact (Int64.add_zero _).symm

theorem dedup (h : b.Bounded) : b.Leads 0 (b.size - b.dedup.size) b.dedup := by
  have hle := b.size_dedup_le
  have hzero : (b.size + 0 - b.dedup.size - (b.size - b.dedup.size : Nat) : Int) = 0 := by omega
  refine ⟨⟨Nat.le_trans hle h.size_le, h.limit_le⟩, Nat.le_refl _, ?_⟩
  rw [hzero]
  exact (Int64.add_zero _).symm

/-- **One step** keeps the account of a bag. -/
theorem step (h : b.Bounded) (s : Step) : b.Leads s.offered (s.removed b) (b.step s) := by
  cases s with
  | add d => exact h.add d
  | merge other => exact h.merge other
  | sort => exact h.sort
  | dedup => exact h.dedup

end Bounded

/-- Steps one after the other keep it, by induction on their number. -/
theorem Bounded.run (steps : List Step) : ∀ {b : Bag}, b.Bounded →
    b.Leads (offered steps) (b.removed steps) (b.run steps) := by
  induction steps with
  | nil =>
      intro b h
      have hzero : (b.size + 0 - b.size - (0 : Nat) : Int) = 0 := by omega
      refine ⟨h, Nat.le_refl _, ?_⟩
      show b.dropped = b.dropped + .ofInt (b.size + 0 - b.size - (0 : Nat))
      rw [hzero]
      exact (Int64.add_zero _).symm
  | cons s steps ih =>
      intro b h
      have hfirst := h.step s
      exact hfirst.trans (ih hfirst.bounded)

/-- A step leaves no more in a bag than it finds there and brings along, unless the
bag that it merges has counted around. -/
theorem size_step_le (b : Bag) (s : Step)
    (hs : ∀ other, s = .merge other → 0 ≤ other.dropped.toInt) :
    ((b.step s).size + s.removed b : Int) ≤ b.size + s.offered := by
  cases s with
  | add d =>
      show ((b.add d).size + (0 : Nat) : Int) ≤ b.size + 1
      rcases Nat.lt_or_ge b.size b.limit with hlt | hle
      · have hsize : (b.items.push d).size = b.size + 1 := Array.size_push d
        rw [add_of_lt hlt]
        show ((b.items.push d).size + (0 : Nat) : Int) ≤ b.size + 1
        omega
      · rw [add_of_le hle]
        show (b.size + (0 : Nat) : Int) ≤ b.size + 1
        omega
  | merge other =>
      have hcount := hs other rfl
      have hsize : (b.merge other).size = b.size +
          min (b.limitFor (b.size + other.size) - b.size) other.size := by
        rw [merge_eq]
        simp [Bag.size]
      show ((b.merge other).size + (0 : Nat) : Int) ≤ b.size + (other.size + other.dropped.toInt)
      omega
  | sort =>
      show (b.sort.size + (0 : Nat) : Int) ≤ b.size + 0
      rw [size_sort]
      omega
  | dedup =>
      have hle := b.size_dedup_le
      show (b.dedup.size + (b.size - b.dedup.size : Nat) : Int) ≤ b.size + 0
      omega

/-- So do steps one after the other. -/
theorem size_run_le (steps : List Step) : ∀ b : Bag,
    (∀ other, .merge other ∈ steps → 0 ≤ other.dropped.toInt) →
    ((b.run steps).size + b.removed steps : Int) ≤ b.size + offered steps := by
  induction steps with
  | nil =>
      intro b _
      show (b.size + (0 : Nat) : Int) ≤ b.size + 0
      omega
  | cons s steps ih =>
      intro b hcounts
      have hfirst := b.size_step_le s fun other hs => hcounts other (hs ▸ List.mem_cons_self)
      have hrest := ih (b.step s) fun other hmem => hcounts other (List.mem_cons_of_mem s hmem)
      show (((b.step s).run steps).size + (s.removed b + (b.step s).removed steps : Nat) : Int) ≤
        b.size + (s.offered + offered steps)
      omega

/-- A number that is kept in 64 bits is itself if it fits. -/
theorem toInt_ofInt_eq_iff (n : Int) :
    (Int64.ofInt n).toInt = n ↔ Int64.minValue.toInt ≤ n ∧ n ≤ Int64.maxValue.toInt := by
  constructor
  · intro h
    rw [← h]
    exact ⟨Int64.minValue_le_toInt _, Int64.toInt_le _⟩
  · rintro ⟨hmin, hmax⟩
    rw [Int64.toInt_minValue] at hmin
    rw [Int64.toInt_maxValue] at hmax
    exact Int64.toInt_ofInt_of_le hmin (by omega)

/-- **Every finding is accounted for**: whatever is done to a bag, it holds no
more than its limit, which is never lowered and at most 65535.  What it was ever
offered and neither holds nor has removed as repeats is its count of dropped
findings, in 64 bits; so the account balances if and only if that number fits, and
it is a number of findings unless a bag was merged that had counted around.  And if
another bag is merged, it holds the first items of both, as many as fit into its
limit or, if that is too low for them, as many as can be allowed. -/
theorem run_accounts (max : Int) (steps : List Step) :
    let b := (withLimit max).run steps
    let removed := (withLimit max).removed steps
    let lost : Int := offered steps - b.size - removed
    b.size ≤ b.limit ∧ b.limit ≤ 65535 ∧
      (∀ more : List Step, b.limit ≤ (b.run more).limit) ∧
      b.dropped = .ofInt lost ∧
      (b.size + b.dropped.toInt + removed = offered steps ↔
        Int64.minValue.toInt ≤ lost ∧ lost ≤ Int64.maxValue.toInt) ∧
      ((∀ other, .merge other ∈ steps → 0 ≤ other.dropped.toInt) → 0 ≤ lost) ∧
      ∀ other : Bag,
        let total := b.size + other.size
        let cap := if total ≤ b.limit then b.limit else min total 65535
        (b.merge other).limit = cap ∧
          (b.merge other).items.toList = (b.items.toList ++ other.items.toList).take cap := by
  intro b removed lost
  have hrun := (bounded_withLimit max).run steps
  have hbounded : b.Bounded := hrun.bounded
  have hdropped : b.dropped = .ofInt lost := by
    have haccount : b.dropped = 0 + .ofInt ((0 : Nat) + offered steps - b.size - removed) :=
      hrun.account
    rw [haccount, Int64.zero_add]
    exact congrArg Int64.ofInt (by omega)
  refine ⟨hbounded.size_le, hbounded.limit_le, ?_, hdropped, ?_, ?_, ?_⟩
  · intro more
    exact (hbounded.run more).limit_le
  · rw [← toInt_ofInt_eq_iff, ← hdropped]
    constructor
    · intro h
      omega
    · intro h
      omega
  · intro hcounts
    have hle : (b.size + removed : Int) ≤ (0 : Nat) + offered steps :=
      size_run_le steps (withLimit max) hcounts
    omega
  · intro other total cap
    refine ⟨?_, hbounded.toList_merge other⟩
    show (b.merge other).limit = b.limitFor total
    rw [merge_eq]

/-! ## Two bags merged in turn -/

/-- Two bags are made and offered a finding each, and then merged into each other in
turn, `n` times.  What was done to the one that was merged into last, and to the
other one. -/
def inTurn (d : Diagnostic) : Nat → List Step × List Step
  | 0 => ([.add d], [.add d])
  | n + 1 =>
      let (last, other) := inTurn d n
      (other ++ [.merge ((withLimit 0).run last)], last)

theorem run_append (xs ys : List Step) : ∀ b : Bag, b.run (xs ++ ys) = (b.run xs).run ys := by
  induction xs with
  | nil => exact fun _ => rfl
  | cons s xs ih => exact fun b => ih (b.step s)

theorem offered_append (xs ys : List Step) : offered (xs ++ ys) = offered xs + offered ys := by
  induction xs with
  | nil => exact (Int.zero_add _).symm
  | cons s xs ih =>
      show s.offered + offered (xs ++ ys) = s.offered + offered xs + offered ys
      rw [ih, Int.add_assoc]

/-- If the bags have no room, their counts are Fibonacci numbers. -/
theorem run_inTurn (d : Diagnostic) (n : Nat) :
    (withLimit 0).run (inTurn d n).1 = ⟨#[], 0, .ofNat (Nat.fib (n + 2))⟩ ∧
      (withLimit 0).run (inTurn d n).2 = ⟨#[], 0, .ofNat (Nat.fib (n + 1))⟩ := by
  induction n with
  | zero => exact ⟨rfl, rfl⟩
  | succ n ih =>
      obtain ⟨hlast, hother⟩ := ih
      refine ⟨?_, hlast⟩
      show (withLimit 0).run ((inTurn d n).2 ++ [.merge ((withLimit 0).run (inTurn d n).1)]) = _
      rw [run_append, hother, hlast, Nat.fib_add_two (n := n + 1), Int64.ofNat_add]
      rfl

/-- As long as the counts fit, the bags are offered that many findings. -/
theorem offered_inTurn (d : Diagnostic) (n : Nat) (hn : n ≤ 91) :
    offered (inTurn d n).1 = Nat.fib (n + 2) ∧ offered (inTurn d n).2 = Nat.fib (n + 1) := by
  induction n with
  | zero => exact ⟨rfl, rfl⟩
  | succ n ih =>
      obtain ⟨hlast, hother⟩ := ih (by omega)
      refine ⟨?_, hlast⟩
      have hfits : Nat.fib (n + 2) ≤ 7540113804746346429 :=
        Nat.le_trans (Nat.fib_mono (by omega : n + 2 ≤ 92)) (by decide)
      have hcount : (Int64.ofNat (Nat.fib (n + 2))).toInt = Nat.fib (n + 2) := by
        rw [← Int64.ofInt_eq_ofNat]
        exact Int64.toInt_ofInt_of_le (by omega) (by omega)
      show offered ((inTurn d n).2 ++ [.merge ((withLimit 0).run (inTurn d n).1)]) = _
      rw [offered_append, hother, (run_inTurn d n).1, Nat.fib_add_two (n := n + 1)]
      show (Nat.fib (n + 1) : Int) + ((0 : Nat) + (Int64.ofNat (Nat.fib (n + 2))).toInt + 0) =
        (Nat.fib (n + 1) + Nat.fib (n + 2) : Nat)
      rw [hcount]
      omega

/-- Only removing repeats removes findings. -/
theorem removed_eq_zero {steps : List Step} (h : .dedup ∉ steps) : ∀ b : Bag,
    b.removed steps = 0 := by
  induction steps with
  | nil => exact fun _ => rfl
  | cons s steps ih =>
      intro b
      have hrest := ih (fun hmem => h (List.mem_cons_of_mem s hmem)) (b.step s)
      show s.removed b + (b.step s).removed steps = 0
      rw [hrest]
      cases s with
      | dedup => exact absurd List.mem_cons_self h
      | add d => rfl
      | merge other => rfl
      | sort => rfl

theorem dedup_not_mem_inTurn (d : Diagnostic) (n : Nat) :
    .dedup ∉ (inTurn d n).1 ∧ .dedup ∉ (inTurn d n).2 := by
  induction n with
  | zero => simp [inTurn]
  | succ n ih =>
      refine ⟨?_, ih.1⟩
      show .dedup ∉ (inTurn d n).2 ++ [.merge ((withLimit 0).run (inTurn d n).1)]
      simp [ih.2]

/-- **The count of dropped findings wraps around**: after 91 merges a bag without room
was offered more findings than its count can say, and the account does not balance. -/
theorem run_wraps :
    let d := Diagnostic.plain .error .invalidCharacter ⟨0, 0, 1⟩ (utf8 "m")
    let steps := (inTurn d 91).1
    let b := (withLimit 0).run steps
    b.size = 0 ∧ (withLimit 0).removed steps = 0 ∧ b.dropped.toInt = -6246583658587674878 ∧
      offered steps = 12200160415121876738 := by
  intro d steps b
  have hb : b = ⟨#[], 0, .ofNat (Nat.fib 93)⟩ := (run_inTurn d 91).1
  have hfib : Nat.fib 93 = 12200160415121876738 := by decide
  rw [hb]
  refine ⟨rfl, removed_eq_zero (dedup_not_mem_inTurn d 91).1 _, ?_, ?_⟩
  · rw [hfib]
    decide
  · rw [(offered_inTurn d 91 (by decide)).1, hfib]
    rfl

end Bag

end LineLexer
