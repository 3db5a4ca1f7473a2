/-
# `Proofs.Pack.RoundTrip` — what is written is read back

Each way of writing a value has a reader that takes exactly the written bytes
off the input, whatever follows them (`Reads`).  Since a reader reads over an
old value, the old value is part of the statement; lists are read over lists
without slots, as they are where every field is given once.

Sizes are written in at most four bytes, so that texts and lists must be
shorter than `sizeLimit`.
-/
import LineLexer.Pack.Read
import LineLexer.Pack.Write

namespace LineLexer.Pack

/-- What four bytes can count. -/
abbrev sizeLimit : Nat := 0x100000000

/-- The reader takes `s` off the input, whatever follows, and makes `new` of
`old`. -/
def Reads {α : Type} (read : Reader α) (s : Bytes) (old new : α) : Prop :=
  ∀ rest, read old (s ++ rest) = some (new, rest)

/-! ## Numbers -/

theorem length_bigEndian : ∀ width n : Nat, (bigEndian width n).length = width
  | 0, _ => rfl
  | width + 1, n => by
      rw [bigEndian, List.length_append, length_bigEndian width, List.length_singleton]

theorem value_append (s : Bytes) (b : UInt8) : value (s ++ [b]) = value s * 256 + b.toNat := by
  simp [value]

theorem value_bigEndian : ∀ {width n : Nat}, n < Nat.pow 256 width →
    value (bigEndian width n) = n
  | 0, n, h => by
      obtain rfl : n = 0 := Nat.lt_one_iff.mp h
      rfl
  | width + 1, n, h => by
      have hdiv : n / 256 < Nat.pow 256 width := by
        have hmul : n < Nat.pow 256 width * 256 := h
        omega
      rw [bigEndian, value_append, value_bigEndian hdiv, Nat.toUInt8, UInt8.toNat_ofNat']
      omega

theorem take?_append {n : Nat} {s : Bytes} (h : s.length = n) (rest : Bytes) :
    take? n (s ++ rest) = some (s, rest) := by
  subst h
  simp [take?]

theorem number?_bigEndian {width n : Nat} (h : n < Nat.pow 256 width) (rest : Bytes) :
    number? width (bigEndian width n ++ rest) = some (n, rest) := by
  rw [number?, take?_append (length_bigEndian width n), Option.map_some]
  exact congrArg (fun v => some (v, rest)) (value_bigEndian h)

theorem byte_reads (n old : UInt8) : Reads Reader.byte (byte n) old n := by
  intro rest
  have hcode : integer? (byte n ++ rest) = unsigned? 1 ([n] ++ rest) := rfl
  have hnumber : number? 1 ([n] ++ rest) = some (n.toNat, rest) := by
    rw [number?, take?_append (n := 1) rfl]
    simp [value]
  rw [Reader.byte, hcode, unsigned?, hnumber]
  simp

theorem word_reads (n old : UInt16) : Reads Reader.word (word n) old n := by
  intro rest
  have hcode : integer? (word n ++ rest) = unsigned? 2 (bigEndian 2 n.toNat ++ rest) := rfl
  rw [Reader.word, hcode, unsigned?, number?_bigEndian n.toNat_lt]
  simp

theorem long_reads (n old : UInt32) : Reads Reader.long (long n) old n := by
  intro rest
  have hcode : integer? (long n ++ rest) = unsigned? 4 (bigEndian 4 n.toNat ++ rest) := rfl
  rw [Reader.long, hcode, unsigned?, number?_bigEndian n.toNat_lt]
  simp

/-! ## Sizes

A size is part of the code if it is small, and follows the code otherwise. -/

/-- A small number on top of the first code of its range. -/
theorem code_add (base stop : UInt8) {n : Nat} (h : base.toNat + n < stop.toNat) :
    (base ≤ base + n.toUInt8 ∧ base + n.toUInt8 < stop) ∧
      (base + n.toUInt8).toNat - base.toNat = n := by
  have hstop := stop.toNat_lt
  have hcode : (base + n.toUInt8).toNat = base.toNat + n := by
    rw [UInt8.toNat_add, Nat.toUInt8, UInt8.toNat_ofNat']
    omega
  rw [UInt8.le_iff_toNat_le, UInt8.lt_iff_toNat_lt, hcode]
  omega

theorem size_bigEndian (width : Nat) {n : Nat} (h : n < Nat.pow 256 width) (rest : Bytes) :
    (number? width (bigEndian width n ++ rest)).map (fun (n, s) => (some n, s))
      = some (some n, rest) := by
  rw [number?_bigEndian h]
  rfl

theorem textLength?_textHeader {n : Nat} (h : n < sizeLimit) (rest : Bytes) :
    textLength? (textHeader n ++ rest) = some (some n, rest) := by
  unfold textHeader
  split
  · rename_i hn
    obtain ⟨hrange, hsub⟩ := code_add 0xA0 0xC0 (Nat.add_lt_add_left hn 0xA0)
    unfold textLength?
    dsimp only [List.singleton_append]
    rw [if_pos hrange]
    exact congrArg (fun m => some (some m, rest)) hsub
  split
  · rename_i hn
    exact size_bigEndian 1 hn rest
  split
  · rename_i hn
    exact size_bigEndian 2 hn rest
  · exact size_bigEndian 4 h rest

theorem arrayLength?_arrayHeader {n : Nat} (h : n < sizeLimit) (rest : Bytes) :
    arrayLength? (arrayHeader n ++ rest) = some (some n, rest) := by
  unfold arrayHeader
  split
  · rename_i hn
    obtain ⟨hrange, hsub⟩ := code_add 0x90 0xA0 (Nat.add_lt_add_left hn 0x90)
    unfold arrayLength?
    dsimp only [List.singleton_append]
    rw [if_pos hrange]
    exact congrArg (fun m => some (some m, rest)) hsub
  split
  · rename_i hn
    exact size_bigEndian 2 hn rest
  · exact size_bigEndian 4 h rest

theorem mapLength?_small {n : Nat} (h : n < 16) (rest : Bytes) :
    mapLength? ((0x80 + n.toUInt8) :: rest) = some (some n, rest) := by
  obtain ⟨hrange, hsub⟩ := code_add 0x80 0x90 (Nat.add_lt_add_left h 0x80)
  unfold mapLength?
  dsimp only
  rw [if_pos hrange]
  exact congrArg (fun m => some (some m, rest)) hsub

/-! ## Texts and blocks -/

theorem text_reads {s : Bytes} (h : s.length < sizeLimit) (old : Bytes) :
    Reads Reader.text (text s) old s := by
  intro rest
  rw [Reader.text, text, List.append_assoc, textLength?_textHeader h]
  exact take?_append rfl rest

theorem textLength?_binary {s : Bytes} (h : s.length < 256) (rest : Bytes) :
    textLength? (binary s ++ rest) = some (some s.length, s ++ rest) :=
  size_bigEndian 1 (by omega) (s ++ rest)

/-- A block is read whole, so that nothing of the old one is left. -/
theorem block_reads {size : Nat} (hsize : size < 256) (v old : Vector UInt8 size) :
    Reads Reader.block (binary v.toList) old v := by
  intro rest
  have hlen : v.toList.length = size := by simp
  rw [Reader.block, textLength?_binary (by omega), hlen]
  dsimp only
  rw [if_neg (Nat.lt_irrefl size), take?_append hlen, Option.map_some]
  refine congrArg (fun w => some (w, rest)) (Vector.ext fun i hi => ?_)
  simp

/-! ## Lists -/

section

variable {α β : Type} {zero : α} {item : Reader α} {f : β → Bytes} {g : β → α}

/-- Items are read one after the other, each over zero. -/
theorem items_reads : ∀ {xs : List β}, (∀ x ∈ xs, Reads item (f x) zero (g x)) →
    ∀ rest, Reader.items zero item xs.length [] (xs.flatMap f ++ rest) = some (xs.map g, rest)
  | [], _, _ => rfl
  | x :: xs, h, rest => by
      have hx := h x List.mem_cons_self (xs.flatMap f ++ rest)
      have hxs := items_reads (fun y hy => h y (List.mem_cons_of_mem x hy)) rest
      rw [List.length_cons, Reader.items, List.flatMap_cons, List.append_assoc]
      simp only [List.head?_nil, Option.getD_none, List.tail_nil, hx, hxs, Option.bind_eq_bind,
        Option.bind_some]
      rfl

theorem array_reads {xs : List β} (hlen : xs.length < sizeLimit)
    (h : ∀ x ∈ xs, Reads item (f x) zero (g x)) :
    Reads (Reader.list zero item) (array f xs) {} ⟨xs.map g, []⟩ := by
  intro rest
  rw [Reader.list, array, List.append_assoc, arrayLength?_arrayHeader hlen]
  dsimp only [Slots.all]
  rw [List.append_nil, items_reads h, Option.map_some, List.drop_nil]

/-- A list that may be missing, which is written as nothing. -/
def presentArray {α : Type} (f : α → Bytes) : Option (List α) → Bytes
  | none => nothing
  | some xs => array f xs

/-- A missing list is read as the list without slots. -/
theorem presentArray_reads {xs : Option (List β)} (hlen : (xs.getD []).length < sizeLimit)
    (h : ∀ x ∈ xs.getD [], Reads item (f x) zero (g x)) :
    Reads (Reader.list zero item) (presentArray f xs) {} ⟨(xs.getD []).map g, []⟩ := by
  cases xs with
  | none =>
      intro rest
      rfl
  | some xs => exact array_reads hlen h

end

/-! ## Records -/

section

variable {α β : Type} {fields : List (Reader.Field α)}

/-- Reading a field of a record. -/
theorem field_reads {get : α → β} {set : α → β → α} {read : Reader β} {s : Bytes} {a : α} {b : β}
    (name : String) (h : Reads read s (get a) b) :
    Reads (Reader.field name get set read).read s a (set a b) := by
  intro rest
  dsimp only [Reader.field]
  rw [h rest]
  rfl

/-- The written fields `ws`, read one after the other by their names, make `c` of
`a`. -/
inductive Fills (fields : List (Reader.Field α)) : List (String × Bytes) → α → α → Prop
  | nil (a : α) : Fills fields [] a a
  | cons {name : String} {s : Bytes} {ws : List (String × Bytes)} {a b c : α}
      {f : Reader.Field α} : (fields.find? fun f => utf8 f.name = utf8 name) = some f →
      (utf8 name).length < sizeLimit → Reads f.read s a b → Fills fields ws b c →
      Fills fields ((name, s) :: ws) a c

theorem namedFields_reads {ws : List (String × Bytes)} {a c : α} (h : Fills fields ws a c) :
    ∀ rest, Reader.namedFields fields ws.length a
      ((ws.flatMap fun (name, s) => text (utf8 name) ++ s) ++ rest) = some (c, rest) := by
  induction h with
  | nil a => exact fun _ => rfl
  | cons hfind hname hread _ ih =>
      intro rest
      rw [List.length_cons, Reader.namedFields, List.flatMap_cons, List.append_assoc,
        List.append_assoc, text_reads hname [] _]
      simp only [Option.bind_eq_bind, Option.bind_some, hfind, hread _, ih rest]

/-- **A written record is read back**, if it has few fields. -/
theorem record_reads {ws : List (String × Bytes)} {zero a c : α} (hlen : ws.length < 16)
    (h : Fills fields ws a c) : Reads (Reader.record zero fields) (record ws) a c := by
  intro rest
  rw [Reader.record, record, List.cons_append, mapLength?_small hlen]
  exact namedFields_reads h rest

end

end LineLexer.Pack
