import S5LBox.App.Instances

/-!
# The text of the list of machines

`VMInstances.c` writes the list as a header line and one line a row, the name last and unquoted,
and reads it back with `sscanf`, line by line.

## Main definitions

* `serialize`, `deserialize`: the two directions.
* `AllOrNothing`: a text gives one row for every line that is not blank, or no row at all.
* `Lines`: the rows that lines say.
* `Torn`: a text with an over-long line after the header, where all before it is read.

## Main results

* `deserialize_serialize_iff`: a list comes back if and only if no name begins with a space.
* `allOrNothing_iff`: a text gives all or nothing if and only if it is not torn.
* `persists_all_or_nothing`: both, over every list that can be reached and every text.
-/

namespace S5LBox.App.Instances

open Runs Scan

/-! ### Writing -/

/-- The octets of a text. -/
def textOf (text : String) : List Octet := text.toList.map fun c => BitVec.ofNat 8 c.toNat

/-- `VM_INSTANCE_HEADER`. -/
def instanceHeader : List Octet := textOf "ios3vm-instances"

/-- `VM_INSTANCE_FORMAT_VERSION`. -/
def formatVersion : Nat := 1

/-- `options_to_bits`. -/
def optionsToBits (options : Fin optionMax → Bool) : BitVec 32 :=
  (List.finRange optionMax).foldl
    (fun bits i => if options i then bits ||| 1#32 <<< i.val else bits) 0

/-- `bits_to_options`. -/
def bitsToOptions (bits : BitVec 32) (i : Fin optionMax) : Bool := bits &&& 1#32 <<< i.val ≠ 0

/-- What has been written into a buffer, the room that is left in it, and the length that the whole
text has. -/
structure Cursor where
  text : List Octet
  left : Nat
  total : Nat

/-- `emit`. -/
def emit (c : Cursor) (piece : List Octet) : Cursor :=
  if piece.length < c.left then
    ⟨c.text ++ piece, c.left - piece.length, c.total + piece.length⟩
  else if 0 < c.left then ⟨c.text ++ piece.take (c.left - 1), 1, c.total + piece.length⟩
  else ⟨c.text, c.left, c.total + piece.length⟩

/-- The header line, without its end. -/
def headerLine : List Octet := instanceHeader ++ 0x20 :: printed 10 formatVersion

/-- The line of a row, without its end. -/
def rowLine (row : Instance) : List Octet :=
  row.id ++ 0x20 :: (printed 10 row.createdUnix.toNat ++
    0x20 :: (printed 10 row.lastOpenedUnix.toNat ++
    0x20 :: (printed 10 row.retiredTotal.toNat ++
    0x20 :: (padded 8 16 (optionsToBits row.options).toNat ++ 0x20 :: row.name))))

/-- `vm_instance_serialize`. -/
def serialize (list : List Instance) (cap : Nat) : Cursor :=
  list.foldl (fun c row => emit c (rowLine row ++ [0x0a]))
    (emit ⟨[], cap, 0⟩ (headerLine ++ [0x0a]))

/-! ### Reading -/

/-- The size of the buffer for a line. -/
def lineCapacity : Nat := nameMax + 128

/-- The loop of `next_line`, which stops where the buffer is full. -/
def fill : List Octet → List Octet → Option (List Octet × List Octet)
  | [], dst => some (dst, [])
  | c :: p, dst =>
    if c = 0x0a then some (dst, c :: p)
    else if lineCapacity ≤ dst.length + 1 then none
    else fill p (dst ++ [c])

/-- A carriage return at the end of a line is taken off. -/
def trimmed (line : List Octet) : List Octet :=
  if line.getLast? = some 0x0d then line.dropLast else line

/-- `next_line`: the line and the start of the next, and the flag. -/
def nextLine (p : List Octet) (overflow : Bool) : Option (List Octet × List Octet) × Bool :=
  match p with
  | [] => (none, overflow)
  | _ :: _ =>
    match fill p [] with
    | none => (none, true)
    | some (dst, p) => (some (trimmed dst, p.tail), overflow)

/-- What the library makes of a number that does not fit its type. -/
abbrev Excess := (bits : Nat) → Bool → Nat → BitVec bits

/-- The conversions of a row. -/
structure Scanned where
  id : List Octet
  created : BitVec 64
  opened : BitVec 64
  retired : BitVec 64
  bits : BitVec 32
  consumed : Nat

/-- `"%23s %llu %llu %llu %8x %n"`. -/
def scanRow (excess : Excess) (line : List Octet) : Option Scanned := do
  let (id, s) ← word 23 line
  let (created, s) ← number 10 none (excess 64) s
  let (opened, s) ← number 10 none (excess 64) s
  let (retired, s) ← number 10 none (excess 64) s
  let (bits, s) ← number 16 (some 8) (excess 32) s
  pure ⟨id, created, opened, retired, bits, line.length - (skipBlanks s).length⟩

/-- `"%31s %u"`. -/
def scanHeader (excess : Excess) (line : List Octet) : Option (List Octet × BitVec 32) := do
  let (tag, s) ← word 31 line
  let (version, _) ← number 10 none (excess 32) s
  pure (tag, version)

/-- A line that is not blank, in the loop of `vm_instance_deserialize`. -/
def readRow (excess : Excess) (list : List Instance) (line : List Octet) :
    Except Refusal (List Instance) :=
  match scanRow excess line with
  | none => .error .parse
  | some r =>
    if r.consumed = 0 then .error .parse
    else
      match add list (some r.id) (some (line.drop r.consumed))
        (some (List.ofFn (bitsToOptions r.bits))) r.created with
      | .error e => .error (if e = .full then .full else .parse)
      | .ok (list, added) => .ok (list.modify added fun row =>
          { row with lastOpenedUnix := r.opened, retiredTotal := r.retired })

theorem length_fill {p dst dst' p' : List Octet} (h : fill p dst = some (dst', p')) :
    p'.length ≤ p.length := by
  fun_induction fill p dst with
  | case1 dst =>
    cases h
    exact le_rfl
  | case2 dst p =>
    cases h
    exact le_rfl
  | case3 => exact absurd h nofun
  | case4 c p dst _ _ ih => exact (ih h).trans (Nat.le_succ _)

theorem length_nextLine {p line p' : List Octet} {overflow : Bool}
    (h : (nextLine p overflow).1 = some (line, p')) : p'.length < p.length := by
  cases p with
  | nil => exact absurd h nofun
  | cons c p =>
    rw [nextLine] at h
    split at h
    · exact absurd h nofun
    · rename_i hfill
      cases h
      have hlen := length_fill hfill
      rw [List.length_tail]
      rw [List.length_cons] at hlen ⊢
      omega

/-- The loop of `vm_instance_deserialize`. -/
def readRows (excess : Excess) (list : List Instance) (p : List Octet) (overflow : Bool) :
    Except Refusal Unit × List Instance :=
  match _ : nextLine p overflow with
  | (none, _) => (.ok (), list)
  | (some (line, p'), overflow') =>
    if overflow' then (.error .parse, [])
    else if line = [] then readRows excess list p' overflow'
    else
      match readRow excess list line with
      | .error e => (.error e, [])
      | .ok list => readRows excess list p' overflow'
termination_by p.length
decreasing_by
  all_goals exact length_nextLine (congrArg Prod.fst ‹_›)

/-- `vm_instance_deserialize`. -/
def deserialize (excess : Excess) (text : Option (List Octet)) :
    Except Refusal Unit × List Instance :=
  match text with
  | none => (.error .null, [])
  | some text =>
    match nextLine text false with
    | (none, _) => (.error .parse, [])
    | (some (line, p), overflow) =>
      if overflow then (.error .parse, [])
      else
        match scanHeader excess line with
        | none => (.error .parse, [])
        | some (tag, version) =>
          if tag ≠ instanceHeader then (.error .parse, [])
          else if version ≠ BitVec.ofNat 32 formatVersion then (.error .parse, [])
          else readRows excess [] p overflow

/-! ### Lines -/

/-- A text that `next_line` comes to, as a line and what follows it. -/
theorem exists_line (p : List Octet) :
    ∃ l, (0x0a : Octet) ∉ l ∧ (p = l ∨ ∃ rest, p = l ++ 0x0a :: rest) := by
  induction p with
  | nil => exact ⟨[], nofun, .inl rfl⟩
  | cons c p ih =>
    by_cases hc : c = 0x0a
    · exact ⟨[], nofun, .inr ⟨p, by rw [hc]; rfl⟩⟩
    · obtain ⟨l, hl, hp⟩ := ih
      refine ⟨c :: l, List.not_mem_cons_of_ne_of_not_mem (Ne.symm hc) hl, ?_⟩
      obtain rfl | ⟨rest, rfl⟩ := hp
      · exact .inl rfl
      · exact .inr ⟨rest, rfl⟩

theorem fill_append {l dst t : List Octet} (hl : (0x0a : Octet) ∉ l)
    (ht : t = [] ∨ ∃ rest, t = 0x0a :: rest) (hdst : dst.length < lineCapacity) :
    fill (l ++ t) dst =
      if dst.length + l.length < lineCapacity then some (dst ++ l, t) else none := by
  induction l generalizing dst with
  | nil =>
    rw [List.nil_append, List.length_nil, Nat.add_zero, if_pos hdst, List.append_nil]
    obtain rfl | ⟨rest, rfl⟩ := ht
    · rfl
    · exact if_pos rfl
  | cons c l ih =>
    obtain ⟨hc, hl⟩ := List.ne_and_not_mem_of_not_mem_cons hl
    rw [List.cons_append, fill, if_neg (Ne.symm hc), List.length_cons]
    by_cases hroom : lineCapacity ≤ dst.length + 1
    · rw [if_pos hroom, if_neg (by omega)]
    · have hnext : (dst ++ [c]).length < lineCapacity := by
        rw [List.length_append, List.length_singleton]
        omega
      rw [if_neg hroom, ih hl hnext, List.length_append, List.length_singleton,
        List.append_assoc, List.singleton_append, Nat.add_assoc, Nat.add_comm 1]

theorem fill_line {l t : List Octet} (hl : (0x0a : Octet) ∉ l)
    (ht : t = [] ∨ ∃ rest, t = 0x0a :: rest) :
    fill (l ++ t) [] = if l.length < lineCapacity then some (l, t) else none := by
  have hfill := fill_append hl ht (by decide : ([] : List Octet).length < lineCapacity)
  rwa [List.length_nil, Nat.zero_add, List.nil_append] at hfill

theorem nextLine_of_fill {p l t : List Octet} {overflow : Bool} (hne : p ≠ [])
    (hfill : fill p [] = if l.length < lineCapacity then some (l, t) else none) :
    nextLine p overflow =
      if l.length < lineCapacity then (some (trimmed l, t.tail), overflow) else (none, true) := by
  cases p with
  | nil => exact absurd rfl hne
  | cons c p =>
    rw [nextLine, hfill]
    by_cases hshort : l.length < lineCapacity
    · rw [if_pos hshort, if_pos hshort]
    · rw [if_neg hshort, if_neg hshort]

theorem nextLine_line {l rest : List Octet} {overflow : Bool} (hl : (0x0a : Octet) ∉ l) :
    nextLine (l ++ 0x0a :: rest) overflow =
      if l.length < lineCapacity then (some (trimmed l, rest), overflow) else (none, true) :=
  nextLine_of_fill (List.append_ne_nil_of_right_ne_nil _ (List.cons_ne_nil _ _))
    (fill_line hl (.inr ⟨rest, rfl⟩))

theorem nextLine_last {l : List Octet} {overflow : Bool} (hl : (0x0a : Octet) ∉ l) (hne : l ≠ []) :
    nextLine l overflow =
      if l.length < lineCapacity then (some (trimmed l, []), overflow) else (none, true) := by
  have hfill := fill_line hl (.inl rfl)
  rw [List.append_nil] at hfill
  exact nextLine_of_fill hne hfill

/-- The loop of `vm_instance_deserialize` over lines. -/
def readLines (excess : Excess) : List Instance → List (List Octet) →
    Except Refusal Unit × List Instance
  | list, [] => (.ok (), list)
  | list, l :: ls =>
    if lineCapacity ≤ l.length then (.ok (), list)
    else if trimmed l = [] then readLines excess list ls
    else
      match readRow excess list (trimmed l) with
      | .error e => (.error e, [])
      | .ok list => readLines excess list ls

variable {excess : Excess}

/-- A turn of the loop. -/
theorem readRows_line {list : List Instance} {p l p' : List Octet}
    (hnext : nextLine p false =
      if l.length < lineCapacity then (some (trimmed l, p'), false) else (none, true)) :
    readRows excess list p false =
      if lineCapacity ≤ l.length then (.ok (), list)
      else if trimmed l = [] then readRows excess list p' false
      else
        match readRow excess list (trimmed l) with
        | .error e => (.error e, [])
        | .ok list => readRows excess list p' false := by
  rw [readRows]
  split
  · rename_i hnone
    by_cases hshort : l.length < lineCapacity
    · rw [if_pos hshort, hnone] at hnext
      exact absurd hnext nofun
    · rw [if_pos (Nat.not_lt.1 hshort)]
  · rename_i hsome
    by_cases hshort : l.length < lineCapacity
    · rw [if_pos hshort, hsome] at hnext
      cases hnext
      rw [if_neg Bool.false_ne_true, if_neg (Nat.not_le.2 hshort)]
    · rw [if_neg hshort, hsome] at hnext
      exact absurd hnext nofun

/-- The loop goes through the lines. -/
theorem readRows_eq (list : List Instance) (p : List Octet) :
    readRows excess list p false = readLines excess list (p.splitOn 0x0a) := by
  induction hn : p.length using Nat.strong_induction_on generalizing list p with
  | _ n ih =>
    subst hn
    obtain ⟨l, hl, hp⟩ := exists_line p
    obtain rfl | ⟨rest, rfl⟩ := hp
    · rw [List.splitOn_eq_singleton hl]
      have hend (list : List Instance) : readRows excess list [] false = (.ok (), list) := by
        rw [readRows]
        rfl
      by_cases hne : p = []
      · rw [hne, hend]
        rfl
      · rw [readRows_line (nextLine_last hl hne), readLines]
        simp only [hend]
        rfl
    · have hlt : rest.length < (l ++ 0x0a :: rest).length := by
        rw [List.length_append, List.length_cons]
        omega
      rw [List.splitOn_append_cons_self_of_not_mem hl, readRows_line (nextLine_line hl), readLines]
      simp only [ih _ hlt _ rest rfl]

/-- The lines after the header. -/
def recordLines (text : List Octet) : List (List Octet) := (text.splitOn 0x0a).tail

/-- The header is accepted. -/
def HeaderRead (excess : Excess) (text : List Octet) : Prop :=
  ∃ l ∈ (text.splitOn 0x0a).head?, l.length < lineCapacity ∧
    scanHeader excess (trimmed l) = some (instanceHeader, BitVec.ofNat 32 formatVersion)

/-- What follows the first line is gone through where that is the header. -/
theorem deserialize_line {text l p' : List Octet}
    (hnext : nextLine text false =
      if l.length < lineCapacity then (some (trimmed l, p'), false) else (none, true))
    (hhead : (text.splitOn 0x0a).head? = some l)
    (hrest : readRows excess [] p' false = readLines excess [] (recordLines text)) :
    HeaderRead excess text ∧
        deserialize excess (some text) = readLines excess [] (recordLines text) ∨
      ¬HeaderRead excess text ∧ deserialize excess (some text) = (.error .parse, []) := by
  have hread : HeaderRead excess text ↔ l.length < lineCapacity ∧
      scanHeader excess (trimmed l) = some (instanceHeader, BitVec.ofNat 32 formatVersion) :=
    ⟨fun ⟨l', hl', h⟩ => by cases hhead.symm.trans hl'; exact h, fun h => ⟨l, hhead, h⟩⟩
  rw [hread, deserialize, hnext]
  by_cases hshort : l.length < lineCapacity
  · rw [if_pos hshort]
    dsimp only
    rw [if_neg Bool.false_ne_true]
    cases hscan : scanHeader excess (trimmed l) with
    | none => exact .inr ⟨fun h => absurd h.2 nofun, rfl⟩
    | some scanned =>
      obtain ⟨tag, version⟩ := scanned
      dsimp only
      by_cases htag : tag = instanceHeader
      · by_cases hversion : version = BitVec.ofNat 32 formatVersion
        · rw [if_neg (not_not.2 htag), if_neg (not_not.2 hversion), htag, hversion]
          exact .inl ⟨⟨hshort, rfl⟩, hrest⟩
        · rw [if_neg (not_not.2 htag), if_pos hversion]
          exact .inr ⟨fun h => hversion (Prod.ext_iff.1 (Option.some.inj h.2)).2, rfl⟩
      · rw [if_pos htag]
        exact .inr ⟨fun h => htag (Prod.ext_iff.1 (Option.some.inj h.2)).1, rfl⟩
  · rw [if_neg hshort]
    exact .inr ⟨fun h => hshort h.1, rfl⟩

/-- Nothing is read where the header is not accepted. -/
theorem deserialize_eq (excess : Excess) (text : List Octet) :
    HeaderRead excess text ∧
        deserialize excess (some text) = readLines excess [] (recordLines text) ∨
      ¬HeaderRead excess text ∧ deserialize excess (some text) = (.error .parse, []) := by
  obtain ⟨l, hl, htext⟩ := exists_line text
  obtain rfl | ⟨rest, rfl⟩ := htext
  · have hsplit := List.splitOn_eq_singleton hl
    by_cases hne : text = []
    · subst hne
      exact .inr ⟨fun ⟨_, hl, _, hscan⟩ => by cases hl; exact absurd hscan nofun, rfl⟩
    · refine deserialize_line (nextLine_last hl hne) (by rw [hsplit]; rfl) ?_
      rw [recordLines, hsplit, readRows]
      rfl
  · have hsplit := List.splitOn_append_cons_self_of_not_mem hl rest
    refine deserialize_line (nextLine_line hl) (by rw [hsplit]; rfl) ?_
    rw [recordLines, hsplit, readRows_eq]
    rfl

/-! ### Rows -/

/-- What a line says of a row. -/
def rowOf (excess : Excess) (line : List Octet) : Option Instance :=
  match scanRow excess line with
  | none => none
  | some r =>
    if r.consumed = 0 then none
    else some ⟨r.id, line.drop r.consumed, r.created, r.opened, r.retired, bitsToOptions r.bits⟩

theorem newRow_ofFn {id name : List Octet} {created : BitVec 64} (options : Fin optionMax → Bool) :
    newRow id name (some (List.ofFn options)) created = ⟨id, name, created, 0, 0, options⟩ := by
  rw [newRow, Option.getD_some]
  congr 1
  funext i
  rw [List.getElem?_ofFn, dif_pos i.isLt]
  rfl

theorem modify_concat (list : List Instance) (row : Instance) (f : Instance → Instance) :
    (list ++ [row]).modify list.length f = list ++ [f row] := by
  induction list with
  | nil => rfl
  | cons r list ih => exact congrArg (r :: ·) ih

/-- A row is appended where the list stays valid. -/
theorem readRow_eq_ok {list list' : List Instance} {line : List Octet} (h : Kept list) :
    readRow excess list line = .ok list' ↔
      ∃ row, rowOf excess line = some row ∧ Kept (list ++ [row]) ∧ list' = list ++ [row] := by
  rw [readRow, rowOf]
  cases scanRow excess line with
  | none => exact ⟨nofun, fun ⟨_, hrow, _⟩ => absurd hrow nofun⟩
  | some r =>
    dsimp only
    by_cases hconsumed : r.consumed = 0
    · rw [if_pos hconsumed, if_pos hconsumed]
      exact ⟨nofun, fun ⟨_, hrow, _⟩ => absurd hrow nofun⟩
    · rw [if_neg hconsumed, if_neg hconsumed]
      constructor
      · intro hread
        split at hread
        · exact absurd hread nofun
        · rename_i hadd
          obtain ⟨i, n, hid, hname, hroom, hfresh, rfl, rfl⟩ := add_eq_ok.1 hadd
          obtain rfl := Option.some.inj (idCheck_eq_ok hid).1
          obtain rfl := Option.some.inj (nameCheck_eq_ok hname).1
          rw [modify_concat, newRow_ofFn] at hread
          obtain rfl := Except.ok.inj hread
          exact ⟨_, rfl, kept_concat.2 ⟨h, ⟨hid, hname⟩, hroom, hfresh⟩, rfl⟩
      · rintro ⟨_, hrow, hkept, rfl⟩
        cases hrow
        obtain ⟨-, hvalid, hroom, hfresh⟩ := kept_concat.1 hkept
        rw [add_eq_ok.2 ⟨_, _, hvalid.id, hvalid.name, hroom, hfresh, rfl, rfl⟩]
        dsimp only
        rw [modify_concat, newRow_ofFn]

/-- The lines that are not blank. -/
def nonBlank (ls : List (List Octet)) : List (List Octet) := (ls.map trimmed).filter (· ≠ [])

/-- Lines that are short enough, and the rows they say. -/
structure Lines (excess : Excess) (ls : List (List Octet)) (rows : List Instance) : Prop where
  short : ∀ l ∈ ls, l.length < lineCapacity
  rows : (nonBlank ls).map (rowOf excess) = rows.map some

variable {list : List Instance} {l : List Octet} {ls : List (List Octet)} {rows : List Instance}

theorem nonBlank_cons (l : List Octet) (ls : List (List Octet)) :
    nonBlank (l :: ls) = if trimmed l = [] then nonBlank ls else trimmed l :: nonBlank ls := by
  rw [nonBlank, List.map_cons, List.filter_cons]
  by_cases hl : trimmed l = []
  · rw [if_pos hl, if_neg (by simpa using hl)]
    rfl
  · rw [if_neg hl, if_pos (by simpa using hl)]
    rfl

theorem Lines.nil : Lines excess [] [] := ⟨nofun, rfl⟩

theorem Lines.blank (h : Lines excess ls rows) (hl : l.length < lineCapacity)
    (hblank : trimmed l = []) : Lines excess (l :: ls) rows :=
  ⟨List.forall_mem_cons.2 ⟨hl, h.short⟩, by rw [nonBlank_cons, if_pos hblank]; exact h.rows⟩

variable {row : Instance}

theorem Lines.cons (h : Lines excess ls rows) (hl : l.length < lineCapacity)
    (hblank : trimmed l ≠ []) (hrow : rowOf excess (trimmed l) = some row) :
    Lines excess (l :: ls) (row :: rows) :=
  ⟨List.forall_mem_cons.2 ⟨hl, h.short⟩, by
    rw [nonBlank_cons, if_neg hblank, List.map_cons, List.map_cons, hrow, h.rows]⟩

/-- The rows of lines are read where they keep the list valid, and the loop goes on. -/
theorem readLines_append {post : List (List Octet)} (hlines : Lines excess ls rows)
    (h : Kept (list ++ rows)) :
    readLines excess list (ls ++ post) = readLines excess (list ++ rows) post := by
  induction ls generalizing list rows with
  | nil =>
    have hnil : rows = [] := List.map_eq_nil_iff.1 hlines.rows.symm
    rw [hnil, List.nil_append, List.append_nil]
  | cons l ls ih =>
    obtain ⟨hl, hshort⟩ := List.forall_mem_cons.1 hlines.short
    have hrows := hlines.rows
    rw [nonBlank_cons] at hrows
    rw [List.cons_append, readLines, if_neg (Nat.not_le.2 hl)]
    split_ifs at hrows ⊢ with hblank
    · exact ih ⟨hshort, hrows⟩ h
    · cases rows with
      | nil => exact absurd hrows nofun
      | cons row rows =>
        obtain ⟨hrow, hrest⟩ := List.cons.inj hrows
        rw [List.append_cons] at h ⊢
        have hnext : Kept (list ++ [row]) := h.sublist (List.sublist_append_left _ _)
        have hread := (readRow_eq_ok (kept_concat.1 hnext).1).2 ⟨row, hrow, hnext, rfl⟩
        rw [hread]
        exact ih ⟨hshort, hrest⟩ h

/-- How the loop may end: with an error and no list, or with the rows of all lines, or with those of
the lines before one that is too long. -/
theorem readLines_cases (excess : Excess) (ls : List (List Octet)) (h : Kept list) :
    (∃ e, readLines excess list ls = (.error e, [])) ∨
      ∃ rows, Kept (list ++ rows) ∧ readLines excess list ls = (.ok (), list ++ rows) ∧
        (Lines excess ls rows ∨ ∃ pre l post, ls = pre ++ l :: post ∧ lineCapacity ≤ l.length ∧
          Lines excess pre rows) := by
  induction ls generalizing list with
  | nil => exact .inr ⟨[], by rwa [List.append_nil], by rw [List.append_nil]; rfl, .inl .nil⟩
  | cons l ls ih =>
    rw [readLines]
    split_ifs with hlong hblank
    · exact .inr ⟨[], by rwa [List.append_nil], by rw [List.append_nil],
        .inr ⟨[], l, ls, rfl, hlong, .nil⟩⟩
    · have hl := Nat.not_le.1 hlong
      obtain herror | ⟨rows, hkept, hread, hlines⟩ := ih h
      · exact .inl herror
      · refine .inr ⟨rows, hkept, hread, hlines.imp (·.blank hl hblank) ?_⟩
        rintro ⟨pre, l', post, rfl, hlong', hpre⟩
        exact ⟨l :: pre, l', post, rfl, hlong', hpre.blank hl hblank⟩
    · have hl := Nat.not_le.1 hlong
      cases hread : readRow excess list (trimmed l) with
      | error e => exact .inl ⟨e, rfl⟩
      | ok list' =>
        obtain ⟨row, hrow, hnext, rfl⟩ := (readRow_eq_ok h).1 hread
        obtain herror | ⟨rows, hkept, hrest, hlines⟩ := ih hnext
        · exact .inl herror
        · rw [← List.append_cons] at hkept hrest
          refine .inr ⟨row :: rows, hkept, hrest, hlines.imp (·.cons hl hblank hrow) ?_⟩
          rintro ⟨pre, l', post, rfl, hlong', hpre⟩
          exact ⟨l :: pre, l', post, rfl, hlong', hpre.cons hl hblank hrow⟩

/-! ### All or nothing -/

/-- A text gives one row for every line after the header that is not blank, or an error and no
row. -/
def AllOrNothing (excess : Excess) (text : List Octet) : Prop :=
  (deserialize excess (some text)).1 = .ok () ∧
      (deserialize excess (some text)).2.length = (nonBlank (recordLines text)).length ∨
    (deserialize excess (some text)).1 ≠ .ok () ∧ (deserialize excess (some text)).2 = []

/-- A line after the header is too long, and all lines before it are read. -/
def Torn (excess : Excess) (text : List Octet) : Prop :=
  HeaderRead excess text ∧ ∃ pre l post rows, recordLines text = pre ++ l :: post ∧
    lineCapacity ≤ l.length ∧ Lines excess pre rows ∧ Kept rows

theorem Lines.length_eq (h : Lines excess ls rows) : rows.length = (nonBlank ls).length := by
  have hlen := congrArg List.length h.rows
  rwa [List.length_map, List.length_map, eq_comm] at hlen

theorem length_nonBlank_lt {pre post : List (List Octet)} (hlong : lineCapacity ≤ l.length) :
    (nonBlank pre).length < (nonBlank (pre ++ l :: post)).length := by
  have hblank : trimmed l ≠ [] := by
    intro hnil
    have hlen : (trimmed l).length = 0 := congrArg List.length hnil
    have hcap : 1 < lineCapacity := by decide
    rw [trimmed] at hlen
    split_ifs at hlen
    · rw [List.length_dropLast] at hlen
      omega
    · omega
  have hcons : nonBlank (pre ++ l :: post) = nonBlank pre ++ nonBlank (l :: post) := by
    rw [nonBlank, List.map_append, List.filter_append]
    rfl
  rw [hcons, nonBlank_cons, if_neg hblank, List.length_append, List.length_cons]
  omega

/-- A text gives all or nothing if and only if it is not torn. -/
theorem allOrNothing_iff {text : List Octet} : AllOrNothing excess text ↔ ¬Torn excess text := by
  rw [AllOrNothing, Torn]
  obtain ⟨hheader, hread⟩ | ⟨hheader, hread⟩ := deserialize_eq excess text
  · rw [hread]
    constructor
    · rintro hall ⟨_, pre, l, post, rows, hsplit, hlong, hlines, hkept⟩
      have hrows : readLines excess [] (recordLines text) = (.ok (), rows) := by
        have hnil : Kept ([] ++ rows) := hkept
        rw [hsplit, readLines_append hlines hnil, readLines, if_pos hlong, List.nil_append]
      rw [hrows, hsplit, hlines.length_eq] at hall
      exact hall.elim (fun h => absurd h.2 (length_nonBlank_lt hlong).ne) fun h => h.1 rfl
    · intro hwhole
      have hcases := readLines_cases excess (recordLines text) Kept.nil
      obtain ⟨e, herror⟩ | ⟨rows, hkept, hrows, hlines⟩ := hcases
      · rw [herror]
        exact .inr ⟨nofun, rfl⟩
      · rw [hrows]
        obtain hlines | ⟨pre, l, post, hsplit, hlong, hlines⟩ := hlines
        · exact .inl ⟨rfl, hlines.length_eq⟩
        · exact absurd ⟨hheader, pre, l, post, rows, hsplit, hlong, hlines, hkept⟩ hwhole
  · rw [hread]
    exact ⟨fun _ h => hheader h.1, fun _ => .inr ⟨nofun, rfl⟩⟩

/-! ### There and back -/

theorem getLsbD_fold (options : Fin optionMax → Bool) (is : List (Fin optionMax)) (bits : BitVec 32)
    (j : Fin optionMax) :
    (is.foldl (fun bits i => if options i then bits ||| 1#32 <<< i.val else bits) bits).getLsbD j =
      (bits.getLsbD j || decide (j ∈ is) && options j) := by
  induction is generalizing bits with
  | nil =>
    rw [List.foldl_nil, decide_eq_false List.not_mem_nil, Bool.false_and, Bool.or_false]
  | cons i is ih =>
    have hbit : (1#32 <<< i.val).getLsbD j.val = decide (i = j) := by
      have hlt : i.val < 32 := i.isLt
      rw [← BitVec.twoPow_eq, BitVec.getLsbD_twoPow, decide_eq_true hlt, Bool.true_and]
      exact decide_eq_decide.2 Fin.ext_iff.symm
    rw [List.foldl_cons, ih]
    by_cases hj : i = j
    · subst hj
      rw [decide_eq_true List.mem_cons_self, Bool.true_and]
      cases options i with
      | false => rw [if_neg Bool.false_ne_true, Bool.and_false]
      | true => rw [if_pos rfl, BitVec.getLsbD_or, hbit]; simp
    · have hmem : (j ∈ i :: is) = (j ∈ is) :=
        propext ⟨fun h => (List.mem_cons.1 h).resolve_left (Ne.symm hj), List.mem_cons_of_mem _⟩
      have hsame : (if options i then bits ||| 1#32 <<< i.val else bits).getLsbD j =
          bits.getLsbD j := by
        split
        · rw [BitVec.getLsbD_or, hbit, decide_eq_false hj, Bool.or_false]
        · rfl
      rw [hsame]
      simp only [hmem]

theorem bitsToOptions_optionsToBits (options : Fin optionMax → Bool) :
    bitsToOptions (optionsToBits options) = options := by
  funext j
  have hbit : (optionsToBits options).getLsbD j = options j := by
    have hzero : (0 : BitVec 32).getLsbD j = false := BitVec.getLsbD_zero
    rw [optionsToBits, getLsbD_fold, decide_eq_true (List.mem_finRange j), Bool.true_and, hzero,
      Bool.false_or]
  have hpow : BitVec.twoPow 32 j.val ≠ 0 := by
    intro hzero
    have hself := congrArg (BitVec.getLsbD · j.val) hzero
    have hlt : j.val < 32 := j.isLt
    simp [hlt] at hself
  rw [bitsToOptions, ← BitVec.twoPow_eq, BitVec.and_twoPow, hbit]
  cases options j with
  | false => rfl
  | true => exact decide_eq_true hpow

/-- What a cursor has counted, and what it has written where all of that has room. -/
structure Writes (cap : Nat) (c : Cursor) (text : List Octet) : Prop where
  total : c.total = text.length
  whole : text.length < cap → c.text = text ∧ c.left = cap - text.length

theorem Writes.emit {cap : Nat} {c : Cursor} {text : List Octet} (h : Writes cap c text)
    (piece : List Octet) : Writes cap (emit c piece) (text ++ piece) := by
  rw [Instances.emit]
  constructor
  · rw [List.length_append, ← h.total]
    split_ifs <;> rfl
  · intro hroom
    rw [List.length_append] at hroom ⊢
    obtain ⟨htext, hleft⟩ := h.whole (by omega)
    rw [if_pos (by omega), htext, hleft]
    exact ⟨rfl, by dsimp only; omega⟩

/-- The text of a list. -/
def wholeText (list : List Instance) : List Octet :=
  headerLine ++ 0x0a :: list.flatMap fun row => rowLine row ++ [0x0a]

/-- The length is that of the whole text, and all of it is written where there is room. -/
theorem serialize_writes (list : List Instance) (cap : Nat) :
    Writes cap (serialize list cap) (wholeText list) := by
  have hstart : Writes cap ⟨[], cap, 0⟩ [] := ⟨rfl, fun _ => ⟨rfl, rfl⟩⟩
  have hfold (c : Cursor) (text : List Octet) (h : Writes cap c text) :
      Writes cap (list.foldl (fun c row => Instances.emit c (rowLine row ++ [0x0a])) c)
        (text ++ list.flatMap fun row => rowLine row ++ [0x0a]) := by
    induction list generalizing c text with
    | nil => rwa [List.flatMap_nil, List.append_nil]
    | cons row list ih =>
      rw [List.flatMap_cons, ← List.append_assoc]
      exact ih _ _ (h.emit _)
  have hall := hfold _ _ (hstart.emit (headerLine ++ [0x0a]))
  rwa [List.nil_append, List.append_assoc, List.singleton_append] at hall

theorem skipBlanks_suffix (s : List Octet) : skipBlanks s <:+ s := List.dropWhile_suffix _

theorem not_control_of_digit {base : Nat} {c : Octet} (h : isDigit base c = true) :
    isControl c = false := by
  have hall : ∀ c : Octet, (digitValue c).isSome = true → isControl c = false := by decide
  refine hall c ?_
  cases hc : digitValue c with
  | none =>
    rw [isDigit, hc] at h
    exact absurd h Bool.false_ne_true
  | some v => rfl

theorem lowerHex_spec {c : Octet} (h : isLowerHex c = true) :
    isControl c = false ∧ isBlank c = false := by
  have hall : ∀ c : Octet, isLowerHex c = true → isControl c = false ∧ isBlank c = false := by
    decide
  exact hall c h

/-- No character of the line of a row is a control character. -/
theorem not_control_of_mem_rowLine {c : Octet} (h : row.Valid) (hc : c ∈ rowLine row) :
    isControl c = false := by
  have hdigits {n : Nat} (hc : c ∈ printed 10 n) : isControl c = false :=
    not_control_of_digit (isDigit_of_mem_printed (by decide) (by decide) hc)
  have hhex {n : Nat} (hc : c ∈ padded 8 16 n) : isControl c = false :=
    not_control_of_digit (isDigit_of_mem_padded (by decide) (by decide) hc)
  have hspace (hc : c = 0x20) : isControl c = false := by
    rw [hc]
    rfl
  simp only [rowLine, List.mem_append, List.mem_cons] at hc
  obtain hc | hc | hc | hc | hc | hc | hc | hc | hc | hc := hc
  · exact (lowerHex_spec ((idCheck_eq_ok h.id).2.2 c hc)).1
  · exact hspace hc
  · exact hdigits hc
  · exact hspace hc
  · exact hdigits hc
  · exact hspace hc
  · exact hdigits hc
  · exact hspace hc
  · exact hhex hc
  · exact hc.elim hspace ((nameCheck_eq_ok h.name).2.2.1 c)

theorem not_mem_rowLine (h : row.Valid) : (0x0a : Octet) ∉ rowLine row :=
  fun hmem => absurd (not_control_of_mem_rowLine h hmem) (by decide)

theorem trimmed_rowLine (h : row.Valid) : trimmed (rowLine row) = rowLine row := by
  rw [trimmed, if_neg]
  intro hlast
  exact absurd (not_control_of_mem_rowLine h (List.mem_of_getLast? hlast)) (by decide)

theorem length_rowLine (h : row.Valid) : (rowLine row).length < lineCapacity := by
  have hid := (idCheck_eq_ok h.id).2.1
  have hname := (nameCheck_eq_ok h.name).2.1
  have hprinted (n : BitVec 64) : (printed 10 n.toNat).length ≤ 20 :=
    length_printed_le (by decide) (by decide) (n.isLt.trans (by decide))
  have hpadded : (padded 8 16 (optionsToBits row.options).toNat).length = 8 :=
    length_padded (by decide) (by decide) (BitVec.isLt _)
  have hcreated := hprinted row.createdUnix
  have hopened := hprinted row.lastOpenedUnix
  have hretired := hprinted row.retiredTotal
  rw [idLen] at hid
  rw [nameMax] at hname
  rw [rowLine, lineCapacity, nameMax]
  simp only [List.length_append, List.length_cons]
  omega

/-- A row whose name is without the blanks before it. -/
def stripped (row : Instance) : Instance := { row with name := skipBlanks row.name }

/-- The line of a row is read back, but for blanks before the name. -/
theorem rowOf_rowLine (h : row.Valid) :
    rowOf excess (rowLine row) = some (stripped row) := by
  obtain ⟨-, hid, hhex⟩ := idCheck_eq_ok h.id
  have hspace {s : List Octet} : ∀ c ∈ (0x20 :: s).head?, c = 0x20 := fun c hc =>
    (Option.some.inj hc).symm
  have hnumber (n : BitVec 64) (s : List Octet) : number 10 none (excess 64)
      (0x20 :: (printed 10 n.toNat ++ 0x20 :: s)) = some (n, 0x20 :: s) := by
    rw [number_blank, number_printed n.isLt hspace, BitVec.ofNat_toNat, BitVec.setWidth_eq]
  have hword (s : List Octet) : word 23 (row.id ++ 0x20 :: s) = some (row.id, 0x20 :: s) :=
    word_append (List.ne_nil_of_length_pos (by rw [hid]; decide)) (by rw [hid]; decide)
      (fun c hc => (lowerHex_spec (hhex c hc)).2) fun c hc => by rw [hspace c hc]; rfl
  have hbits (s : List Octet) : number 16 (some 8) (excess 32)
      (0x20 :: (padded 8 16 (optionsToBits row.options).toNat ++ s)) =
        some (optionsToBits row.options, s) := by
    rw [number_blank, number_padded (BitVec.isLt _) (by decide) (by decide), BitVec.ofNat_toNat,
      BitVec.setWidth_eq]
  have hscan : scanRow excess (rowLine row) = some ⟨row.id, row.createdUnix, row.lastOpenedUnix,
      row.retiredTotal, optionsToBits row.options,
      (rowLine row).length - (skipBlanks row.name).length⟩ := by
    rw [scanRow, rowLine, hword]
    simp only [Option.bind_eq_bind, Option.bind_some, hnumber, hbits, skipBlanks_blank]
    rfl
  have hdrop : (rowLine row).drop ((rowLine row).length - (skipBlanks row.name).length) =
      skipBlanks row.name := by
    have hname : row.name <:+ rowLine row :=
      ⟨row.id ++ 0x20 :: (printed 10 row.createdUnix.toNat ++
        0x20 :: (printed 10 row.lastOpenedUnix.toNat ++
        0x20 :: (printed 10 row.retiredTotal.toNat ++
        0x20 :: (padded 8 16 (optionsToBits row.options).toNat ++ [0x20])))), by
        simp only [rowLine, List.append_assoc, List.cons_append, List.nil_append]⟩
    exact (List.suffix_iff_eq_drop.1 ((skipBlanks_suffix _).trans hname)).symm
  have hconsumed : (rowLine row).length - (skipBlanks row.name).length ≠ 0 := by
    have hle := (skipBlanks_suffix row.name).length_le
    have hlt : row.name.length < (rowLine row).length := by
      rw [rowLine]
      simp only [List.length_append, List.length_cons]
      omega
    omega
  rw [rowOf, hscan]
  dsimp only
  rw [if_neg hconsumed, hdrop, bitsToOptions_optionsToBits]
  rfl

theorem not_blank_of_visible {c : Octet} (h : isControl c = false) (hne : c ≠ 0x20) :
    isBlank c = false := by
  have hall : ∀ c : Octet, isControl c = false → c ≠ 0x20 → isBlank c = false := by decide
  exact hall c h hne

/-- A valid name stays valid without the blanks before it. -/
theorem Instance.Valid.stripped (h : row.Valid) : (stripped row).Valid := by
  refine ⟨h.id, ?_⟩
  obtain ⟨-, hlen, hcontrol, c, hc, hne⟩ := nameCheck_eq_ok h.name
  have hsuffix := skipBlanks_suffix row.name
  have hvisible : c ∈ skipBlanks row.name := by
    have hsplit := hc
    rw [← List.takeWhile_append_dropWhile (p := isBlank) (l := row.name)] at hsplit
    refine (List.mem_append.1 hsplit).resolve_left fun hblank => ?_
    have hnot := not_blank_of_visible (hcontrol c hc) hne
    exact Bool.false_ne_true (hnot.symm.trans (List.all_eq_true.1 List.all_takeWhile c hblank))
  exact nameCheck_of_visible (hsuffix.length_le.trans hlen)
    (fun c hc => hcontrol c (hsuffix.subset hc)) hvisible hne

theorem kept_stripped {list : List Instance} (h : Kept list) : Kept (list.map stripped) := by
  refine ⟨?_, fun row hrow => ?_, ?_⟩
  · rw [List.length_map]
    exact h.bound
  · obtain ⟨old, hold, rfl⟩ := List.mem_map.1 hrow
    exact (h.valid old hold).stripped
  · rw [List.map_map]
    exact h.nodup

theorem lines_rowLine {list : List Instance} (h : ∀ row ∈ list, row.Valid) :
    Lines excess (list.map rowLine) (list.map stripped) := by
  induction list with
  | nil => exact .nil
  | cons row list ih =>
    obtain ⟨hrow, hlist⟩ := List.forall_mem_cons.1 h
    have htrim := trimmed_rowLine hrow
    have hne : rowLine row ≠ [] := by
      rw [rowLine]
      exact List.append_ne_nil_of_right_ne_nil _ (List.cons_ne_nil _ _)
    exact (ih hlist).cons (length_rowLine hrow) (htrim.symm ▸ hne)
      (htrim.symm ▸ rowOf_rowLine hrow)

theorem splitOn_rows {list : List Instance} (h : ∀ row ∈ list, row.Valid) :
    (list.flatMap fun row => rowLine row ++ [0x0a]).splitOn 0x0a = list.map rowLine ++ [[]] := by
  induction list with
  | nil => rfl
  | cons row list ih =>
    obtain ⟨hrow, hlist⟩ := List.forall_mem_cons.1 h
    rw [List.flatMap_cons, List.append_assoc, List.singleton_append,
      List.splitOn_append_cons_self_of_not_mem (not_mem_rowLine hrow), ih hlist]
    rfl

theorem printed_formatVersion : printed 10 formatVersion = [0x31] := by
  decide

theorem scanHeader_headerLine : scanHeader excess headerLine =
    some (instanceHeader, BitVec.ofNat 32 formatVersion) := by
  have hword (s : List Octet) : word 31 (instanceHeader ++ 0x20 :: s) =
      some (instanceHeader, 0x20 :: s) :=
    word_append (by decide) (by decide) (by decide) fun c hc => by cases hc; rfl
  have hnumber : number 10 none (excess 32) (0x20 :: (printed 10 formatVersion ++ [])) =
      some (BitVec.ofNat 32 formatVersion, []) := by
    rw [number_blank, number_printed (by decide) fun _ hc => by cases hc]
  rw [List.append_nil] at hnumber
  rw [scanHeader, headerLine, hword]
  simp only [Option.bind_eq_bind, Option.bind_some, hnumber]
  rfl

theorem not_mem_headerLine : (0x0a : Octet) ∉ headerLine := by
  rw [headerLine, printed_formatVersion]
  decide

theorem headerRead_headerLine (rest : List Octet) :
    HeaderRead excess (headerLine ++ 0x0a :: rest) := by
  have htrim : trimmed headerLine = headerLine := by
    rw [headerLine, printed_formatVersion]
    decide
  refine ⟨headerLine, ?_, ?_, ?_⟩
  · rw [List.splitOn_append_cons_self_of_not_mem not_mem_headerLine]
    rfl
  · rw [headerLine, printed_formatVersion]
    decide
  · rw [htrim, scanHeader_headerLine]

theorem recordLines_headerLine (rest : List Octet) :
    recordLines (headerLine ++ 0x0a :: rest) = rest.splitOn 0x0a := by
  rw [recordLines, List.splitOn_append_cons_self_of_not_mem not_mem_headerLine, List.tail_cons]

/-- A list is read back, but for blanks before names. -/
theorem deserialize_wholeText {list : List Instance} (h : Kept list) :
    deserialize excess (some (wholeText list)) = (.ok (), list.map stripped) := by
  have hrecords : recordLines (wholeText list) = list.map rowLine ++ [[]] := by
    rw [wholeText, recordLines_headerLine, splitOn_rows h.valid]
  have hkept : Kept ([] ++ list.map stripped) := kept_stripped h
  obtain ⟨-, hread⟩ | ⟨hheader, -⟩ := deserialize_eq excess (wholeText list)
  · rw [hread, hrecords, readLines_append (lines_rowLine h.valid) hkept]
    rfl
  · exact absurd (headerRead_headerLine _) hheader

/-- Nothing is taken off a valid name that does not begin with a space. -/
theorem stripped_eq_iff (h : row.Valid) :
    stripped row = row ↔ row.name.head? ≠ some 0x20 := by
  obtain ⟨-, -, hcontrol, -⟩ := nameCheck_eq_ok h.name
  constructor
  · intro hsame hhead
    have hname : skipBlanks row.name = row.name := congrArg Instance.name hsame
    cases hcs : row.name with
    | nil =>
      rw [hcs] at hhead
      exact absurd hhead nofun
    | cons c s =>
      rw [hcs] at hhead hname
      obtain rfl := Option.some.inj hhead
      have hle := (skipBlanks_suffix s).length_le
      rw [skipBlanks_blank] at hname
      rw [hname, List.length_cons] at hle
      omega
  · intro hhead
    have hname : skipBlanks row.name = row.name := skipBlanks_of_head fun c hc =>
      not_blank_of_visible (hcontrol c (List.mem_of_mem_head? hc))
        fun hspace => hhead (hspace ▸ hc)
    rw [stripped, hname]

/-- A list comes back if and only if no name begins with a space. -/
theorem deserialize_serialize_iff {list : List Instance} {cap : Nat} (h : Kept list)
    (hcap : (serialize list cap).total < cap) :
    deserialize excess (some (serialize list cap).text) = (.ok (), list) ↔
      ∀ row ∈ list, row.name.head? ≠ some 0x20 := by
  have hwrites := serialize_writes list cap
  rw [(hwrites.whole (hwrites.total ▸ hcap)).1, deserialize_wholeText h]
  have hlist : list.map stripped = list ↔ ∀ row ∈ list, stripped row = row := by
    conv_lhs => rw [← List.map_id list, List.map_map]
    exact List.map_inj_left
  constructor
  · intro hsame row hrow
    exact (stripped_eq_iff (h.valid row hrow)).1 (hlist.1 (Prod.ext_iff.1 hsame).2 row hrow)
  · intro hheads
    exact Prod.ext rfl (hlist.2 fun row hrow =>
      (stripped_eq_iff (h.valid row hrow)).2 (hheads row hrow))

/-! ### All or nothing, over every list and text -/

/-- The list of machines persists all or nothing, but for names that begin with a space and texts
that are torn, along any run of changes of the list:

* the text that `serialize` writes in full is read back as the very list it was written from,
  exactly when no name begins with a space;
* any text at all gives a row for each line after the header that is not blank, or an error and no
  row, exactly when no line that is too long comes behind lines that are all read;
* no two machines of the list have one identifier. -/
theorem persists_all_or_nothing {list : List Instance} (run : Run step (fun _ _ => True) [] list)
    (excess : Excess) (text : List Octet) :
    (∀ cap, (serialize list cap).total < cap →
      (deserialize excess (some (serialize list cap).text) = (.ok (), list) ↔
        ∀ row ∈ list, row.name.head? ≠ some 0x20)) ∧
    (AllOrNothing excess text ↔ ¬Torn excess text) ∧ (list.map Instance.id).Nodup :=
  ⟨fun _ hcap => deserialize_serialize_iff (kept_of_run run) hcap, allOrNothing_iff,
    (kept_of_run run).nodup⟩

/-- What `strtoul` makes of a number that does not fit. -/
def saturated : Excess := fun bits _ _ => BitVec.allOnes bits

/-- One machine is added, with that name. -/
def addNamed (name : String) : List Instance :=
  follow step [] [.add (some (textOf "0123456789abcdef")) (some (textOf name)) none 7]

/-- Two machines, of which the second one has a name with a space in it. -/
def twoMachines : List Instance :=
  follow step [] [.add (some (textOf "0123456789abcdef")) (some (textOf "iPod")) none 7,
    .add (some (textOf "fedcba9876543210")) (some (textOf "iPod touch")) none 9]

/-- Their rows are read back as they were written, and the text of the rows is all or nothing. -/
theorem persists_all_or_nothing_named :
    twoMachines.length = 2 ∧
    deserialize saturated
      (some (serialize twoMachines ((serialize twoMachines 0).total + 1)).text) =
        (.ok (), twoMachines) ∧
    (AllOrNothing saturated (serialize twoMachines 4096).text ↔
      ¬Torn saturated (serialize twoMachines 4096).text) ∧
    (twoMachines.map Instance.id).Nodup := by
  have run : Run step (fun _ _ => True) [] twoMachines := run_follow [] _
  obtain ⟨hback, hwhole, hnodup⟩ :=
    persists_all_or_nothing run saturated (serialize twoMachines 4096).text
  have htotal (cap : Nat) := (serialize_writes twoMachines cap).total
  have hcap : (serialize twoMachines ((serialize twoMachines 0).total + 1)).total <
      (serialize twoMachines 0).total + 1 := by
    rw [htotal, htotal]
    omega
  exact ⟨by decide +kernel, (hback _ hcap).mpr (by decide +kernel), hwhole, hnodup⟩

/-- A header line and a line of two hundred characters. -/
def longText : List Octet := headerLine ++ 0x0a :: List.replicate 200 0x78

/-- A name that begins with a space comes back without it, and the list ends before a line that is
too long. -/
theorem shorter_after_reading :
    deserialize saturated (some (serialize (addNamed " iPod")
      ((serialize (addNamed " iPod") 0).total + 1)).text) ≠ (.ok (), addNamed " iPod") ∧
    ¬AllOrNothing saturated longText := by
  constructor
  · intro hsame
    have hkept : Kept (addNamed " iPod") := kept_of_run (run_follow [] _)
    have htotal (cap : Nat) := (serialize_writes (addNamed " iPod") cap).total
    have hcap : (serialize (addNamed " iPod") ((serialize (addNamed " iPod") 0).total + 1)).total <
        (serialize (addNamed " iPod") 0).total + 1 := by
      rw [htotal, htotal]
      omega
    have hheads := (deserialize_serialize_iff hkept hcap).1 hsame
    exact hheads _ (List.mem_singleton_self _) rfl
  · rw [allOrNothing_iff, not_not]
    refine ⟨headerRead_headerLine _, [], List.replicate 200 0x78, [], [], ?_, ?_, .nil, .nil⟩
    · rw [longText, recordLines_headerLine]
      exact List.splitOn_eq_singleton fun h => absurd (List.eq_of_mem_replicate h) (by decide)
    · rw [List.length_replicate]
      decide

end S5LBox.App.Instances
