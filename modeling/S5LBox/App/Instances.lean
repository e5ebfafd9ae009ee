import S5LBox.Lib.Runs
import S5LBox.Lib.Scan

/-!
# The list of machines

`VMInstances.c` keeps at most sixteen machines, each with an identifier, a name, counters and the
values of its options. Rows are added, renamed, removed and duplicated, and the application writes
counters and options into them.

## Main definitions

* `Instance`: a row of the list.
* `nameCheck`, `idCheck`, `add`, `remove`, `rename`, `duplicate`: the functions of the list.
* `Action`, `step`: what may be done with a list.

## Main results

* `Kept`: every row has passed its checks, and no two share an identifier.
* `kept_of_run`: so it is in every list that can be reached.
-/

namespace S5LBox.App.Instances

open Runs Scan

/-! ### Rows -/

/-- `vm_instance_status_t`, without `VM_INSTANCE_OK`. -/
inductive Refusal
  | null | full | range | nameEmpty | nameLong | nameControl | idInvalid | idTaken | parse
  deriving DecidableEq

/-- `VM_INSTANCE_MAX`. -/
def instanceMax : Nat := 16

/-- `VM_INSTANCE_ID_LEN`. -/
def idLen : Nat := 16

/-- `VM_INSTANCE_NAME_MAX`. -/
def nameMax : Nat := 48

/-- `VM_INSTANCE_OPTION_MAX`. -/
def optionMax : Nat := 32

/-- `vm_instance_t`. The texts are without their terminators. -/
structure Instance where
  id : List Octet
  name : List Octet
  createdUnix : BitVec 64
  lastOpenedUnix : BitVec 64
  retiredTotal : BitVec 64
  options : Fin optionMax → Bool

/-- A control character. -/
def isControl (c : Octet) : Bool := c.toNat < 0x20 ∨ c = 0x7f

/-- `vm_instance_name_check`, which gives the name back. -/
def nameCheck : Option (List Octet) → Except Refusal (List Octet)
  | none => .error .null
  | some name =>
    if nameMax < name.length then .error .nameLong
    else if name.any isControl then .error .nameControl
    else if name.all (· == 0x20) then .error .nameEmpty
    else .ok name

/-- A lower-case hexadecimal digit. -/
def isLowerHex (c : Octet) : Bool :=
  0x30 ≤ c.toNat ∧ c.toNat ≤ 0x39 ∨ 0x61 ≤ c.toNat ∧ c.toNat ≤ 0x66

/-- `vm_instance_id_check`, which gives the identifier back. -/
def idCheck : Option (List Octet) → Except Refusal (List Octet)
  | none => .error .null
  | some id => if id.length ≠ idLen then .error .idInvalid
    else if id.all isLowerHex then .ok id else .error .idInvalid

/-! ### The functions of the list -/

/-- `vm_instance_index_of_id`. -/
def indexOfId (list : List Instance) (id : List Octet) : Option Nat :=
  match idCheck (some id) with
  | .error _ => none
  | .ok id => list.findIdx? fun row => row.id == id

/-- The row that `vm_instance_add` makes. Options beyond the given ones are false. -/
def newRow (id name : List Octet) (options : Option (List Bool)) (created : BitVec 64) : Instance :=
  ⟨id, name, created, 0, 0, fun i => ((options.getD [])[i.val]?).getD false⟩

/-- `vm_instance_add`, which gives the new index. -/
def add (list : List Instance) (id name : Option (List Octet)) (options : Option (List Bool))
    (created : BitVec 64) : Except Refusal (List Instance × Nat) :=
  match idCheck id with
  | .error e => .error e
  | .ok id =>
    match nameCheck name with
    | .error e => .error e
    | .ok name =>
      if instanceMax ≤ list.length then .error .full
      else if (indexOfId list id).isSome then .error .idTaken
      else .ok (list ++ [newRow id name options created], list.length)

/-- `vm_instance_remove`. -/
def remove (list : List Instance) (index : Nat) : Except Refusal (List Instance) :=
  if index < list.length then .ok (list.eraseIdx index) else .error .range

/-- `vm_instance_rename`. -/
def rename (list : List Instance) (index : Nat) (name : Option (List Octet)) :
    Except Refusal (List Instance) :=
  if index < list.length then
    match nameCheck name with
    | .error e => .error e
    | .ok name => .ok (list.modify index fun row => { row with name := name })
  else .error .range

/-- `vm_instance_duplicate`. -/
def duplicate (list : List Instance) (index : Nat) (newId newName : Option (List Octet))
    (created : BitVec 64) : Except Refusal (List Instance × Nat) :=
  match list[index]? with
  | none => .error .range
  | some source => add list newId newName (some (List.ofFn source.options)) created

/-- What is done with a list. The application writes counters and options into a row. -/
inductive Action
  | add (id name : Option (List Octet)) (options : Option (List Bool)) (created : BitVec 64)
  | remove (index : Nat)
  | rename (index : Nat) (name : Option (List Octet))
  | duplicate (index : Nat) (newId newName : Option (List Octet)) (created : BitVec 64)
  | write (index : Nat) (lastOpened retired : BitVec 64) (options : Fin optionMax → Bool)

/-- A step, which leaves the list as it is where it is refused. -/
def step (a : Action) (list : List Instance) : List Instance :=
  match a with
  | .add id name options created =>
    match add list id name options created with
    | .ok (list, _) => list
    | .error _ => list
  | .remove index =>
    match remove list index with
    | .ok list => list
    | .error _ => list
  | .rename index name =>
    match rename list index name with
    | .ok list => list
    | .error _ => list
  | .duplicate index newId newName created =>
    match duplicate list index newId newName created with
    | .ok (list, _) => list
    | .error _ => list
  | .write index lastOpened retired options => list.modify index fun row =>
      { row with lastOpenedUnix := lastOpened, retiredTotal := retired, options := options }

/-! ### What is kept -/

/-- A row has passed its checks. -/
structure Instance.Valid (row : Instance) : Prop where
  id : idCheck (some row.id) = .ok row.id
  name : nameCheck (some row.name) = .ok row.name

/-- The invariant of a list. -/
structure Kept (list : List Instance) : Prop where
  bound : list.length ≤ instanceMax
  valid : ∀ row ∈ list, row.Valid
  nodup : (list.map Instance.id).Nodup

variable {list list' : List Instance} {id name : Option (List Octet)}
  {options : Option (List Bool)} {created : BitVec 64} {index : Nat}

theorem idCheck_eq_ok {i : List Octet} (h : idCheck id = .ok i) :
    id = some i ∧ i.length = idLen ∧ ∀ c ∈ i, isLowerHex c = true := by
  rw [idCheck.eq_def] at h
  split at h
  · exact absurd h nofun
  · split at h
    · exact absurd h nofun
    · rename_i hlen
      split at h
      · rename_i hall
        obtain rfl := Except.ok.inj h
        exact ⟨rfl, of_not_not hlen, List.all_eq_true.1 hall⟩
      · exact absurd h nofun

theorem nameCheck_eq_ok {n : List Octet} (h : nameCheck name = .ok n) :
    name = some n ∧ n.length ≤ nameMax ∧ (∀ c ∈ n, isControl c = false) ∧ ∃ c ∈ n, c ≠ 0x20 := by
  rw [nameCheck.eq_def] at h
  split at h
  · exact absurd h nofun
  · split at h
    · exact absurd h nofun
    · split at h
      · exact absurd h nofun
      · split at h
        · exact absurd h nofun
        · rename_i hlen hcontrol hblank
          obtain rfl := Except.ok.inj h
          simp only [List.any_eq_true, not_exists, not_and, Bool.not_eq_true] at hcontrol
          simp only [List.all_eq_true, beq_iff_eq, not_forall] at hblank
          obtain ⟨c, hc, hne⟩ := hblank
          exact ⟨rfl, Nat.not_lt.1 hlen, hcontrol, c, hc, hne⟩

theorem nameCheck_of_visible {n : List Octet} {c : Octet} (hlen : n.length ≤ nameMax)
    (hcontrol : ∀ c ∈ n, isControl c = false) (hc : c ∈ n) (hne : c ≠ 0x20) :
    nameCheck (some n) = .ok n := by
  have hany : n.any isControl = false := List.any_eq_false.2 fun c hc => by
    rw [hcontrol c hc]
    exact Bool.false_ne_true
  have hall : ¬n.all (· == 0x20) = true := fun hall =>
    hne (eq_of_beq (List.all_eq_true.1 hall c hc))
  rw [nameCheck, if_neg (Nat.not_lt.2 hlen), hany, if_neg Bool.false_ne_true, if_neg hall]

theorem indexOfId_isSome {i : List Octet} (h : idCheck (some i) = .ok i) :
    (indexOfId list i).isSome = true ↔ i ∈ list.map Instance.id := by
  rw [indexOfId, h]
  dsimp only
  rw [List.findIdx?_isSome, List.any_eq_true, List.mem_map]
  simp only [beq_iff_eq]

/-- What `vm_instance_add` does where it succeeds, and when it does. -/
theorem add_eq_ok {added : Nat} :
    add list id name options created = .ok (list', added) ↔
      ∃ i n, idCheck id = .ok i ∧ nameCheck name = .ok n ∧ list.length < instanceMax ∧
        i ∉ list.map Instance.id ∧ list' = list ++ [newRow i n options created] ∧
        added = list.length := by
  rw [add.eq_def]
  cases hid : idCheck id with
  | error e => exact ⟨nofun, fun ⟨_, _, h, _⟩ => absurd h nofun⟩
  | ok i =>
    cases hname : nameCheck name with
    | error e => exact ⟨nofun, fun ⟨_, _, _, h, _⟩ => absurd h nofun⟩
    | ok n =>
      have hself : idCheck (some i) = .ok i := (idCheck_eq_ok hid).1 ▸ hid
      dsimp only
      constructor
      · intro h
        split_ifs at h with hfull htaken
        obtain ⟨rfl, rfl⟩ := Prod.ext_iff.1 (Except.ok.inj h)
        exact ⟨i, n, rfl, rfl, Nat.not_le.1 hfull,
          fun hmem => htaken ((indexOfId_isSome hself).2 hmem), rfl, rfl⟩
      · rintro ⟨_, _, hi, hn, hroom, hfresh, rfl, rfl⟩
        cases hi
        cases hn
        rw [if_neg (Nat.not_le.2 hroom), if_neg fun h => hfresh ((indexOfId_isSome hself).1 h)]

theorem Kept.nil : Kept [] := ⟨Nat.zero_le _, nofun, List.nodup_nil⟩

theorem Kept.sublist (h : Kept list) (hs : list'.Sublist list) : Kept list' :=
  ⟨hs.length_le.trans h.bound, fun row hrow => h.valid row (hs.subset hrow),
    h.nodup.sublist (hs.map _)⟩

/-- A row may be appended where it is valid and new, and there is room. -/
theorem kept_concat {row : Instance} : Kept (list ++ [row]) ↔
    Kept list ∧ row.Valid ∧ list.length < instanceMax ∧ row.id ∉ list.map Instance.id := by
  constructor
  · intro h
    have hbound := h.bound
    have hnodup := h.nodup
    rw [List.length_append, List.length_singleton] at hbound
    rw [List.map_append] at hnodup
    obtain ⟨-, -, hdisjoint⟩ := List.nodup_append'.1 hnodup
    exact ⟨h.sublist (List.sublist_append_left _ _),
      h.valid row (List.mem_append_right _ (List.mem_singleton_self _)), hbound,
      fun hmem => hdisjoint hmem (List.mem_singleton_self _)⟩
  · rintro ⟨h, hvalid, hroom, hfresh⟩
    refine ⟨?_, fun r hr => ?_, ?_⟩
    · rw [List.length_append]
      exact hroom
    · obtain hr | hr := List.mem_append.1 hr
      · exact h.valid r hr
      · exact List.mem_singleton.1 hr ▸ hvalid
    · rw [List.map_append]
      exact List.nodup_append'.2 ⟨h.nodup, List.nodup_singleton _,
        List.disjoint_singleton.2 hfresh⟩

theorem Kept.add {added : Nat} (h : Kept list)
    (hadd : add list id name options created = .ok (list', added)) : Kept list' := by
  obtain ⟨i, n, hid, hname, hroom, hfresh, rfl, _⟩ := add_eq_ok.1 hadd
  exact kept_concat.2 ⟨h, ⟨(idCheck_eq_ok hid).1 ▸ hid, (nameCheck_eq_ok hname).1 ▸ hname⟩, hroom,
    hfresh⟩

theorem Kept.remove (h : Kept list) : Kept (list.eraseIdx index) :=
  h.sublist (List.eraseIdx_sublist ..)

/-- A row may be changed where it keeps its identifier and has a valid name. -/
theorem Kept.modify {f : Instance → Instance} (h : Kept list) (hid : ∀ row, (f row).id = row.id)
    (hf : ∀ row, row.Valid → (f row).Valid) : Kept (list.modify index f) := by
  refine ⟨?_, fun row hrow => ?_, ?_⟩
  · rw [List.length_modify]
    exact h.bound
  · obtain ⟨j, hj⟩ := List.mem_iff_getElem?.1 hrow
    rw [List.getElem?_modify] at hj
    obtain ⟨old, hold, rfl⟩ := Option.map_eq_some_iff.1 hj
    have hvalid := h.valid old (List.mem_of_getElem? hold)
    split
    · exact hf old hvalid
    · exact hvalid
  · have hsame : (list.modify index f).map Instance.id = list.map Instance.id := by
      refine List.ext_getElem? fun j => ?_
      rw [List.getElem?_map, List.getElem?_modify, List.getElem?_map]
      cases list[j]? with
      | none => rfl
      | some row =>
        refine congrArg some ?_
        dsimp only
        split
        · exact hid row
        · rfl
    rw [hsame]
    exact h.nodup

/-- A step keeps the invariant. -/
theorem Kept.step {a : Action} (h : Kept list) : Kept (step a list) := by
  cases a with
  | add id name options created =>
    rw [Instances.step]
    split
    · exact h.add ‹_›
    · exact h
  | remove index =>
    rw [Instances.step, Instances.remove]
    split_ifs
    · exact h.remove
    · exact h
  | rename index name =>
    rw [Instances.step, rename.eq_def]
    split_ifs
    · cases hname : nameCheck name with
      | error e => exact h
      | ok n =>
        have hself : nameCheck (some n) = .ok n := (nameCheck_eq_ok hname).1 ▸ hname
        exact h.modify (fun _ => rfl) fun _ hrow => ⟨hrow.id, hself⟩
    · exact h
  | duplicate index newId newName created =>
    rw [Instances.step, duplicate.eq_def]
    cases list[index]? with
    | none => exact h
    | some source =>
      dsimp only
      split
      · exact h.add ‹_›
      · exact h
  | write index lastOpened retired options =>
    exact h.modify (fun _ => rfl) fun _ hrow => ⟨hrow.id, hrow.name⟩

/-- In every list that can be reached the rows have passed their checks, and their identifiers are
distinct. -/
theorem kept_of_run (run : Run step (fun _ _ => True) [] list) : Kept list :=
  run.keeps (fun _ _ _ h => h.step) .nil

end S5LBox.App.Instances
