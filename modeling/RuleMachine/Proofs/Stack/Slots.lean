import RuleMachine.Proofs.Stack.Operations

/-!
# The stack in an array

Storage for a stack: a fixed array of cells, of which those below the depth hold the values from the bottom up and the others whatever was left in them. Every access to a cell is one of `read?` and `write?`, which are `none` outside the array, and each operation is put together from these. `apply_agrees` says that an operation on the array never has such an access and gives what the operation on the stack gives; dead cells play no part in it. Sequences of operations follow by induction.
-/

namespace RuleMachine

/-- A stack as it is stored. -/
structure Slots where
  cells : Vector Value Stack.capacity
  depth : Nat
  limit : Nat

namespace Slots

def empty (limit : Nat) : Slots := ⟨Vector.replicate Stack.capacity .undefined, 0, min limit Stack.capacity⟩

/-! ### Access to the cells -/

def read? (m : Slots) (index : Nat) : Option Value := m.cells[index]?

def write? (m : Slots) (index : Nat) (v : Value) : Option Slots :=
  if h : index < Stack.capacity then some { m with cells := m.cells.set index v h } else none

def readMany? (m : Slots) (start : Nat) : Nat → Option (List Value)
  | 0 => some []
  | n + 1 => do
    let v ← m.read? start
    let values ← m.readMany? (start + 1) n
    return v :: values

def writeMany? (m : Slots) (start : Nat) : List Value → Option Slots
  | [] => some m
  | v :: values => do
    let m ← m.write? start v
    m.writeMany? (start + 1) values

/-! ### The operations -/

def push (m : Slots) (v : Value) : Option (Except StackFault Slots) :=
  if m.limit ≤ m.depth then some (.error .overflow)
  else do
    let m ← m.write? m.depth v
    return .ok { m with depth := m.depth + 1 }

def popMany (m : Slots) (n : Nat) : Option (Except StackFault (List Value × Slots)) :=
  if m.depth < n then some (.error (.underflow n))
  else do
    let values ← m.readMany? (m.depth - n) n
    return .ok (values, { m with depth := m.depth - n })

def dup (m : Slots) (offset : Nat) : Option (Except StackFault Slots) :=
  if m.depth < offset + 1 then some (.error (.underflow (offset + 1)))
  else do
    let v ← m.read? (m.depth - 1 - offset)
    m.push v

/-- The top values move down by one place, the deepest of them comes to the top. -/
def rot (m : Slots) (offset : Nat) : Option (Except StackFault Slots) :=
  if m.depth < offset + 1 then some (.error (.underflow (offset + 1)))
  else do
    let values ← m.readMany? (m.depth - (offset + 1)) (offset + 1)
    let m ← m.writeMany? (m.depth - (offset + 1)) (values.tail ++ values.take 1)
    return .ok m

def apply (m : Slots) : Stack.Operation → Option (Except StackFault (List Value × Slots))
  | .push v => do return (← m.push v).map ([], ·)
  | .popMany n => m.popMany n
  | .dup offset => do return (← m.dup offset).map ([], ·)
  | .rot offset => do return (← m.rot offset).map ([], ·)

/-- One operation after the other, up to one that is refused; `none` if any of them has an access outside the array. -/
def carryOut (m : Slots) : List Stack.Operation → Option (Except StackFault Slots)
  | [] => some (.ok m)
  | op :: ops => do
    match ← m.apply op with
    | .ok (_, m) => m.carryOut ops
    | .error f => return .error f

/-! ### Rows of cells -/

variable {m : Slots} {s : Stack}

/-- The values that stand in a row of cells. -/
theorem readMany?_eq {start n : Nat} (h : start + n ≤ Stack.capacity) :
    m.readMany? start n = some ((m.cells.toList.drop start).take n) := by
  induction n generalizing start with
  | zero => rfl
  | succ n ih =>
    have hlt : start < Stack.capacity := by omega
    have hread : m.read? start = some m.cells[start] := Vector.getElem?_eq_getElem hlt
    have hcell : m.cells.toList.drop start = m.cells[start] :: m.cells.toList.drop (start + 1) := by
      rw [List.drop_eq_getElem_cons (by rwa [Vector.length_toList]), Vector.getElem_toList]
    rw [readMany?, hread, hcell, ih (by omega)]
    rfl

theorem take_set (m : Slots) {index : Nat} (v : Value) (h : index < Stack.capacity) :
    (m.cells.set index v h).toList.take (index + 1) = m.cells.toList.take index ++ [v] := by
  have hlength : index < m.cells.toList.length := by rwa [Vector.length_toList]
  rw [Vector.toList_set, List.take_add_one, List.take_set_of_le (Nat.le_refl index), List.getElem?_set_self hlength]
  rfl

/-- A row of cells is replaced, and no other cell. -/
theorem writeMany?_eq {start : Nat} {values : List Value} (h : start + values.length ≤ Stack.capacity) :
    ∃ cells : Vector Value Stack.capacity, m.writeMany? start values = some { m with cells } ∧
      cells.toList = m.cells.toList.take start ++ values ++ m.cells.toList.drop (start + values.length) := by
  induction values generalizing m start with
  | nil => exact ⟨m.cells, rfl, by simp⟩
  | cons v values ih =>
    rw [List.length_cons] at h
    have hlt : start < Stack.capacity := by omega
    obtain ⟨cells, hwrite, hcells⟩ := @ih { m with cells := m.cells.set start v hlt } (start + 1) (by omega)
    refine ⟨cells, ?_, ?_⟩
    · rw [writeMany?, write?, dif_pos hlt]
      exact hwrite
    · rw [hcells, m.take_set v hlt, Vector.toList_set, List.drop_set_of_lt (by omega),
        List.append_assoc (m.cells.toList.take start), List.singleton_append, List.length_cons,
        Nat.add_right_comm start 1, Nat.add_assoc]

/-! ### What the cells hold -/

/-- The cells below the depth are the values of the stack, from the bottom up. -/
structure Holds (m : Slots) (s : Stack) : Prop where
  live_eq : m.cells.toList.take m.depth = s.toList
  limit_eq : m.limit = s.limit
  depth_le : m.depth ≤ m.limit
  limit_le : m.limit ≤ Stack.capacity

theorem holds_empty (limit : Nat) : (empty limit).Holds (.empty limit) :=
  ⟨rfl, rfl, Nat.zero_le _, Nat.min_le_right _ _⟩

namespace Holds

theorem depth_eq (h : m.Holds s) : m.depth = s.depth := by
  have hlength := congrArg List.length h.live_eq
  have hdepth := h.depth_le
  have hlimit := h.limit_le
  rw [List.length_take, Vector.length_toList, Stack.toList, List.length_reverse] at hlength
  rw [Stack.depth]
  omega

/-- The top values stand in the last live cells. -/
theorem row_eq (h : m.Holds s) {n : Nat} (hn : n ≤ m.depth) :
    (m.cells.toList.drop (m.depth - n)).take n = (s.values.take n).reverse := by
  have hrow : (m.cells.toList.take m.depth).drop (m.depth - n) = (m.cells.toList.drop (m.depth - n)).take n := by
    rw [List.drop_take]
    congr 1
    omega
  rw [← hrow, h.live_eq, Stack.toList, List.reverse_take, h.depth_eq]
  rfl

/-- Without the top values the cells below them are the live ones. -/
theorem drop (h : m.Holds s) {n : Nat} (hn : n ≤ m.depth) :
    { m with depth := m.depth - n }.Holds { s with values := s.values.drop n } where
  live_eq := by
    have hbelow : m.cells.toList.take (m.depth - n) = (m.cells.toList.take m.depth).take (m.depth - n) := by
      rw [List.take_take]
      congr 1
      omega
    dsimp only
    rw [hbelow, h.live_eq, Stack.toList, Stack.toList, List.reverse_drop, h.depth_eq]
    rfl
  limit_eq := h.limit_eq
  depth_le := Nat.le_trans (Nat.sub_le _ _) h.depth_le
  limit_le := h.limit_le

theorem read?_eq (h : m.Holds s) {offset : Nat} (hoffset : offset < m.depth) :
    m.read? (m.depth - 1 - offset) = s.values[offset]? := by
  have hlive : (m.cells.toList.take m.depth)[m.depth - 1 - offset]? = m.read? (m.depth - 1 - offset) := by
    rw [List.getElem?_take_of_lt (by omega), Vector.getElem?_toList]
    rfl
  have hdepth := h.depth_eq
  rw [Stack.depth] at hdepth
  rw [← hlive, h.live_eq, Stack.toList, List.getElem?_reverse (by omega)]
  congr 1
  omega

end Holds

/-! ### The operations, on the array and on the stack -/

/-- The array and the stack have come to the same. -/
inductive Agree : Except StackFault (List Value × Slots) → Except StackFault (List Value × Stack) → Prop
  | done {values : List Value} {m : Slots} {s : Stack} (h : m.Holds s) : Agree (.ok (values, m)) (.ok (values, s))
  | refused (f : StackFault) : Agree (.error f) (.error f)

theorem push_agrees (h : m.Holds s) (v : Value) :
    ∃ r, m.push v = some r ∧ Agree (r.map ([], ·)) ((s.push v).map ([], ·)) := by
  unfold push Stack.push
  rw [← h.limit_eq, ← h.depth_eq]
  by_cases hroom : m.depth < m.limit
  · have hlt : m.depth < Stack.capacity := Nat.lt_of_lt_of_le hroom h.limit_le
    rw [if_neg (Nat.not_le.2 hroom), if_pos hroom, write?, dif_pos hlt]
    refine ⟨_, rfl, .done ⟨?_, rfl, hroom, h.limit_le⟩⟩
    rw [Stack.toList, List.reverse_cons, ← Stack.toList, ← h.live_eq]
    exact m.take_set v hlt
  · rw [if_pos (Nat.not_lt.1 hroom), if_neg hroom]
    exact ⟨_, rfl, .refused _⟩

theorem popMany_agrees (h : m.Holds s) (n : Nat) :
    ∃ r, m.popMany n = some r ∧ Agree r (s.popMany n) := by
  unfold popMany Stack.popMany
  rw [← h.depth_eq]
  by_cases hn : n ≤ m.depth
  · have hfits : m.depth - n + n ≤ Stack.capacity := by
      have hdepth := h.depth_le
      have hlimit := h.limit_le
      omega
    rw [if_neg (Nat.not_lt.2 hn), if_pos hn, readMany?_eq hfits, h.row_eq hn]
    exact ⟨_, rfl, .done (h.drop hn)⟩
  · rw [if_pos (Nat.not_le.1 hn), if_neg hn]
    exact ⟨_, rfl, .refused _⟩

theorem dup_agrees (h : m.Holds s) (offset : Nat) :
    ∃ r, m.dup offset = some r ∧ Agree (r.map ([], ·)) ((s.dup offset).map ([], ·)) := by
  have hdepth : m.depth = s.values.length := h.depth_eq
  unfold dup Stack.dup
  cases hvalue : s.values[offset]? with
  | none =>
    have hoffset := List.getElem?_eq_none_iff.1 hvalue
    rw [if_pos (by omega)]
    exact ⟨_, rfl, .refused _⟩
  | some v =>
    obtain ⟨hoffset, -⟩ := List.getElem?_eq_some_iff.1 hvalue
    rw [if_neg (by omega), h.read?_eq (by omega), hvalue]
    exact push_agrees h v

theorem rot_agrees (h : m.Holds s) (offset : Nat) :
    ∃ r, m.rot offset = some r ∧ Agree (r.map ([], ·)) ((s.rot offset).map ([], ·)) := by
  have hdepth : m.depth = s.values.length := h.depth_eq
  unfold rot Stack.rot
  cases hvalue : s.values[offset]? with
  | none =>
    have hoffset := List.getElem?_eq_none_iff.1 hvalue
    rw [if_pos (by omega)]
    exact ⟨_, rfl, .refused _⟩
  | some v =>
    obtain ⟨hoffset, -⟩ := List.getElem?_eq_some_iff.1 hvalue
    have hcount : offset + 1 ≤ m.depth := by omega
    have hfits : m.depth ≤ Stack.capacity := Nat.le_trans h.depth_le h.limit_le
    have hrow : (s.values.take (offset + 1)).reverse = v :: (s.values.take offset).reverse := by
      rw [List.take_add_one, hvalue, List.reverse_append]
      rfl
    have hlength : ((s.values.take offset).reverse ++ [v]).length = offset + 1 := by
      rw [List.length_append, List.length_reverse, List.length_take, Nat.min_eq_left (Nat.le_of_lt hoffset)]
      rfl
    obtain ⟨cells, hwrite, hcells⟩ :=
      @writeMany?_eq m (m.depth - (offset + 1)) ((s.values.take offset).reverse ++ [v]) (by omega)
    rw [if_neg (by omega), readMany?_eq (by omega), h.row_eq hcount, hrow]
    refine ⟨.ok { m with cells }, ?_, .done ⟨?_, h.limit_eq, h.depth_le, h.limit_le⟩⟩
    · dsimp only [List.tail_cons, List.take_succ_cons, List.take_zero, Option.bind_eq_bind, Option.bind_some]
      rw [hwrite]
      rfl
    · have hbelow := (h.drop hcount).live_eq
      have hlive : (m.cells.toList.take (m.depth - (offset + 1)) ++ ((s.values.take offset).reverse ++ [v])).length
          = m.depth := by
        rw [List.length_append, hlength, List.length_take, Vector.length_toList]
        omega
      dsimp only at hbelow ⊢
      rw [hcells, List.take_left' hlive, hbelow, Stack.toList, Stack.toList, List.eraseIdx_eq_take_drop_succ]
      simp

/-- An operation never has an access outside the array, and comes to what it comes to on the stack. -/
theorem apply_agrees (h : m.Holds s) (op : Stack.Operation) :
    ∃ r, m.apply op = some r ∧ Agree r (s.apply op) := by
  cases op with
  | push v =>
    obtain ⟨r, hpush, hagree⟩ := push_agrees h v
    exact ⟨_, by rw [apply, hpush]; rfl, hagree⟩
  | popMany n => exact popMany_agrees h n
  | dup offset =>
    obtain ⟨r, hdup, hagree⟩ := dup_agrees h offset
    exact ⟨_, by rw [apply, hdup]; rfl, hagree⟩
  | rot offset =>
    obtain ⟨r, hrot, hagree⟩ := rot_agrees h offset
    exact ⟨_, by rw [apply, hrot]; rfl, hagree⟩

/-- So it is for one operation after the other. -/
theorem carryOut_agrees (h : m.Holds s) (ops : List Stack.Operation) :
    (∃ m' s', m.carryOut ops = some (.ok m') ∧ s.carryOut ops = .ok s' ∧ m'.Holds s') ∨
      ∃ f, m.carryOut ops = some (.error f) ∧ s.carryOut ops = .error f := by
  induction ops generalizing m s with
  | nil => exact .inl ⟨m, s, rfl, rfl, h⟩
  | cons op ops ih =>
    obtain ⟨r, happly, hagree⟩ := apply_agrees h op
    rw [carryOut, Stack.carryOut, happly]
    generalize s.apply op = r' at hagree
    cases hagree with
    | done hholds => exact ih hholds
    | refused f => exact .inr ⟨f, rfl, rfl⟩

end Slots

end RuleMachine
