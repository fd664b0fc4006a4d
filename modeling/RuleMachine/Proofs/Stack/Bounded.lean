import RuleMachine.Proofs.Stack.Slots

/-!
# The stack as a bounded list

What is asked of a stack and what it answers, said on the list of its values from the bottom up: which part of the list is given, copied or moved, that an operation is refused for want of values before it is refused for want of room, and that the list stays as it is when an operation is refused. `Listed` is that list, `Stack.serve` the stack and `Slots.serve` the array that stores it. Any calls are answered by all three in the same way, and nothing of it depends on what is left in the cells above the depth.
-/

namespace RuleMachine

namespace Stack

/-- What a stack can be called for, also where it is refused. -/
inductive Call where
  | operate (op : Operation)
  | pop
  | popPair
  /-- The value so many places below the top. -/
  | peek (depth : Nat)
  deriving DecidableEq

inductive Answer where
  /-- What the operation gives, the deepest value first. -/
  | given (values : List Value)
  | refused (fault : StackFault)
  | seen (v : Option Value)
  deriving DecidableEq

/-- The answer, and what there is after it: what there was before, if the operation was refused. -/
def Answer.settle {α : Type} (before : α) : Except StackFault (List Value × α) → Answer × α
  | .ok (values, after) => (.given values, after)
  | .error f => (.refused f, before)

def serve (s : Stack) : Call → Answer × Stack
  | .operate op => Answer.settle s (s.apply op)
  | .pop => Answer.settle s (s.pop.map fun r => ([r.1], r.2))
  | .popPair => Answer.settle s (s.popPair.map fun r => ([r.1, r.2.1], r.2.2))
  | .peek depth => (.seen (s.peek? depth), s)

/-- The answers to calls one after the other, and the stack after the last. -/
def serveAll (s : Stack) : List Call → List Answer × Stack
  | [] => ([], s)
  | call :: calls =>
    let served := s.serve call
    let rest := served.2.serveAll calls
    (served.1 :: rest.1, rest.2)

/-! ### On a list -/

namespace Call

/-- How many values there have to be. -/
def needs : Call → Nat
  | operate (.push _) | peek _ => 0
  | operate (.popMany n) => n
  | operate (.dup offset) | operate (.rot offset) => offset + 1
  | pop => 1
  | popPair => 2

/-- How many values are removed and given. -/
def removes? : Call → Option Nat
  | operate (.popMany n) => some n
  | pop => some 1
  | popPair => some 2
  | _ => none

/-- Whether there is a value more than before. -/
def grows : Call → Bool
  | operate (.push _) | operate (.dup _) => true
  | _ => false

theorem needs_of_removes {call : Call} {n : Nat} (h : call.removes? = some n) : call.needs = n := by
  cases call with
  | operate op => cases op <;> cases h; rfl
  | pop | popPair =>
    cases h
    rfl
  | peek => cases h

end Call

/-- A call on the values from the bottom up, of which there is room for so many: what it is answered, and the values after it. -/
inductive Listed (bound : Nat) : List Value → Call → Answer → List Value → Prop
  | short {row : List Value} {call : Call} (hshort : row.length < call.needs) :
    Listed bound row call (.refused (.underflow call.needs)) row
  | full {row : List Value} {call : Call} (henough : call.needs ≤ row.length) (hgrows : call.grows = true)
      (hfull : row.length = bound) :
    Listed bound row call (.refused .overflow) row
  | pushed {row : List Value} {v : Value} (hroom : row.length < bound) :
    Listed bound row (.operate (.push v)) (.given []) (row ++ [v])
  | removed {row values : List Value} {call : Call} (hcall : call.removes? = some values.length) :
    Listed bound (row ++ values) call (.given values) row
  | copied {below above : List Value} {v : Value} (hroom : (below ++ v :: above).length < bound) :
    Listed bound (below ++ v :: above) (.operate (.dup above.length)) (.given []) (below ++ v :: above ++ [v])
  | rotated {below above : List Value} {v : Value} :
    Listed bound (below ++ v :: above) (.operate (.rot above.length)) (.given []) (below ++ above ++ [v])
  | seen {below above : List Value} {v : Value} :
    Listed bound (below ++ v :: above) (.peek above.length) (.seen (some v)) (below ++ v :: above)
  | unseen {row : List Value} {depth : Nat} (hdepth : row.length ≤ depth) :
    Listed bound row (.peek depth) (.seen none) row

/-- Calls one after the other on such a list. -/
inductive ListedAll (bound : Nat) : List Value → List Call → List Answer → List Value → Prop
  | nil {row : List Value} : ListedAll bound row [] [] row
  | cons {row next last : List Value} {call : Call} {calls : List Call} {answer : Answer} {answers : List Answer}
      (hcall : Listed bound row call answer next) (hrest : ListedAll bound next calls answers last) :
    ListedAll bound row (call :: calls) (answer :: answers) last

variable {bound : Nat} {row next : List Value} {call : Call} {answer : Answer}

theorem Listed.length_le (h : Listed bound row call answer next) (hrow : row.length ≤ bound) : next.length ≤ bound := by
  cases h with
  | short | full | seen | unseen => exact hrow
  | pushed hroom | copied hroom =>
    rw [List.length_append, List.length_singleton]
    exact hroom
  | removed hcall =>
    rw [List.length_append] at hrow
    omega
  | rotated =>
    simp only [List.length_append, List.length_cons, List.length_nil] at hrow ⊢
    omega

/-- The value that is so many places below the top, with what is below and above it. -/
theorem exists_split {offset : Nat} (h : offset < row.length) :
    ∃ below v above, row = below ++ v :: above ∧ above.length = offset := by
  have hlt : row.length - 1 - offset < row.length := by omega
  refine ⟨row.take (row.length - 1 - offset), row[row.length - 1 - offset],
    row.drop (row.length - 1 - offset + 1), ?_, ?_⟩
  · rw [← List.drop_eq_getElem_cons hlt, List.take_append_drop]
  · rw [List.length_drop]
    omega

theorem exists_split_last {n : Nat} (h : n ≤ row.length) : ∃ rest values, row = rest ++ values ∧ values.length = n := by
  refine ⟨row.take (row.length - n), row.drop (row.length - n), (List.take_append_drop _ _).symm, ?_⟩
  rw [List.length_drop]
  omega

/-- There is an answer to every call. -/
theorem exists_listed (hrow : row.length ≤ bound) (call : Call) : ∃ answer next, Listed bound row call answer next := by
  by_cases hshort : row.length < call.needs
  · exact ⟨_, _, .short hshort⟩
  · by_cases hfull : call.grows = true ∧ row.length = bound
    · exact ⟨_, _, .full (Nat.not_lt.1 hshort) hfull.1 hfull.2⟩
    · cases call with
      | operate op =>
        cases op with
        | push v => exact ⟨_, _, .pushed (Nat.lt_of_le_of_ne hrow fun heq => hfull ⟨rfl, heq⟩)⟩
        | popMany n =>
          obtain ⟨rest, values, rfl, rfl⟩ := exists_split_last (Nat.not_lt.1 hshort)
          exact ⟨_, _, .removed rfl⟩
        | dup offset =>
          obtain ⟨below, v, above, rfl, rfl⟩ := exists_split (Nat.not_lt.1 hshort)
          exact ⟨_, _, .copied (Nat.lt_of_le_of_ne hrow fun heq => hfull ⟨rfl, heq⟩)⟩
        | rot offset =>
          obtain ⟨below, v, above, rfl, rfl⟩ := exists_split (Nat.not_lt.1 hshort)
          exact ⟨_, _, .rotated⟩
      | pop =>
        obtain ⟨rest, values, rfl, hlength⟩ := exists_split_last (Nat.not_lt.1 hshort)
        exact ⟨_, _, .removed (congrArg some hlength.symm)⟩
      | popPair =>
        obtain ⟨rest, values, rfl, hlength⟩ := exists_split_last (Nat.not_lt.1 hshort)
        exact ⟨_, _, .removed (congrArg some hlength.symm)⟩
      | peek depth =>
        by_cases hdepth : depth < row.length
        · obtain ⟨below, v, above, rfl, rfl⟩ := exists_split hdepth
          exact ⟨_, _, .seen⟩
        · exact ⟨_, _, .unseen (Nat.not_lt.1 hdepth)⟩

/-! ### On the stack -/

variable {limit : Nat}

/-- The stack of these values from the bottom up. -/
def ofList (limit : Nat) (row : List Value) : Stack := ⟨row.reverse, limit⟩

theorem ofList_toList (s : Stack) : ofList s.limit s.toList = s := by
  rw [ofList, toList, List.reverse_reverse]

@[simp] theorem toList_ofList (limit : Nat) (row : List Value) : (ofList limit row).toList = row :=
  List.reverse_reverse row

@[simp] theorem depth_ofList (limit : Nat) (row : List Value) : (ofList limit row).depth = row.length :=
  List.length_reverse

theorem push_ofList_of_lt {v : Value} (h : row.length < limit) :
    (ofList limit row).push v = .ok (ofList limit (row ++ [v])) := by
  rw [push, if_pos (by rwa [depth_ofList]), ofList, ofList, List.reverse_append]
  rfl

theorem push_ofList_of_eq {v : Value} (h : row.length = limit) : (ofList limit row).push v = .error .overflow := by
  rw [push, if_neg (by rw [depth_ofList]; exact Nat.not_lt.2 (Nat.le_of_eq h.symm))]

theorem popMany_ofList (limit : Nat) (row values : List Value) :
    (ofList limit (row ++ values)).popMany values.length = .ok (values, ofList limit row) := by
  have hvalues : (ofList limit (row ++ values)).values = values.reverse ++ row.reverse := List.reverse_append
  have hdepth : values.length ≤ (ofList limit (row ++ values)).depth := by
    rw [depth_ofList, List.length_append]
    omega
  rw [popMany, if_pos hdepth, hvalues, List.take_left' List.length_reverse, List.drop_left' List.length_reverse,
    List.reverse_reverse]
  rfl

theorem popMany_ofList_of_lt {n : Nat} (h : row.length < n) : (ofList limit row).popMany n = .error (.underflow n) := by
  rw [popMany, if_neg (by rw [depth_ofList]; exact Nat.not_le.2 h)]

/-- The values from the top down, around one of them. -/
theorem values_ofList (limit : Nat) (below above : List Value) (v : Value) :
    (ofList limit (below ++ v :: above)).values = above.reverse ++ v :: below.reverse := by
  rw [ofList, List.reverse_append, List.reverse_cons, List.append_assoc, List.singleton_append]

theorem peek?_ofList (limit : Nat) (below above : List Value) (v : Value) :
    (ofList limit (below ++ v :: above)).peek? above.length = some v := by
  have hlength : above.reverse.length = above.length := List.length_reverse
  rw [peek?, values_ofList, ← hlength, List.getElem?_append_right (Nat.le_refl _), Nat.sub_self]
  rfl

theorem peek?_ofList_of_le {depth : Nat} (h : row.length ≤ depth) : (ofList limit row).peek? depth = none :=
  List.getElem?_eq_none_iff.2 (by rwa [← Stack.depth, depth_ofList])

theorem dup_of_peek? {s : Stack} {offset : Nat} {v : Value} (h : s.peek? offset = some v) :
    s.dup offset = s.push v := by
  rw [peek?] at h
  rw [dup, h]

theorem dup_ofList (limit : Nat) (below above : List Value) (v : Value) :
    (ofList limit (below ++ v :: above)).dup above.length = (ofList limit (below ++ v :: above)).push v :=
  dup_of_peek? (peek?_ofList limit below above v)

theorem dup_ofList_of_lt {offset : Nat} (h : row.length < offset + 1) :
    (ofList limit row).dup offset = .error (.underflow (offset + 1)) := by
  have hvalue : (ofList limit row).peek? offset = none := peek?_ofList_of_le (Nat.le_of_lt_succ h)
  rw [peek?] at hvalue
  rw [dup, hvalue]

theorem rot_ofList (limit : Nat) (below above : List Value) (v : Value) :
    (ofList limit (below ++ v :: above)).rot above.length = .ok (ofList limit (below ++ above ++ [v])) := by
  have hvalue := peek?_ofList limit below above v
  have hlength : above.reverse.length = above.length := List.length_reverse
  have hrest : (above.reverse ++ v :: below.reverse).eraseIdx above.length = above.reverse ++ below.reverse := by
    rw [← hlength, List.eraseIdx_append_of_length_le (Nat.le_refl _), Nat.sub_self]
    rfl
  have hafter : (below ++ above ++ [v]).reverse = v :: (above.reverse ++ below.reverse) := by
    rw [List.reverse_append, List.reverse_append]
    rfl
  rw [peek?] at hvalue
  rw [rot, hvalue]
  dsimp only
  rw [values_ofList, hrest]
  exact congrArg (fun values => Except.ok (Stack.mk values limit)) hafter.symm

theorem rot_ofList_of_lt {offset : Nat} (h : row.length < offset + 1) :
    (ofList limit row).rot offset = .error (.underflow (offset + 1)) := by
  have hvalue : (ofList limit row).peek? offset = none := peek?_ofList_of_le (Nat.le_of_lt_succ h)
  rw [peek?] at hvalue
  rw [rot, hvalue]

theorem pop_eq (s : Stack) : (s.pop.map fun r => ([r.1], r.2)) = s.popMany 1 := by
  unfold pop popMany depth
  cases s.values with
  | nil => rfl
  | cons v rest => simp [Except.map]

theorem popPair_eq (s : Stack) : (s.popPair.map fun r => ([r.1, r.2.1], r.2.2)) = s.popMany 2 := by
  unfold popPair popMany depth
  rcases s.values with _ | ⟨v, _ | ⟨w, rest⟩⟩ <;> simp [Except.map]

theorem serve_of_removes {s : Stack} {n : Nat} (h : call.removes? = some n) :
    s.serve call = Answer.settle s (s.popMany n) := by
  cases call with
  | operate op => cases op <;> cases h; rfl
  | pop =>
    cases h
    rw [serve, pop_eq]
  | popPair =>
    cases h
    rw [serve, popPair_eq]
  | peek => cases h

/-- The stack answers as the list of its values does. -/
theorem serve_of_listed (h : Listed limit row call answer next) :
    (ofList limit row).serve call = (answer, ofList limit next) := by
  cases h with
  | short hshort =>
    cases hcall : call.removes? with
    | some n =>
      rw [serve_of_removes hcall, ← Call.needs_of_removes hcall, popMany_ofList_of_lt hshort]
      rfl
    | none =>
      cases call with
      | operate op =>
        cases op with
        | push => exact absurd hshort (Nat.not_lt_zero _)
        | popMany => cases hcall
        | dup offset => rw [serve, apply, dup_ofList_of_lt hshort]; rfl
        | rot offset => rw [serve, apply, rot_ofList_of_lt hshort]; rfl
      | pop | popPair => cases hcall
      | peek => exact absurd hshort (Nat.not_lt_zero _)
  | full henough hgrows hfull =>
    cases call with
    | operate op =>
      cases op with
      | push v => rw [serve, apply, push_ofList_of_eq hfull]; rfl
      | dup offset =>
        obtain ⟨below, v, above, rfl, rfl⟩ := exists_split henough
        rw [serve, apply, dup_ofList, push_ofList_of_eq hfull]
        rfl
      | popMany | rot => cases hgrows
    | pop | popPair | peek => cases hgrows
  | pushed hroom => rw [serve, apply, push_ofList_of_lt hroom]; rfl
  | removed hcall => rw [serve_of_removes hcall, popMany_ofList]; rfl
  | copied hroom => rw [serve, apply, dup_ofList, push_ofList_of_lt hroom]; rfl
  | rotated => rw [serve, apply, rot_ofList]; rfl
  | seen => rw [serve, peek?_ofList]
  | unseen hdepth => rw [serve, peek?_ofList_of_le hdepth]

theorem serveAll_of_listedAll {calls : List Call} {answers : List Answer} {last : List Value}
    (h : ListedAll limit row calls answers last) :
    (ofList limit row).serveAll calls = (answers, ofList limit last) := by
  induction h with
  | nil => rfl
  | cons hcall _ ih => rw [serveAll, serve_of_listed hcall, ih]

theorem exists_listedAll (hrow : row.length ≤ bound) (calls : List Call) :
    ∃ answers last, ListedAll bound row calls answers last := by
  induction calls generalizing row with
  | nil => exact ⟨[], row, .nil⟩
  | cons call calls ih =>
    obtain ⟨answer, next, hcall⟩ := exists_listed hrow call
    obtain ⟨answers, last, hrest⟩ := ih (hcall.length_le hrow)
    exact ⟨answer :: answers, last, .cons hcall hrest⟩

end Stack

/-! ### In the array -/

namespace Slots

open Stack (Call Answer)

/-- The cells below the depth, from the bottom up. -/
def live (m : Slots) : List Value := m.cells.toList.take m.depth

def peek? (m : Slots) (depth : Nat) : Option (Option Value) :=
  if m.depth < depth + 1 then some none else (m.read? (m.depth - (depth + 1))).map some

/-- As `Stack.serve`; `none` if there is an access outside the array. -/
def serve (m : Slots) : Call → Option (Answer × Slots)
  | .operate op => (m.apply op).map (Answer.settle m)
  | .pop => (m.popMany 1).map (Answer.settle m)
  | .popPair => (m.popMany 2).map (Answer.settle m)
  | .peek depth => (m.peek? depth).map fun v => (.seen v, m)

def serveAll (m : Slots) : List Call → Option (List Answer × Slots)
  | [] => some ([], m)
  | call :: calls => do
    let served ← m.serve call
    let rest ← served.2.serveAll calls
    return (served.1 :: rest.1, rest.2)

variable {m : Slots} {s : Stack}

theorem Agree.settle {r : Except StackFault (List Value × Slots)} {r' : Except StackFault (List Value × Stack)}
    (h : Agree r r') (hm : m.Holds s) :
    ∃ m', Answer.settle m r = ((Answer.settle s r').1, m') ∧ m'.Holds (Answer.settle s r').2 := by
  cases h with
  | done h => exact ⟨_, rfl, h⟩
  | refused f => exact ⟨_, rfl, hm⟩

theorem peek?_agrees (h : m.Holds s) (depth : Nat) : m.peek? depth = some (s.peek? depth) := by
  have hdepth : m.depth = s.values.length := h.depth_eq
  unfold peek? Stack.peek?
  by_cases hlt : depth < m.depth
  · have hindex : m.depth - (depth + 1) = m.depth - 1 - depth := by omega
    rw [if_neg (by omega), hindex, h.read?_eq hlt, List.getElem?_eq_getElem (hdepth ▸ hlt), Option.map_some]
  · rw [if_pos (by omega), List.getElem?_eq_none_iff.2 (by omega)]

theorem serve_of_removes {call : Call} {n : Nat} (h : call.removes? = some n) :
    m.serve call = (m.popMany n).map (Answer.settle m) := by
  cases call with
  | operate op => cases op <;> cases h; rfl
  | pop | popPair =>
    cases h
    rfl
  | peek => cases h

theorem serve_agrees (h : m.Holds s) (call : Call) :
    ∃ m', m.serve call = some ((s.serve call).1, m') ∧ m'.Holds (s.serve call).2 := by
  cases hcall : call.removes? with
  | some n =>
    obtain ⟨r, hpop, hagree⟩ := popMany_agrees h n
    obtain ⟨m', hsettle, hholds⟩ := hagree.settle h
    rw [serve_of_removes hcall, Stack.serve_of_removes hcall, hpop]
    exact ⟨m', congrArg some hsettle, hholds⟩
  | none =>
    cases call with
    | operate op =>
      obtain ⟨r, happly, hagree⟩ := apply_agrees h op
      obtain ⟨m', hsettle, hholds⟩ := hagree.settle h
      rw [serve, happly]
      exact ⟨m', congrArg some hsettle, hholds⟩
    | pop | popPair => cases hcall
    | peek depth =>
      rw [serve, peek?_agrees h depth]
      exact ⟨m, rfl, h⟩

theorem serveAll_agrees (h : m.Holds s) (calls : List Call) :
    ∃ m', m.serveAll calls = some ((s.serveAll calls).1, m') ∧ m'.Holds (s.serveAll calls).2 := by
  induction calls generalizing m s with
  | nil => exact ⟨m, rfl, h⟩
  | cons call calls ih =>
    obtain ⟨m₁, hserve, hholds₁⟩ := serve_agrees h call
    obtain ⟨m', hrest, hholds⟩ := ih hholds₁
    refine ⟨m', ?_, hholds⟩
    rw [serveAll, hserve, Option.bind_eq_bind, Option.bind_some, hrest]
    rfl

/-- Only the live cells say what an array holds. -/
theorem Holds.of_live {cells : Vector Value Stack.capacity} (h : m.Holds s)
    (hcells : cells.toList.take m.depth = m.live) : { m with cells }.Holds s where
  live_eq := hcells.trans h.live_eq
  limit_eq := h.limit_eq
  depth_le := h.depth_le
  limit_le := h.limit_le

/-- Whatever it is called for, and whatever is refused, the array answers as the stack does and as the list of its values does that has room for so many, and it holds these values after every call. What stands in the other cells makes no difference to any later call. -/
theorem serves_as_bounded_list (limit : Nat) (calls : List Call) :
    ∃ answers m s, (empty limit).serveAll calls = some (answers, m) ∧
      (Stack.empty limit).serveAll calls = (answers, s) ∧ m.live = s.toList ∧
      (∀ answers' row, Stack.ListedAll (min limit 32) [] calls answers' row ↔ answers' = answers ∧ row = m.live) ∧
      ∀ cells more, cells.toList.take m.depth = m.live →
        ∃ answers' n n', m.serveAll more = some (answers', n) ∧ { m with cells }.serveAll more = some (answers', n') ∧
          n'.live = n.live := by
  obtain ⟨answers, row, hlisted⟩ := @Stack.exists_listedAll (min limit 32) [] (Nat.zero_le _) calls
  have hserve : (Stack.empty limit).serveAll calls = _ := Stack.serveAll_of_listedAll hlisted
  obtain ⟨m, hslots, hholds⟩ := serveAll_agrees (holds_empty limit) calls
  rw [hserve] at hslots hholds
  have hlive : m.live = row := hholds.live_eq.trans (Stack.toList_ofList _ _)
  refine ⟨answers, m, _, hslots, hserve, hholds.live_eq, ?_, ?_⟩
  · intro answers' row'
    rw [hlive]
    constructor
    · intro h
      obtain ⟨hanswers, hrow⟩ := Prod.mk.inj ((Stack.serveAll_of_listedAll h).symm.trans hserve)
      have hvalues := congrArg Stack.toList hrow
      rw [Stack.toList_ofList, Stack.toList_ofList] at hvalues
      exact ⟨hanswers, hvalues⟩
    · rintro ⟨rfl, rfl⟩
      exact hlisted
  · intro cells more hcells
    obtain ⟨n, hmore, hn⟩ := serveAll_agrees hholds more
    obtain ⟨n', hmore', hn'⟩ := serveAll_agrees (hholds.of_live hcells) more
    exact ⟨_, n, n', hmore, hmore', hn'.live_eq.trans hn.live_eq.symm⟩

/-- A value that was removed is still in its cell, and a copy is made as if it were not. -/
theorem serves_as_bounded_list_left_over :
    ∃ m answers n n',
      (empty 2).serveAll [.operate (.push (.u8 1)), .operate (.push (.u8 2)), .pop] =
          some ([.given [], .given [], .given [.u8 2]], m) ∧
        m.read? 1 = some (.u8 2) ∧ m.serveAll [.operate (.dup 0)] = some (answers, n) ∧
          { m with cells := (Vector.replicate Stack.capacity Value.undefined).set 0 (.u8 1) }.serveAll
              [.operate (.dup 0)] = some (answers, n') ∧
            n'.live = n.live := by
  have hserve : (empty 2).serveAll [.operate (.push (.u8 1)), .operate (.push (.u8 2)), .pop] =
      some ([.given [], .given [], .given [.u8 2]],
        ⟨((Vector.replicate Stack.capacity Value.undefined).set 0 (.u8 1)).set 1 (.u8 2), 1, 2⟩) := rfl
  obtain ⟨_, m, s, hslots, -, -, -, hcells⟩ :=
    serves_as_bounded_list 2 [.operate (.push (.u8 1)), .operate (.push (.u8 2)), .pop]
  cases hserve.symm.trans hslots
  obtain ⟨answers, n, n', hmore, hmore', hlive⟩ :=
    hcells ((Vector.replicate Stack.capacity Value.undefined).set 0 (.u8 1)) [.operate (.dup 0)] (by decide)
  exact ⟨_, answers, n, n', hserve, rfl, hmore, hmore', hlive⟩

end Slots

end RuleMachine
