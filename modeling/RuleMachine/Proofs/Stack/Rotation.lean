import Mathlib.Data.List.Rotate
import RuleMachine.Proofs.Except
import RuleMachine.Proofs.Stack.Bounded
import RuleMachine.Run.Perform

/-!
# Rotations of the stack

Bringing the value at an offset to the top rotates the values down to that offset by one place, so doing it again and again rotates them by as many places: `rotTimes_ofList`, on the values from the bottom up. All else about repeated rotations is read off this, and it is also where copying counts its offset from.
-/

namespace RuleMachine

namespace Stack

/-- The stack after so many rotations. -/
def rotTimes (s : Stack) (offset : Nat) : Nat → Except StackFault Stack
  | 0 => .ok s
  | n + 1 => do
    let s ← s.rotTimes offset n
    s.rot offset

variable {s s' : Stack} {offset n : Nat} {below top : List Value}

theorem rotTimes_ofList (limit : Nat) (below : List Value) (htop : top.length = offset + 1) (n : Nat) :
    (ofList limit (below ++ top)).rotTimes offset n = .ok (ofList limit (below ++ top.rotate n)) := by
  induction n with
  | zero => rw [List.rotate_zero, rotTimes]
  | succ n ih =>
    -- From the bottom up, the deepest of the rotated values is their head, and it goes to their end.
    have hlength : (top.rotate n).length = offset + 1 := (List.length_rotate top n).trans htop
    obtain ⟨v, above, hsplit⟩ := List.exists_cons_of_length_eq_add_one hlength
    have hoffset : above.length = offset := by
      rw [hsplit, List.length_cons] at hlength
      exact Nat.succ.inj hlength
    rw [rotTimes, ih, Except.ok_bind, ← List.rotate_rotate, hsplit, ← hoffset, rot_ofList, List.rotate_cons_succ,
      List.rotate_zero, List.append_assoc]

/-- The values down to an offset, and those below them. -/
theorem exists_ofList (h : offset < s.depth) :
    ∃ below top, s = ofList s.limit (below ++ top) ∧ top.length = offset + 1 := by
  have hdepth : offset + 1 ≤ s.toList.length := by rwa [toList, List.length_reverse]
  obtain ⟨below, top, hrow, htop⟩ := exists_split_last hdepth
  exact ⟨below, top, by rw [← hrow, ofList_toList], htop⟩

theorem take_ofList (limit : Nat) (below : List Value) (htop : top.length = n) :
    (ofList limit (below ++ top)).values.take n = top.reverse := by
  rw [ofList, List.reverse_append, List.take_left' (by rw [List.length_reverse, htop])]

theorem drop_ofList (limit : Nat) (below : List Value) (htop : top.length = n) :
    (ofList limit (below ++ top)).values.drop n = below.reverse := by
  rw [ofList, List.reverse_append, List.drop_left' (by rw [List.length_reverse, htop])]

theorem peek?_ofList_top (limit : Nat) (below : List Value) (htop : top.length = offset + 1) {i : Nat}
    (hi : i ≤ offset) : (ofList limit (below ++ top)).peek? i = top[offset - i]? := by
  rw [peek?, ofList, List.reverse_append, List.getElem?_append_left (by rw [List.length_reverse]; omega),
    List.getElem?_reverse (by omega)]
  congr 1
  omega

/-- A value stands so many places further up after as many rotations, and comes to the bottom of the round behind the top. -/
theorem peek?_of_rotTimes (h : offset < s.depth) (hs' : s.rotTimes offset n = .ok s') {i j : Nat} (hi : i ≤ offset)
    (hj : j ≤ offset) (hplace : (offset - i + n) % (offset + 1) = offset - j) : s'.peek? i = s.peek? j := by
  obtain ⟨below, top, hs, htop⟩ := exists_ofList h
  rw [hs, rotTimes_ofList s.limit below htop] at hs'
  cases hs'
  have hrotated : (top.rotate n).length = offset + 1 := (List.length_rotate top n).trans htop
  rw [peek?_ofList_top s.limit below hrotated hi, List.getElem?_rotate (by omega), htop, hplace, hs]
  exact (peek?_ofList_top s.limit below htop hj).symm

/-- How the values of a stack down to an offset go round when the deepest of them is brought to the top again and again. -/
structure Orbit (s : Stack) (offset : Nat) : Prop where
  /-- After as many rotations as there are such values the stack is as it was. -/
  restored : s.rotTimes offset (offset + 1) = .ok s
  /-- It is not before, if they are all different. -/
  moved : (s.values.take (offset + 1)).Nodup → ∀ n, 0 < n → n < offset + 1 → s.rotTimes offset n ≠ .ok s
  /-- They are moved among themselves, and nothing else is. -/
  kept : ∀ n, ∃ s', s.rotTimes offset n = .ok s' ∧ s'.limit = s.limit ∧ s'.depth = s.depth ∧
    s'.values.drop (offset + 1) = s.values.drop (offset + 1) ∧
      (s'.values.take (offset + 1)).Perm (s.values.take (offset + 1))
  /-- A copy from the offset is of the value that was as many places nearer to the top, and of the deepest when all have gone round. -/
  copied : ∀ n ≤ offset + 1, ∀ s', s.rotTimes offset n = .ok s' →
    ∃ v, s.peek? (if n ≤ offset then offset - n else offset) = some v ∧ s'.dup offset = s'.push v
  /-- The value on top was as many places above the offset, counted from the place below it. -/
  topmost : ∀ n, 1 ≤ n → n ≤ offset + 1 → ∀ s', s.rotTimes offset n = .ok s' →
    ∃ v, s.peek? (offset + 1 - n) = some v ∧ s'.peek? 0 = some v

theorem exists_peek? {i : Nat} (h : i < s.depth) : ∃ v, s.peek? i = some v := ⟨_, List.getElem?_eq_getElem h⟩

theorem orbit_of_lt (h : offset < s.depth) : s.Orbit offset := by
  obtain ⟨below, top, hs, htop⟩ := exists_ofList h
  have htimes : ∀ n, s.rotTimes offset n = .ok (ofList s.limit (below ++ top.rotate n)) := by
    intro n
    rw [hs]
    exact rotTimes_ofList s.limit below htop n
  constructor
  case restored => rw [htimes, ← htop, List.rotate_length, ← hs]
  case moved =>
    intro hnodup n hpos hlt hback
    rw [hs, take_ofList s.limit below htop, List.nodup_reverse] at hnodup
    have hsame : (ofList s.limit (below ++ top.rotate n)).toList = (ofList s.limit (below ++ top)).toList := by
      rw [← hs, Except.ok.inj ((htimes n).symm.trans hback)]
    rw [toList_ofList, toList_ofList] at hsame
    rcases hnodup.rotate_eq_self_iff.1 (List.append_cancel_left hsame) with hmod | hnil
    · rw [htop, Nat.mod_eq_of_lt hlt] at hmod
      omega
    · rw [hnil] at htop
      cases htop
  case kept =>
    intro n
    have hrotated : (top.rotate n).length = offset + 1 := (List.length_rotate top n).trans htop
    refine ⟨_, htimes n, rfl, ?_, ?_, ?_⟩
    · calc (ofList s.limit (below ++ top.rotate n)).depth
          _ = below.length + (offset + 1) := by rw [depth_ofList, List.length_append, hrotated]
          _ = (ofList s.limit (below ++ top)).depth := by rw [depth_ofList, List.length_append, htop]
          _ = s.depth := by rw [← hs]
    · rw [drop_ofList s.limit below hrotated, hs]
      exact (drop_ofList s.limit below htop).symm
    · rw [take_ofList s.limit below hrotated, hs, take_ofList s.limit below htop]
      exact ((List.reverse_perm _).trans (List.rotate_perm top n)).trans (List.reverse_perm top).symm
  case copied =>
    intro n hn s' hs'
    have hplace : (offset - offset + n) % (offset + 1) = offset - (if n ≤ offset then offset - n else offset) := by
      split
      case isTrue hle =>
        rw [Nat.mod_eq_of_lt (by omega)]
        omega
      case isFalse hlt =>
        obtain rfl : n = offset + 1 := by omega
        rw [Nat.sub_self, Nat.zero_add, Nat.mod_self]
    have hj : (if n ≤ offset then offset - n else offset) ≤ offset := by split <;> omega
    obtain ⟨v, hv⟩ := exists_peek? (Nat.lt_of_le_of_lt hj h)
    exact ⟨v, hv, dup_of_peek? ((peek?_of_rotTimes h hs' (Nat.le_refl _) hj hplace).trans hv)⟩
  case topmost =>
    intro n hpos hn s' hs'
    have hplace : (offset - 0 + n) % (offset + 1) = offset - (offset + 1 - n) := by
      have hplaces : offset - 0 + n = n - 1 + (offset + 1) := by omega
      rw [hplaces, Nat.add_mod_right, Nat.mod_eq_of_lt (by omega)]
      omega
    obtain ⟨v, hv⟩ := exists_peek? (show offset + 1 - n < s.depth by omega)
    exact ⟨v, hv, (peek?_of_rotTimes h hs' (Nat.zero_le _) (by omega) hplace).trans hv⟩

end Stack

/-! ### In a context -/

namespace Context

/-- The instruction performed so many times, one after the other. -/
def performTimes (c : Context) (around : Surroundings) (i : Instruction) : Nat → Except Fault (Context × Next)
  | 0 => .ok (c, .advance)
  | n + 1 => do
    let (c, _) ← c.performTimes around i n
    c.perform around i

variable {c : Context} {around : Surroundings} {byte : UInt8} {n : Nat} {s : Stack}

theorem perform_rotAt_of_rot (h : c.stack.rot byte.toNat = .ok s) :
    c.perform around (.rotAt byte) = .ok ({ c with stack := s }, .advance) := by
  have hrot : c.rot byte.toNat = .ok { c with stack := s } := by
    rw [rot, h, withStack]
  exact Except.bind_eq_ok_iff.2 ⟨_, hrot, rfl⟩

theorem performTimes_rotAt (h : c.stack.rotTimes byte.toNat n = .ok s) :
    c.performTimes around (.rotAt byte) n = .ok ({ c with stack := s }, .advance) := by
  induction n generalizing s with
  | zero =>
    cases h
    rfl
  | succ n ih =>
    obtain ⟨before, hbefore, hrot⟩ := Except.bind_eq_ok_iff.1 h
    exact Except.bind_eq_ok_iff.2 ⟨_, ih hbefore, @perform_rotAt_of_rot { c with stack := before } around byte s hrot⟩

theorem perform_dupAt_of_dup {v : Value} (h : c.stack.dup byte.toNat = c.stack.push v) :
    c.perform around (.dupAt byte) = c.advanceWith v := by
  rw [perform, dup, h, advanceWith, push]

end Context

/-- Rotations down to one offset again and again move the values down to it around and nothing else, and an instruction that copies from that offset copies the value that is rotated to it. -/
theorem Stack.rotation_orbit (s : Stack) {offset : Nat} (h : offset < s.depth) :
    s.Orbit offset ∧
      ∀ (c : Context) (around : Surroundings) (byte : UInt8), c.stack = s → byte.toNat = offset →
        ∀ n ≤ offset + 1, ∃ s' v, c.performTimes around (.rotAt byte) n = .ok ({ c with stack := s' }, .advance) ∧
          s.peek? (if n ≤ offset then offset - n else offset) = some v ∧
            { c with stack := s' }.perform around (.dupAt byte) = { c with stack := s' }.advanceWith v := by
  have horbit : s.Orbit offset := orbit_of_lt h
  refine ⟨horbit, ?_⟩
  intro c around byte hstack hbyte n hn
  obtain ⟨s', hs', -⟩ := horbit.kept n
  obtain ⟨v, hv, hdup⟩ := horbit.copied n hn s' hs'
  subst hstack hbyte
  exact ⟨s', v, Context.performTimes_rotAt hs', hv, Context.perform_dupAt_of_dup hdup⟩

/-- Three values of which the deepest is brought to the top come back after three times and not after one. -/
theorem Stack.rotation_orbit_three :
    2 < (⟨[.u8 3, .u8 2, .u8 1], 3⟩ : Stack).depth ∧
      (⟨[.u8 3, .u8 2, .u8 1], 3⟩ : Stack).rotTimes 2 3 = .ok ⟨[.u8 3, .u8 2, .u8 1], 3⟩ ∧
        (⟨[.u8 3, .u8 2, .u8 1], 3⟩ : Stack).rotTimes 2 1 ≠ .ok ⟨[.u8 3, .u8 2, .u8 1], 3⟩ := by
  have hdepth : 2 < (⟨[.u8 3, .u8 2, .u8 1], 3⟩ : Stack).depth := Nat.lt_succ_self 2
  have horbit := (rotation_orbit _ hdepth).1
  exact ⟨hdepth, horbit.restored, horbit.moved (by decide) 1 (by decide) (by decide)⟩

end RuleMachine
