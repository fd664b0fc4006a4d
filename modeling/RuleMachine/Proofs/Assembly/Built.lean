import RuleMachine.Proofs.Assembly.Layout
import RuleMachine.Proofs.Program.Header

/-!
# What an assembly comes to

Whether an assembly becomes a program is up to its calls: every instruction has to have an encoding, every mark has to be made where an entry can point, and the whole has to fit into a program. What is built then is the header and behind it what the calls append, in their order, so each call finds the assembly at the offset at which its bytes will stand.
-/

namespace RuleMachine

namespace Assembly

variable {a : Assembly} {before after calls : List Call} {call : Call} {entry : Entry} {p : Program}

/-! ### When nothing fails -/

/-- Nothing fails when every call fits the assembly that it meets. -/
theorem foldl_error_eq_none_iff :
    (calls.foldl apply a).error = none ↔
      a.error = none ∧
        ∀ before call after, calls = before ++ call :: after → call.Fits (before.foldl apply a).offset := by
  induction calls generalizing a with
  | nil => simp
  | cons first rest ih =>
    rw [List.foldl_cons, ih, apply_error_eq_none_iff, and_assoc]
    refine and_congr_right fun _ => ?_
    constructor
    · rintro ⟨hfirst, hrest⟩ before call after hsplit
      rcases List.cons_eq_append_iff.1 hsplit with ⟨rfl, hcall⟩ | ⟨before', rfl, hrest'⟩
      · cases hcall
        exact hfirst
      · exact hrest before' call after hrest'
    · intro h
      refine ⟨h [] first rest rfl, ?_⟩
      rintro before call after rfl
      exact h (first :: before) call after rfl

theorem assemble_error_eq_none_iff :
    (assemble calls).error = none ↔
      (∀ i ∈ calls.flatMap Call.instructions, ∃ e, i.encode = .ok e) ∧
        ∀ before entry after, calls = before ++ .mark entry :: after → (assemble before).offset ≤ 65535 := by
  have hencodable (i : Instruction) : (∃ e, i.encode = .ok e) ↔ i.operandError? = none := by
    simp [Instruction.encode_eq_ok_iff]
  rw [assemble, foldl_error_eq_none_iff]
  simp only [hencodable]
  constructor
  · rintro ⟨-, hfits⟩
    refine ⟨?_, fun before entry after hsplit => Nat.le_of_lt_succ (hfits before (.mark entry) after hsplit)⟩
    intro i hi
    obtain ⟨call, hcall, hi⟩ := List.mem_flatMap.1 hi
    obtain ⟨before, after, hsplit⟩ := List.append_of_mem hcall
    exact (hfits before call after hsplit).instructions i hi
  · rintro ⟨hinstructions, hmarks⟩
    refine ⟨rfl, ?_⟩
    intro before call after hsplit
    have hcall : ∀ i ∈ call.instructions, i.operandError? = none := by
      intro i hi
      refine hinstructions i (List.mem_flatMap.2 ⟨call, ?_, hi⟩)
      rw [hsplit]
      exact List.mem_append_right _ List.mem_cons_self
    cases call with
    | mark entry => exact Nat.lt_succ_of_le (hmarks before entry after hsplit)
    | _ => exact hcall

/-- As long as nothing fails an assembly stands behind what has been appended. -/
theorem offset_assemble (h : (assemble calls).error = none) :
    (assemble calls).offset = Program.headerSize + (calls.flatMap Call.bytes).length := by
  rw [(laidOut_assemble h).offset_eq, Layout.size, layout, Layout.body_foldl]
  rfl

theorem Call.bytes_of_instructions {i : Instruction} (hcall : call.instructions = [i]) : call.bytes = i.encoded := by
  cases call with
  | raw bytes => cases hcall
  | _ => exact (congrArg (List.flatMap Instruction.encoded) hcall).trans (List.flatMap_singleton _ _)

/-- A call for one instruction is met when the instruction has an encoding. -/
theorem concat_error_eq_none_iff {i : Instruction} (hbefore : (assemble before).error = none)
    (hcall : call.instructions = [i]) : (assemble (before ++ [call])).error = none ↔ i.operandError? = none := by
  have hfits : call.Fits (assemble before).offset ↔ ∀ i ∈ call.instructions, i.operandError? = none := by
    cases call with
    | mark entry => cases hcall
    | _ => exact Iff.rfl
  rw [assemble_append, List.foldl_cons, List.foldl_nil, apply_error_eq_none_iff, hfits, hcall]
  simp [hbefore]

theorem offset_concat (h : (assemble (before ++ [call])).error = none) :
    (assemble (before ++ [call])).offset = (assemble before).offset + call.bytes.length := by
  rw [offset_assemble h, offset_assemble (error_eq_none_of_append h), List.flatMap_append, List.flatMap_singleton,
    List.length_append, Nat.add_assoc]

theorem exists_finish_eq_ok_iff : (∃ p, a.finish = .ok p) ↔ a.error = none ∧ a.offset ≤ 65536 := by
  constructor
  · rintro ⟨p, hp⟩
    obtain ⟨herror, hcode⟩ := finish_eq_ok_iff.1 hp
    refine ⟨herror, ?_⟩
    rw [offset, hcode]
    exact p.size_le
  · rintro ⟨herror, hle⟩
    exact ⟨⟨a.code, hle⟩, finish_eq_ok_iff.2 ⟨herror, rfl⟩⟩

/-- As long as there is room, one more instruction is built exactly if it has an encoding. -/
theorem exists_finish_concat_iff {i : Instruction} (hbefore : (assemble before).error = none)
    (hcall : call.instructions = [i]) (hroom : (assemble before).offset + i.encoded.length ≤ 65536) :
    (∃ p, (assemble (before ++ [call])).finish = .ok p) ↔ i.operandError? = none := by
  rw [exists_finish_eq_ok_iff, ← concat_error_eq_none_iff hbefore hcall]
  refine and_iff_left_of_imp fun hwritten => ?_
  rw [offset_concat hwritten, Call.bytes_of_instructions hcall]
  exact hroom

/-! ### Where the entries point -/

/-- After these calls an entry points to this offset: to where it was marked last, and to the first instruction if it was not marked. -/
inductive Points (entry : Entry) : List Call → Nat → Prop
  | unmarked {calls : List Call} (hcalls : .mark entry ∉ calls) : Points entry calls Program.headerSize
  | marked {before after : List Call} (hafter : .mark entry ∉ after) :
    Points entry (before ++ .mark entry :: after) (assemble before).offset

theorem Points.concat {offset : Nat} (h : Points entry calls offset) (hcall : call ≠ .mark entry) :
    Points entry (calls ++ [call]) offset := by
  cases h with
  | unmarked hcalls => exact .unmarked (by simp [hcalls, hcall.symm])
  | @marked before after hafter =>
    rw [List.append_assoc, List.cons_append]
    exact .marked (by simp [hafter, hcall.symm])

theorem Layout.entries_apply_of_ne (l : Layout) (hcall : call ≠ .mark entry) :
    (l.apply call).entries entry = l.entries entry := by
  cases call with
  | mark other =>
    refine Function.update_of_ne ?_ _ _
    rintro rfl
    exact hcall rfl
  | _ => rfl

theorem points_layout (h : (assemble calls).error = none) (entry : Entry) :
    Points entry calls ((layout calls).entries entry) := by
  -- From the back: only the last call can have moved the entry since.
  induction calls using List.reverseRecOn with
  | nil => exact .unmarked List.not_mem_nil
  | append_singleton calls call ih =>
    have hbefore := error_eq_none_of_append h
    rw [layout_concat]
    by_cases hcall : call = .mark entry
    · have hentry : ((layout calls).apply (.mark entry)).entries entry = (assemble calls).offset := by
        rw [(laidOut_assemble hbefore).offset_eq]
        exact Function.update_self _ _ _
      rw [hcall, hentry]
      exact .marked List.not_mem_nil
    · rw [(layout calls).entries_apply_of_ne hcall]
      exact (ih hbefore).concat hcall

theorem Points.headerSize_le {offset : Nat} (h : Points entry calls offset) (herror : (assemble calls).error = none) :
    Program.headerSize ≤ offset := by
  cases h with
  | unmarked => exact Nat.le_refl _
  | marked =>
    rw [offset_assemble (error_eq_none_of_append herror)]
    exact Nat.le_add_right _ _

/-! ### What is built -/

/-- In the program stand, at the offset where the assembly stood before a call, the bytes of the call. -/
theorem exists_bytes_of_finish (h : (assemble (before ++ call :: after)).finish = .ok p) :
    ∃ front back, p.bytes.toList = front ++ call.bytes ++ back ∧ front.length = (assemble before).offset := by
  obtain ⟨herror, -⟩ := finish_eq_ok_iff.1 h
  obtain ⟨hbytes, -, -⟩ := laidOut_of_finish h
  rw [Layout.bytes, layout, Layout.body_foldl, List.flatMap_append, List.flatMap_cons] at hbytes
  refine ⟨Program.supportedVersion :: (BigEndian.encode 2 ((layout (before ++ call :: after)).entries .packet) ++
    BigEndian.encode 2 ((layout (before ++ call :: after)).entries .periodic) ++ before.flatMap Call.bytes),
    after.flatMap Call.bytes, ?_, ?_⟩
  · rw [hbytes]
    simp [Layout.start, layout]
  · rw [offset_assemble (error_eq_none_of_append herror)]
    simp [Program.headerSize]
    omega

/-- The program is what the calls ask for. -/
structure Builds (calls : List Call) (p : Program) (offsets : Entry → Nat) : Prop where
  points : ∀ entry, Points entry calls (offsets entry)
  encode_eq : ∀ i ∈ calls.flatMap Call.instructions, i.encode = .ok i.encoded
  bytes_eq : p.bytes.toList = Program.supportedVersion ::
    (BigEndian.encode 2 (offsets .packet) ++ BigEndian.encode 2 (offsets .periodic) ++ calls.flatMap Call.bytes)
  entryOffset_eq : ∀ entry, ∃ offset, p.entryOffset entry = .ok offset ∧ offset.toNat = offsets entry
  position_eq : ∀ before call after, calls = before ++ call :: after →
    (assemble before).offset = Program.headerSize + (before.flatMap Call.bytes).length ∧
      (p.bytes.extract (assemble before).offset ((assemble before).offset + call.bytes.length)).toList = call.bytes
  validate_iff : p.validate = .ok () ↔ ∀ entry, offsets entry < p.size

theorem extract_of_finish (h : (assemble (before ++ call :: after)).finish = .ok p) :
    (p.bytes.extract (assemble before).offset ((assemble before).offset + call.bytes.length)).toList = call.bytes := by
  obtain ⟨front, back, hbytes, hfront⟩ := exists_bytes_of_finish h
  rw [← hfront]
  exact (Reader.spans_of_toList_eq hbytes).extract_eq

/-- There also the instruction of a call is decoded, in its normal form. -/
theorem decode_of_finish {i : Instruction} (h : (assemble (before ++ call :: after)).finish = .ok p)
    (hcall : call.instructions = [i]) (hwhole : i.IsWhole) :
    Instruction.decode p.bytes (assemble before).offset = .ok (i.normal, i.encoded.length) := by
  have hi : i ∈ (before ++ call :: after).flatMap Call.instructions := by simp [hcall]
  have hcanonical := Instruction.isCanonical_normal hwhole ((laidOut_of_finish h).2.2 i hi)
  obtain ⟨front, back, hbytes, hfront⟩ := exists_bytes_of_finish h
  rw [Call.bytes_of_instructions hcall, ← i.encoded_normal] at hbytes
  rw [← hfront, ← i.encoded_normal]
  exact Instruction.decode_encoded hcanonical hbytes

theorem builds_of_finish (h : (assemble calls).finish = .ok p) : Builds calls p (layout calls).entries := by
  obtain ⟨herror, -⟩ := finish_eq_ok_iff.1 h
  obtain ⟨hbytes, hlt, hinstructions⟩ := laidOut_of_finish h
  have hbody : (layout calls).body = calls.flatMap Call.bytes := Layout.body_foldl _ calls
  rw [Layout.bytes, hbody] at hbytes
  have hentries (entry : Entry) : p.entryOffset entry = .ok (UInt16.ofNat ((layout calls).entries entry)) :=
    Program.entryOffset_of_header hbytes (hlt entry)
  have htoNat (entry : Entry) : (UInt16.ofNat ((layout calls).entries entry)).toNat = (layout calls).entries entry :=
    UInt16.toNat_ofNat_of_lt' (hlt entry)
  refine ⟨points_layout herror, ?_, hbytes, fun entry => ⟨_, hentries entry, htoNat entry⟩, ?_, ?_⟩
  · intro i hi
    exact Instruction.encode_eq_ok_iff.2 ⟨hinstructions i hi, rfl⟩
  · rintro before call after rfl
    exact ⟨offset_assemble (error_eq_none_of_append herror), extract_of_finish h⟩
  · rw [Program.validate_eq_ok_iff]
    refine forall_congr' fun entry => ?_
    constructor
    · rintro ⟨offset, hoffset, -, hsize⟩
      cases (hentries entry).symm.trans hoffset
      rwa [htoNat] at hsize
    · intro hsize
      refine ⟨_, hentries entry, ?_, ?_⟩
      · rw [htoNat]
        exact (points_layout herror entry).headerSize_le herror
      · rwa [htoNat]

/-- An assembly becomes a program just when every instruction has an encoding, no entry is marked at an offset that it cannot hold and the whole fits; the program is then the one that the calls ask for. -/
theorem finish_builds_calls (calls : List Call) :
    ((∃ p, (assemble calls).finish = .ok p) ↔
      (∀ i ∈ calls.flatMap Call.instructions, ∃ e, i.encode = .ok e) ∧
        (∀ before entry after, calls = before ++ .mark entry :: after → (assemble before).offset ≤ 65535) ∧
        Program.headerSize + (calls.flatMap Call.bytes).length ≤ 65536) ∧
      ∀ p, (assemble calls).finish = .ok p → ∃ offsets, Builds calls p offsets := by
  refine ⟨?_, fun p hp => ⟨_, builds_of_finish hp⟩⟩
  rw [exists_finish_eq_ok_iff, ← and_assoc, ← assemble_error_eq_none_iff]
  refine and_congr_right fun herror => ?_
  rw [offset_assemble herror]

end Assembly

end RuleMachine
