import Mathlib.Data.List.Forall2
import RuleMachine.Proofs.Instruction.Refusal
import RuleMachine.Proofs.Listing.Stream
import RuleMachine.Proofs.Script.Assembled
import RuleMachine.Proofs.Text.Line

/-!
# What a listing says

A program with a header that can be read is listed exactly when the code behind the header is the encodings of instructions, one directly behind the other, and then with a line for each of them. There is at most one such sequence, up to normal forms. If there is none, the first place where nothing is decoded says why. What is assembled from instructions is always listed.
-/

namespace RuleMachine

open Assembly (Call)

open Instruction (Decodes locatedFrom)

namespace Program

variable {p : Program} {instructions : List Instruction} {packet periodic : UInt16}

/-- The bytes behind the header. -/
def code (p : Program) : List UInt8 := (p.bytes.extract headerSize p.size).toList

/-- The code is the encodings of these instructions, each directly behind the one before it. -/
structure Spells (p : Program) (instructions : List Instruction) : Prop where
  whole : ∀ i ∈ instructions, i.IsWhole
  encodings : ∃ encodings, List.Forall₂ (fun i bytes => i.encode = .ok bytes) instructions encodings ∧
    encodings.flatten = p.code

/-- The line with the opcode that stands at the offset, the text of the instruction and the entries that point there. -/
def line (packet periodic : UInt16) (offset : Nat) (byte : UInt8) (i : Instruction) : String :=
  Numeral.hex 4 offset ++ "  " ++ Numeral.hex 2 byte.toNat ++ "  " ++ i.text ++
    (if offset = packet.toNat then "  <packet>" else "") ++ (if offset = periodic.toNat then "  <periodic>" else "")

/-- The text has a line for each instruction, in order, with the offset that the encodings before it lead to. -/
structure Lists (p : Program) (packet periodic : UInt16) (instructions : List Instruction) (text : String) : Prop where
  empty : instructions = [] → text = "(empty program)\n"
  lines : instructions ≠ [] → ∃ lines : List String, text = String.join (lines.map (· ++ "\n")) ∧
    lines.length = instructions.length ∧ (∀ s ∈ lines, IsLine s) ∧
    ∀ index i, instructions[index]? = some i → ∃ offset byte,
      offset = headerSize + ((instructions.take index).flatMap Instruction.encoded).length ∧
      p.bytes[offset]? = some byte ∧ lines[index]? = some (line packet periodic offset byte i)

/-! ### Instructions that the code spells -/

theorem spans_code (hheader : headerSize ≤ p.size) :
    Reader.Spans ⟨p.bytes, headerSize⟩ p.code ⟨p.bytes, p.size⟩ := by
  refine ⟨rfl, ?_, Nat.le_refl _, rfl⟩
  rw [code, Array.length_toList, Array.size_extract, size, Nat.min_self]
  rw [size] at hheader
  dsimp only
  omega

theorem spells_of_decodes (hheader : headerSize ≤ p.size) (h : Decodes p.bytes headerSize instructions p.size) :
    p.Spells instructions := by
  refine ⟨fun i hi => (h.canonical i hi).whole, instructions.map Instruction.encoded, ?_, ?_⟩
  · rw [List.forall₂_map_right_iff, List.forall₂_same]
    intro i hi
    exact Instruction.encode_eq_ok_iff.2 ⟨(h.canonical i hi).operandError_eq, rfl⟩
  · rw [← List.flatMap_def]
    exact (h.spans hheader).extract_eq.symm

theorem Spells.encoded_eq (h : p.Spells instructions) : instructions.flatMap Instruction.encoded = p.code := by
  obtain ⟨encodings, hencodings, hcode⟩ := h.encodings
  rw [← hcode]
  clear hcode h
  induction hencodings with
  | nil => rfl
  | cons hencode _ ih => rw [List.flatMap_cons, List.flatten_cons, ih, (Instruction.encode_eq_ok_iff.1 hencode).2]

theorem Spells.operandError_eq (h : p.Spells instructions) : ∀ i ∈ instructions, i.operandError? = none := by
  obtain ⟨encodings, hencodings, -⟩ := h.encodings
  clear h
  induction hencodings with
  | nil => simp
  | cons hencode _ ih => exact List.forall_mem_cons.2 ⟨(Instruction.encode_eq_ok_iff.1 hencode).1, ih⟩

theorem decodes_of_spells (hheader : headerSize ≤ p.size) (h : p.Spells instructions) :
    Decodes p.bytes headerSize (instructions.map Instruction.normal) p.size := by
  refine Instruction.decodes_of_spans ?_ ?_
  · intro i hi
    obtain ⟨j, hj, rfl⟩ := List.mem_map.1 hi
    exact Instruction.isCanonical_normal (h.whole j hj) (h.operandError_eq j hj)
  · rw [List.flatMap_map]
    simp only [Instruction.encoded_normal]
    rw [h.encoded_eq]
    exact spans_code hheader

/-! ### The listing of what is read -/

theorem instructions_of_decodes (h : Decodes p.bytes headerSize instructions p.size) :
    p.instructions = .ok (locatedFrom headerSize instructions).toArray := by
  have hend := instructionsFrom_of_end (Nat.le_refl p.bytes.size) (#[] ++ (locatedFrom headerSize instructions).toArray)
  rw [Array.empty_append] at hend
  exact (instructionsFrom_of_decodes h #[]).trans (by rwa [Array.empty_append])

theorem isLine_line (offset : Nat) (byte : UInt8) (i : Instruction) : IsLine (line packet periodic offset byte i) := by
  have htag : ∀ entry : UInt16, ∀ tag, IsLine tag → IsLine (if offset = entry.toNat then tag else "") := by
    intro entry tag htag
    split
    · exact htag
    · simp [IsLine]
  simp only [line, isLine_append]
  exact ⟨⟨⟨⟨⟨⟨isLine_hex _ _, by simp [IsLine]⟩, isLine_hex _ _⟩, by simp [IsLine]⟩, isLine_text i⟩,
    htag _ _ (by simp [IsLine])⟩, htag _ _ (by simp [IsLine])⟩

/-- The lines of instructions behind the header. -/
def lines (packet periodic : UInt16) (instructions : List Instruction) : List String :=
  (locatedFrom headerSize instructions).map fun located =>
    line packet periodic located.1 located.2.opcode.toByte located.2

theorem length_lines (packet periodic : UInt16) (instructions : List Instruction) :
    (lines packet periodic instructions).length = instructions.length := by
  rw [lines, List.length_map, ← List.length_map (f := Prod.snd), Instruction.map_snd_locatedFrom]

theorem isLine_of_mem_lines {s : String} (h : s ∈ lines packet periodic instructions) : IsLine s := by
  obtain ⟨located, -, rfl⟩ := List.mem_map.1 h
  exact isLine_line _ _ _

theorem listing_of_decodes (hpacket : p.entryOffset .packet = .ok packet) (hperiodic : p.entryOffset .periodic = .ok periodic)
    (h : Decodes p.bytes headerSize instructions p.size) :
    ∃ text, p.listing = .ok text ∧ p.Lists packet periodic instructions text := by
  rw [listing, hpacket, hperiodic, instructions_of_decodes h]
  cases instructions with
  | nil => exact ⟨_, rfl, fun _ => rfl, fun hne => absurd rfl hne⟩
  | cons first rest =>
    refine ⟨String.join ((lines packet periodic (first :: rest)).map (· ++ "\n")), ?text, ?empty, ?lines⟩
    case text =>
      rw [lines, List.map_map]
      rfl
    case empty => exact fun hempty => absurd hempty (List.cons_ne_nil _ _)
    case lines =>
      refine fun _ => ⟨_, rfl, length_lines _ _ _, fun _ => isLine_of_mem_lines, ?_⟩
      intro index i hi
      refine ⟨_, _, rfl, h.getElem?_eq hi, ?_⟩
      rw [lines, List.getElem?_map, Instruction.getElem?_locatedFrom hi, Option.map_some]

theorem listing_of_refused {stop : Nat} {e : CodeError} (hpacket : p.entryOffset .packet = .ok packet)
    (hperiodic : p.entryOffset .periodic = .ok periodic) (h : Decodes p.bytes headerSize instructions stop)
    (hlt : stop < p.size) (hdecode : Instruction.decode p.bytes stop = .error e) : p.listing = .error e := by
  simp only [listing, hpacket, hperiodic, Program.instructions, instructionsFrom_of_decodes h,
    instructionsFrom_of_refused hlt hdecode, Except.ok_bind]
  rfl

/-! ### Both outcomes -/

/-- The program is listed when its code is instructions and nothing else, and then these are listed, the only ones that it is. It is refused for the first place behind the header at which nothing is decoded. -/
structure ListsCode (p : Program) (packet periodic : UInt16) : Prop where
  listed_iff : (∃ text, p.listing = .ok text) ↔ ∃ instructions, p.Spells instructions
  listed : ∀ text, p.listing = .ok text → ∃ instructions, p.Spells instructions ∧
    p.Lists packet periodic instructions text ∧ ∀ others, p.Spells others → others.map Instruction.normal = instructions
  refused_iff : ∀ e, p.listing = .error e ↔ ∃ instructions stop, Decodes p.bytes headerSize instructions stop ∧
    stop < p.size ∧ Instruction.decode p.bytes stop = .error e

theorem eq_of_decodes {others : List Instruction} (h : Decodes p.bytes headerSize instructions p.size)
    (hothers : Decodes p.bytes headerSize others p.size) : others = instructions := by
  have hlocated := List.toArray_inj (Except.ok.inj ((instructions_of_decodes hothers).symm.trans (instructions_of_decodes h)))
  rw [← Instruction.map_snd_locatedFrom headerSize others, hlocated, Instruction.map_snd_locatedFrom]

theorem listsCode_of_entries (hheader : headerSize ≤ p.size) (hpacket : p.entryOffset .packet = .ok packet)
    (hperiodic : p.entryOffset .periodic = .ok periodic) : p.ListsCode packet periodic := by
  have hsize : headerSize ≤ p.bytes.size := hheader
  obtain ⟨instructions, stop, hdecodes, hstop⟩ := Instruction.exists_decodes hsize
  rcases hstop with rfl | ⟨hlt, e, hdecode⟩
  · obtain ⟨text, htext, hlists⟩ := listing_of_decodes hpacket hperiodic hdecodes
    have hspells := spells_of_decodes hheader hdecodes
    refine ⟨iff_of_true ⟨text, htext⟩ ⟨instructions, hspells⟩, ?_, ?_⟩
    · intro text' htext'
      cases htext.symm.trans htext'
      exact ⟨instructions, hspells, hlists, fun others hothers => eq_of_decodes hdecodes (decodes_of_spells hheader hothers)⟩
    · intro e
      refine iff_of_false (fun h => nomatch htext.symm.trans h) ?_
      rintro ⟨before, stop, hbefore, hlt, hdecode⟩
      cases htext.symm.trans (listing_of_refused hpacket hperiodic hbefore hlt hdecode)
  · have hrefused := listing_of_refused hpacket hperiodic hdecodes hlt hdecode
    refine ⟨iff_of_false ?_ ?_, ?_, ?_⟩
    · rintro ⟨text, htext⟩
      cases htext.symm.trans hrefused
    · rintro ⟨others, hothers⟩
      obtain ⟨text, htext, -⟩ := listing_of_decodes hpacket hperiodic (decodes_of_spells hheader hothers)
      cases htext.symm.trans hrefused
    · intro text htext
      cases htext.symm.trans hrefused
    · intro e'
      constructor
      · intro h
        cases hrefused.symm.trans h
        exact ⟨instructions, stop, hdecodes, hlt, hdecode⟩
      · rintro ⟨before, stop', hbefore, hlt', hdecode'⟩
        exact listing_of_refused hpacket hperiodic hbefore hlt' hdecode'

/-! ### Assembled programs -/

theorem decodes_of_isProgram {s : Script} (hp : s.IsProgram p) : Decodes p.bytes headerSize s.instructions p.size := by
  refine Instruction.decodes_of_spans hp.canonical ?_
  have hbytes := hp.bytes_eq
  rw [Assembly.Layout.bytes, ← List.cons_append, ← List.append_nil (_ ++ _)] at hbytes
  have hspans := Reader.spans_of_toList_eq hbytes
  rw [List.length_cons, List.length_append, BigEndian.length_encode, BigEndian.length_encode] at hspans
  have hsize : p.size = headerSize + (s.instructions.flatMap Instruction.encoded).length := hp.size_eq.trans s.size_eq
  rw [hsize]
  exact hspans

/-- A program whose header can be read, with a version that is supported, is listed if and only if its code is the encodings of instructions one after another; there is then one such sequence, of which each instruction has its line, and otherwise the first offset at which nothing is decoded gives the reason. What is assembled from instructions, without raw bytes, is listed with a line for each of them. -/
theorem listing_of_code :
    (p.version = .ok supportedVersion → headerSize ≤ p.size → ∃ packet periodic,
      p.entryOffset .packet = .ok packet ∧ p.entryOffset .periodic = .ok periodic ∧ p.ListsCode packet periodic) ∧
    ∀ calls : List Call, (∀ bytes, .raw bytes ∉ calls) → (∀ i ∈ calls.flatMap Call.instructions, i.IsWhole) →
      (Assembly.assemble calls).finish = .ok p → ∃ packet periodic text,
        p.entryOffset .packet = .ok packet ∧ p.entryOffset .periodic = .ok periodic ∧ p.listing = .ok text ∧
          p.Lists packet periodic ((calls.flatMap Call.instructions).map Instruction.normal) text := by
  refine ⟨?_, ?_⟩
  · intro hversion hheader
    obtain ⟨packet, hpacket⟩ := entryOffset_of_version hversion hheader .packet
    obtain ⟨periodic, hperiodic⟩ := entryOffset_of_version hversion hheader .periodic
    exact ⟨packet, periodic, hpacket, hperiodic, listsCode_of_entries hheader hpacket hperiodic⟩
  · intro calls hraw hwhole hfinish
    have hp := Script.isProgram_of_finish hraw hwhole hfinish
    have hinstructions : (Script.ofCalls calls).instructions = (calls.flatMap Call.instructions).map Instruction.normal := by
      rw [Script.ofCalls, Script.instructions_foldl]
      rfl
    obtain ⟨text, htext, hlists⟩ := listing_of_decodes (hp.entryOffset_eq .packet) (hp.entryOffset_eq .periodic)
      (decodes_of_isProgram hp)
    rw [hinstructions] at hlists
    exact ⟨_, _, text, hp.entryOffset_eq .packet, hp.entryOffset_eq .periodic, htext, hlists⟩

/-- Two instructions, to the first of which both entries point until the second one is marked. -/
theorem listing_of_code_marked :
    ∃ p : Program, (Assembly.assemble [.append (.loadU8 10), .mark .periodic, .append .stay]).finish = .ok p ∧
      p.version = .ok supportedVersion ∧ headerSize ≤ p.size ∧
      (∃ packet periodic, p.ListsCode packet periodic) ∧
      ∃ packet periodic text, p.Lists packet periodic [.loadU8 10, .stay] text ∧
        text = "0005  07  LD_U8 10  <packet>\n0007  3c  RET_STAY  <periodic>\n" := by
  have hfinish : (Assembly.assemble [.append (.loadU8 10), .mark .periodic, .append .stay]).finish =
      .ok ⟨#[0, 0, 5, 0, 7, 7, 10, 60], by decide⟩ := by rfl
  have hinstructions : (⟨#[0, 0, 5, 0, 7, 7, 10, 60], by decide⟩ : Program).instructions =
      .ok #[(5, .loadU8 10), (7, .stay)] := by cbv
  have hlisting : (⟨#[0, 0, 5, 0, 7, 7, 10, 60], by decide⟩ : Program).listing =
      .ok "0005  07  LD_U8 10  <packet>\n0007  3c  RET_STAY  <periodic>\n" := by
    rw [listing, hinstructions]
    rfl
  have hversion : (⟨#[0, 0, 5, 0, 7, 7, 10, 60], by decide⟩ : Program).version = .ok supportedVersion := by rfl
  refine ⟨_, hfinish, hversion, by decide, ?_, ?_⟩
  · obtain ⟨packet, periodic, -, -, h⟩ := listing_of_code.1 hversion (by decide)
    exact ⟨packet, periodic, h⟩
  · obtain ⟨packet, periodic, text, -, -, htext, h⟩ :=
      listing_of_code.2 _ (by simp) (by simp [Call.instructions, Instruction.IsWhole]) hfinish
    exact ⟨packet, periodic, text, h, Except.ok.inj (htext.symm.trans hlisting)⟩

end Program

end RuleMachine
