import RuleMachine.Json.Exchange
import RuleMachine.Proofs.Calendar.Written
import RuleMachine.Proofs.Json.RoundTrip
import RuleMachine.Proofs.Machine.Validated
import RuleMachine.Proofs.Run.Record

/-!
# Saving and starting again

All that a host has to keep of a machine is the text of its state. A machine that is loaded anew, with the same program and settings, in front of the same sink and at the same time, is put back by that text to where the other one was, so nobody who goes on with it can tell the two apart.
-/

namespace RuleMachine

namespace Json

theorem isWritable_ofNat (n : Nat) : (ofNat n).IsWritable := .number (by simp [JsonNumber.IsWritable, JsonNumber.ofNat])

theorem isWritable_ofMembers {members : List (String × Json)} (h : ∀ member ∈ members, member.2.IsWritable) :
    (ofMembers members).IsWritable := by
  refine .object ?_ ?_
  · intro member hmember
    obtain ⟨m, -, rfl⟩ := List.mem_map.1 hmember
    rfl
  · intro member hmember
    obtain ⟨m, hm, rfl⟩ := List.mem_map.1 hmember
    exact h m hm

theorem u32?_ofNat (n : UInt32) : (ofNat n.toNat).u32? = some n := by
  have hnat : (JsonNumber.ofNat n.toNat).nat? = some n.toNat := rfl
  rw [u32?, ofNat, natBelow?, hnat, Option.filter_some, if_pos (decide_eq_true n.toNat_lt), Option.map_some,
    UInt32.ofNat_toNat]

end Json

namespace RuleState

theorem isWritable_toJson (s : RuleState) : s.toJson.IsWritable := by
  refine Json.isWritable_ofMembers ?_
  simp only [List.forall_mem_cons, List.not_mem_nil, false_imp_iff, implies_true, and_true]
  exact ⟨Json.isWritable_ofNat _, Json.isWritable_ofNat _, .string _⟩

theorem fields?_toJson (s : RuleState) : s.toJson.fields? ["current_state", "state_entered_at", "creation_time"] =
    some [some (.ofNat s.current.toNat), some (.ofNat s.enteredAt.toNat), some (.ofString s.created.text)] := by
  rfl

theorem ofJson?_toJson (s : RuleState) : ofJson? s.toJson = some s := by
  have hcreated : Moment.ofJson? (.ofString s.created.text) = some s.created := s.created.parse?_text
  rw [ofJson?, fields?_toJson]
  simp only [Option.bind_eq_bind, Option.bind_some, Json.u32?_ofNat, hcreated]
  rfl

def save (s : RuleState) : String := s.toJson.text

def ofSaved? (text : String) : Option RuleState := (Json.parse? text).bind ofJson?

theorem ofSaved?_save (s : RuleState) : ofSaved? s.save = some s := by
  rw [ofSaved?, save, Json.parse?_text s.isWritable_toJson, Option.bind_some, ofJson?_toJson]

end RuleState

/-! ### Going on after a restart -/

/-- What comes of an operation: the reply, the writes that reach the sink, and the state that is left. -/
structure Observation where
  reply : Reply
  writes : List Write
  state : RuleState

namespace Machine

variable {σ : Type} [Sink σ] {m : Machine σ}

/-- The writes that an operation makes, in their order. -/
def writes (m : Machine σ) : Operation σ → List Write
  | .run trigger clock => m.program.writes m.state trigger m.sink clock m.config
  | .write endpoint v => [⟨endpoint, v, (m.write endpoint v).2.1⟩]
  | _ => []

/-- What comes of operations that are carried out one after another. -/
def observations (m : Machine σ) : List (Operation σ) → List Observation
  | [] => []
  | operation :: operations =>
    ⟨(m.apply operation).2, m.writes operation, (m.apply operation).1.state⟩ :: (m.apply operation).1.observations operations

omit [Sink σ] in
/-- A machine whose program its settings admit can be loaded again, and its state put back. -/
theorem load_restore (h : m.config.Admits m.program) :
    ∃ fresh, load m.program m.sink m.now m.config = .ok fresh ∧ fresh.restore m.state = m := by
  refine ⟨⟨m.program, .start m.config.initialState m.now, m.sink, m.now, m.config⟩, ?_, rfl⟩
  rw [load, accept_eq_ok_iff.2 h]
  rfl

/-- Whatever has been done to a machine, its state is read back from the text it is saved as, whichever state that is; and when it is put back into a machine that is loaded with the same program and settings in front of the same sink at the same time, all that is done from there on has the replies, the writes and the states that it would have had without a restart. -/
theorem restart_of_saved {p : Program} {sink : σ} {now : Moment} {config : Config} (hload : load p sink now config = .ok m)
    (operations : List (Operation σ)) :
    (∀ s : RuleState, RuleState.ofSaved? s.save = some s) ∧
      ∃ fresh state, load (m.after operations).program (m.after operations).sink (m.after operations).now
          (m.after operations).config = .ok fresh ∧
        RuleState.ofSaved? (m.after operations).state.save = some state ∧
        ∀ later, (fresh.restore state).observations later = (m.after operations).observations later ∧
          (fresh.restore state).after later = (m.after operations).after later := by
  refine ⟨RuleState.ofSaved?_save, ?_⟩
  obtain ⟨hadmits, hm⟩ := admits_of_load hload
  have hheld : m.config.Admits m.program := by
    rw [hm]
    exact hadmits
  obtain ⟨fresh, hfresh, hrestore⟩ := load_restore (admits_after hheld operations)
  refine ⟨fresh, (m.after operations).state, hfresh, RuleState.ofSaved?_save _, ?_⟩
  intro later
  rw [hrestore]
  exact ⟨rfl, rfl⟩

/-- One nanosecond after the beginning of the first year that the clock shows. -/
def firstYear : Moment := ⟨⟨-262143, 1, 1, by decide⟩, 0, 0, 0, 1, by decide, by decide⟩

/-- A run that takes place a second later. -/
def firstRun : List (Operation LoggingSink) :=
  [.run none (⟨⟨-262143, 1, 1, by decide⟩, 0, 0, 1, 1, by decide, by decide⟩ : Moment)]

/-- A state that was entered in the first year, a second after an origin with nanoseconds. -/
theorem restart_of_saved_first :
    ∃ m : Machine LoggingSink, load Sample.change LoggingSink.mk firstYear {} = .ok m ∧
      (m.after firstRun).state.save =
        "\x7b\"current_state\":7,\"state_entered_at\":1,\"creation_time\":\"-262143-01-01T00:00:00.000000001\"\x7d" ∧
      ∃ (fresh : Machine LoggingSink) (state : RuleState),
        RuleState.ofSaved? (m.after firstRun).state.save = some state ∧
        (fresh.restore state).observations firstRun = (m.after firstRun).observations firstRun := by
  have hload : load Sample.change LoggingSink.mk firstYear {} =
      .ok ⟨Sample.change, .start 0 firstYear, LoggingSink.mk, firstYear, {}⟩ := by rfl
  obtain ⟨-, fresh, state, -, hsaved, hlater⟩ := restart_of_saved hload firstRun
  refine ⟨_, hload, ?_, fresh, state, hsaved, (hlater _).1⟩
  rw [firstRun, after_cons, apply_run]
  cbv

end Machine

end RuleMachine
