import Regimen.Proofs.Settings

/-!
# Well-formed agents

Whatever document is accepted, under whatever options, the agent that it describes is well-formed
(`Agent.WellFormed`) and agrees with the document where the two can be compared
(`Agent.Agrees`): **`Agent.wellFormed_and_agrees`**.

`Agent.parts_of_decode` comes first. It says what an accepted document read from each of its
fields, and everything else that is known of accepted documents follows from it.
-/

namespace Regimen

namespace Agent

/-! ### The parts of a document -/

/-- What was read from the fields of a whole document, and from where. -/
structure Parts (options : Options) (s : Section) (buffer : Option Nat) (a : Agent) : Prop where
  /-- The type. -/
  kind : s.read "type" Kind.decode = .ok a.kind
  /-- No field of another type stands there. -/
  foreign : ∀ key ∈ a.kind.foreignFields, key ∉ s.entries.keys
  /-- The memory. -/
  memory : s.read "memory_spec" (Memory.reading options.unknownFields).decode = .ok a.memory
  /-- The preprocessors. -/
  preprocessing :
    s.readD "preprocessing_spec" Preprocessor.decodeAll [] = .ok a.preprocessing
  /-- The network. -/
  network : s.read "network_spec" Network.decode = .ok a.network
  /-- The optimizer. -/
  optimizer :
    s.read "optimizer_spec" (Optimizer.reading options.unknownFields).decode = .ok a.optimizer
  /-- The size of the buffer. -/
  size : s.readD "observe_spec" (bufferReading options.unknownFields).decode none = .ok buffer
  /-- The cadence. -/
  cadence : s.read "update_spec" (Cadence.reading a.kind.family a.kind.name buffer
    options.unknownFields).decode = .ok a.cadence
  /-- The discount. -/
  discount : s.readD "discount" (Decoder.numberIn .unit (some "discount")) a.kind.defaultDiscount =
    .ok a.discount
  /-- The settings of the type. -/
  variant : ∃ u t, (variantReading options.unknownFields a.memory a.kind).run u = .ok a.variant t
  /-- The warnings. -/
  warnings : checked options a.memory a.cadence buffer = .ok a.warnings

theorem yields_variantReading_kind (policy : UnknownFields) (memory : Memory) (kind : Kind) :
    (variantReading policy memory kind).Yields fun v => v.kind = kind := by
  cases kind with
  | dqn => exact .bind (.any _) fun _ _ => .pure rfl
  | apex =>
    refine .bind (.any _) fun place _ => ?_
    exact .bind (.any _) fun _ _ => .bind (.any _) fun _ _ => .pure rfl
  | ppo => exact .bind (.any _) fun _ _ => .pure rfl

/-- A document that is accepted is an object, and the agent is what its fields say. -/
theorem parts_of_decode {options : Options} {document : Value} {a : Agent}
    (h : decode options document = .ok a) :
    ∃ entries buffer, document = .object entries ∧ Parts options ⟨.root, entries, []⟩ buffer a := by
  obtain ⟨entries, t, rfl, hrun⟩ := Reading.decode_eq_ok_iff.mp h
  unfold reading at hrun
  obtain ⟨kind, hkind, hrun⟩ := Reading.of_run_field_bind hrun
  obtain ⟨hforeign, hrun⟩ := Reading.of_run_forbid_bind hrun
  obtain ⟨memory, hmemory, hrun⟩ := Reading.of_run_field_bind hrun
  obtain ⟨preprocessing, hpreprocessing, hrun⟩ := Reading.of_run_fieldD_bind hrun
  obtain ⟨network, hnetwork, hrun⟩ := Reading.of_run_field_bind hrun
  obtain ⟨optimizer, hoptimizer, hrun⟩ := Reading.of_run_field_bind hrun
  obtain ⟨execution, -, hrun⟩ := Reading.of_run_fieldD_bind hrun
  obtain ⟨buffer, hbuffer, hrun⟩ := Reading.of_run_fieldD_bind hrun
  obtain ⟨cadence, hcadence, hrun⟩ := Reading.of_run_field_bind hrun
  obtain ⟨discount, hdiscount, hrun⟩ := Reading.of_run_fieldD_bind hrun
  obtain ⟨variant, u, hvariant, hrun⟩ := Attempt.run_bind_eq_ok_iff.mp hrun
  obtain ⟨_, v, -, hrun⟩ := Attempt.run_bind_eq_ok_iff.mp hrun
  obtain ⟨warnings, w, hchecked, hrun⟩ := Attempt.run_bind_eq_ok_iff.mp hrun
  obtain ⟨hwarnings, rfl⟩ := Attempt.run_ofExcept_eq_ok_iff.mp hchecked
  obtain ⟨rfl, -⟩ := Attempt.run_pure_eq_ok_iff.mp hrun
  obtain rfl : variant.kind = kind := yields_variantReading_kind _ _ _ hvariant
  exact ⟨entries, buffer, rfl, hkind, hforeign, hmemory, hpreprocessing, hnetwork, hoptimizer,
    hbuffer, hcadence, hdiscount, ⟨_, _, hvariant⟩, hwarnings⟩

/-! ### Well-formed agents -/

/-- Rewards are learned from, and the window of epsilon is not empty. -/
structure ValueSettings.WellFormed (v : ValueSettings) : Prop where
  /-- Some rewards are learned from. -/
  steps_pos : 0 < v.steps
  /-- The window of epsilon is not empty. -/
  exploration : ∀ e ∈ v.exploration, e.epsilon.WellFormed

/-- Everything that a policy is learned by is well-formed. -/
structure PolicySettings.WellFormed (q : PolicySettings) : Prop where
  /-- The window of the clip ratio is not empty. -/
  clipRatio : q.clipRatio.WellFormed
  /-- The look ahead lies in its range. -/
  gaeLambda : 0.0 ≤ q.gaeLambda ∧ q.gaeLambda ≤ 1.0
  /-- The window of the entropy's weight is not empty. -/
  entropyWeight : ∀ w ∈ q.entropyWeight, w.WellFormed
  /-- The network that values states is well-formed. -/
  valueNetwork : ∀ n ∈ q.valueNetwork, n.WellFormed
  /-- So is its optimizer. -/
  valueOptimizer : ∀ o ∈ q.valueOptimizer, o.WellFormed

/-- **A well-formed agent**: each part is well-formed, and together they suit the type. DQN learns
towards a network that follows the steps, Ape-X from priorities towards one that follows the updates,
and PPO in rounds over a batch. -/
structure WellFormed (a : Agent) : Prop where
  /-- The memory. -/
  memory : a.memory.WellFormed
  /-- No two preprocessors have the same scope. -/
  preprocessing : (a.preprocessing.filterMap Preprocessor.scope).Nodup
  /-- The network. -/
  network : a.network.WellFormed
  /-- The optimizer. -/
  optimizer : a.optimizer.WellFormed
  /-- The discount lies in its range. -/
  discount : 0.0 ≤ a.discount ∧ a.discount ≤ 1.0
  /-- What a DQN agent has. -/
  dqn : ∀ v, a.variant = .dqn v → v.WellFormed ∧ a.cadence.WellFormed (.targetSync .steps)
  /-- What an Ape-X agent has. -/
  apex : ∀ v, a.variant = .apex v →
    v.WellFormed ∧ a.cadence.WellFormed (.targetSync .updates) ∧ a.memory.kind.IsPrioritized
  /-- What a PPO agent has. -/
  ppo : ∀ q, a.variant = .ppo q → q.WellFormed ∧ a.cadence.WellFormed .iterative

/-- The cadence suits the family of the type. -/
theorem WellFormed.cadence {a : Agent} (h : a.WellFormed) : a.cadence.WellFormed a.kind.family := by
  unfold kind
  cases hvariant : a.variant with
  | dqn v => exact (h.dqn v hvariant).2
  | apex v => exact (h.apex v hvariant).2.1
  | ppo q => exact (h.ppo q hvariant).2

/-- What the settings of a type are to hold to. -/
def Variant.WellFormed : Variant → Prop
  | .dqn v | .apex v => v.WellFormed
  | .ppo q => q.WellFormed

theorem yields_valueReading (policy : UnknownFields) :
    (valueReading policy).Yields ValueSettings.WellFormed := by
  refine .bind (.fieldD Decoder.yields_interval Nat.one_pos) fun steps hsteps => ?_
  refine .bind (.field? (Exploration.yields_reading policy).decode) fun exploration hexploration => ?_
  refine .bind (.any _) fun dueling _ => ?_
  refine .bind (.any _) fun double _ => ?_
  exact .bind (.any _) fun huber _ => .pure ⟨hsteps, hexploration⟩

theorem yields_policyReading (policy : UnknownFields) :
    (policyReading policy).Yields PolicySettings.WellFormed := by
  refine .bind (.fieldD (Schedule.yields_decodeIn _) (Schedule.wellFormed_constant _))
    fun clipRatio hclip => ?_
  refine .bind (.fieldD (Decoder.yields_numberIn .unit _) (by decide)) fun gaeLambda hgae => ?_
  refine .bind (.field? (Schedule.yields_decodeIn _)) fun entropyWeight hweight => ?_
  refine .bind (.field? Network.yields_decode) fun valueNetwork hnetwork => ?_
  refine .bind (.field? (Optimizer.yields_reading policy).decode) fun valueOptimizer hoptimizer => ?_
  refine .bind (.any _) fun place _ => ?_
  refine .bind (.any _) fun _ _ => ?_
  refine .bind (.any _) fun standardize _ => ?_
  exact .bind (.any _) fun wholeEpisodes _ => .pure ⟨hclip, hgae, hweight, hnetwork, hoptimizer⟩

theorem yields_variantReading (policy : UnknownFields) (memory : Memory) (kind : Kind) :
    (variantReading policy memory kind).Yields fun v =>
      v.WellFormed ∧ (kind = .apex → memory.kind.IsPrioritized) := by
  cases kind with
  | dqn => exact .bind (yields_valueReading policy) fun v hv => .pure ⟨hv, nofun⟩
  | apex =>
    refine .bind (.any _) fun place _ => ?_
    refine .bind (.ensure _) fun _ hprioritized => ?_
    exact .bind (yields_valueReading policy) fun v hv => .pure ⟨hv, fun _ => hprioritized⟩
  | ppo => exact .bind (yields_policyReading policy) fun q hq => .pure ⟨hq, nofun⟩

theorem Parts.wellFormed {options : Options} {s : Section} {buffer : Option Nat} {a : Agent}
    (h : Parts options s buffer a) : a.WellFormed := by
  obtain ⟨u, t, hvariant⟩ := h.variant
  obtain ⟨hsettings, hprioritized⟩ := yields_variantReading _ _ _ hvariant
  have hcadence : a.cadence.WellFormed a.kind.family := by
    have hyields : (Cadence.reading a.kind.family a.kind.name buffer options.unknownFields).Yields
        (Cadence.WellFormed · a.kind.family) := fun _ _ _ hrun => (Cadence.run_reading hrun).1
    exact hyields.decode.read h.cadence
  have hdefault : Range.unit.Contains a.kind.defaultDiscount := by
    show Range.unit.Contains (0.98 : Float)
    decide
  refine ⟨(Memory.yields_reading _).decode.read h.memory,
    Preprocessor.yields_decodeAll.readD (by simp) h.preprocessing,
    Network.yields_decode.read h.network, (Optimizer.yields_reading _).decode.read h.optimizer,
    (Decoder.yields_numberIn .unit _).readD hdefault h.discount, ?dqn, ?apex, ?ppo⟩
  case dqn =>
    intro v hdqn
    rw [Agent.kind, hdqn] at hcadence
    rw [hdqn] at hsettings
    exact ⟨hsettings, hcadence⟩
  case apex =>
    intro v hapex
    rw [Agent.kind, hapex] at hcadence hprioritized
    rw [hapex] at hsettings
    exact ⟨hsettings, hcadence, hprioritized rfl⟩
  case ppo =>
    intro q hppo
    rw [Agent.kind, hppo] at hcadence
    rw [hppo] at hsettings
    exact ⟨hsettings, hcadence⟩

/-! ### Agreement with the document -/

end Agent

/-- The count that stands at the end of some steps is `n`; nothing and null count as zero. -/
def Value.CountAt (document : Value) (steps : List Step) (n : Nat) : Prop :=
  match document.at? steps with
  | none | some .null => n = 0
  | some v => v.count? = some n

theorem Value.countAt_of_read? {s : Section} {key : String} {o : Option Nat}
    (h : s.read? key Decoder.count = .ok o) :
    (Value.object s.entries).CountAt [.key key] (o.getD 0) := by
  unfold CountAt
  simp only [Value.at?]
  cases o with
  | none =>
    have hv := Section.read?_eq_ok_none_iff.mp h
    rcases Section.lookup_of_value?_eq_none hv with hl | hl <;> rw [hl] <;> rfl
  | some n =>
    obtain ⟨v, hv, hn⟩ := Section.read_eq_ok_iff.mp (Section.read?_eq_ok_some_iff.mp h)
    have hn : v.count? = some n := Decoder.orDefect_eq_ok_iff.mp hn
    rw [Section.lookup_of_value? hv]
    cases v with
    | null => cases hn
    | _ => exact hn

namespace Agent

/-- Each type goes by two names. -/
def Variant.GoesBy (name : String) : Variant → Prop
  | .dqn _ => name = "dqn" ∨ name = "dqn_agent"
  | .apex _ => name = "apex" ∨ name = "apex_agent"
  | .ppo _ => name = "ppo" ∨ name = "ppo_agent"

/-- The fields that are not for the settings of a type: those of a policy where values are learned,
and those of values where a policy is. -/
def Variant.unfit : Variant → List String
  | .dqn _ | .apex _ => ["clip_ratio", "gae_lambda", "weight_entropy", "standardize_advantages",
      "sample_episodes", "value_function_spec", "value_function_optimizer_spec"]
  | .ppo _ => ["dueling_q", "double_q", "huber_loss", "n_step", "exploration_spec"]

/-- **An agent agrees with a document** where the two can be compared: it is of the type that the
document names, the document holds no field of another type, and updates wait for what the document
says. -/
structure Agrees (a : Agent) (entries : Entries) : Prop where
  /-- The document names the type. -/
  kind : ∃ name, entries.lookup "type" = some (.text name) ∧ a.variant.GoesBy name
  /-- There is no field of another type, not even with null. -/
  foreign : ∀ key ∈ a.variant.unfit, key ∉ entries.keys
  /-- Updates wait for a batch, for the steps before them, and for a buffer. -/
  threshold : ∃ before buffer,
    (Value.object entries).CountAt [.key "update_spec", .key "steps_before_update"] before ∧
    (Value.object entries).CountAt [.key "observe_spec", .key "buffer_size"] buffer ∧
    a.cadence.threshold = max (max a.cadence.batch before) buffer

theorem Kind.decode_eq_ok {path : Path} {v : Value} {kind : Kind} (h : Kind.decode path v = .ok kind) :
    ∃ name, v = .text name ∧ Kind.ofName? name = some kind := by
  obtain ⟨name, hname, hkind⟩ := except_bind_eq_ok_iff.mp h
  have hv := Decoder.orDefect_eq_ok_iff.mp hname
  cases v with
  | text s =>
    cases hv
    split at hkind
    · rename_i found
      cases hkind
      exact ⟨name, rfl, found⟩
    · cases hkind
  | _ => cases hv

theorem Variant.goesBy_of_ofName? {variant : Variant} {name : String}
    (h : Kind.ofName? name = some variant.kind) : variant.GoesBy name := by
  unfold Kind.ofName? at h
  split at h <;> cases variant <;> simp_all [GoesBy, kind]

theorem Variant.unfit_eq (variant : Variant) : variant.unfit = variant.kind.foreignFields := by
  cases variant <;> rfl

/-- The size of the buffer stands in a section of its own, which may be missing. -/
theorem Parts.countAt_buffer {options : Options} {entries : Entries} {buffer : Option Nat} {a : Agent}
    (h : Parts options ⟨.root, entries, []⟩ buffer a) :
    (Value.object entries).CountAt [.key "observe_spec", .key "buffer_size"] (buffer.getD 0) := by
  obtain ⟨o, ho, hbuffer⟩ := Section.readD_eq_ok_iff.mp h.size
  cases o with
  | none =>
    obtain rfl : none = buffer := hbuffer
    have hv := Section.read?_eq_ok_none_iff.mp ho
    rcases Section.lookup_of_value?_eq_none hv with hl | hl <;>
      simp only [Value.CountAt, Value.at?] <;> rw [hl] <;> rfl
  | some size =>
    obtain rfl : size = buffer := hbuffer
    obtain ⟨inner, t, hl, hrun⟩ := Reading.run_of_read_decode (Section.read?_eq_ok_some_iff.mp ho)
    obtain ⟨n, u, hfield, hrun⟩ := Attempt.run_bind_eq_ok_iff.mp hrun
    obtain ⟨hn, rfl⟩ := Reading.run_field?_eq_ok_iff.mp hfield
    obtain ⟨_, w, -, hrun⟩ := Attempt.run_bind_eq_ok_iff.mp hrun
    obtain ⟨rfl, -⟩ := Attempt.run_pure_eq_ok_iff.mp hrun
    have hcount := Value.countAt_of_read? hn
    simpa only [Value.CountAt, Value.at?, hl, Option.bind_some] using hcount

theorem Parts.agrees {options : Options} {entries : Entries} {buffer : Option Nat} {a : Agent}
    (h : Parts options ⟨.root, entries, []⟩ buffer a) : a.Agrees entries := by
  refine ⟨?_, ?_, ?_⟩
  · obtain ⟨v, hv, hkind⟩ := Section.read_eq_ok_iff.mp h.kind
    obtain ⟨name, rfl, hname⟩ := Kind.decode_eq_ok hkind
    exact ⟨name, Section.lookup_of_value? hv, Variant.goesBy_of_ofName? hname⟩
  · rw [Variant.unfit_eq]
    exact h.foreign
  · obtain ⟨inner, t, hl, hrun⟩ := Reading.run_of_read_decode h.cadence
    obtain ⟨-, before, hbefore, hthreshold⟩ := Cadence.run_reading hrun
    obtain ⟨o, ho, rfl⟩ := Section.readD_eq_ok_iff.mp hbefore
    have hcount := Value.countAt_of_read? ho
    refine ⟨o.getD 0, buffer.getD 0, ?_, h.countAt_buffer, hthreshold⟩
    simpa only [Value.CountAt, Value.at?, hl, Option.bind_some] using hcount

/-- **Every document that is accepted describes a well-formed agent**, which agrees with it. -/
theorem wellFormed_and_agrees {options : Options} {document : Value} {a : Agent}
    (h : decode options document = .ok a) :
    a.WellFormed ∧ ∃ entries, document = .object entries ∧ a.Agrees entries := by
  obtain ⟨entries, buffer, hdocument, hparts⟩ := parts_of_decode h
  exact ⟨hparts.wellFormed, entries, hdocument, hparts.agrees⟩

/-- An agent that learns a policy, with a network that values states. -/
def pong : Value := .object [
  ("type", .text "ppo"),
  ("memory_spec", .object [("type", .text "ring_buffer"), ("capacity", .number (.integer 1000))]),
  ("preprocessing_spec", .list [
    .object [("type", .text "grayscale"), ("keep_rank", .boolean true), ("scope", .text "grayscale")],
    .object [("type", .text "divide"), ("divisor", .number (.integer 255))]]),
  ("network_spec", .list [
    .object [("type", .text "conv2d"), ("filters", .number (.integer 16)), ("scope", .text "conv1")],
    .object [("type", .text "dense"), ("units", .number (.integer 256)), ("scope", .text "dense")]]),
  ("value_function_spec", .list [
    .object [("type", .text "dense"), ("units", .number (.integer 64)), ("activation", .text "tanh")]]),
  ("observe_spec", .object [("buffer_size", .number (.integer 16))]),
  ("update_spec", .object [("update_interval", .number (.integer 16)),
    ("batch_size", .number (.integer 200)), ("steps_before_update", .number (.integer 250)),
    ("num_iterations", .number (.integer 10)), ("sample_size", .number (.integer 64))]),
  ("optimizer_spec", .object [("type", .text "adam"), ("learning_rate", .number (.decimal 0.0001))]),
  ("value_function_optimizer_spec", .object [("type", .text "adam"),
    ("learning_rate", .number (.decimal 0.0005)), ("clip_grad_norm", .number (.integer 40))]),
  ("discount", .number (.decimal 0.99)),
  ("clip_ratio", .object [("type", .text "linear"), ("from", .number (.decimal 0.2)),
    ("to", .number (.decimal 0.01)), ("num_timesteps", .number (.integer 1000))]),
  ("gae_lambda", .number (.decimal 0.95))]

theorem wellFormed_and_agrees_pong :
    ∃ a, decode .standard pong = .ok a ∧ a.kind = .ppo ∧ a.cadence.threshold = 250 ∧
      a.WellFormed ∧ ∃ entries, pong = .object entries ∧ a.Agrees entries := by
  obtain ⟨a, ha, hkind, hthreshold⟩ : ∃ a, decode .standard pong = .ok a ∧ a.kind = .ppo ∧
    a.cadence.threshold = 250 := ⟨_, rfl, rfl, rfl⟩
  exact ⟨a, ha, hkind, hthreshold, wellFormed_and_agrees ha⟩

/-- An agent that learns values from batches of 6, with room for so many records. -/
def cartpole (capacity : Int) : Value := .object [
  ("type", .text "dqn"),
  ("memory_spec", .object [("type", .text "replay"), ("capacity", .number (.integer capacity))]),
  ("network_spec", .list [
    .object [("type", .text "dense"), ("units", .number (.integer 10)), ("scope", .text "hidden")]]),
  ("update_spec", .object [("update_interval", .number (.integer 4)),
    ("batch_size", .number (.integer 6)), ("sync_interval", .number (.integer 3))]),
  ("optimizer_spec", .object [("type", .text "adam"), ("learning_rate", .number (.decimal 0.001))])]

/-- An agent that learns values from priorities and updates in every time step. Its network follows
every second update. -/
def pendulum : Value := .object [
  ("type", .text "apex"),
  ("memory_spec", .object [("type", .text "prioritized_replay"), ("capacity", .number (.integer 8))]),
  ("network_spec", .list [.object [("type", .text "dense"), ("units", .number (.integer 10))]]),
  ("update_spec", .object [("update_interval", .number (.integer 1)),
    ("batch_size", .number (.integer 1)), ("sync_interval", .number (.integer 2))]),
  ("optimizer_spec", .object [("type", .text "adam"), ("learning_rate", .number (.decimal 0.001))])]

end Agent

end Regimen
