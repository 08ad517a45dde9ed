import Regimen.Proofs.Matching
import Regimen.Proofs.WellFormed

/-!
# Unknown fields

Whether unknown fields are refused or ignored makes no other difference. The parts of a document are
closed one after another, so that a field that is refused may stand in the way of a fault further on;
but **an outcome is the same under both policies, or it refuses an unknown field**. And where unknown
fields are ignored, a field that nobody reads does not change the outcome (`sameOrUnknown_and_unread`).

Which fields those are is said by an outline for each part. It depends on the types that the document
names. Layers, preprocessors, schedules, maps of devices, and settings that are passed on unread are
read as a whole.
-/

namespace Regimen

/-! ### What is read of a document -/

/-- The text under a key. -/
def Entries.text? (entries : Entries) (key : String) : Option String :=
  (entries.lookup key).bind Value.text?

/-- The keys that are read of a memory: the exponents only where it goes by priorities. -/
def Memory.keys (entries : Entries) : List String :=
  "type" :: match entries.text? "type" with
    | some "replay" | some "ring_buffer" => ["capacity"]
    | some "prioritized_replay" => ["alpha", "beta", "capacity"]
    | _ => []

/-- What is read of a memory. -/
def Memory.outline : Value → Outline := .flat keys

/-- What is read of an optimizer. -/
def Optimizer.outline : Value → Outline := .flat fun _ => ["type", "learning_rate", "clip_grad_norm"]

/-- What is read of a description of GPUs. -/
def GpuRequest.outline : Value → Outline :=
  .flat fun _ => ["gpus_enabled", "max_usable_gpus", "fake_gpus_if_necessary"]

/-- The name of the strategy, which may be absent or null. -/
def Execution.strategyName? (entries : Entries) : Option String :=
  match entries.lookup "device_strategy" with
  | none | some .null => some "single"
  | some v => v.text?

/-- The keys that are read of a section about execution. -/
def Execution.keys (entries : Entries) : List String :=
  let common := ["gpu_spec", "default_device", "session_config", "disable_monitoring",
    "enable_profiler"]
  "seed" :: "device_strategy" :: match strategyName? entries with
    | some "single" | some "default" | some "multi_gpu_sync" => common
    | some "custom" => "device_map" :: common
    | _ => []

/-- A description of GPUs is looked into only where training runs on several. -/
def Execution.partOutline (entries : Entries) : String → Value → Outline
  | "gpu_spec" =>
    if strategyName? entries = some "multi_gpu_sync" then GpuRequest.outline else fun _ => .value
  | _ => fun _ => .value

/-- What is read of a section about execution. -/
def Execution.outline : Value → Outline := .ofSection keys partOutline

/-- What is read of a cadence, with the keys that the family forbids. -/
def Cadence.outline : Value → Outline := .flat fun _ =>
  ["update_mode", "do_updates", "update_interval", "batch_size", "steps_before_update",
    "sync_interval", "num_iterations", "sample_size"]

/-- What is read of an object that wraps a schedule. -/
def Exploration.wrapperOutline : Value → Outline := .flat fun _ => ["decay_spec"]

/-- What is read of the schedule of epsilon, which an object may wrap. -/
def Exploration.epsilonOutline : Value → Outline
  | .object entries =>
    if "decay_spec" ∈ Entries.keys entries then wrapperOutline (.object entries) else .value
  | _ => .value

/-- What is read of a section about exploration. -/
def Exploration.outline : Value → Outline :=
  .ofSection (fun _ => ["epsilon_spec"]) fun _ _ => epsilonOutline

namespace Agent

/-- The keys of the parts that every document may have. -/
def partKeys : List String :=
  ["memory_spec", "preprocessing_spec", "network_spec", "optimizer_spec", "execution_spec",
    "observe_spec", "update_spec", "discount"]

/-- The keys that are read of a document. Those that the type forbids are looked for as well. -/
def keys (entries : Entries) : List String :=
  "type" :: match (entries.text? "type").bind Kind.ofName? with
    | some kind => partKeys ++ kind.ownFields ++ kind.foreignFields
    | none => []

/-- What is read of the parts of a document. -/
def partOutline : String → Value → Outline
  | "memory_spec" => Memory.outline
  | "optimizer_spec" => Optimizer.outline
  | "value_function_optimizer_spec" => Optimizer.outline
  | "execution_spec" => Execution.outline
  | "observe_spec" => .flat fun _ => ["buffer_size"]
  | "update_spec" => Cadence.outline
  | "exploration_spec" => Exploration.outline
  | _ => fun _ => .value

/-- What is read of a document. -/
def outline : Value → Outline := .ofSection keys fun _ => partOutline

end Agent

/-! ### The parts -/

open Decoder.Matches (same)

variable (policy : UnknownFields)

theorem Optimizer.matches_decode :
    Decoder.Matches policy Optimizer.outline (reading policy).decode (reading .ignore).decode := by
  refine .section fun path entries others h => ?_
  refine .bind (.field h (by simp) (same _)) fun method _ _ => ?_
  refine .bind (.field h (by simp) (same _)) fun rate _ _ => ?_
  refine .bind (.field? h (by simp) (same _)) fun clip _ _ => ?_
  exact .bind (.close policy) fun _ _ _ => .pure _

theorem GpuRequest.matches_decode (available : Nat) :
    Decoder.Matches policy GpuRequest.outline (decode available policy) (decode available .ignore) := by
  have hreading : Decoder.Matches policy GpuRequest.outline (reading policy).decode
      (reading .ignore).decode := by
    refine .section fun path entries others h => ?_
    refine .bind (.fieldD h (by simp) (same _) _) fun enabled _ _ => ?_
    refine .bind (.fieldD h (by simp) (same _) _) fun number _ _ => ?_
    refine .bind (.fieldD h (by simp) (same _) _) fun standIns _ _ => ?_
    exact .bind (.close policy) fun _ _ _ => .pure _
  intro path v w hpads
  exact (hreading path v w hpads).bind fun _ _ => .refl _

theorem Exploration.matches_wrapped :
    Decoder.Matches policy wrapperOutline (wrapped policy).decode (wrapped .ignore).decode := by
  refine .section fun path entries others h => ?_
  refine .bind (.field h (by simp) (same _)) fun schedule _ _ => ?_
  exact .bind (.close policy) fun _ _ _ => .pure _

/-- An object that pads one that wraps a schedule does so itself. -/
theorem Exploration.matches_epsilonDecode :
    Decoder.Matches policy epsilonOutline (epsilonDecode policy) (epsilonDecode .ignore) := by
  intro path v w hpads
  cases w with
  | object others =>
    by_cases hwraps : "decay_spec" ∈ Entries.keys others
    · have hout : epsilonOutline (.object others) = wrapperOutline (.object others) := if_pos hwraps
      rw [hout] at hpads
      have hsame := matches_wrapped policy path v _ hpads
      rcases hpads with rfl | ⟨entries, _, rfl, ⟨⟩, hrel⟩
      · simpa only [epsilonDecode, if_pos hwraps] using hsame
      · have hwraps' : "decay_spec" ∈ Entries.keys entries :=
          (Entries.Pads.mem_keys_iff hrel List.mem_cons_self).mpr hwraps
        simpa only [epsilonDecode, if_pos hwraps, if_pos hwraps'] using hsame
    · have hout : epsilonOutline (.object others) = .value := if_neg hwraps
      rw [hout] at hpads
      obtain rfl : v = .object others := hpads
      simp only [epsilonDecode, if_neg hwraps]
      exact .refl _
  | _ =>
    obtain rfl : v = _ := hpads
    exact .refl _

theorem Exploration.matches_decode :
    Decoder.Matches policy Exploration.outline (reading policy).decode (reading .ignore).decode := by
  refine .section fun path entries others h => ?_
  refine .bind (.placeOf _) fun place _ _ => ?_
  refine .bind (.field h (by simp) (matches_epsilonDecode policy)) fun epsilon _ _ => ?_
  refine .bind (.close policy) fun _ _ _ => ?_
  refine .bind (.ensure _ _) fun _ _ _ => ?_
  exact .bind (.ensure _ _) fun _ _ _ => .pure _

theorem Cadence.matches_decode (family : Family) (agent : String) (buffer : Option Nat) :
    Decoder.Matches policy Cadence.outline (reading family agent buffer policy).decode
      (reading family agent buffer .ignore).decode := by
  refine .section fun path entries others h => ?_
  have hforeign : family.foreign ⊆ ["update_mode", "do_updates", "update_interval", "batch_size",
      "steps_before_update", "sync_interval", "num_iterations", "sample_size"] := by
    cases family <;> simp [Family.foreign]
  refine .bind (.forbid h hforeign agent) fun _ _ _ => ?_
  refine .bind (.fieldD h (by simp) (same _) _) fun measure _ _ => ?_
  refine .bind (.fieldD h (by simp) (same _) _) fun enabled _ _ => ?_
  refine .bind (.field h (by simp) (same _)) fun interval _ _ => ?_
  refine .bind (.field h (by simp) (same _)) fun batch _ _ => ?_
  refine .bind (.fieldD h (by simp) (same _) _) fun before _ _ => ?_
  refine .bind ?_ fun targetSync _ _ => .bind ?_ fun rounds _ _ =>
    .bind (.close policy) fun _ _ _ => .pure _
  · cases family with
    | targetSync basis => exact .bind (.field h (by simp) (same _)) fun _ _ _ => .pure _
    | iterative => exact .pure _
  · cases family with
    | targetSync basis => exact .pure _
    | iterative =>
      refine .bind (.fieldD h (by simp) (same _) _) fun number _ _ => ?_
      refine .bind (.fieldD h (by simp) (same _) _) fun sample _ _ => ?_
      refine .bind (.placeOf _) fun place _ _ => ?_
      exact .bind (.ensure _ _) fun _ _ _ => .pure _

theorem Section.text?_of_read {s : Section} {key name : String}
    (h : s.read key Decoder.text = .ok name) : s.entries.text? key = some name := by
  obtain ⟨v, hv, hname⟩ := Section.read_eq_ok_iff.mp h
  rw [Entries.text?, Section.lookup_of_value? hv]
  exact Decoder.orDefect_eq_ok_iff.mp hname

/-- A memory is read further only where its type has a name that is known. -/
theorem Memory.capacity_mem_keys {s : Section} {kind : Kind} (h : kindReading.outcome s = .ok kind) :
    "capacity" ∈ keys s.entries := by
  rw [kindReading, Attempt.outcome_bind] at h
  obtain ⟨name, hname, h⟩ := except_bind_eq_ok_iff.mp h
  rw [Reading.outcome_field] at hname
  have htype := Section.text?_of_read hname
  split at h
  · simp [keys, htype]
  · simp [keys, htype]
  · simp [keys, htype]
  · cases h

theorem Memory.matches_decode :
    Decoder.Matches policy Memory.outline (reading policy).decode (reading .ignore).decode := by
  refine .section fun path entries others h => ?_
  refine .bind ?_ fun kind asked hkind => ?_
  · refine .bind (.field h List.mem_cons_self (same _)) fun name asked hname => ?_
    rw [Reading.outcome_field] at hname
    have htype : others.text? "type" = some name := Section.text?_of_read hname
    split
    · exact .pure _
    · exact .pure _
    · refine .bind (.fieldD h (by simp [keys, htype]) (same _) _) fun alpha _ _ => ?_
      exact .bind (.fieldD h (by simp [keys, htype]) (same _) _) fun beta _ _ => .pure _
    · exact .bind (.placeOf _) fun _ _ _ => .fail _
  · refine .bind (.field h (capacity_mem_keys hkind) (same _)) fun capacity _ _ => ?_
    exact .bind (.close policy) fun _ _ _ => .pure _

theorem Execution.strategyName?_of_readD {s : Section} {name : String}
    (h : s.readD "device_strategy" Decoder.text "single" = .ok name) :
    strategyName? s.entries = some name := by
  obtain ⟨o, ho, rfl⟩ := Section.readD_eq_ok_iff.mp h
  unfold strategyName?
  cases o with
  | none =>
    have hnone := Section.read?_eq_ok_none_iff.mp ho
    rcases Section.lookup_of_value?_eq_none hnone with hl | hl <;> rw [hl] <;> rfl
  | some name =>
    obtain ⟨v, hv, hname⟩ := Section.read_eq_ok_iff.mp (Section.read?_eq_ok_some_iff.mp ho)
    have htext : v.text? = some name := Decoder.orDefect_eq_ok_iff.mp hname
    rw [Section.lookup_of_value? hv]
    cases v with
    | null => cases htext
    | _ => exact htext

/-- A section about execution is read further only where the strategy has a name that is known. -/
theorem Execution.keys_of_strategy {s : Section} {strategy : Strategy} {available : Nat}
    (h : (Strategy.reading available policy).outcome s = .ok strategy) :
    ["default_device", "session_config", "disable_monitoring", "enable_profiler"] ⊆ keys s.entries := by
  rw [Strategy.reading, Attempt.outcome_bind] at h
  obtain ⟨name, hname, h⟩ := except_bind_eq_ok_iff.mp h
  rw [Reading.outcome_fieldD] at hname
  have hstrategy := strategyName?_of_readD hname
  split at h
  · simp [keys, hstrategy]
  · simp [keys, hstrategy]
  · simp [keys, hstrategy]
  · simp [keys, hstrategy]
  · cases h

theorem Execution.matches_strategy {path : Path} {entries others : Entries}
    (h : entries.Pads (partOutline others) (keys others) others) (available : Nat) :
    Reading.Matches policy path entries others (Strategy.reading available policy)
      (Strategy.reading available .ignore) := by
  have hkey : "device_strategy" ∈ keys others := List.mem_cons_of_mem _ List.mem_cons_self
  refine .bind (.fieldD h hkey (same _) _) fun name asked hname => ?_
  rw [Reading.outcome_fieldD] at hname
  have hstrategy : strategyName? others = some name := strategyName?_of_readD hname
  -- Under the other strategies a description of GPUs is taken as it is.
  have hraw (hne : name ≠ "multi_gpu_sync") :
      Decoder.Matches policy (partOutline others "gpu_spec") Decoder.raw Decoder.raw := by
    have hout : partOutline others "gpu_spec" = fun _ => .value := by
      refine if_neg ?_
      rw [hstrategy]
      exact fun heq => hne (Option.some.inj heq)
    rw [hout]
    exact same _
  split
  · exact .bind (.field? h (by simp [keys, hstrategy]) (hraw (by decide))) fun _ _ _ => .pure _
  · exact .bind (.field? h (by simp [keys, hstrategy]) (hraw (by decide))) fun _ _ _ => .pure _
  · have hgpu : Decoder.Matches policy (partOutline others "gpu_spec")
        (GpuRequest.decode available policy) (GpuRequest.decode available .ignore) := by
      have hout : partOutline others "gpu_spec" = GpuRequest.outline := if_pos hstrategy
      rw [hout]
      exact GpuRequest.matches_decode policy available
    refine .bind (.field? h (by simp [keys, hstrategy]) hgpu) fun slots _ _ => ?_
    cases slots with
    | none => exact .bind (.placeOf _) fun _ _ _ => .fail _
    | some slots => exact .pure _
  · refine .bind (.field? h (by simp [keys, hstrategy]) (hraw (by decide))) fun _ _ _ => ?_
    exact .bind (.field h (by simp [keys, hstrategy]) (same _)) fun _ _ _ => .pure _
  · exact .bind (.placeOf _) fun _ _ _ => .fail _

theorem Execution.matches_decode (available : Nat) :
    Decoder.Matches policy Execution.outline (reading available policy).decode
      (reading available .ignore).decode := by
  refine .section fun path entries others h => ?_
  refine .bind (.fieldD h List.mem_cons_self (same _) _) fun seed _ _ => ?_
  refine .bind (matches_strategy policy h available) fun strategy asked hstrategy => ?_
  have hkeys := keys_of_strategy .ignore hstrategy
  refine .bind (.field? h (hkeys (by simp)) (same _)) fun defaultDevice _ _ => ?_
  refine .bind (.fieldD h (hkeys (by simp)) (same _) _) fun session _ _ => ?_
  refine .bind (.fieldD h (hkeys (by simp)) (same _) _) fun unmonitored _ _ => ?_
  refine .bind (.fieldD h (hkeys (by simp)) (same _) _) fun profiled _ _ => ?_
  exact .bind (.close policy) fun _ _ _ => .pure _

theorem Agent.matches_bufferDecode :
    Decoder.Matches policy (.flat fun _ => ["buffer_size"]) (bufferReading policy).decode
      (bufferReading .ignore).decode := by
  refine .section fun path entries others h => ?_
  refine .bind (.field? h (by simp) (same _)) fun size _ _ => ?_
  exact .bind (.close policy) fun _ _ _ => .pure _

namespace Agent

theorem matches_valueReading {path : Path} {entries others : Entries}
    (h : entries.Pads partOutline (keys others) others) (hkeys : Kind.valueFields ⊆ keys others) :
    Reading.Matches policy path entries others (valueReading policy) (valueReading .ignore) := by
  have hkey {key : String} (hmem : key ∈ Kind.valueFields) : key ∈ keys others := hkeys hmem
  refine .bind (.fieldD h (hkey (by decide)) (same _) _) fun steps _ _ => ?_
  refine .bind (.field? h (hkey (by decide)) (Exploration.matches_decode policy)) fun exploration _ _ => ?_
  refine .bind (.fieldD h (hkey (by decide)) (same _) _) fun dueling _ _ => ?_
  refine .bind (.fieldD h (hkey (by decide)) (same _) _) fun double _ _ => ?_
  exact .bind (.fieldD h (hkey (by decide)) (same _) _) fun huber _ _ => .pure _

theorem matches_policyReading {path : Path} {entries others : Entries}
    (h : entries.Pads partOutline (keys others) others) (hkeys : Kind.policyFields ⊆ keys others) :
    Reading.Matches policy path entries others (policyReading policy) (policyReading .ignore) := by
  have hkey {key : String} (hmem : key ∈ Kind.policyFields) : key ∈ keys others := hkeys hmem
  refine .bind (.fieldD h (hkey (by decide)) (same _) _) fun clipRatio _ _ => ?_
  refine .bind (.fieldD h (hkey (by decide)) (same _) _) fun gaeLambda _ _ => ?_
  refine .bind (.field? h (hkey (by decide)) (same _)) fun entropyWeight _ _ => ?_
  refine .bind (.field? h (hkey (by decide)) (same _)) fun valueNetwork _ _ => ?_
  refine .bind (.field? h (hkey (by decide)) (Optimizer.matches_decode policy)) fun optimizer _ _ => ?_
  refine .bind (.placeOf _) fun place _ _ => ?_
  refine .bind (.ensure _ _) fun _ _ _ => ?_
  refine .bind (.fieldD h (hkey (by decide)) (same _) _) fun standardize _ _ => ?_
  exact .bind (.fieldD h (hkey (by decide)) (same _) _) fun wholeEpisodes _ _ => .pure _

theorem matches_variantReading {path : Path} {entries others : Entries} {kind : Kind}
    (h : entries.Pads partOutline (keys others) others) (hkeys : kind.ownFields ⊆ keys others)
    (memory : Memory) :
    Reading.Matches policy path entries others (variantReading policy memory kind)
      (variantReading .ignore memory kind) := by
  cases kind with
  | dqn => exact .bind (matches_valueReading policy h hkeys) fun _ _ _ => .pure _
  | apex =>
    refine .bind (.placeOf _) fun place _ _ => ?_
    refine .bind (.ensure _ _) fun _ _ _ => ?_
    exact .bind (matches_valueReading policy h hkeys) fun _ _ _ => .pure _
  | ppo => exact .bind (matches_policyReading policy h hkeys) fun _ _ _ => .pure _

theorem keys_eq_of_kind {s : Section} {kind : Kind} (h : s.read "type" Kind.decode = .ok kind) :
    keys s.entries = "type" :: (partKeys ++ kind.ownFields ++ kind.foreignFields) := by
  obtain ⟨v, hv, hdecode⟩ := Section.read_eq_ok_iff.mp h
  obtain ⟨name, rfl, hname⟩ := Kind.decode_eq_ok hdecode
  have hl : s.entries.lookup "type" = some (.text name) := Section.lookup_of_value? hv
  simp only [keys, Entries.text?, hl, Option.bind_some, Value.text?, hname]

/-- The outcome under a policy is the one where unknown fields are ignored, or it refuses an unknown
field; and where it is padding that is unknown, the one without it. -/
theorem matches_decode (overfull : OverfullBatch) (gpus : Nat) :
    Decoder.Matches policy outline (reading ⟨policy, overfull, gpus⟩).decode
      (reading ⟨.ignore, overfull, gpus⟩).decode := by
  refine .section fun path entries others h => ?_
  refine .bind (.field h List.mem_cons_self (same _)) fun kind asked hkind => ?_
  rw [Reading.outcome_field] at hkind
  have hkeys : keys others = "type" :: (partKeys ++ kind.ownFields ++ kind.foreignFields) :=
    keys_eq_of_kind hkind
  have hpart {key : String} (hmem : key ∈ partKeys) : key ∈ keys others := by simp [hkeys, hmem]
  have hown : kind.ownFields ⊆ keys others := fun key hmem => by simp [hkeys, hmem]
  have hforeign : kind.foreignFields ⊆ keys others := fun key hmem => by simp [hkeys, hmem]
  refine .bind (.forbid h hforeign _) fun _ _ _ => ?_
  refine .bind (.field h (hpart (by decide)) (Memory.matches_decode policy)) fun memory _ _ => ?_
  refine .bind (.fieldD h (hpart (by decide)) (same _) _) fun preprocessing _ _ => ?_
  refine .bind (.field h (hpart (by decide)) (same _)) fun network _ _ => ?_
  refine .bind (.field h (hpart (by decide)) (Optimizer.matches_decode policy)) fun optimizer _ _ => ?_
  refine .bind (.fieldD h (hpart (by decide)) (Execution.matches_decode policy gpus) _)
    fun execution _ _ => ?_
  refine .bind (.fieldD h (hpart (by decide)) (matches_bufferDecode policy) _) fun buffer _ _ => ?_
  refine .bind (.field h (hpart (by decide)) (Cadence.matches_decode policy _ _ buffer))
    fun cadence _ _ => ?_
  refine .bind (.fieldD h (hpart (by decide)) (same _) _) fun discount _ _ => ?_
  refine .bind (matches_variantReading policy h hown memory) fun variant _ _ => ?_
  refine .bind (.close policy) fun _ _ _ => ?_
  exact .bind (.ofExcept _) fun warnings _ _ => .pure _

/-- Nobody reads a key of the object to which some steps lead. -/
def Unread (document : Value) (steps : List String) (key : String) : Prop :=
  ∃ keys, (outline document).keysAt? steps document = some keys ∧ key ∉ keys

/-- **The policies differ in unknown fields alone.** What is decoded where they are refused is what is
decoded where they are ignored, or it refuses one. And where they are ignored, a key that nobody reads
can be inserted anywhere and changes nothing. -/
theorem sameOrUnknown_and_unread (overfull : OverfullBatch) (gpus : Nat) (document : Value) :
    SameOrUnknown .reject (decode ⟨.reject, overfull, gpus⟩ document)
      (decode ⟨.ignore, overfull, gpus⟩ document) ∧
    ∀ steps key v document', Unread document steps key → Value.Inserted key v steps document document' →
      decode ⟨.ignore, overfull, gpus⟩ document' = decode ⟨.ignore, overfull, gpus⟩ document := by
  refine ⟨matches_decode .reject overfull gpus .root document document (.refl _ _), ?_⟩
  rintro steps key v document' ⟨keys, hkeys, hkey⟩ hinserted
  have hpads := Outline.pads_of_inserted hinserted hkeys hkey
  exact (matches_decode .ignore overfull gpus .root document' document hpads).eq_of_ignore

/-- A remark on the memory is refused, or it changes nothing. -/
theorem sameOrUnknown_and_unread_pong :
    ∃ document', Value.Inserted "remark" (.text "small") ["memory_spec"] pong document' ∧
      (∃ path, decode .standard document' = .error ⟨path, .unknownField⟩) ∧
      decode ⟨.ignore, .warn, 0⟩ document' = decode ⟨.ignore, .warn, 0⟩ pong := by
  have hunread : Unread pong ["memory_spec"] "remark" := ⟨["type", "capacity"], rfl, by decide⟩
  refine ⟨_, .within rfl (.here _ 1), ⟨_, rfl⟩, ?_⟩
  exact (sameOrUnknown_and_unread .warn 0 pong).2 _ _ _ _ hunread (.within rfl (.here _ 1))

end Agent

end Regimen
