import Regimen.Proofs.CadenceGrammar
import Regimen.Proofs.DescriptorStacks
import Regimen.Proofs.KeyOrder
import Regimen.Proofs.Omission

/-!
# Fields that are null

**A field that is null can be dropped** (`Agent.decode_dropped`): whatever becomes of the document, it becomes
of the document without the field. That holds wherever the document is read field by field, down to the layers
of a network: null is not mistaken for a value, it is not refused as an unknown field, and it is not passed on
with what nobody reads.

It does not hold of every key. The keys of other types are forbidden even with null, and null is a value like
any other in a schedule, in an object that wraps one, and in settings that are passed on unread.
-/

namespace Regimen

/-! ### The fields of the parts -/

/-- The fields of a memory, as its type has them. -/
def Memory.nullable : Value → Fields := .flat keys

/-- The fields of an optimizer. -/
def Optimizer.nullable : Value → Fields := .flat fun _ => ["type", "learning_rate", "clip_grad_norm"]

/-- The fields of a description of GPUs. -/
def GpuRequest.nullable : Value → Fields :=
  .flat fun _ => ["gpus_enabled", "max_usable_gpus", "fake_gpus_if_necessary"]

/-- A description of GPUs has fields only where training runs on several. -/
def Execution.partNullable (entries : Entries) : String → Value → Fields
  | "gpu_spec" =>
    if strategyName? entries = some "multi_gpu_sync" then GpuRequest.nullable else fun _ => .whole
  | _ => fun _ => .whole

/-- The fields of a section about execution, as its strategy has them. -/
def Execution.nullable : Value → Fields := .ofSection keys partNullable

/-- The fields of a cadence, as its family has them. -/
def Cadence.nullable (family : Family) : Value → Fields := .flat fun _ => family.keys

/-- The field of a section about exploration. -/
def Exploration.nullable : Value → Fields := .flat fun _ => ["epsilon_spec"]

/-- The fields of a layer. -/
def Layer.nullable : Value → Fields := .flat fun _ => fields

/-- The fields of a preprocessor. -/
def Preprocessor.nullable : Value → Fields := .flat fun _ => fields

namespace Agent

/-- The field of a section about observations. -/
def bufferNullable : Value → Fields := .flat fun _ => ["buffer_size"]

/-- The type that a document names. -/
def kindOf? (entries : Entries) : Option Kind := (entries.text? "type").bind Kind.ofName?

/-- The keys of the fields of a document: those that its type has, and not those that it forbids. -/
def fieldKeys (entries : Entries) : List String :=
  "type" :: match kindOf? entries with
    | some kind => partKeys ++ kind.ownFields
    | none => []

/-- The fields of the parts of a document. -/
def partNullable (entries : Entries) : String → Value → Fields
  | "memory_spec" => Memory.nullable
  | "preprocessing_spec" => fun _ => .items Preprocessor.nullable
  | "network_spec" => fun _ => .items Layer.nullable
  | "value_function_spec" => fun _ => .items Layer.nullable
  | "optimizer_spec" => Optimizer.nullable
  | "value_function_optimizer_spec" => Optimizer.nullable
  | "execution_spec" => Execution.nullable
  | "observe_spec" => bufferNullable
  | "update_spec" => match kindOf? entries with
    | some kind => Cadence.nullable kind.family
    | none => fun _ => .whole
  | "exploration_spec" => Exploration.nullable
  | _ => fun _ => .whole

/-- The fields of a document, and of its parts. -/
def nullable : Value → Fields := .ofSection fieldKeys partNullable

end Agent

/-! ### The parts -/

open Decoder.Overlooks (whole)

variable (policy : UnknownFields)

theorem Memory.overlooks_kindReading {path : Path} {entries others : Entries}
    (h : Entries.SameGiven (fun _ _ => .whole) (keys others) entries others) :
    Reading.Overlooks (keys others) path entries others [] kindReading
      ((keys others).filter (· ∉ ["capacity"])) := by
  refine .bind (.field h List.mem_cons_self (whole _)) fun name asked hname => ?_
  rw [Reading.outcome_field] at hname
  have htype : others.text? "type" = some name := Section.text?_of_read hname
  split
  · exact .pure _ (by simp [keys, htype])
  · exact .pure _ (by simp [keys, htype])
  · refine .bind (.fieldD h (by simp [keys, htype]) (whole _)) fun alpha _ _ => ?_
    refine .bind (.fieldD h (by simp [keys, htype]) (whole _)) fun beta _ _ => ?_
    exact .pure _ (by simp [keys, htype])
  · exact .bind (.placeOf _) fun _ _ _ => .fail _

theorem Memory.overlooks_decode : Decoder.Overlooks nullable (reading policy).decode := by
  refine .section fun path entries others h => ?_
  refine .bind (overlooks_kindReading h) fun kind asked hkind => ?_
  refine .bind (.field h (capacity_mem_keys hkind) (whole _)) fun capacity _ _ => ?_
  exact .closing h (subset_append_filter _ ["capacity"]) policy _

theorem Optimizer.overlooks_decode : Decoder.Overlooks nullable (reading policy).decode := by
  refine .section fun path entries others h => ?_
  refine .bind (.field h (by simp) (whole _)) fun method _ _ => ?_
  refine .bind (.field h (by simp) (whole _)) fun rate _ _ => ?_
  refine .bind (.field? h (by simp) (whole _)) fun clip _ _ => ?_
  exact .closing h (by simp) policy _

theorem GpuRequest.overlooks_decode (available : Nat) :
    Decoder.Overlooks nullable (decode available policy) := by
  have hreading : Decoder.Overlooks nullable (reading policy).decode := by
    refine .section fun path entries others h => ?_
    refine .bind (.fieldD h (by simp) (whole _)) fun enabled _ _ => ?_
    refine .bind (.fieldD h (by simp) (whole _)) fun number _ _ => ?_
    refine .bind (.fieldD h (by simp) (whole _)) fun standIns _ _ => ?_
    exact .closing h (by simp) policy _
  intro path v w hsame
  rw [decode, decode, hreading path v w hsame]

theorem Exploration.overlooks_decode : Decoder.Overlooks nullable (reading policy).decode := by
  refine .section fun path entries others h => ?_
  refine .bind (.placeOf _) fun place _ _ => ?_
  refine .bind (.field h (by simp) (whole _)) fun epsilon _ _ => ?_
  refine .bind (.close h (by simp) policy) fun _ _ _ => ?_
  refine .bind (.ensure _ _) fun _ _ _ => ?_
  exact .bind (.ensure _ _) fun _ _ _ => .pure _ (List.nil_subset _)

theorem Execution.overlooks_strategy {path : Path} {entries others : Entries}
    (h : Entries.SameGiven (partNullable others) (keys others) entries others) (available : Nat) :
    Reading.Overlooks (keys others) path entries others ["seed"] (Strategy.reading available policy)
      ((keys others).filter (· ∉ laterKeys)) := by
  have hkey : "device_strategy" ∈ keys others := List.mem_cons_of_mem _ List.mem_cons_self
  refine .bind (.fieldD h hkey (whole _)) fun name asked hname => ?_
  rw [Reading.outcome_fieldD] at hname
  have hstrategy : strategyName? others = some name := strategyName?_of_readD hname
  -- Under the other strategies a description of GPUs is taken as it is.
  have hraw (hne : name ≠ "multi_gpu_sync") : Decoder.raw.Overlooks (partNullable others "gpu_spec") := by
    have hfields : partNullable others "gpu_spec" = fun _ => .whole := by
      refine if_neg ?_
      rw [hstrategy]
      exact fun heq => hne (Option.some.inj heq)
    rw [hfields]
    exact whole _
  split
  · refine .bind (.field? h (by simp [keys, hstrategy]) (hraw (by decide))) fun _ _ _ => ?_
    exact .pure _ (by simp [keys, hstrategy, laterKeys])
  · refine .bind (.field? h (by simp [keys, hstrategy]) (hraw (by decide))) fun _ _ _ => ?_
    exact .pure _ (by simp [keys, hstrategy, laterKeys])
  · have hgpu : (GpuRequest.decode available policy).Overlooks (partNullable others "gpu_spec") := by
      have hfields : partNullable others "gpu_spec" = GpuRequest.nullable := if_pos hstrategy
      rw [hfields]
      exact GpuRequest.overlooks_decode policy available
    refine .bind (.field? h (by simp [keys, hstrategy]) hgpu) fun slots _ _ => ?_
    cases slots with
    | none => exact .bind (.placeOf _) fun _ _ _ => .fail _
    | some slots => exact .pure _ (by simp [keys, hstrategy, laterKeys])
  · refine .bind (.field? h (by simp [keys, hstrategy]) (hraw (by decide))) fun _ _ _ => ?_
    refine .bind (.field h (by simp [keys, hstrategy]) (whole _)) fun _ _ _ => ?_
    exact .pure _ (by simp [keys, hstrategy, laterKeys])
  · exact .bind (.placeOf _) fun _ _ _ => .fail _

theorem Execution.overlooks_decode (available : Nat) :
    Decoder.Overlooks nullable (reading available policy).decode := by
  refine .section fun path entries others h => ?_
  refine .bind (.fieldD h List.mem_cons_self (whole _)) fun seed _ _ => ?_
  refine .bind (overlooks_strategy policy h available) fun strategy asked hstrategy => ?_
  have hkeys := keys_of_strategy policy hstrategy
  refine .bind (.field? h (hkeys (by simp)) (whole _)) fun defaultDevice _ _ => ?_
  refine .bind (.fieldD h (hkeys (by simp)) (whole _)) fun session _ _ => ?_
  refine .bind (.fieldD h (hkeys (by simp)) (whole _)) fun unmonitored _ _ => ?_
  refine .bind (.fieldD h (hkeys (by simp)) (whole _)) fun profiled _ _ => ?_
  exact .closing h (subset_append_filter _ laterKeys) policy _

theorem Cadence.overlooks_roundsReading {path : Path} {entries others : Entries} {known : List String}
    (h : Entries.SameGiven (fun _ _ => .whole) (Family.keys .iterative) entries others) (batch : Nat) :
    Reading.Overlooks (Family.keys .iterative) path entries others known (roundsReading batch .iterative)
      ("sample_size" :: "num_iterations" :: known) := by
  refine .bind (.fieldD h (by simp [Family.keys]) (whole _)) fun number _ _ => ?_
  refine .bind (.fieldD h (by simp [Family.keys]) (whole _)) fun sample _ _ => ?_
  refine .bind (.placeOf _) fun place _ _ => .bind (.ensure _ _) fun _ _ _ => ?_
  exact .pure _ (List.Subset.refl _)

theorem Cadence.overlooks_decode (family : Family) (agent : String) (buffer : Option Nat) :
    Decoder.Overlooks (nullable family) (reading family agent buffer policy).decode := by
  refine .section fun path entries others h => ?_
  have hcommon {key : String} (hkey : key ∈ ["update_mode", "do_updates", "update_interval", "batch_size",
      "steps_before_update"]) : key ∈ family.keys := by
    cases family <;> exact List.mem_append_left _ hkey
  refine .bind (.forbid h family.not_mem_keys_of_foreign agent) fun _ _ _ => ?_
  refine .bind (.fieldD h (hcommon (by simp)) (whole _)) fun measure _ _ => ?_
  refine .bind (.fieldD h (hcommon (by simp)) (whole _)) fun enabled _ _ => ?_
  refine .bind (.field h (hcommon (by simp)) (whole _)) fun interval _ _ => ?_
  refine .bind (.field h (hcommon (by simp)) (whole _)) fun batch _ _ => ?_
  refine .bind (.fieldD h (hcommon (by simp)) (whole _)) fun before _ _ => ?_
  -- Each family has keys of its own.
  cases family with
  | targetSync basis =>
    have hsync : "sync_interval" ∈ (Family.targetSync basis).keys := by simp [Family.keys]
    refine .bind (.bind (.field h hsync (whole _)) fun _ _ _ => .pure _ (List.Subset.refl _))
      fun sync _ _ => ?_
    refine .bind (.pure _ (List.Subset.refl _)) fun rounds _ _ => ?_
    exact .closing h (by simp [Family.keys]) policy _
  | iterative =>
    refine .bind (.pure _ (List.Subset.refl _)) fun sync _ _ => ?_
    refine .bind (overlooks_roundsReading h batch) fun rounds _ _ => ?_
    exact .closing h (by simp [Family.keys]) policy _

theorem Agent.overlooks_bufferDecode : Decoder.Overlooks bufferNullable (bufferReading policy).decode := by
  refine .section fun path entries others h => ?_
  refine .bind (.field? h (by simp) (whole _)) fun size _ _ => ?_
  exact .closing h (by simp) policy _

/-! ### Lists of descriptors -/

theorem overlooks_scopeReading {keys : List String} {path : Path} {entries others : Entries}
    {known : List String} (h : Entries.SameGiven (fun _ _ => .whole) keys entries others)
    (hkey : "scope" ∈ keys) (taken : List String) :
    Reading.Overlooks keys path entries others known (scopeReading taken) ("scope" :: known) := by
  refine .bind (.field? h hkey (whole _)) fun scope _ _ => ?_
  cases scope with
  | none => exact .pure _ (List.Subset.refl _)
  | some name =>
    refine .bind (.placeOf _) fun place _ _ => .bind (.ensure _ _) fun _ _ _ => ?_
    exact .pure _ (List.Subset.refl _)

theorem Layer.overlooks_decode (taken : List String) : Decoder.Overlooks nullable (reading taken).decode := by
  refine .section fun path entries others h => ?_
  refine .bind (.field h (by simp [fields]) (whole _)) fun kind _ _ => ?_
  refine .bind (.field? h (by simp [fields]) (whole _)) fun units _ _ => ?_
  refine .bind (.field? h (by simp [fields]) (whole _)) fun activation _ _ => ?_
  refine .bind (overlooks_scopeReading h (by simp [fields]) taken) fun scope _ _ => ?_
  refine .bind (.rest h (by simp [fields])) fun params _ _ => ?_
  exact .closing h (by simp [fields]) .reject _

theorem Preprocessor.overlooks_decode (taken : List String) :
    Decoder.Overlooks nullable (reading taken).decode := by
  refine .section fun path entries others h => ?_
  refine .bind (.field h (by simp [fields]) (whole _)) fun kind _ _ => ?_
  refine .bind (overlooks_scopeReading h (by simp [fields]) taken) fun scope _ _ => ?_
  refine .bind (.rest h (by simp [fields])) fun params _ _ => ?_
  exact .closing h (by simp [fields]) .reject _

theorem Preprocessor.overlooks_decodeAll :
    Decoder.Overlooks (fun _ => .items nullable) decodeAll :=
  Decoder.overlooks_descriptors overlooks_decode

/-- A network has no layers in either value or in neither. -/
theorem Network.overlooks_decode : Decoder.Overlooks (fun _ => .items Layer.nullable) decode := by
  rintro path v w (rfl | ⟨items, others, rfl, rfl, hitems⟩)
  · rfl
  · have hlayers : descriptors Layer.reading Layer.scope path (.list items) =
        descriptors Layer.reading Layer.scope path (.list others) :=
      Decoder.overlooks_descriptors Layer.overlooks_decode path _ _ (.inr ⟨items, others, rfl, rfl, hitems⟩)
    cases hitems with
    | nil => rfl
    | cons hvw hitems =>
      simp only [decode]
      rw [hlayers]

/-! ### Agents -/

namespace Agent

theorem overlooks_valueReading {keys : List String} {path : Path} {entries others : Entries}
    (h : Entries.SameGiven (partNullable others) keys entries others) (known : List String)
    (hkeys : Kind.valueFields ⊆ keys) :
    Reading.Overlooks keys path entries others known (valueReading policy) (Kind.valueFields ++ known) := by
  have hkey {key : String} (hmem : key ∈ Kind.valueFields) : key ∈ keys := hkeys hmem
  refine .bind (.fieldD h (hkey (by decide)) (whole _)) fun steps _ _ => ?_
  refine .bind (.field? h (hkey (by decide)) (Exploration.overlooks_decode policy)) fun exploration _ _ => ?_
  refine .bind (.fieldD h (hkey (by decide)) (whole _)) fun dueling _ _ => ?_
  refine .bind (.fieldD h (hkey (by decide)) (whole _)) fun double _ _ => ?_
  refine .bind (.fieldD h (hkey (by decide)) (whole _)) fun huber _ _ => .pure _ fun key hmem => ?_
  simp only [Kind.valueFields, List.mem_append, List.mem_cons] at hmem ⊢
  grind

theorem overlooks_policyReading {keys : List String} {path : Path} {entries others : Entries}
    (h : Entries.SameGiven (partNullable others) keys entries others) (known : List String)
    (hkeys : Kind.policyFields ⊆ keys) :
    Reading.Overlooks keys path entries others known (policyReading policy)
      (Kind.policyFields ++ known) := by
  have hkey {key : String} (hmem : key ∈ Kind.policyFields) : key ∈ keys := hkeys hmem
  refine .bind (.fieldD h (hkey (by decide)) (whole _)) fun clipRatio _ _ => ?_
  refine .bind (.fieldD h (hkey (by decide)) (whole _)) fun gaeLambda _ _ => ?_
  refine .bind (.field? h (hkey (by decide)) (whole _)) fun entropyWeight _ _ => ?_
  refine .bind (.field? h (hkey (by decide)) Network.overlooks_decode) fun valueNetwork _ _ => ?_
  refine .bind (.field? h (hkey (by decide)) (Optimizer.overlooks_decode policy)) fun optimizer _ _ => ?_
  refine .bind (.placeOf _) fun place _ _ => .bind (.ensure _ _) fun _ _ _ => ?_
  refine .bind (.fieldD h (hkey (by decide)) (whole _)) fun standardize _ _ => ?_
  refine .bind (.fieldD h (hkey (by decide)) (whole _)) fun wholeEpisodes _ _ => .pure _ fun key hmem => ?_
  simp only [Kind.policyFields, List.mem_append, List.mem_cons] at hmem ⊢
  grind

theorem overlooks_variantReading {keys : List String} {path : Path} {entries others : Entries}
    (h : Entries.SameGiven (partNullable others) keys entries others) (known : List String)
    (memory : Memory) {kind : Kind} (hkeys : kind.ownFields ⊆ keys) :
    Reading.Overlooks keys path entries others known (variantReading policy memory kind)
      (kind.ownFields ++ known) := by
  cases kind with
  | dqn =>
    refine .bind (overlooks_valueReading policy h known hkeys) fun _ _ _ => ?_
    exact .pure _ (List.Subset.refl _)
  | apex =>
    refine .bind (.placeOf _) fun place _ _ => .bind (.ensure _ _) fun _ _ _ => ?_
    refine .bind (overlooks_valueReading policy h known hkeys) fun _ _ _ => ?_
    exact .pure _ (List.Subset.refl _)
  | ppo =>
    refine .bind (overlooks_policyReading policy h known hkeys) fun _ _ _ => ?_
    exact .pure _ (List.Subset.refl _)

/-- The type that is read is the one that the document names. -/
theorem kindOf?_of_read {s : Section} {kind : Kind} (h : s.read "type" Kind.decode = .ok kind) :
    kindOf? s.entries = some kind := by
  obtain ⟨v, hv, hdecode⟩ := Section.read_eq_ok_iff.mp h
  obtain ⟨name, rfl, hname⟩ := Kind.decode_eq_ok hdecode
  have hlookup : s.entries.lookup "type" = some (.text name) := Section.lookup_of_value? hv
  simpa [kindOf?, Entries.text?, hlookup, Value.text?] using hname

/-- What a type forbids is no field of its own. -/
theorem Kind.not_mem_of_foreign (kind : Kind) :
    ∀ key ∈ kind.foreignFields, key ∉ "type" :: (partKeys ++ kind.ownFields) := by
  cases kind <;> decide

theorem overlooks_decode (options : Options) : Decoder.Overlooks nullable (reading options).decode := by
  refine .section fun path entries others h => ?_
  refine .bind (.field h List.mem_cons_self (whole _)) fun kind asked hkind => ?_
  rw [Reading.outcome_field] at hkind
  have hof : kindOf? others = some kind := kindOf?_of_read hkind
  have hkeys : fieldKeys others = "type" :: (partKeys ++ kind.ownFields) := by
    rw [fieldKeys, hof]
  have hpart {key : String} (hmem : key ∈ partKeys) : key ∈ fieldKeys others := by simp [hkeys, hmem]
  have hown : kind.ownFields ⊆ fieldKeys others := fun key hmem => by simp [hkeys, hmem]
  have hforeign (key : String) (hmem : key ∈ kind.foreignFields) : key ∉ fieldKeys others := by
    rw [hkeys]
    exact Kind.not_mem_of_foreign kind key hmem
  have hcadence : partNullable others "update_spec" = Cadence.nullable kind.family := by
    simp only [partNullable, hof]
  refine .bind (.forbid h hforeign _) fun _ _ _ => ?_
  refine .bind (.field h (hpart (by decide)) (Memory.overlooks_decode _)) fun memory _ _ => ?_
  refine .bind (.fieldD h (hpart (by decide)) Preprocessor.overlooks_decodeAll) fun preprocessing _ _ => ?_
  refine .bind (.field h (hpart (by decide)) Network.overlooks_decode) fun network _ _ => ?_
  refine .bind (.field h (hpart (by decide)) (Optimizer.overlooks_decode _)) fun optimizer _ _ => ?_
  refine .bind (.fieldD h (hpart (by decide)) (Execution.overlooks_decode _ _)) fun execution _ _ => ?_
  refine .bind (.fieldD h (hpart (by decide)) (overlooks_bufferDecode _)) fun buffer _ _ => ?_
  refine .bind (.field h (hpart (by decide)) ?_) fun cadence _ _ => ?_
  · rw [hcadence]
    exact Cadence.overlooks_decode _ _ _ _
  refine .bind (.fieldD h (hpart (by decide)) (whole _)) fun discount _ _ => ?_
  refine .bind (overlooks_variantReading _ h _ memory hown) fun variant _ _ => ?_
  refine .bind (.close h ?_ _) fun _ _ _ => ?_
  · rw [hkeys]
    intro key hmem
    simp only [partKeys, List.mem_append, List.mem_cons] at hmem ⊢
    grind
  · exact .bind (.ofExcept _) fun warnings _ _ => .pure _ (List.nil_subset _)

/-- A key is that of a field of the object to which some steps lead. -/
def IsField (document : Value) (steps : List Step) (key : String) : Prop :=
  ∃ keys, (nullable document).keysAt? steps document = some keys ∧ key ∈ keys

/-- **A field that is null is a field that is absent.** Whether a document is accepted or refused, whatever
agent it describes or fault it has, and whatever the options say: without a field that is null it is the
same. -/
theorem decode_dropped (options : Options) {document document' : Value} {steps : List Step} {key : String}
    (hfield : IsField document steps key) (hdropped : Value.Dropped key steps document document') :
    decode options document' = decode options document := by
  obtain ⟨keys, hkeys, hkey⟩ := hfield
  exact overlooks_decode options .root document' document (Fields.sameGiven_of_dropped hdropped hkeys hkey)

/-- A document in which the number of units of a layer and the capacity of memory may be null. -/
def frostbite (units capacity : Value) : Value :=
  breakout [("type", .text "replay"), ("capacity", capacity)]
    [("type", .text "conv2d"), ("units", units), ("filters", .number (.integer 16))]

/-- A layer may give no number of units by giving null, and its parameters do not tell. Memory needs a
capacity, and it is refused without one as it is with null. -/
theorem decode_dropped_frostbite :
    (∃ document' a, Value.Dropped "units" [.key "network_spec", .item 0]
        (frostbite .null (.number (.integer 8))) document' ∧
      decode .standard (frostbite .null (.number (.integer 8))) = .ok a ∧
      decode .standard document' = .ok a ∧ a.network.layers.map (·.params.keys) = [["filters"]]) ∧
    ∃ document' f, Value.Dropped "capacity" [.key "memory_spec"] (frostbite .null .null) document' ∧
      decode .standard (frostbite .null .null) = .error f ∧ decode .standard document' = .error f ∧
      f.path.text = "memory_spec.capacity" := by
  constructor
  · have hfield : IsField (frostbite .null (.number (.integer 8))) [.key "network_spec", .item 0] "units" :=
      ⟨Layer.fields, rfl, by decide⟩
    refine ⟨_, _, .within rfl (.among rfl (.here rfl)), rfl, ?_, rfl⟩
    exact decode_dropped .standard hfield (.within rfl (.among rfl (.here rfl)))
  · have hfield : IsField (frostbite .null .null) [.key "memory_spec"] "capacity" :=
      ⟨["type", "capacity"], rfl, by decide⟩
    refine ⟨_, ⟨(Path.root.key "memory_spec").key "capacity", .missing⟩, .within rfl (.here rfl), rfl, ?_,
      rfl⟩
    exact decode_dropped .standard hfield (.within rfl (.here rfl))

end Agent

end Regimen
