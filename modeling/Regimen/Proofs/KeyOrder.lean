import Regimen.Proofs.StrayEntries

/-!
# The order of keys

**The order of keys does not matter to what a document describes** (`Agent.alike_of_reordered`). It shows
in three places alone: what is passed on unread keeps its order, as does a map of devices, and of several
entries that are refused for the same reason the first one is. Each part of an agent has a relation that
leaves open the order of what it passes on, and a lemma that its reading corresponds to itself.
-/

namespace Regimen

open Decoder (corresponds_raw corresponds_orDefect corresponds_text corresponds_boolean corresponds_count
  corresponds_positive corresponds_numberIn corresponds_interval)

/-! ### Schedules -/

namespace Schedule

theorem corresponds_endpoint : Decoder.Corresponds Eq endpoint endpoint := by
  intro v w hvw path
  unfold endpoint
  rw [hvw.float?_eq]
  exact .refl _

/-- A triple is a list, where the order is kept. -/
theorem corresponds_ofTriple {items others : List Value} (h : List.Forall₂ Value.Reordered items others)
    (path : Path) : Corresponds Eq (ofTriple path items) (ofTriple path others) := by
  cases h with
  | nil => exact .fault _
  | cons hkind h =>
    cases h with
    | nil => exact .fault _
    | cons hinitial h =>
      cases h with
      | nil => exact .fault _
      | cons hfinal h =>
        cases h with
        | nil =>
          have htext := corresponds_orDefect (.unexpectedIn "schedule kind" .text)
            fun _ _ => Value.Reordered.text?_eq
          refine (htext hkind _).bind_eq fun kind => ?_
          refine (corresponds_endpoint hinitial _).bind_eq fun initial => ?_
          exact (corresponds_endpoint hfinal _).bind_eq fun final => .refl _
        | cons _ h =>
          have hlength := h.length_eq
          unfold ofTriple
          simp only [List.length_cons, hlength]
          exact .fault _

section Object

variable {entries others : Entries} (h : Permuted Value.Reordered entries others) (path : Path)
include h

theorem corresponds_present {α : Type} {decode : Decoder α} (hd : Decoder.Corresponds Eq decode decode)
    (key : String) : Corresponds Eq (present path entries key decode) (present path others key decode) := by
  unfold present
  have hrel := h.lookup key
  generalize entries.lookup key = x, others.lookup key = y at hrel
  cases hrel with
  | none => exact .fault _
  | some hvw => exact hd hvw _

theorem corresponds_windowOf : Corresponds Eq (windowOf path entries) (windowOf path others) := by
  unfold windowOf
  have hlength := h.lookup "num_timesteps"
  have hstart := h.lookup "start_timestep"
  generalize entries.lookup "num_timesteps" = x, others.lookup "num_timesteps" = y at hlength
  generalize entries.lookup "start_timestep" = x', others.lookup "start_timestep" = y' at hstart
  cases hlength with
  | none =>
    cases hstart with
    | none => exact .ok rfl
    | some _ => exact .fault _
  | some hlength =>
    cases hstart with
    | none => exact (corresponds_interval hlength _).bind_eq fun length => .refl _
    | some hstart =>
      refine (corresponds_interval hlength _).bind_eq fun length => ?_
      exact (corresponds_count hstart _).bind_eq fun start => .refl _

/-- Of several keys that no schedule has, the first is refused. -/
theorem corresponds_ofObject : Corresponds Eq (ofObject path entries) (ofObject path others) := by
  unfold ofObject
  have hfind := h.find?_keys (· ∉ fields)
  generalize entries.keys.find? (· ∉ fields) = x, others.keys.find? (· ∉ fields) = y at hfind
  cases hfind with
  | some _ => exact .error (.beside _ _ _ .unknownField)
  | none =>
    refine (corresponds_present h path corresponds_text _).bind_eq fun kind => ?_
    split
    · exact (corresponds_present h path corresponds_endpoint _).bind_eq fun x => .refl _
    · refine (corresponds_present h path corresponds_endpoint _).bind_eq fun initial => ?_
      refine (corresponds_present h path corresponds_endpoint _).bind_eq fun final => ?_
      exact (corresponds_windowOf h path).bind_eq fun window => .refl _

end Object

theorem corresponds_decode : Decoder.Corresponds Eq decode decode := by
  intro v w hvw path
  cases hvw with
  | refl v => exact .refl _
  | list h => exact corresponds_ofTriple h path
  | object h => exact corresponds_ofObject h path

theorem corresponds_decodeIn (range : Range) :
    Decoder.Corresponds Eq (decodeIn range) (decodeIn range) := by
  intro v w hvw path
  exact (corresponds_decode hvw path).bind_eq fun s => .refl _

end Schedule

/-! ### Settings -/

theorem Memory.corresponds_decode (policy : UnknownFields) :
    Decoder.Corresponds Eq (reading policy).decode (reading policy).decode := by
  have hcapacity : Decoder.Corresponds Eq capacity? capacity? := by
    intro v w hvw path
    unfold capacity?
    rw [hvw.count?_eq]
    exact .refl _
  refine .section (.bind_eq ?_ fun kind => ?_)
  · refine .bind_eq (.field corresponds_text) fun name => ?_
    split
    · exact .pure rfl
    · exact .pure rfl
    · refine .bind_eq (.fieldD_eq (corresponds_numberIn _ _) _) fun alpha => ?_
      exact .bind_eq (.fieldD_eq (corresponds_numberIn _ _) _) fun beta => .pure rfl
    · exact .bind_eq (.placeOf _) fun place => .fail _
  · refine .bind_eq (.field hcapacity) fun capacity => ?_
    exact .bind_eq (.close policy) fun _ => .pure rfl

theorem Optimizer.corresponds_decode (policy : UnknownFields) :
    Decoder.Corresponds Eq (reading policy).decode (reading policy).decode := by
  have hmethod : Decoder.Corresponds Eq Method.decode Method.decode := fun v w hvw path =>
    (corresponds_text hvw path).bind_eq fun name => .refl _
  refine .section (.bind_eq (.field hmethod) fun method => ?_)
  refine .bind_eq (.field (Schedule.corresponds_decodeIn _)) fun rate => ?_
  refine .bind_eq (.field?_eq (corresponds_numberIn _ _)) fun clip => ?_
  exact .bind_eq (.close policy) fun _ => .pure rfl

theorem Exploration.corresponds_epsilonDecode (policy : UnknownFields) :
    Decoder.Corresponds Eq (epsilonDecode policy) (epsilonDecode policy) := by
  have hwrapped : Decoder.Corresponds Eq (wrapped policy).decode (wrapped policy).decode := by
    refine .section (.bind_eq (.field Schedule.corresponds_decode) fun schedule => ?_)
    exact .bind_eq (.close policy) fun _ => .pure rfl
  intro v w hvw path
  cases hvw with
  | refl v => exact .refl _
  | list h => exact Schedule.corresponds_decode (.list h) path
  | object h =>
    unfold epsilonDecode
    simp only [h.mem_keys_iff]
    split
    · exact hwrapped (.object h) path
    · exact Schedule.corresponds_decode (.object h) path

theorem Exploration.corresponds_decode (policy : UnknownFields) :
    Decoder.Corresponds Eq (reading policy).decode (reading policy).decode := by
  refine .section (.bind_eq (.placeOf _) fun place => ?_)
  refine .bind_eq (.field (corresponds_epsilonDecode policy)) fun epsilon => ?_
  refine .bind_eq (.close policy) fun _ => ?_
  refine .bind_eq (.ensure _ _) fun _ => ?_
  exact .bind_eq (.ensure _ _) fun _ => .pure rfl

/-! ### Lists of descriptors -/

theorem corresponds_scopeReading (taken : List String) :
    Reading.Corresponds Eq (scopeReading taken) (scopeReading taken) := by
  refine .bind_eq (.field?_eq corresponds_text) fun scope => ?_
  cases scope with
  | none => exact .pure rfl
  | some name =>
    exact .bind_eq (.placeOf _) fun place => .bind_eq (.ensure _ _) fun _ => .pure rfl

/-- Descriptors are read one after another, where those that correspond have the same scope. -/
theorem corresponds_descriptors {α : Type} {R : α → α → Prop} {reading : List String → Reading α}
    {scope : α → Option String} (hreading : ∀ taken, Reading.Corresponds R (reading taken) (reading taken))
    (hscope : ∀ a b, R a b → scope a = scope b) :
    Decoder.Corresponds (List.Forall₂ R) (descriptors reading scope) (descriptors reading scope) := by
  have hfrom (path : Path) {items others : List Value} (h : List.Forall₂ Value.Reordered items others)
      (position : Nat) (taken : List String) :
      Corresponds (List.Forall₂ R) (descriptorsFrom reading scope path position taken items)
        (descriptorsFrom reading scope path position taken others) := by
    induction h generalizing position taken with
    | nil => exact .ok .nil
    | cons hvw _ ih =>
      refine .bind (Decoder.Corresponds.section (hreading taken) hvw _) fun a b hab => ?_
      rw [hscope a b hab]
      exact .bind (ih _ _) fun rest rest' hrest => .ok (.cons hab hrest)
  intro v w hvw path
  cases hvw with
  | refl v =>
    cases v with
    | list items => exact hfrom path (List.forall₂_same.mpr fun v _ => .refl v) 0 []
    | _ => exact .fault _
  | list h => exact hfrom path h 0 []
  | object _ => exact .fault _

/-- The layers are the same but for the order of what is passed on. -/
structure Layer.Alike (l m : Layer) : Prop where
  /-- The type. -/
  kind : l.kind = m.kind
  /-- The number of units. -/
  units : l.units = m.units
  /-- The activation function. -/
  activation : l.activation = m.activation
  /-- The scope. -/
  scope : l.scope = m.scope
  /-- What is passed on. -/
  params : Permuted Value.Reordered l.params m.params

/-- The preprocessors are the same but for the order of what is passed on. -/
structure Preprocessor.Alike (p q : Preprocessor) : Prop where
  /-- The type. -/
  kind : p.kind = q.kind
  /-- The scope. -/
  scope : p.scope = q.scope
  /-- What is passed on. -/
  params : Permuted Value.Reordered p.params q.params

/-- The networks have layers that are alike. -/
def Network.Alike (n m : Network) : Prop := List.Forall₂ Layer.Alike n.layers m.layers

theorem Layer.corresponds_reading (taken : List String) :
    Reading.Corresponds Alike (reading taken) (reading taken) := by
  refine .bind_eq (.field corresponds_text) fun kind => ?_
  refine .bind_eq (.field?_eq (corresponds_positive _)) fun units => ?_
  refine .bind_eq (.field?_eq corresponds_text) fun activation => ?_
  refine .bind_eq (corresponds_scopeReading taken) fun scope => ?_
  refine .bind .rest fun params params' hparams => ?_
  exact .bind_eq (.close _) fun _ => .pure ⟨rfl, rfl, rfl, rfl, hparams⟩

theorem Preprocessor.corresponds_reading (taken : List String) :
    Reading.Corresponds Alike (reading taken) (reading taken) := by
  refine .bind_eq (.field corresponds_text) fun kind => ?_
  refine .bind_eq (corresponds_scopeReading taken) fun scope => ?_
  refine .bind .rest fun params params' hparams => ?_
  exact .bind_eq (.close _) fun _ => .pure ⟨rfl, rfl, hparams⟩

theorem Preprocessor.corresponds_decodeAll :
    Decoder.Corresponds (List.Forall₂ Alike) decodeAll decodeAll :=
  corresponds_descriptors corresponds_reading fun _ _ h => h.scope

theorem Network.corresponds_decode : Decoder.Corresponds Alike decode decode := by
  have hlayers := corresponds_descriptors Layer.corresponds_reading fun _ _ h => h.scope
  intro v w hvw path
  have hsome {v w : Value} (hvw : v.Reordered w) :
      Corresponds Alike (do return ⟨← descriptors Layer.reading Layer.scope path v⟩)
        (do return ⟨← descriptors Layer.reading Layer.scope path w⟩) :=
    (hlayers hvw path).bind fun layers layers' h => .ok h
  cases hvw with
  | refl v =>
    unfold decode
    split
    · exact .fault _
    · exact hsome (.refl _)
  | list h =>
    cases h with
    | nil => exact .fault _
    | cons hvw h => exact hsome (.list (.cons hvw h))
  | object h => exact hsome (.object h)

/-! ### Execution -/

theorem GpuRequest.corresponds_decode (available : Nat) (policy : UnknownFields) :
    Decoder.Corresponds Eq (decode available policy) (decode available policy) := by
  have hreading : Decoder.Corresponds Eq (reading policy).decode (reading policy).decode := by
    refine .section (.bind_eq (.fieldD_eq corresponds_boolean _) fun enabled => ?_)
    refine .bind_eq (.fieldD_eq corresponds_count _) fun number => ?_
    refine .bind_eq (.fieldD_eq corresponds_boolean _) fun standIns => ?_
    exact .bind_eq (.close policy) fun _ => .pure rfl
  exact fun v w hvw path => (hreading hvw path).bind_eq fun request => .refl _

namespace Strategy

/-- The strategies are the same but for the order of a map of devices. -/
inductive Alike : Strategy → Strategy → Prop where
  /-- They are the same. -/
  | refl (s : Strategy) : Alike s s
  /-- They are maps of devices. -/
  | custom {devices others : List (String × String)} :
      Permuted Eq devices others → Alike (custom devices) (custom others)

theorem corresponds_devicesOf {entries others : Entries} (h : Permuted Value.Reordered entries others)
    (path : Path) : Corresponds (Permuted Eq) (devicesOf path entries) (devicesOf path others) := by
  have htext (v w : Value) (hvw : v.Reordered w) : v.text?.isSome ↔ w.text?.isSome := by rw [hvw.text?_eq]
  have hall : (∀ e ∈ entries, e.2.text?.isSome) ↔ ∀ e ∈ others, e.2.text?.isSome := h.forall_iff htext
  have hnot {entries : Entries} {e : String × Value} (hmem : e ∈ entries) (hnone : e.2.text? = none) :
      ¬∀ e ∈ entries, e.2.text?.isSome := fun hall => by simpa [hnone] using hall e hmem
  rcases devicesOf_cases path entries with ⟨htexts, heq⟩ | ⟨e, hmem, hnone, heq⟩
  · rcases devicesOf_cases path others with ⟨-, heq'⟩ | ⟨e', hmem', hnone', -⟩
    · rw [heq, heq']
      refine .ok (h.filterMap fun v w hvw => ?_)
      rw [hvw.text?_eq]
      cases w.text? with
      | none => exact .none
      | some name => exact .some rfl
    · exact absurd (hall.mp htexts) (hnot hmem' hnone')
  · rcases devicesOf_cases path others with ⟨htexts', -⟩ | ⟨e', -, -, heq'⟩
    · exact absurd (hall.mpr htexts') (hnot hmem hnone)
    · rw [heq, heq']
      exact .error (.beside path e.1 e'.1 .device)

theorem corresponds_deviceMap : Decoder.Corresponds (Permuted Eq) deviceMap deviceMap := by
  intro v w hvw path
  refine .bind (Decoder.Corresponds.section .rest hvw path) fun entries others h => ?_
  refine .bind (corresponds_devicesOf h path) fun devices devices' hdevices => ?_
  cases hdevices with
  | nil => exact .fault _
  | @place key name name' devices before after heq hbefore hrest =>
    have hcons : before ++ (key, name') :: after ≠ [] := by simp
    rw [if_neg (List.cons_ne_nil _ _), if_neg hcons]
    exact .ok (.place heq hbefore hrest)

theorem corresponds_reading (available : Nat) (policy : UnknownFields) :
    Reading.Corresponds Alike (reading available policy) (reading available policy) := by
  refine .bind_eq (.fieldD_eq corresponds_text _) fun name => ?_
  split
  · exact .bind (.field? corresponds_raw) fun _ _ _ => .pure (.refl _)
  · exact .bind (.field? corresponds_raw) fun _ _ _ => .pure (.refl _)
  · refine .bind_eq (.field?_eq (GpuRequest.corresponds_decode available policy)) fun slots => ?_
    cases slots with
    | none => exact .bind_eq (.placeOf _) fun place => .fail _
    | some slots => exact .pure (.refl _)
  · refine .bind (.field? corresponds_raw) fun _ _ _ => ?_
    exact .bind (.field corresponds_deviceMap) fun devices devices' h => .pure (.custom h)
  · exact .bind_eq (.placeOf _) fun place => .fail _

end Strategy

/-- The same is said about execution, but for the order of what is passed on and of a map of devices. -/
structure Execution.Alike (e f : Execution) : Prop where
  /-- The seed. -/
  seed : e.seed = f.seed
  /-- The strategy. -/
  strategy : e.strategy.Alike f.strategy
  /-- The device of whatever is not spread. -/
  defaultDevice : e.defaultDevice = f.defaultDevice
  /-- What is passed on. -/
  session : Permuted Value.Reordered e.session f.session
  /-- Whether nothing is monitored. -/
  unmonitored : e.unmonitored = f.unmonitored
  /-- Whether time is accounted for. -/
  profiled : e.profiled = f.profiled

theorem Execution.corresponds_decode (available : Nat) (policy : UnknownFields) :
    Decoder.Corresponds Alike (reading available policy).decode (reading available policy).decode := by
  have hseed : Decoder.Corresponds Eq seedDecode seedDecode := fun v w hvw path =>
    .bind_eq (corresponds_orDefect _ (fun _ _ => Value.Reordered.count?_eq) hvw path) fun n => .refl _
  refine .section (.bind_eq (.fieldD_eq hseed _) fun seed => ?_)
  refine .bind (Strategy.corresponds_reading available policy) fun strategy strategy' hstrategy => ?_
  refine .bind_eq (.field?_eq corresponds_text) fun defaultDevice => ?_
  refine .bind (.fieldD (.section .rest) .nil) fun session session' hsession => ?_
  refine .bind_eq (.fieldD_eq corresponds_boolean _) fun unmonitored => ?_
  refine .bind_eq (.fieldD_eq corresponds_boolean _) fun profiled => ?_
  exact .bind_eq (.close policy) fun _ => .pure ⟨rfl, hstrategy, rfl, hsession, rfl, rfl⟩

/-! ### Cadences -/

theorem Cadence.corresponds_decode (family : Family) (agent : String) (buffer : Option Nat)
    (policy : UnknownFields) : Decoder.Corresponds Eq (reading family agent buffer policy).decode
      (reading family agent buffer policy).decode := by
  have hmeasure : Decoder.Corresponds Eq measureDecode measureDecode := fun v w hvw path =>
    (corresponds_text hvw path).bind_eq fun name => .refl _
  refine .section (.bind_eq (.forbid _ _) fun _ => ?_)
  refine .bind_eq (.fieldD_eq hmeasure _) fun measure => ?_
  refine .bind_eq (.fieldD_eq corresponds_boolean _) fun enabled => ?_
  refine .bind_eq (.field corresponds_interval) fun interval => ?_
  refine .bind_eq (.field (corresponds_positive _)) fun batch => ?_
  refine .bind_eq (.fieldD_eq corresponds_count _) fun before => ?_
  refine .bind_eq ?_ fun targetSync => .bind_eq ?_ fun rounds => .bind_eq (.close policy) fun _ => .pure rfl
  · cases family with
    | targetSync basis => exact .bind_eq (.field corresponds_interval) fun _ => .pure rfl
    | iterative => exact .pure rfl
  · cases family with
    | targetSync basis => exact .pure rfl
    | iterative =>
      refine .bind_eq (.fieldD_eq corresponds_interval _) fun number => ?_
      refine .bind_eq (.fieldD_eq corresponds_interval _) fun sample => ?_
      exact .bind_eq (.placeOf _) fun place => .bind_eq (.ensure _ _) fun _ => .pure rfl

/-! ### Agents -/

namespace Agent

/-- The settings are the same but for the order of what is passed on. -/
structure PolicySettings.Alike (s t : PolicySettings) : Prop where
  /-- The clip ratio. -/
  clipRatio : s.clipRatio = t.clipRatio
  /-- The look ahead. -/
  gaeLambda : s.gaeLambda = t.gaeLambda
  /-- The weight of the entropy. -/
  entropyWeight : s.entropyWeight = t.entropyWeight
  /-- Whether advantages are brought to a common scale. -/
  standardize : s.standardize = t.standardize
  /-- Whether whole episodes are sampled. -/
  wholeEpisodes : s.wholeEpisodes = t.wholeEpisodes
  /-- The network that values states. -/
  valueNetwork : Option.Rel Network.Alike s.valueNetwork t.valueNetwork
  /-- The optimizer of that network. -/
  valueOptimizer : s.valueOptimizer = t.valueOptimizer

/-- The settings are of one type and the same, but for the order of what is passed on. -/
inductive Variant.Alike : Variant → Variant → Prop where
  /-- Values are learned. -/
  | dqn (s : ValueSettings) : Alike (.dqn s) (.dqn s)
  /-- Values are learned from priorities. -/
  | apex (s : ValueSettings) : Alike (.apex s) (.apex s)
  /-- A policy is learned. -/
  | ppo {s t : PolicySettings} : s.Alike t → Alike (.ppo s) (.ppo t)

/-- **The agents are the same** but for the order of what is passed on and of a map of devices. -/
structure Alike (a b : Agent) : Prop where
  /-- The settings of the agent's own type. -/
  variant : a.variant.Alike b.variant
  /-- The discount. -/
  discount : a.discount = b.discount
  /-- The memory. -/
  memory : a.memory = b.memory
  /-- The preprocessors. -/
  preprocessing : List.Forall₂ Preprocessor.Alike a.preprocessing b.preprocessing
  /-- The network. -/
  network : a.network.Alike b.network
  /-- The optimizer. -/
  optimizer : a.optimizer = b.optimizer
  /-- Where and how training runs. -/
  execution : a.execution.Alike b.execution
  /-- The cadence. -/
  cadence : a.cadence = b.cadence
  /-- The warnings. -/
  warnings : a.warnings = b.warnings

theorem Kind.corresponds_decode : Decoder.Corresponds Eq Kind.decode Kind.decode :=
  fun _ _ hvw path => (corresponds_text hvw path).bind_eq fun _ => .refl _

theorem corresponds_bufferDecode (policy : UnknownFields) :
    Decoder.Corresponds Eq (bufferReading policy).decode (bufferReading policy).decode := by
  refine .section (.bind_eq (.field?_eq corresponds_count) fun size => ?_)
  exact .bind_eq (.close policy) fun _ => .pure rfl

theorem corresponds_valueReading (policy : UnknownFields) :
    Reading.Corresponds Eq (valueReading policy) (valueReading policy) := by
  refine .bind_eq (.fieldD_eq corresponds_interval _) fun steps => ?_
  refine .bind_eq (.field?_eq (Exploration.corresponds_decode policy)) fun exploration => ?_
  refine .bind_eq (.fieldD_eq corresponds_boolean _) fun dueling => ?_
  refine .bind_eq (.fieldD_eq corresponds_boolean _) fun double => ?_
  exact .bind_eq (.fieldD_eq corresponds_boolean _) fun huber => .pure rfl

theorem corresponds_policyReading (policy : UnknownFields) :
    Reading.Corresponds PolicySettings.Alike (policyReading policy) (policyReading policy) := by
  refine .bind_eq (.fieldD_eq (Schedule.corresponds_decodeIn _) _) fun clipRatio => ?_
  refine .bind_eq (.fieldD_eq (corresponds_numberIn _ _) _) fun gaeLambda => ?_
  refine .bind_eq (.field?_eq (Schedule.corresponds_decodeIn _)) fun entropyWeight => ?_
  refine .bind (.field? Network.corresponds_decode) fun network network' hnetwork => ?_
  refine .bind_eq (.field?_eq (Optimizer.corresponds_decode policy)) fun optimizer => ?_
  refine .bind_eq (.placeOf _) fun place => ?_
  have hsome : network.isSome = network'.isSome := by cases hnetwork <;> rfl
  rw [hsome]
  refine .bind_eq (.ensure _ _) fun _ => ?_
  refine .bind_eq (.fieldD_eq corresponds_boolean _) fun standardize => ?_
  refine .bind_eq (.fieldD_eq corresponds_boolean _) fun wholeEpisodes => ?_
  exact .pure ⟨rfl, rfl, rfl, rfl, rfl, hnetwork, rfl⟩

theorem corresponds_variantReading (policy : UnknownFields) (memory : Memory) (kind : Kind) :
    Reading.Corresponds Variant.Alike (variantReading policy memory kind)
      (variantReading policy memory kind) := by
  cases kind with
  | dqn => exact .bind_eq (corresponds_valueReading policy) fun settings => .pure (.dqn settings)
  | apex =>
    refine .bind_eq (.placeOf _) fun place => .bind_eq (.ensure _ _) fun _ => ?_
    exact .bind_eq (corresponds_valueReading policy) fun settings => .pure (.apex settings)
  | ppo => exact .bind (corresponds_policyReading policy) fun settings settings' h => .pure (.ppo h)

theorem corresponds_reading (options : Options) :
    Reading.Corresponds Alike (reading options) (reading options) := by
  refine .bind_eq (.field Kind.corresponds_decode) fun kind => ?_
  refine .bind_eq (.forbid _ _) fun _ => ?_
  refine .bind_eq (.field (Memory.corresponds_decode _)) fun memory => ?_
  refine .bind (.fieldD Preprocessor.corresponds_decodeAll .nil) fun steps steps' hsteps => ?_
  refine .bind (.field Network.corresponds_decode) fun network network' hnetwork => ?_
  refine .bind_eq (.field (Optimizer.corresponds_decode _)) fun optimizer => ?_
  have hstandard : Execution.Alike .standard .standard := ⟨rfl, .refl _, rfl, .nil, rfl, rfl⟩
  refine .bind (.fieldD (Execution.corresponds_decode _ _) hstandard)
    fun execution execution' hexecution => ?_
  refine .bind_eq (.fieldD_eq (corresponds_bufferDecode _) _) fun buffer => ?_
  refine .bind_eq (.field (Cadence.corresponds_decode _ _ _ _)) fun cadence => ?_
  refine .bind_eq (.fieldD_eq (corresponds_numberIn _ _) _) fun discount => ?_
  refine .bind (corresponds_variantReading _ memory kind) fun variant variant' hvariant => ?_
  refine .bind_eq (.close _) fun _ => .bind_eq (.ofExcept (.refl _)) fun warnings => ?_
  exact .pure ⟨hvariant, rfl, rfl, hsteps, hnetwork, rfl, hexecution, rfl, rfl⟩

/-- **The order of keys does not matter.** Of two documents that are the same but for the order of keys,
both are accepted or both are refused. If they are accepted, the agents are the same but for the order of
what is passed on. If they are refused, the faults are the same, at one place; or an unknown field is
refused in each of them or a device that is no text, and then each fault is at a stray entry of its
document, both entries being of one object. -/
theorem alike_of_reordered (options : Options) {document document' : Value}
    (h : document.Reordered document') :
    ((∃ a, decode options document = .ok a) ↔ ∃ b, decode options document' = .ok b) ∧
    (∀ a b, decode options document = .ok a → decode options document' = .ok b → a.Alike b) ∧
    ∀ f g, decode options document = .error f → decode options document' = .error g →
      f.Alike g ∧ (f.cause.GoesByOrder → (outline document).Stray .root document f ∧
        (outline document').Stray .root document' g) := by
  have hdecode : Corresponds Alike (decode options document) (decode options document') :=
    Decoder.Corresponds.section (corresponds_reading options) h .root
  have hstray := strays_decode options document
  have hstray' := strays_decode options document'
  generalize decode options document = x, decode options document' = y at hdecode hstray hstray'
  cases hdecode with
  | @ok a b hab =>
    refine ⟨⟨fun _ => ⟨b, rfl⟩, fun _ => ⟨a, rfl⟩⟩, ?_, fun _ _ hf => (nomatch hf)⟩
    rintro _ _ ⟨⟩ ⟨⟩
    exact hab
  | @error f g hfg =>
    refine ⟨⟨?_, ?_⟩, fun _ _ ha _ => (nomatch ha), ?_⟩
    · rintro ⟨_, ⟨⟩⟩
    · rintro ⟨_, ⟨⟩⟩
    · rintro _ _ ⟨⟩ ⟨⟩
      exact ⟨hfg, fun hcause => ⟨hstray f rfl hcause, hstray' g rfl (hfg.goesByOrder hcause)⟩⟩

/-- An agent that learns values, with some memory and some settings of its only layer. -/
def breakout (memory layer : Entries) : Value := .object [
  ("type", .text "dqn"),
  ("memory_spec", .object memory),
  ("network_spec", .list [.object layer]),
  ("update_spec", .object [("update_interval", .number (.integer 4)),
    ("batch_size", .number (.integer 32)), ("sync_interval", .number (.integer 100))]),
  ("optimizer_spec", .object [("type", .text "adam"), ("learning_rate", .number (.decimal 0.001))])]

/-- What is passed on of a layer keeps its order. Of two fields of the memory that are unknown, the one
that comes first is refused. -/
theorem alike_of_reordered_breakout :
    let memory : Entries := [("type", .text "replay"), ("capacity", .number (.integer 1000))]
    let layer : Entries := [("type", .text "conv2d"), ("filters", .number (.integer 16)),
      ("kernel", .number (.integer 8))]
    let marked := memory ++ [("colour", .null), ("flavour", .null)]
    (∃ a b, decode .standard (breakout memory layer) = .ok a ∧
      decode .standard (breakout memory.reverse layer.reverse) = .ok b ∧
      a.network.layers.map (·.params.keys) = [["filters", "kernel"]] ∧
      b.network.layers.map (·.params.keys) = [["kernel", "filters"]] ∧ a.Alike b) ∧
    ∃ f g, decode .standard (breakout marked layer) = .error f ∧
      decode .standard (breakout marked.reverse layer) = .error g ∧
      f.path.text = "memory_spec.colour" ∧ g.path.text = "memory_spec.flavour" ∧ f.Alike g ∧
      (outline (breakout marked layer)).Stray .root (breakout marked layer) f := by
  intro memory layer marked
  have hreverse (entries : Entries) (h : entries.keys.Nodup) :
      Value.Reordered (.object entries) (.object entries.reverse) :=
    .of_perm entries.reverse_perm.symm h
  have hbreakout {memory memory' layer layer' : Entries}
      (hmemory : Value.Reordered (.object memory) (.object memory'))
      (hlayer : Value.Reordered (.object layer) (.object layer')) :
      (breakout memory layer).Reordered (breakout memory' layer') :=
    .object (.cons (.refl _) (.cons hmemory (.cons (.list (.cons hlayer .nil)) (.refl .refl _))))
  have hlayer := hreverse layer (by decide)
  constructor
  · have h := alike_of_reordered .standard (hbreakout (hreverse memory (by decide)) hlayer)
    obtain ⟨a, b, ha, hb, hkeys, hkeys'⟩ : ∃ a b, decode .standard (breakout memory layer) = .ok a ∧
        decode .standard (breakout memory.reverse layer.reverse) = .ok b ∧
        a.network.layers.map (·.params.keys) = [["filters", "kernel"]] ∧
        b.network.layers.map (·.params.keys) = [["kernel", "filters"]] := ⟨_, _, rfl, rfl, rfl, rfl⟩
    exact ⟨a, b, ha, hb, hkeys, hkeys', h.2.1 a b ha hb⟩
  · have h := alike_of_reordered .standard (hbreakout (hreverse marked (by decide)) (.refl (.object layer)))
    obtain ⟨halike, hstray⟩ := h.2.2 _ _ rfl rfl
    exact ⟨_, _, rfl, rfl, rfl, rfl, halike, (hstray .unknownField).1⟩

end Agent

end Regimen
