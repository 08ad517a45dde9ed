import Regimen.Proofs.Binary64
import Regimen.Proofs.Fields
import Regimen.Proofs.UnknownFields

/-!
# The stages of a decision

A document is read in a fixed order, and the first fault decides. What is read does not depend on that
order: each part is a function of the document alone, and so there are fourteen conditions on a document
(`Agent.Stage`), each of which can be said by itself (`Agent.Stage.Holds`). **A document is accepted when
all of them hold**, the agent is composed of what the parts mean, and a document that is refused has the
fault of the first condition that fails: **`Agent.decided_by_stages`**.
-/

namespace Regimen

/-! ### Verdicts -/

/-- Whether a meaning was found, or why not. -/
def verdict {α : Type} (x : Except Fault α) : Except Fault Unit := x.map fun _ => ()

section Verdict

variable {α β : Type} {x : Except Fault α}

@[simp] theorem verdict_unit (x : Except Fault Unit) : verdict x = x := by
  cases x <;> rfl

theorem verdict_eq_ok_iff : verdict x = .ok () ↔ ∃ a, x = .ok a := by
  cases x <;> simp [verdict, Except.map]

theorem verdict_eq_error_iff {f : Fault} : verdict x = .error f ↔ x = .error f := by
  cases x <;> simp [verdict, Except.map]

/-- The verdict on a sequence is that on its first part, and after that on the rest. -/
theorem verdict_bind {f : α → Except Fault β} {y z : Except Fault Unit} (hx : y = verdict x)
    (hf : ∀ a, x = .ok a → verdict (f a) = z) : verdict (x >>= f) = y >>= fun _ => z := by
  subst hx
  cases x with
  | error e => rfl
  | ok a => exact hf a rfl

/-- A sequence is accepted where its first part is, and then the rest. -/
theorem exists_bind_eq_ok_iff {f : α → Except Fault β} :
    (∃ b, (x >>= f) = .ok b) ↔ ∃ a, x = .ok a ∧ ∃ b, f a = .ok b := by
  cases x with
  | error e => simp [bind, Except.bind]
  | ok a => simp [bind, Except.bind]

theorem except_map_eq_ok_iff {f : α → β} {b : β} : x.map f = .ok b ↔ ∃ a, x = .ok a ∧ f a = b := by
  cases x <;> simp [Except.map]

theorem except_map_eq_error_iff {f : α → β} {e : Fault} : x.map f = .error e ↔ x = .error e := by
  cases x <;> simp [Except.map]

theorem exists_map_eq_ok_iff {f : α → β} : (∃ b, x.map f = .ok b) ↔ ∃ a, x = .ok a := by
  cases x <;> simp [Except.map]

theorem exists_eq_ok_unit_iff {x : Except Fault Unit} : (∃ u, x = .ok u) ↔ x = .ok () :=
  ⟨fun ⟨_, h⟩ => h, fun h => ⟨(), h⟩⟩

theorem ite_eq_ok_iff {condition : Prop} [Decidable condition] {f : Fault} :
    (if condition then .ok () else .error f) = Except.ok () ↔ condition := by
  split <;> simp_all

theorem except_bind_congr {f g : α → Except Fault β} (h : ∀ a, x = .ok a → f a = g a) :
    x >>= f = x >>= g := by
  cases x with
  | error e => rfl
  | ok a => exact h a rfl

variable {check : α → Except Fault Unit} {l : List α}

theorem forM_eq_ok_iff : forM l check = .ok () ↔ ∀ a ∈ l, check a = .ok () := by
  induction l with
  | nil => simp [pure, Except.pure]
  | cons a l ih =>
    rw [List.forM_cons, except_bind_eq_ok_iff, List.forall_mem_cons, ← ih]
    exact ⟨fun ⟨_, ha, hl⟩ => ⟨ha, hl⟩, fun ⟨ha, hl⟩ => ⟨(), ha, hl⟩⟩

/-- Checks fail with the fault of the first one that does. -/
theorem forM_eq_error_iff {f : Fault} : forM l check = .error f ↔ ∃ before a after,
    l = before ++ a :: after ∧ (∀ b ∈ before, check b = .ok ()) ∧ check a = .error f := by
  induction l with
  | nil => simp [pure, Except.pure]
  | cons a l ih =>
    rw [List.forM_cons]
    cases ha : check a with
    | error e =>
      constructor
      · rintro ⟨⟩
        exact ⟨[], a, l, rfl, nofun, ha⟩
      · rintro ⟨before, b, after, hl, hbefore, hb⟩
        cases before with
        | nil =>
          cases hl
          exact ha.symm.trans hb
        | cons c before =>
          cases hl
          exact absurd (ha.symm.trans (hbefore a List.mem_cons_self)) nofun
    | ok u =>
      refine Iff.trans ih ⟨?_, ?_⟩
      · rintro ⟨before, b, after, rfl, hbefore, hb⟩
        exact ⟨a :: before, b, after, rfl, List.forall_mem_cons.mpr ⟨ha, hbefore⟩, hb⟩
      · rintro ⟨before, b, after, hl, hbefore, hb⟩
        cases before with
        | nil =>
          cases hl
          exact absurd (ha.symm.trans hb) nofun
        | cons c before =>
          cases hl
          exact ⟨before, b, after, rfl, (List.forall_mem_cons.mp hbefore).2, hb⟩

end Verdict

/-! ### Fields that are accepted -/

namespace Section

variable {α : Type} {s t : Section} {key : String} {decode : Decoder α}

/-- There is a value under the key, and it has a meaning. -/
def Takes (s : Section) (key : String) (decode : Decoder α) : Prop :=
  ∃ v ∈ s.value? key, ∃ a, decode (s.path.key key) v = .ok a

/-- The key is absent or null, or its value has a meaning. -/
def Admits (s : Section) (key : String) (decode : Decoder α) : Prop :=
  ∀ v ∈ s.value? key, ∃ a, decode (s.path.key key) v = .ok a

theorem takes_iff : s.Takes key decode ↔ ∃ a, s.read key decode = .ok a := by
  unfold Takes read
  cases s.value? key <;> simp

theorem admits_iff : s.Admits key decode ↔ ∃ o, s.read? key decode = .ok o := by
  unfold Admits read?
  cases s.value? key with
  | none => simp
  | some v =>
    show (∀ w ∈ some v, _) ↔ ∃ o, (decode (s.path.key key) v).map some = .ok o
    cases h : decode (s.path.key key) v <;> simp [h, Except.map]

theorem admits_iff_readD {default : α} :
    s.Admits key decode ↔ ∃ a, s.readD key decode default = .ok a := by
  rw [admits_iff, readD]
  cases s.read? key decode <;> simp [Except.map]

/-- Whether a value is accepted does not depend on the default. -/
theorem verdict_readD (s : Section) (key : String) (decode : Decoder α) (default : α) :
    verdict (s.readD key decode default) = verdict (s.read? key decode) := by
  unfold readD
  cases s.read? key decode <;> rfl

/-- What is given under the key, if anything is, has this meaning. -/
def Gives (s : Section) (key : String) (decode : Decoder α) : Option α → Prop
  | some a => ∃ v ∈ s.value? key, decode (s.path.key key) v = .ok a
  | none => s.value? key = none

theorem read?_eq_ok_iff_gives {o : Option α} : s.read? key decode = .ok o ↔ s.Gives key decode o := by
  cases o with
  | none => exact read?_eq_ok_none_iff
  | some a => exact read?_eq_ok_some_iff.trans read_eq_ok_iff

theorem isSome_of_read? {o : Option α} (h : s.read? key decode = .ok o) :
    o.isSome = (s.value? key).isSome := by
  cases o with
  | none =>
    rw [read?_eq_ok_none_iff.mp h]
    rfl
  | some a =>
    obtain ⟨v, hv, -⟩ := read_eq_ok_iff.mp (read?_eq_ok_some_iff.mp h)
    rw [hv]
    rfl

/-- The end of a section goes by which keys were asked for, whatever their order. -/
theorem closed_congr (policy : UnknownFields) (hpath : s.path = t.path) (hentries : s.entries = t.entries)
    (hasked : ∀ k, k ∈ s.asked ↔ k ∈ t.asked) : s.closed policy = t.closed policy := by
  have hunasked : s.unasked = t.unasked := by
    unfold unasked
    rw [hentries]
    exact List.filter_congr fun e _ => by simp only [hasked]
  unfold closed
  rw [hunasked, hpath]

theorem closed_eq_ok_iff {policy : UnknownFields} :
    s.closed policy = .ok () ↔ (policy = .reject → ∀ k ∈ s.entries.keys, k ∈ s.asked) := by
  unfold closed
  cases hu : s.unasked with
  | nil =>
    have hall : ∀ k ∈ s.entries.keys, k ∈ s.asked := by
      intro k hk
      obtain ⟨e, he, rfl⟩ := List.mem_map.mp hk
      simpa using List.filter_eq_nil_iff.mp hu e he
    cases policy with
    | reject => simpa using hall
    | ignore => simp
  | cons e es =>
    have he : e ∈ s.unasked := hu ▸ List.mem_cons_self
    obtain ⟨hmem, hnot⟩ := List.mem_filter.mp he
    have hkey : e.1 ∈ s.entries.keys := List.mem_map_of_mem hmem
    cases policy with
    | reject => simpa using ⟨e.1, hkey, by simpa using hnot⟩
    | ignore => simp

/-- Where every key was asked for, the end of a section is never refused. -/
theorem closed_askAll (s : Section) (policy : UnknownFields) : s.askAll.closed policy = .ok () :=
  closed_eq_ok_iff.mpr fun _ _ hkey => List.mem_append_left s.asked hkey

end Section

/-! ### Readings that go by the object alone -/

/-- A reading asks for some keys, whatever stands there, and does not go by what was asked before. -/
structure Reading.Asks {α : Type} (r : Reading α) (keys : List String) : Prop where
  /-- What was asked before makes no difference. -/
  outcome : ∀ path entries asked asked',
    r.outcome ⟨path, entries, asked⟩ = r.outcome ⟨path, entries, asked'⟩
  /-- The keys were asked for in the end. -/
  after : ∀ s a, r.outcome s = .ok a → r.after s = ⟨s.path, s.entries, keys ++ s.asked⟩

namespace Reading.Asks

variable {α β : Type} {keys keys' : List String}

theorem pure (a : α) : (Pure.pure a : Reading α).Asks [] := ⟨fun _ _ _ _ => rfl, fun _ _ _ => rfl⟩

theorem placeOf (key : String) : (Reading.placeOf key).Asks [] :=
  ⟨fun _ _ _ _ => rfl, fun _ _ _ => rfl⟩

theorem ensure (condition : Prop) [Decidable condition] (f : Fault) :
    (Reading.ensure condition f).Asks [] where
  outcome _ _ _ _ := by rw [Reading.ensure, Attempt.outcome_ofExcept, Attempt.outcome_ofExcept]
  after _ _ _ := Attempt.after_ofExcept _ _

theorem field? (key : String) (decode : Decoder α) : (Reading.field? key decode).Asks [key] where
  outcome _ _ _ _ := by rw [outcome_field?, outcome_field?]; rfl
  after s _ _ := after_field? s key decode

theorem bind {r : Reading α} {f : α → Reading β} (hr : r.Asks keys) (hf : ∀ a, (f a).Asks keys') :
    Reading.Asks (r >>= f) (keys' ++ keys) where
  outcome path entries asked asked' := by
    rw [Attempt.outcome_bind, Attempt.outcome_bind, hr.outcome path entries asked asked']
    refine except_bind_congr fun a ha => ?_
    rw [hr.after _ a ha, hr.after _ a ((hr.outcome ..).trans ha)]
    exact (hf a).outcome ..
  after s b hb := by
    rw [Attempt.outcome_bind] at hb
    obtain ⟨a, ha, hb⟩ := except_bind_eq_ok_iff.mp hb
    rw [Attempt.after_bind_of_ok ha, (hf a).after _ _ hb, hr.after _ _ ha, List.append_assoc]

theorem fieldD (key : String) (decode : Decoder α) (default : α) :
    (Reading.fieldD key decode default).Asks [key] :=
  .bind (.field? key decode) fun _ => .pure _

end Reading.Asks

namespace Agent

/-! ### The parts of a document -/

section Parts

variable (options : Options) (entries : Entries) (kind : Kind) (buffer : Option Nat)

/-- A whole document, nothing of which was asked for. -/
def root : Section := ⟨.root, entries, []⟩

/-- The type. -/
def kindIn : Except Fault Kind := (root entries).read "type" Kind.decode

/-- The memory. -/
def memoryIn : Except Fault Memory :=
  (root entries).read "memory_spec" (Memory.reading options.unknownFields).decode

/-- The preprocessors. -/
def preprocessingIn : Except Fault (List Preprocessor) :=
  (root entries).readD "preprocessing_spec" Preprocessor.decodeAll []

/-- The network. -/
def networkIn : Except Fault Network := (root entries).read "network_spec" Network.decode

/-- The optimizer. -/
def optimizerIn : Except Fault Optimizer :=
  (root entries).read "optimizer_spec" (Optimizer.reading options.unknownFields).decode

/-- Where and how training runs. -/
def executionIn : Except Fault Execution :=
  (root entries).readD "execution_spec"
    (Execution.reading options.gpus options.unknownFields).decode .standard

/-- The size of the buffer. -/
def bufferIn : Except Fault (Option Nat) :=
  (root entries).readD "observe_spec" (bufferReading options.unknownFields).decode none

/-- The cadence of an agent of a type, whose observations are handed over in buffers of a size. -/
def cadenceIn : Except Fault Cadence :=
  (root entries).read "update_spec"
    (Cadence.reading kind.family kind.name buffer options.unknownFields).decode

/-- The discount. -/
def discountIn : Except Fault Float :=
  (root entries).readD "discount" (Decoder.numberIn .unit (some "discount")) kind.defaultDiscount

/-- The memory suits the type: learning from priorities takes a memory that has them. -/
def suited (memory : Memory) : Kind → Except Fault Unit
  | .apex =>
    if memory.kind.IsPrioritized then .ok ()
    else .error ⟨(Path.root.key "memory_spec").key "type",
      .inconsistent (.unprioritized memory.kind.name)⟩
  | .dqn | .ppo => .ok ()

/-- The settings of a type. -/
def settingsIn : Kind → Except Fault Variant
  | .dqn => ((valueReading options.unknownFields).outcome (root entries)).map .dqn
  | .apex => ((valueReading options.unknownFields).outcome (root entries)).map .apex
  | .ppo => ((policyReading options.unknownFields).outcome (root entries)).map .ppo

/-- A document of which everything was asked that is read for a type. -/
def spent : Section := ⟨.root, entries, "type" :: (partKeys ++ kind.ownFields)⟩

end Parts

section Reading

variable (policy : UnknownFields)

theorem asks_valueReading :
    ∃ keys, (valueReading policy).Asks keys ∧ keys.Perm Kind.valueFields := by
  refine ⟨_, .bind (.fieldD ..) fun steps => .bind (.field? ..) fun exploration =>
    .bind (.fieldD ..) fun dueling => .bind (.fieldD ..) fun double =>
    .bind (.fieldD ..) fun huber => .pure _, by decide⟩

theorem asks_policyReading :
    ∃ keys, (policyReading policy).Asks keys ∧ keys.Perm Kind.policyFields := by
  refine ⟨_, .bind (.fieldD ..) fun clipRatio => .bind (.fieldD ..) fun gaeLambda =>
    .bind (.field? ..) fun entropyWeight => .bind (.field? ..) fun valueNetwork =>
    .bind (.field? ..) fun valueOptimizer => .bind (.placeOf _) fun place =>
    .bind (.ensure ..) fun _ => .bind (.fieldD ..) fun standardize =>
    .bind (.fieldD ..) fun wholeEpisodes => .pure _, by decide⟩

/-- Reading the settings of a type asks for the fields that the type has to itself. -/
theorem asks_variantReading (memory : Memory) (kind : Kind) :
    ∃ keys, (variantReading policy memory kind).Asks keys ∧ keys.Perm kind.ownFields := by
  obtain ⟨keys, hkeys, hperm⟩ := asks_valueReading policy
  obtain ⟨keys', hkeys', hperm'⟩ := asks_policyReading policy
  cases kind with
  | dqn => exact ⟨_, .bind hkeys fun _ => .pure _, hperm⟩
  | apex =>
    refine ⟨_, .bind (.placeOf _) fun _ => .bind (.ensure ..) fun _ => .bind hkeys fun _ => .pure _, ?_⟩
    rw [List.append_nil, List.append_nil]
    exact hperm
  | ppo => exact ⟨_, .bind hkeys' fun _ => .pure _, hperm'⟩

/-- What the settings of a type are does not depend on what was asked before. -/
theorem outcome_variantReading (options : Options) (memory : Memory) (kind : Kind) {s : Section}
    (hpath : s.path = .root) :
    (variantReading options.unknownFields memory kind).outcome s =
      suited memory kind >>= fun _ => settingsIn options s.entries kind := by
  obtain ⟨path, entries, asked⟩ := s
  obtain rfl : path = .root := hpath
  obtain ⟨keys, hkeys, -⟩ := asks_variantReading options.unknownFields memory kind
  rw [hkeys.outcome _ _ asked []]
  cases kind with
  | dqn =>
    rw [variantReading, Attempt.outcome_bind]
    rfl
  | apex =>
    rw [variantReading, Attempt.outcome_bind, Reading.outcome_placeOf, Reading.after_placeOf]
    refine (Attempt.outcome_bind (s := root entries)).trans ?_
    rw [Reading.outcome_ensure, Reading.after_ensure, Attempt.outcome_bind]
    rfl
  | ppo =>
    rw [variantReading, Attempt.outcome_bind]
    rfl

/-- After the settings of a type were read, everything was asked for that is read for the type. -/
theorem closed_after_variantReading {memory : Memory} {kind : Kind} {s : Section} {variant : Variant}
    (h : (variantReading policy memory kind).outcome s = .ok variant) (hpath : s.path = .root)
    (hasked : s.asked.Perm ("type" :: partKeys)) :
    ((variantReading policy memory kind).after s).closed policy = (spent s.entries kind).closed policy := by
  obtain ⟨keys, hkeys, hperm⟩ := asks_variantReading policy memory kind
  rw [hkeys.after s _ h]
  refine Section.closed_congr policy hpath rfl fun k => ?_
  simp only [spent, List.mem_append, List.mem_cons, hperm.mem_iff, hasked.mem_iff]
  rw [or_comm, or_assoc]

end Reading

/-- The agent that an object describes, in terms of what the parts mean by themselves. -/
theorem decode_object (options : Options) (entries : Entries) :
    decode options (.object entries) = do
      let kind ← kindIn entries
      (root entries).without kind.foreignFields kind.name
      let memory ← memoryIn options entries
      let preprocessing ← preprocessingIn entries
      let network ← networkIn entries
      let optimizer ← optimizerIn options entries
      let execution ← executionIn options entries
      let buffer ← bufferIn options entries
      let cadence ← cadenceIn options entries kind buffer
      let discount ← discountIn entries kind
      suited memory kind
      let variant ← settingsIn options entries kind
      (spent entries kind).closed options.unknownFields
      let warnings ← checked options memory cadence buffer
      return { variant, discount, memory, preprocessing, network, optimizer, execution, cadence,
               warnings } := by
  have hdecode : decode options (.object entries) = (reading options).outcome (root entries) := rfl
  simp only [hdecode, reading, Attempt.outcome_bind, Reading.outcome_field, Reading.after_field,
    Reading.outcome_fieldD, Reading.after_fieldD, Reading.outcome_forbid, Reading.after_forbid,
    Reading.outcome_close, Reading.after_close, Attempt.outcome_ofExcept, Attempt.outcome_pure]
  refine except_bind_congr fun kind _ => except_bind_congr fun _ _ => except_bind_congr fun memory _ => ?_
  refine except_bind_congr fun preprocessing _ => except_bind_congr fun network _ => ?_
  refine except_bind_congr fun optimizer _ => except_bind_congr fun execution _ => ?_
  refine except_bind_congr fun buffer _ => except_bind_congr fun cadence _ => ?_
  refine except_bind_congr fun discount _ => ?_
  -- All of the parts were asked for by now.
  generalize hs : Section.ask _ "discount" = s
  have hpath : s.path = .root := hs ▸ rfl
  have hentries : s.entries = entries := hs ▸ rfl
  have hasked : s.asked.Perm ("type" :: partKeys) := by
    rw [← hs]
    show List.Perm (_ :: _ :: _ :: _ :: _ :: _ :: _ :: _ :: _ :: []) _
    decide
  calc (variantReading options.unknownFields memory kind).outcome s >>= _
      = (variantReading options.unknownFields memory kind).outcome s >>= fun variant => do
          (spent entries kind).closed options.unknownFields
          let warnings ← checked options memory cadence buffer
          return { variant, discount, memory, preprocessing, network, optimizer, execution, cadence,
                   warnings } := by
        refine except_bind_congr fun variant hvariant => ?_
        rw [closed_after_variantReading _ hvariant hpath hasked, hentries]
        rfl
    _ = _ := by rw [outcome_variantReading options memory kind hpath, hentries, bind_assoc]

/-! ### Stages -/

/-- A condition on a document. -/
inductive Stage where
  /-- The document names a type. -/
  | type
  /-- It holds no field of another type. -/
  | foreign
  /-- The memory is accepted. -/
  | memory
  /-- The preprocessors are accepted. -/
  | preprocessing
  /-- The network is accepted. -/
  | network
  /-- The optimizer is accepted. -/
  | optimizer
  /-- What is said about execution is accepted. -/
  | execution
  /-- The buffer of observations is accepted. -/
  | observation
  /-- The cadence is accepted. -/
  | cadence
  /-- The discount is accepted. -/
  | discount
  /-- The memory has the priorities that the type learns from. -/
  | priorities
  /-- The settings of the type are accepted. -/
  | settings
  /-- No field is unknown. -/
  | unknown
  /-- A batch fits into memory. -/
  | batch
  deriving DecidableEq, Repr

/-- The conditions in the order in which they are looked at. -/
def Stage.order : List Stage :=
  [.type, .foreign, .memory, .preprocessing, .network, .optimizer, .execution, .observation, .cadence,
    .discount, .priorities, .settings, .unknown, .batch]

theorem Stage.mem_order (stage : Stage) : stage ∈ order := by cases stage <;> decide

/-- The names that types have. -/
def Kind.names : List String := ["dqn", "dqn_agent", "apex", "apex_agent", "ppo", "ppo_agent"]

/-- The settings for learning values are accepted. -/
structure AdmitsValues (policy : UnknownFields) (s : Section) : Prop where
  /-- The number of rewards. -/
  steps : s.Admits "n_step" Decoder.interval
  /-- The way of exploring. -/
  exploration : s.Admits "exploration_spec" (Exploration.reading policy).decode
  /-- Whether values are split. -/
  dueling : s.Admits "dueling_q" Decoder.boolean
  /-- Whether two networks choose and value. -/
  double : s.Admits "double_q" Decoder.boolean
  /-- Whether great errors count linearly. -/
  huber : s.Admits "huber_loss" Decoder.boolean

/-- The settings for learning a policy are accepted, and they go together. -/
structure AdmitsPolicy (policy : UnknownFields) (s : Section) : Prop where
  /-- The clip ratio. -/
  clipRatio : s.Admits "clip_ratio" (Schedule.decodeIn .positiveUnit)
  /-- The look ahead. -/
  gaeLambda : s.Admits "gae_lambda" (Decoder.numberIn .unit (some "gae_lambda"))
  /-- The weight of the entropy. -/
  entropyWeight : s.Admits "weight_entropy" (Schedule.decodeIn .nonNegative)
  /-- The network that values states. -/
  valueNetwork : s.Admits "value_function_spec" Network.decode
  /-- The optimizer of that network. -/
  valueOptimizer : s.Admits "value_function_optimizer_spec" (Optimizer.reading policy).decode
  /-- There is no optimizer without the network. -/
  together : (s.value? "value_function_optimizer_spec").isSome → (s.value? "value_function_spec").isSome
  /-- Whether advantages are brought to a common scale. -/
  standardize : s.Admits "standardize_advantages" Decoder.boolean
  /-- Whether whole episodes are sampled. -/
  wholeEpisodes : s.Admits "sample_episodes" Decoder.boolean

/-- The settings of a type are accepted. -/
def AdmitsSettings (policy : UnknownFields) (s : Section) : Kind → Prop
  | .dqn | .apex => AdmitsValues policy s
  | .ppo => AdmitsPolicy policy s

namespace Stage

variable (options : Options) (entries : Entries)

/-- **The conditions**, each of them said of the document by itself. What the type, the memory, the
buffer and the cadence are is asked of the document anew wherever a condition goes by them. -/
def Holds : Stage → Prop
  | type => ∃ name ∈ Kind.names, entries.lookup "type" = some (.text name)
  | foreign => ∃ kind, kindIn entries = .ok kind ∧ ∀ key ∈ kind.foreignFields, key ∉ entries.keys
  | memory => (root entries).Takes "memory_spec" (Memory.reading options.unknownFields).decode
  | preprocessing => (root entries).Admits "preprocessing_spec" Preprocessor.decodeAll
  | network => (root entries).Takes "network_spec" Network.decode
  | optimizer => (root entries).Takes "optimizer_spec" (Optimizer.reading options.unknownFields).decode
  | execution => (root entries).Admits "execution_spec"
      (Execution.reading options.gpus options.unknownFields).decode
  | observation => ∀ v ∈ (root entries).value? "observe_spec", ∃ inner, v = .object inner ∧
      (∀ w, inner.lookup "buffer_size" = some w → w = .null ∨ ∃ n, w.count? = some n) ∧
      (options.unknownFields = .reject → ∀ key ∈ Entries.keys inner, key = "buffer_size")
  | cadence => ∃ kind buffer, kindIn entries = .ok kind ∧ bufferIn options entries = .ok buffer ∧
      (root entries).Takes "update_spec"
        (Cadence.reading kind.family kind.name buffer options.unknownFields).decode
  | discount => ∀ v ∈ (root entries).value? "discount", ∃ x, v.float? = some x ∧ 0.0 ≤ x ∧ x ≤ 1.0
  | priorities => ∃ kind memory, kindIn entries = .ok kind ∧ memoryIn options entries = .ok memory ∧
      (kind = .apex → memory.kind.IsPrioritized)
  | settings => ∃ kind, kindIn entries = .ok kind ∧
      AdmitsSettings options.unknownFields (root entries) kind
  | unknown => ∃ kind, kindIn entries = .ok kind ∧ (options.unknownFields = .reject →
      ∀ key ∈ entries.keys, key ∈ "type" :: (partKeys ++ kind.ownFields))
  | batch => ∃ kind memory buffer cadence, kindIn entries = .ok kind ∧
      memoryIn options entries = .ok memory ∧ bufferIn options entries = .ok buffer ∧
      cadenceIn options entries kind buffer = .ok cadence ∧
      ¬(options.overfullBatch = .reject ∧ memory.capacity < cadence.batch)

/-- Whether a condition holds, or the fault of a document where it is the first that fails. -/
def outcome : Stage → Except Fault Unit
  | type => verdict (kindIn entries)
  | foreign => do
    let kind ← kindIn entries
    (root entries).without kind.foreignFields kind.name
  | memory => verdict (memoryIn options entries)
  | preprocessing => verdict (preprocessingIn entries)
  | network => verdict (networkIn entries)
  | optimizer => verdict (optimizerIn options entries)
  | execution => verdict (executionIn options entries)
  | observation => verdict (bufferIn options entries)
  | cadence => do
    let kind ← kindIn entries
    let buffer ← bufferIn options entries
    verdict (cadenceIn options entries kind buffer)
  | discount => verdict ((root entries).read? "discount" (Decoder.numberIn .unit (some "discount")))
  | priorities => do
    let kind ← kindIn entries
    let memory ← memoryIn options entries
    suited memory kind
  | settings => do
    let kind ← kindIn entries
    verdict (settingsIn options entries kind)
  | unknown => do
    let kind ← kindIn entries
    (spent entries kind).closed options.unknownFields
  | batch => do
    let kind ← kindIn entries
    let memory ← memoryIn options entries
    let buffer ← bufferIn options entries
    let cadence ← cadenceIn options entries kind buffer
    verdict (checked options memory cadence buffer)

end Stage

/-- The verdict on a document is that on the conditions, one after another. -/
theorem verdict_decode (options : Options) (entries : Entries) :
    verdict (decode options (.object entries)) = forM Stage.order (Stage.outcome options entries) := by
  rw [decode_object]
  refine verdict_bind rfl fun kind hkind => ?_
  refine verdict_bind (by rw [Stage.outcome, hkind]; exact (verdict_unit _).symm) fun _ _ => ?_
  refine verdict_bind rfl fun memory hmemory => ?_
  refine verdict_bind rfl fun preprocessing _ => ?_
  refine verdict_bind rfl fun network _ => ?_
  refine verdict_bind rfl fun optimizer _ => ?_
  refine verdict_bind rfl fun execution _ => ?_
  refine verdict_bind rfl fun buffer hbuffer => ?_
  refine verdict_bind (by rw [Stage.outcome, hkind, hbuffer]; rfl) fun cadence hcadence => ?_
  refine verdict_bind (Section.verdict_readD ..).symm fun discount _ => ?_
  refine verdict_bind (by rw [Stage.outcome, hkind, hmemory]; exact (verdict_unit _).symm) fun _ _ => ?_
  refine verdict_bind (by rw [Stage.outcome, hkind]; rfl) fun settings _ => ?_
  refine verdict_bind (by rw [Stage.outcome, hkind]; exact (verdict_unit _).symm) fun _ _ => ?_
  refine verdict_bind ?_ fun warnings _ => rfl
  rw [Stage.outcome, hkind, hmemory, hbuffer]
  show (cadenceIn options entries kind buffer >>= _) = _
  rw [hcadence]
  rfl

/-! ### What the conditions say -/

theorem Kind.isSome_ofName?_iff {name : String} : (ofName? name).isSome ↔ name ∈ names := by
  unfold ofName?
  split <;> simp_all [names]

/-- The document names a type. -/
theorem kindIn_eq_ok_iff {entries : Entries} : (∃ kind, kindIn entries = .ok kind) ↔
    ∃ name ∈ Kind.names, entries.lookup "type" = some (.text name) := by
  constructor
  · rintro ⟨kind, hkind⟩
    obtain ⟨v, hv, hdecode⟩ := Section.read_eq_ok_iff.mp hkind
    obtain ⟨name, rfl, hname⟩ := Kind.decode_eq_ok hdecode
    exact ⟨name, Kind.isSome_ofName?_iff.mp (by rw [hname]; rfl), Section.lookup_of_value? hv⟩
  · rintro ⟨name, hname, hl⟩
    obtain ⟨kind, hkind⟩ := Option.isSome_iff_exists.mp (Kind.isSome_ofName?_iff.mpr hname)
    refine ⟨kind, Section.read_eq_ok_iff.mpr ⟨.text name, ?_, ?_⟩⟩
    · show (entries.lookup "type").filter _ = _
      rw [hl]
      rfl
    · rw [Kind.decode, except_bind_eq_ok_iff]
      refine ⟨name, rfl, ?_⟩
      rw [hkind]
      rfl

theorem numberIn_eq_ok_iff {range : Range} {field : Option String} {path : Path} {v : Value} {x : Float} :
    Decoder.numberIn range field path v = .ok x ↔
      v.float? = some x ∧ x.isFinite ∧ range.Contains x := by
  unfold Decoder.numberIn Decoder.number
  rw [except_bind_eq_ok_iff]
  simp only [Decoder.orDefect_eq_ok_iff, Option.filter_eq_some_iff]
  constructor
  · rintro ⟨y, ⟨hv, hfinite⟩, h⟩
    split at h <;> cases h
    exact ⟨hv, hfinite, ‹_›⟩
  · rintro ⟨hv, hfinite, hx⟩
    exact ⟨x, ⟨hv, hfinite⟩, by rw [if_pos hx]; rfl⟩

/-- A number from zero to one is finite. -/
theorem numberIn_unit_eq_ok_iff {field : Option String} {path : Path} {v : Value} {x : Float} :
    Decoder.numberIn .unit field path v = .ok x ↔ v.float? = some x ∧ 0.0 ≤ x ∧ x ≤ 1.0 := by
  rw [numberIn_eq_ok_iff]
  exact ⟨fun ⟨hv, _, hx⟩ => ⟨hv, hx⟩, fun ⟨hv, hx⟩ => ⟨hv, Binary64.isFinite_of_unit hx.1 hx.2, hx⟩⟩

theorem admits_count_iff {s : Section} {key : String} : s.Admits key Decoder.count ↔
    ∀ w, s.entries.lookup key = some w → w = .null ∨ ∃ n, w.count? = some n := by
  constructor
  · intro h w hw
    by_cases hnull : w = .null
    · exact .inl hnull
    · have hvalue : s.value? key = some w := by
        unfold Section.value?
        rw [hw]
        cases w <;> first | rfl | exact absurd rfl hnull
      obtain ⟨n, hn⟩ := h w hvalue
      exact .inr ⟨n, Decoder.orDefect_eq_ok_iff.mp hn⟩
  · intro h w hw
    rcases h w (Section.lookup_of_value? hw) with rfl | ⟨n, hn⟩
    · exact absurd (Option.filter_eq_some_iff.mp hw).2 (by decide)
    · exact ⟨n, Decoder.orDefect_eq_ok_iff.mpr hn⟩

/-- The size of a buffer stands in an object that holds nothing else. -/
theorem bufferDecode_eq_ok_iff {policy : UnknownFields} {path : Path} {v : Value} :
    (∃ size, (bufferReading policy).decode path v = .ok size) ↔ ∃ inner, v = .object inner ∧
      (∀ w, inner.lookup "buffer_size" = some w → w = .null ∨ ∃ n, w.count? = some n) ∧
      (policy = .reject → ∀ key ∈ Entries.keys inner, key = "buffer_size") := by
  have hobject (inner : Entries) :
      (∃ size, (bufferReading policy).outcome ⟨path, inner, []⟩ = .ok size) ↔
        Section.Admits ⟨path, inner, []⟩ "buffer_size" Decoder.count ∧
          (policy = .reject → ∀ key ∈ inner.keys, key = "buffer_size") := by
    simp only [bufferReading, Attempt.outcome_bind, Reading.outcome_field?, Reading.after_field?,
      Reading.outcome_close, Attempt.outcome_pure, exists_bind_eq_ok_iff, Except.ok.injEq, exists_eq',
      and_true, exists_and_right, exists_eq_ok_unit_iff, Section.closed_eq_ok_iff, Section.admits_iff,
      Section.ask, List.mem_singleton]
  cases v with
  | object inner =>
    refine (hobject inner).trans ?_
    simp only [admits_count_iff, Value.object.injEq, exists_eq_left']
  | _ => simp [Reading.decode, Section.of, bind, Except.bind]

theorem suited_eq_ok_iff {memory : Memory} {kind : Kind} :
    suited memory kind = .ok () ↔ (kind = .apex → memory.kind.IsPrioritized) := by
  cases kind <;> simp [suited]

theorem checked_eq_ok_iff {options : Options} {memory : Memory} {cadence : Cadence}
    {buffer : Option Nat} : (∃ warnings, checked options memory cadence buffer = .ok warnings) ↔
      ¬(options.overfullBatch = .reject ∧ memory.capacity < cadence.batch) := by
  unfold checked
  split <;> simp_all

theorem admitsValues_iff {policy : UnknownFields} {s : Section} :
    AdmitsValues policy s ↔ ∃ settings, (valueReading policy).outcome s = .ok settings := by
  simp only [valueReading, Attempt.outcome_bind, Reading.outcome_fieldD, Reading.after_fieldD,
    Reading.outcome_field?, Reading.after_field?, Attempt.outcome_pure, exists_bind_eq_ok_iff,
    Except.ok.injEq, exists_eq', and_true, exists_and_right, Section.readD_ask, Section.read?_ask,
    ← Section.admits_iff_readD, ← Section.admits_iff]
  exact ⟨fun h => ⟨h.steps, h.exploration, h.dueling, h.double, h.huber⟩,
    fun ⟨a, b, c, d, e⟩ => ⟨a, b, c, d, e⟩⟩

theorem admitsPolicy_iff {policy : UnknownFields} {s : Section} :
    AdmitsPolicy policy s ↔ ∃ settings, (policyReading policy).outcome s = .ok settings := by
  simp only [policyReading, Attempt.outcome_bind, Reading.outcome_fieldD, Reading.after_fieldD,
    Reading.outcome_field?, Reading.after_field?, Attempt.outcome_pure, exists_bind_eq_ok_iff,
    Reading.outcome_placeOf, Reading.after_placeOf, Reading.outcome_ensure, Reading.after_ensure,
    Except.ok.injEq, exists_eq', exists_eq_left', and_true, exists_and_right, exists_eq_ok_unit_iff,
    ite_eq_ok_iff, Section.readD_ask, Section.read?_ask, ← Section.admits_iff_readD,
    ← Section.admits_iff]
  constructor
  · intro h
    obtain ⟨network, hnetwork⟩ := Section.admits_iff.mp h.valueNetwork
    obtain ⟨optimizer, hoptimizer⟩ := Section.admits_iff.mp h.valueOptimizer
    have htogether : optimizer.isSome → network.isSome := by
      rw [Section.isSome_of_read? hnetwork, Section.isSome_of_read? hoptimizer]
      exact h.together
    exact ⟨h.clipRatio, h.gaeLambda, h.entropyWeight, network, hnetwork, optimizer, hoptimizer,
      htogether, h.standardize, h.wholeEpisodes⟩
  · rintro ⟨hclip, hgae, hweight, network, hnetwork, optimizer, hoptimizer, htogether, hstandardize,
      hepisodes⟩
    rw [Section.isSome_of_read? hnetwork, Section.isSome_of_read? hoptimizer] at htogether
    exact ⟨hclip, hgae, hweight, Section.admits_iff.mpr ⟨_, hnetwork⟩,
      Section.admits_iff.mpr ⟨_, hoptimizer⟩, htogether, hstandardize, hepisodes⟩

theorem admitsSettings_iff {options : Options} {entries : Entries} {kind : Kind} :
    AdmitsSettings options.unknownFields (root entries) kind ↔
      ∃ variant, settingsIn options entries kind = .ok variant := by
  cases kind with
  | dqn => exact admitsValues_iff.trans exists_map_eq_ok_iff.symm
  | apex => exact admitsValues_iff.trans exists_map_eq_ok_iff.symm
  | ppo => exact admitsPolicy_iff.trans exists_map_eq_ok_iff.symm

/-- A condition holds where its outcome is not a fault. -/
theorem Stage.holds_iff {options : Options} {entries : Entries} {stage : Stage} :
    stage.Holds options entries ↔ stage.outcome options entries = .ok () := by
  cases stage with
  | type => exact kindIn_eq_ok_iff.symm.trans verdict_eq_ok_iff.symm
  | foreign =>
    simp only [Holds, outcome, except_bind_eq_ok_iff, Section.without_eq_ok_iff]
    rfl
  | memory => exact Section.takes_iff.trans verdict_eq_ok_iff.symm
  | preprocessing => exact Section.admits_iff_readD.trans verdict_eq_ok_iff.symm
  | network => exact Section.takes_iff.trans verdict_eq_ok_iff.symm
  | optimizer => exact Section.takes_iff.trans verdict_eq_ok_iff.symm
  | execution => exact Section.admits_iff_readD.trans verdict_eq_ok_iff.symm
  | observation =>
    refine Iff.trans ?_ (Section.admits_iff_readD.trans verdict_eq_ok_iff.symm)
    simp only [Holds, Section.Admits, bufferDecode_eq_ok_iff]
  | cadence =>
    simp only [Holds, outcome, except_bind_eq_ok_iff, verdict_eq_ok_iff, Section.takes_iff]
    exact ⟨fun ⟨kind, buffer, hkind, hbuffer, h⟩ => ⟨kind, hkind, buffer, hbuffer, h⟩,
      fun ⟨kind, hkind, buffer, hbuffer, h⟩ => ⟨kind, buffer, hkind, hbuffer, h⟩⟩
  | discount =>
    refine Iff.trans ?_ (Section.admits_iff.trans verdict_eq_ok_iff.symm)
    simp only [Holds, Section.Admits, numberIn_unit_eq_ok_iff]
  | priorities =>
    simp only [Holds, outcome, except_bind_eq_ok_iff, suited_eq_ok_iff]
    exact ⟨fun ⟨kind, m, hkind, hmemory, h⟩ => ⟨kind, hkind, m, hmemory, h⟩,
      fun ⟨kind, hkind, m, hmemory, h⟩ => ⟨kind, m, hkind, hmemory, h⟩⟩
  | settings =>
    simp only [Holds, outcome, except_bind_eq_ok_iff, verdict_eq_ok_iff, admitsSettings_iff]
  | unknown =>
    simp only [Holds, outcome, except_bind_eq_ok_iff, Section.closed_eq_ok_iff]
    rfl
  | batch =>
    simp only [Holds, outcome, except_bind_eq_ok_iff, verdict_eq_ok_iff, checked_eq_ok_iff]
    exact ⟨fun ⟨kind, m, buffer, c, hkind, hmemory, hbuffer, hcadence, h⟩ =>
        ⟨kind, hkind, m, hmemory, buffer, hbuffer, c, hcadence, h⟩,
      fun ⟨kind, hkind, m, hmemory, buffer, hbuffer, c, hcadence, h⟩ =>
        ⟨kind, m, buffer, c, hkind, hmemory, hbuffer, hcadence, h⟩⟩

/-! ### What is composed -/

/-- **The settings for learning values that a document describes**, each of them as it stands there, or
the default where it is omitted. -/
structure ValueSettings.DescribedBy (v : ValueSettings) (policy : UnknownFields) (entries : Entries) :
    Prop where
  /-- One reward is learned from unless more are given. -/
  steps : entries.Omits "n_step" ∧ v.steps = 1 ∨
    entries.lookup "n_step" = some (.ofCount v.steps) ∧ 0 < v.steps ∧ v.steps ≤ maxCount
  /-- The agent explores where the document says how. -/
  exploration : (root entries).Gives "exploration_spec" (Exploration.reading policy).decode v.exploration
  /-- Values are split unless the document says that they are not. -/
  dueling : entries.Omits "dueling_q" ∧ v.dueling = true ∨
    entries.lookup "dueling_q" = some (.boolean v.dueling)
  /-- Two networks choose and value unless the document says that they do not. -/
  double : entries.Omits "double_q" ∧ v.double = true ∨
    entries.lookup "double_q" = some (.boolean v.double)
  /-- Great errors count linearly where the document says so. -/
  huber : entries.Omits "huber_loss" ∧ v.huber = false ∨
    entries.lookup "huber_loss" = some (.boolean v.huber)

/-- **The settings for learning a policy that a document describes**, each of them as it stands there, or
the default where it is omitted. -/
structure PolicySettings.DescribedBy (q : PolicySettings) (policy : UnknownFields) (entries : Entries) :
    Prop where
  /-- The clip ratio is 0.2 unless a schedule is given. -/
  clipRatio : ∃ given, (root entries).Gives "clip_ratio" (Schedule.decodeIn .positiveUnit) given ∧
    q.clipRatio = given.getD (.constant 0.2)
  /-- Advantages look ahead all the way unless a number is given. -/
  gaeLambda : entries.Omits "gae_lambda" ∧ q.gaeLambda = 1.0 ∨ ∃ w, entries.lookup "gae_lambda" = some w ∧
    w.float? = some q.gaeLambda ∧ 0.0 ≤ q.gaeLambda ∧ q.gaeLambda ≤ 1.0
  /-- The weight of the entropy, if there is one. -/
  entropyWeight :
    (root entries).Gives "weight_entropy" (Schedule.decodeIn .nonNegative) q.entropyWeight
  /-- The network that values states, if there is one. -/
  valueNetwork : (root entries).Gives "value_function_spec" Network.decode q.valueNetwork
  /-- The optimizer of that network, if there is one. -/
  valueOptimizer : (root entries).Gives "value_function_optimizer_spec"
    (Optimizer.reading policy).decode q.valueOptimizer
  /-- There is no optimizer without the network. -/
  together : q.valueOptimizer.isSome → q.valueNetwork.isSome
  /-- Advantages are brought to a common scale where the document says so. -/
  standardize : entries.Omits "standardize_advantages" ∧ q.standardize = false ∨
    entries.lookup "standardize_advantages" = some (.boolean q.standardize)
  /-- Whole episodes are sampled unless the document says that they are not. -/
  wholeEpisodes : entries.Omits "sample_episodes" ∧ q.wholeEpisodes = true ∨
    entries.lookup "sample_episodes" = some (.boolean q.wholeEpisodes)

/-- The settings of a type that a document describes. -/
def Variant.DescribedBy (policy : UnknownFields) (entries : Entries) : Variant → Prop
  | .dqn v | .apex v => v.DescribedBy policy entries
  | .ppo q => q.DescribedBy policy entries

theorem outcome_valueReading_eq_ok_iff {policy : UnknownFields} {entries : Entries} {v : ValueSettings} :
    (valueReading policy).outcome (root entries) = .ok v ↔ v.DescribedBy policy entries := by
  simp only [valueReading, Attempt.outcome_bind, Reading.outcome_fieldD, Reading.after_fieldD,
    Reading.outcome_field?, Reading.after_field?, Attempt.outcome_pure, except_bind_eq_ok_iff,
    Except.ok.injEq, Section.readD_ask, Section.read?_ask, Section.read?_eq_ok_iff_gives,
    Decoder.reads_interval.readD_eq_ok_iff, Decoder.reads_boolean.readD_eq_ok_iff, and_true]
  constructor
  · rintro ⟨steps, hsteps, exploration, hexploration, dueling, hdueling, double, hdouble, huber, hhuber,
      rfl⟩
    exact ⟨hsteps, hexploration, hdueling, hdouble, hhuber⟩
  · intro h
    exact ⟨_, h.steps, _, h.exploration, _, h.dueling, _, h.double, _, h.huber, rfl⟩

/-- A number from zero to one stands there, or the default holds. -/
theorem readD_unit_eq_ok_iff {s : Section} {key : String} {field : Option String} {default x : Float} :
    s.readD key (Decoder.numberIn .unit field) default = .ok x ↔
      s.entries.Omits key ∧ x = default ∨ ∃ w, s.entries.lookup key = some w ∧
        w.float? = some x ∧ 0.0 ≤ x ∧ x ≤ 1.0 := by
  have haccepts : Decoder.Accepts (Decoder.numberIn .unit field)
      fun x w => w.float? = some x ∧ 0.0 ≤ x ∧ x ≤ 1.0 :=
    ⟨fun _ _ _ => numberIn_unit_eq_ok_iff, nofun⟩
  exact haccepts.readD_eq_ok_iff

theorem outcome_policyReading_eq_ok_iff {policy : UnknownFields} {entries : Entries}
    {q : PolicySettings} :
    (policyReading policy).outcome (root entries) = .ok q ↔ q.DescribedBy policy entries := by
  simp only [policyReading, Attempt.outcome_bind, Reading.outcome_fieldD, Reading.after_fieldD,
    Reading.outcome_field?, Reading.after_field?, Attempt.outcome_pure, except_bind_eq_ok_iff,
    Reading.outcome_placeOf, Reading.after_placeOf, Reading.outcome_ensure, Reading.after_ensure,
    Except.ok.injEq, exists_eq_left', exists_and_right, exists_eq_ok_unit_iff, ite_eq_ok_iff,
    Section.readD_ask, Section.read?_ask, Section.read?_eq_ok_iff_gives, readD_unit_eq_ok_iff,
    Decoder.reads_boolean.readD_eq_ok_iff, and_true]
  constructor
  · rintro ⟨clipRatio, hclip, gaeLambda, hgae, weight, hweight, network, hnetwork, optimizer, hoptimizer,
      htogether, standardize, hstandardize, wholeEpisodes, hepisodes, rfl⟩
    obtain ⟨given, hgiven, hclip⟩ := Section.readD_eq_ok_iff.mp hclip
    exact ⟨⟨given, Section.read?_eq_ok_iff_gives.mp hgiven, hclip.symm⟩, hgae, hweight, hnetwork,
      hoptimizer, htogether, hstandardize, hepisodes⟩
  · intro h
    obtain ⟨given, hgiven, hclip⟩ := h.clipRatio
    have hread := Section.readD_eq_ok_iff.mpr ⟨given, Section.read?_eq_ok_iff_gives.mpr hgiven, hclip.symm⟩
    exact ⟨_, hread, _, h.gaeLambda, _, h.entropyWeight, _, h.valueNetwork, _, h.valueOptimizer,
      h.together, _, h.standardize, _, h.wholeEpisodes, rfl⟩

/-- The settings that are read are those that the document describes. -/
theorem settingsIn_eq_ok_iff {options : Options} {entries : Entries} {kind : Kind} {variant : Variant} :
    settingsIn options entries kind = .ok variant ↔
      variant.kind = kind ∧ variant.DescribedBy options.unknownFields entries := by
  cases kind <;> simp only [settingsIn, except_map_eq_ok_iff, outcome_valueReading_eq_ok_iff,
    outcome_policyReading_eq_ok_iff] <;> cases variant <;> simp [Variant.kind, Variant.DescribedBy]

/-- **The parts that an agent is composed of**, each of them as the document gives it. -/
structure Composed (options : Options) (entries : Entries) (a : Agent) : Prop where
  /-- The type, which the document names. -/
  kind : kindIn entries = .ok a.kind ∧
    ∃ name, entries.lookup "type" = some (.text name) ∧ a.variant.GoesBy name
  /-- The memory. -/
  memory : memoryIn options entries = .ok a.memory
  /-- The preprocessors. -/
  preprocessing : preprocessingIn entries = .ok a.preprocessing
  /-- The network. -/
  network : networkIn entries = .ok a.network
  /-- The optimizer. -/
  optimizer : optimizerIn options entries = .ok a.optimizer
  /-- Where and how training runs. -/
  execution : executionIn options entries = .ok a.execution
  /-- The cadence, and the warnings, which are all that the buffer leaves behind. -/
  cadence : ∃ buffer, bufferIn options entries = .ok buffer ∧
    cadenceIn options entries a.kind buffer = .ok a.cadence ∧
    a.warnings = concerns a.memory a.cadence buffer
  /-- The discount, which is 0.98 unless a number is given. -/
  discount : entries.Omits "discount" ∧ a.discount = 0.98 ∨ ∃ w, entries.lookup "discount" = some w ∧
    w.float? = some a.discount ∧ 0.0 ≤ a.discount ∧ a.discount ≤ 1.0
  /-- The settings of the type. -/
  variant : a.variant.DescribedBy options.unknownFields entries

theorem composed_of_decode {options : Options} {entries : Entries} {a : Agent}
    (h : decode options (.object entries) = .ok a) : Composed options entries a := by
  rw [decode_object] at h
  obtain ⟨kind, hkind, h⟩ := except_bind_eq_ok_iff.mp h
  obtain ⟨_, -, h⟩ := except_bind_eq_ok_iff.mp h
  obtain ⟨memory, hmemory, h⟩ := except_bind_eq_ok_iff.mp h
  obtain ⟨preprocessing, hpreprocessing, h⟩ := except_bind_eq_ok_iff.mp h
  obtain ⟨network, hnetwork, h⟩ := except_bind_eq_ok_iff.mp h
  obtain ⟨optimizer, hoptimizer, h⟩ := except_bind_eq_ok_iff.mp h
  obtain ⟨execution, hexecution, h⟩ := except_bind_eq_ok_iff.mp h
  obtain ⟨buffer, hbuffer, h⟩ := except_bind_eq_ok_iff.mp h
  obtain ⟨cadence, hcadence, h⟩ := except_bind_eq_ok_iff.mp h
  obtain ⟨discount, hdiscount, h⟩ := except_bind_eq_ok_iff.mp h
  obtain ⟨_, -, h⟩ := except_bind_eq_ok_iff.mp h
  obtain ⟨variant, hvariant, h⟩ := except_bind_eq_ok_iff.mp h
  obtain ⟨_, -, h⟩ := except_bind_eq_ok_iff.mp h
  obtain ⟨warnings, hwarnings, h⟩ := except_bind_eq_ok_iff.mp h
  cases h
  obtain ⟨rfl, hdescribed⟩ := settingsIn_eq_ok_iff.mp hvariant
  obtain ⟨v, hv, hnamed⟩ := Section.read_eq_ok_iff.mp hkind
  obtain ⟨name, rfl, hname⟩ := Kind.decode_eq_ok hnamed
  have htype : ∃ name, entries.lookup "type" = some (.text name) ∧ variant.GoesBy name :=
    ⟨name, Section.lookup_of_value? hv, Variant.goesBy_of_ofName? hname⟩
  have hconcerns : warnings = concerns memory cadence buffer := by
    unfold checked at hwarnings
    split at hwarnings <;> cases hwarnings
    rfl
  exact ⟨⟨hkind, htype⟩, hmemory, hpreprocessing, hnetwork, hoptimizer, hexecution,
    ⟨buffer, hbuffer, hcadence, hconcerns⟩, readD_unit_eq_ok_iff.mp hdiscount, hdescribed⟩

/-- **A document is decided by its conditions.** It is accepted when all of them hold, and the agent is
composed of its parts; otherwise the fault is that of the first condition that does not hold. -/
theorem decided_by_stages (options : Options) (entries : Entries) :
    ((∃ a, decode options (.object entries) = .ok a) ↔ ∀ stage, Stage.Holds options entries stage) ∧
    (∀ a, decode options (.object entries) = .ok a → Composed options entries a) ∧
    ∀ f, decode options (.object entries) = .error f ↔ ∃ before stage after,
      Stage.order = before ++ stage :: after ∧ (∀ s ∈ before, Stage.Holds options entries s) ∧
      ¬Stage.Holds options entries stage ∧ Stage.outcome options entries stage = .error f := by
  have hverdict := verdict_decode options entries
  refine ⟨?_, fun a => composed_of_decode, fun f => ?_⟩
  · rw [← verdict_eq_ok_iff, hverdict, forM_eq_ok_iff]
    simp only [Stage.mem_order, true_imp_iff, Stage.holds_iff]
  · rw [← verdict_eq_error_iff, hverdict, forM_eq_error_iff]
    simp only [← Stage.holds_iff]
    have hnot {stage : Stage} (hfault : stage.outcome options entries = .error f) :
        ¬stage.Holds options entries := by
      rw [Stage.holds_iff, hfault]
      exact nofun
    exact ⟨fun ⟨before, stage, after, hl, hbefore, h⟩ => ⟨before, stage, after, hl, hbefore, hnot h, h⟩,
      fun ⟨before, stage, after, hl, hbefore, _, h⟩ => ⟨before, stage, after, hl, hbefore, h⟩⟩

/-- An agent that learns a policy is accepted as the parts of its document make it up. With two fields
more that are wrong, it is refused for the one that belongs to another type. -/
theorem decided_by_stages_pong : ∃ entries, pong = .object entries ∧
    (∃ a, decode .standard pong = .ok a ∧ Composed .standard entries a) ∧
    (∀ stage, Stage.Holds .standard entries stage) ∧
    let wrong := ("n_step", .null) :: ("discount", .text "high") :: entries
    ¬Stage.Holds .standard wrong .foreign ∧ ¬Stage.Holds .standard wrong .discount ∧
      decode .standard (.object wrong) = .error ⟨Path.root.key "n_step", .foreign "ppo"⟩ := by
  obtain ⟨entries, hentries, ⟨a, ha⟩, hname, hforeign⟩ : ∃ entries, pong = .object entries ∧
      (∃ a, decode .standard (.object entries) = .ok a) ∧
      entries.lookup "type" = some (.text "ppo") ∧
      Stage.outcome .standard (("n_step", .null) :: ("discount", .text "high") :: entries) .foreign =
        .error ⟨Path.root.key "n_step", .foreign "ppo"⟩ :=
    ⟨_, rfl, ⟨_, rfl⟩, rfl, rfl⟩
  obtain ⟨hstages, hcomposed, -⟩ := decided_by_stages .standard entries
  refine ⟨entries, hentries, ⟨a, hentries ▸ ha, hcomposed a ha⟩, hstages.mp ⟨a, ha⟩, ?_⟩
  intro wrong
  have htype : Stage.Holds .standard wrong .type := ⟨"ppo", by decide, hname⟩
  have hnot : ¬Stage.Holds .standard wrong .foreign := by
    rw [Stage.holds_iff, hforeign]
    exact nofun
  refine ⟨hnot, fun hdiscount => ?_, ?_⟩
  · obtain ⟨x, hx, -⟩ := hdiscount (.text "high") rfl
    cases hx
  · refine ((decided_by_stages .standard wrong).2.2 _).mpr ⟨[.type], .foreign, _, rfl, ?_, hnot, hforeign⟩
    exact List.forall_mem_singleton.mpr htype

end Agent

end Regimen
