import Regimen.Proofs.Fields
import Regimen.Proofs.Stages

/-!
# The grammar of execution

Which objects say where and how training runs depends on the strategy that they name: GPUs have to be
described where training runs on several of them, and may be described in any way where it does not; a
map of devices has to be there for training that is spread by hand, and is a field too many otherwise.
`Execution.Grammar` says it of the entries alone, for a machine with so many GPUs, and
`Execution.DescribedBy` says which execution is meant. **Both agree with what is read**
(`Execution.decided_by_grammar`).

A request for GPUs that can be met is not always accepted: where missing GPUs may be stood in for, any
number can be asked for, and one beyond `Slot.maxNumber` panics.

As with cadences, `Execution.decode_object` takes the parts out of the order in which they are asked for.
-/

namespace Regimen

/-! ### Parts of a section -/

/-- Settings that are passed on are written as the object that holds them. -/
theorem Decoder.reads_rest : Reading.rest.decode.Reads .object fun _ => True where
  eq_ok_iff path v entries := by
    rw [and_true]
    constructor
    · exact Reading.decode_rest_eq_ok
    · rintro rfl
      exact congrArg Except.ok (List.filter_eq_self.mpr (by simp))
  ne_null := nofun

theorem Execution.accepts_seedDecode :
    Decoder.Accepts seedDecode fun seed v => ∃ n, seed = .fixed n ∧ v = .ofCount n ∧ n ≤ maxCount where
  eq_ok_iff path v seed := by
    unfold seedDecode
    simp only [except_bind_eq_ok_iff, Decoder.orDefect_eq_ok_iff, Value.count?_eq_some_iff]
    constructor
    · rintro ⟨n, hn, h⟩
      cases h
      exact ⟨n, rfl, hn⟩
    · rintro ⟨n, rfl, hn⟩
      exact ⟨n, hn, rfl⟩
  not_null := by
    rintro _ ⟨_, -, ⟨⟩, -⟩

/-! ### Descriptions of GPUs -/

namespace GpuRequest

/-- The fields of a description of GPUs. -/
def fields : List String := ["gpus_enabled", "max_usable_gpus", "fake_gpus_if_necessary"]

/-- **GPUs are described by an object**: so many of them are requested, and on a machine with so many
the request can be met. -/
structure Describes (available : Nat) (policy : UnknownFields) (entries : Entries) (number : Nat) :
    Prop where
  /-- They are enabled. -/
  enabled : entries.lookup "gpus_enabled" = some (.boolean true)
  /-- Their number is an integer from one. -/
  requested : entries.lookup "max_usable_gpus" = some (.ofCount number) ∧ 0 < number ∧ number ≤ maxCount
  /-- Whether missing ones may be stood in for is a truth value, if it is given. -/
  standIns : entries.Omits "fake_gpus_if_necessary" ∨
    ∃ b, entries.lookup "fake_gpus_if_necessary" = some (.boolean b)
  /-- Either none is missing, or missing ones may be stood in for. -/
  met : number ≤ available ∨ entries.lookup "fake_gpus_if_necessary" = some (.boolean true)
  /-- No other field is there, unless unknown fields are ignored. -/
  known : policy = .reject → ∀ key ∈ entries.keys, key ∈ fields

variable {available : Nat} {policy : UnknownFields} {path : Path} {entries : Entries}

theorem slots_eq_ok_iff {r : GpuRequest} {slots : List Slot} :
    r.slots path available = .ok slots ↔ r.enabled ∧ 0 < r.number ∧
      (r.number ≤ available ∨ r.standIns) ∧ r.number ≤ Slot.maxNumber ∧
      slots = Slot.allot r.number available := by
  have hcounts : Slot.maxNumber ≤ maxCount := by decide
  have hmet : (r.number ≤ available ∨ r.standIns = true) ↔
      ¬(available < r.number ∧ ¬r.standIns = true) := by
    rw [not_and_or, Nat.not_lt, Decidable.not_not]
  rw [GpuRequest.slots, hmet, Nat.pos_iff_ne_zero, @eq_comm _ slots]
  by_cases henabled : r.enabled = true
  · by_cases hzero : r.number = 0
    · simp [henabled, hzero]
    · by_cases hlong : Slot.maxNumber < r.number
      · simp only [henabled, hzero, hlong, not_true_eq_false, if_false, if_true, Nat.not_le.mpr hlong]
        split_ifs <;> simp
      · have hfits := Nat.le_of_not_lt hlong
        have hmany : ¬maxCount < r.number := Nat.not_lt.mpr (hfits.trans hcounts)
        by_cases hfew : available < r.number ∧ ¬r.standIns = true
        · simp [henabled, hzero, hmany, hfew]
        · simp only [henabled, hzero, hmany, hfew, hlong, hfits, not_true_eq_false, if_false,
            not_false_eq_true, true_and, Except.ok.injEq, ne_eq]
  · simp [henabled]

/-- A request that can be met is too long for a list. -/
theorem slots_eq_overflow {r : GpuRequest} (henabled : r.enabled) (hcount : r.number ≤ maxCount)
    (hmet : r.number ≤ available ∨ r.standIns) (hlong : Slot.maxNumber < r.number) :
    r.slots path available = .error ⟨path.key "max_usable_gpus", .overflow⟩ := by
  have hzero : r.number ≠ 0 := Nat.ne_of_gt (Nat.zero_lt_of_lt hlong)
  have hfew : ¬(available < r.number ∧ ¬r.standIns = true) := by
    rintro ⟨hlt, hnone⟩
    exact hmet.elim (Nat.not_le.mpr hlt) hnone
  rw [GpuRequest.slots, if_neg (not_not.mpr henabled), if_neg hzero, if_neg (Nat.not_lt.mpr hcount),
    if_neg hfew, if_pos hlong]

theorem outcome_reading_eq_ok_iff {r : GpuRequest} :
    (reading policy).outcome ⟨path, entries, []⟩ = .ok r ↔
      (entries.Omits "gpus_enabled" ∧ r.enabled = false ∨
        entries.lookup "gpus_enabled" = some (.boolean r.enabled)) ∧
      (entries.Omits "max_usable_gpus" ∧ r.number = 0 ∨
        entries.lookup "max_usable_gpus" = some (.ofCount r.number) ∧ r.number ≤ maxCount) ∧
      (entries.Omits "fake_gpus_if_necessary" ∧ r.standIns = false ∨
        entries.lookup "fake_gpus_if_necessary" = some (.boolean r.standIns)) ∧
      (policy = .reject → ∀ key ∈ entries.keys, key ∈ fields) := by
  have hknown : Section.closed ⟨path, entries, fields.reverse⟩ policy = .ok () ↔
      (policy = .reject → ∀ key ∈ entries.keys, key ∈ fields) := by
    simp only [Section.closed_eq_ok_iff, List.mem_reverse]
  simp only [reading, Attempt.outcome_bind, Reading.outcome_fieldD, Reading.after_fieldD,
    Reading.outcome_close, Attempt.outcome_pure, except_bind_eq_ok_iff, Section.readD_ask,
    Decoder.reads_boolean.readD_eq_ok_iff, Decoder.reads_count.readD_eq_ok_iff, and_true]
  constructor
  · rintro ⟨enabled, henabled, number, hnumber, standIns, hstandIns, _, hclosed, h⟩
    cases h
    exact ⟨henabled, hnumber, hstandIns, hknown.mp hclosed⟩
  · rintro ⟨henabled, hnumber, hstandIns, hclosed⟩
    exact ⟨r.enabled, henabled, r.number, hnumber, r.standIns, hstandIns, (), hknown.mpr hclosed, rfl⟩

/-- GPUs that are described are a request that can be met. -/
theorem Describes.exists_request {number : Nat} (h : Describes available policy entries number)
    (path : Path) : ∃ standIns, (reading policy).decode path (.object entries) =
        .ok ⟨true, number, standIns⟩ ∧ (number ≤ available ∨ standIns) := by
  obtain ⟨standIns, hstandIns⟩ := (exists_given_iff false).mpr h.standIns
  refine ⟨standIns, outcome_reading_eq_ok_iff.mpr ⟨.inr h.enabled,
    .inr ⟨h.requested.1, h.requested.2.2⟩, hstandIns, h.known⟩, h.met.imp_right fun hl => ?_⟩
  rcases hstandIns with ⟨hnone | hnull, -⟩ | hl'
  · exact absurd (hl.symm.trans hnone) nofun
  · exact absurd (hl.symm.trans hnull) nofun
  · exact (Value.boolean.inj (Option.some.inj (hl.symm.trans hl'))).symm

/-- A number of GPUs that is requested, can be met and is too long for a list panics. -/
theorem Describes.decode_eq_overflow {number : Nat} (h : Describes available policy entries number)
    (hlong : Slot.maxNumber < number) : decode available policy path (.object entries) =
      .error ⟨path.key "max_usable_gpus", .overflow⟩ := by
  obtain ⟨standIns, hrequest, hmet⟩ := h.exists_request path
  rw [decode, hrequest]
  exact slots_eq_overflow (r := ⟨true, number, standIns⟩) rfl h.requested.2.2 hmet hlong

theorem accepts_decode (available : Nat) (policy : UnknownFields) :
    Decoder.Accepts (decode available policy) fun slots => Value.ObjectWith fun entries =>
      ∃ number, Describes available policy entries number ∧ number ≤ Slot.maxNumber ∧
        slots = Slot.allot number available where
  eq_ok_iff path v slots := by
    have hreading := (Decoder.Accepts.section (r := reading policy)
      fun _ _ _ => outcome_reading_eq_ok_iff).eq_ok_iff path v
    simp only [decode, except_bind_eq_ok_iff, slots_eq_ok_iff]
    constructor
    · rintro ⟨r, hread, hr, hpos, hmet, hfits, rfl⟩
      obtain ⟨entries, rfl, henabled, hnumber, hstandIns, hknown⟩ := (hreading r).mp hread
      refine ⟨entries, rfl, r.number, ⟨?_, ?_, ?_, ?_, hknown⟩, hfits, rfl⟩
      · rcases henabled with ⟨-, hfalse⟩ | hl
        · exact absurd (hr.symm.trans hfalse) (by decide)
        · rw [hl, hr]
      · rcases hnumber with ⟨-, hzero⟩ | ⟨hl, hle⟩
        · omega
        · exact ⟨hl, hpos, hle⟩
      · exact (exists_given_iff false).mp ⟨r.standIns, hstandIns⟩
      · refine hmet.imp_right fun htrue => ?_
        rcases hstandIns with ⟨-, hfalse⟩ | hl
        · exact absurd (htrue.symm.trans hfalse) (by decide)
        · rw [hl, htrue]
    · rintro ⟨entries, rfl, number, h, hfits, rfl⟩
      obtain ⟨standIns, hrequest, hmet⟩ := h.exists_request path
      exact ⟨⟨true, number, standIns⟩, hrequest, rfl, h.requested.2.1, hmet, hfits, rfl⟩
  not_null := nofun

end GpuRequest

/-! ### Strategies -/

namespace Strategy

/-- What devices under scopes are written as. -/
def writtenDevices (devices : List (String × String)) : Entries := devices.map fun d => (d.1, .text d.2)

theorem devicesOf_cons (path : Path) (scope : String) (v : Value) (entries : Entries) :
    devicesOf path ((scope, v) :: entries) = do
      let name ← device (path.key scope) v
      let others ← devicesOf path entries
      return (scope, name) :: others := by
  simp only [devicesOf, List.mapM_cons, bind_assoc, pure_bind]

/-- All of the devices are read, in their order, and none of them gets another scope. -/
theorem devicesOf_eq_ok_iff {path : Path} {entries : Entries} {devices : List (String × String)} :
    devicesOf path entries = .ok devices ↔ entries = writtenDevices devices := by
  induction entries generalizing devices with
  | nil => cases devices <;> simp [devicesOf, writtenDevices, pure, Except.pure]
  | cons e entries ih =>
    obtain ⟨scope, v⟩ := e
    rw [devicesOf_cons]
    simp only [except_bind_eq_ok_iff, ih, device, Decoder.orDefect_eq_ok_iff, Value.text?_eq_some_iff]
    constructor
    · rintro ⟨name, rfl, others, rfl, h⟩
      cases h
      rfl
    · intro h
      cases devices with
      | nil => cases h
      | cons d others =>
        cases h
        exact ⟨d.2, rfl, others, rfl, rfl⟩

/-- A map of devices is written as an object, with the devices as texts. -/
theorem reads_deviceMap : deviceMap.Reads (fun devices => .object (writtenDevices devices)) (· ≠ []) where
  eq_ok_iff path v devices := by
    unfold deviceMap
    simp only [except_bind_eq_ok_iff, Decoder.reads_rest.eq_ok_iff, and_true, devicesOf_eq_ok_iff]
    constructor
    · rintro ⟨_, rfl, named, rfl, h⟩
      split at h
      · cases h
      · cases h
        exact ⟨rfl, ‹_›⟩
    · rintro ⟨rfl, hne⟩
      exact ⟨_, rfl, devices, rfl, by rw [if_neg hne]; rfl⟩
  ne_null := nofun

/-- The strategy with a name, as a section gives it. -/
def named (available : Nat) (policy : UnknownFields) (s : Section) : String → Except Fault Strategy
  | "single" | "default" => .ok .single
  | "multi_gpu_sync" => do
    match ← s.read? "gpu_spec" (GpuRequest.decode available policy) with
    | some slots => .ok (.multiGpu slots)
    | none => .error ⟨s.path.key "gpu_spec", .devices .undescribed⟩
  | "custom" => return .custom (← s.read "device_map" deviceMap)
  | name => .error (.invalid (s.path.key "device_strategy") (.unsupportedStrategy name))

/-- The strategy that a section gives, by its name. -/
def read (available : Nat) (policy : UnknownFields) (s : Section) : Except Fault Strategy := do
  named available policy s (← s.readD "device_strategy" Decoder.text "single")

variable {available : Nat} {policy : UnknownFields} {s : Section}

theorem read?_raw (s : Section) (key : String) : s.read? key Decoder.raw = .ok (s.value? key) := by
  unfold Section.read?
  cases s.value? key <;> rfl

theorem outcome_reading : (reading available policy).outcome s = read available policy s := by
  rw [reading, Attempt.outcome_bind, Reading.outcome_fieldD, Reading.after_fieldD]
  refine except_bind_congr fun name _ => ?_
  split
  · rw [Attempt.outcome_bind, Reading.outcome_field?, read?_raw]
    rfl
  · rw [Attempt.outcome_bind, Reading.outcome_field?, read?_raw]
    rfl
  · rw [Attempt.outcome_bind, Reading.outcome_field?, Reading.after_field?]
    refine except_bind_congr fun slots _ => ?_
    cases slots <;> rfl
  · rw [Attempt.outcome_bind, Reading.outcome_field?, Reading.after_field?, read?_raw]
    exact (Attempt.outcome_bind ..).trans (by rw [Reading.outcome_field]; rfl)
  · rw [named]
    · rfl
    all_goals assumption

/-- **A strategy is described by an object**, for a machine with so many GPUs. -/
inductive DescribedBy (available : Nat) (policy : UnknownFields) (entries : Entries) :
    Strategy → Prop where
  /-- It runs on one device unless something else is asked for. -/
  | single : entries.Omits "device_strategy" ∨
        entries.lookup "device_strategy" = some (.text "single") ∨
        entries.lookup "device_strategy" = some (.text "default") →
      DescribedBy available policy entries .single
  /-- It runs on the GPUs that are described. -/
  | multiGpu {gpus : Entries} {number : Nat} :
      entries.lookup "device_strategy" = some (.text "multi_gpu_sync") →
      entries.lookup "gpu_spec" = some (.object gpus) →
      GpuRequest.Describes available policy gpus number → number ≤ Slot.maxNumber →
      DescribedBy available policy entries (.multiGpu (Slot.allot number available))
  /-- It is spread over the devices of the map. -/
  | custom {devices : List (String × String)} :
      entries.lookup "device_strategy" = some (.text "custom") →
      entries.lookup "device_map" = some (.object (writtenDevices devices)) → devices ≠ [] →
      DescribedBy available policy entries (.custom devices)

theorem read_eq_ok_iff {strategy : Strategy} :
    read available policy s = .ok strategy ↔ strategy.DescribedBy available policy s.entries := by
  have hgpus (slots : List Slot) :
      s.read "gpu_spec" (GpuRequest.decode available policy) = .ok slots ↔ _ :=
    (GpuRequest.accepts_decode available policy).read_eq_ok_iff
  have hdevices (devices : List (String × String)) : s.read "device_map" deviceMap = .ok devices ↔ _ :=
    reads_deviceMap.read_eq_ok_iff
  unfold read
  simp only [except_bind_eq_ok_iff, Decoder.reads_text.readD_eq_ok_iff, and_true]
  constructor
  · rintro ⟨name, hname, h⟩
    have hgiven (hne : name ≠ "single") : s.entries.lookup "device_strategy" = some (.text name) :=
      hname.resolve_left fun hdefault => hne hdefault.2
    unfold named at h
    split at h
    · cases h
      exact .single (hname.imp And.left .inl)
    · cases h
      exact .single (.inr (.inr (hgiven (by decide))))
    · obtain ⟨o, ho, h⟩ := except_bind_eq_ok_iff.mp h
      cases o with
      | none => cases h
      | some slots =>
        cases h
        obtain ⟨_, hl, gpus, rfl, number, hnumber, hfits, rfl⟩ :=
          (hgpus _).mp (Section.read?_eq_ok_some_iff.mp ho)
        exact .multiGpu (hgiven (by decide)) hl hnumber hfits
    · obtain ⟨devices, hread, h⟩ := except_bind_eq_ok_iff.mp h
      cases h
      obtain ⟨hl, hne⟩ := (hdevices _).mp hread
      exact .custom (hgiven (by decide)) hl hne
    · cases h
  · intro h
    cases h with
    | single h =>
      rcases h with h | h | h
      · exact ⟨"single", .inl ⟨h, rfl⟩, rfl⟩
      · exact ⟨"single", .inr h, rfl⟩
      · exact ⟨"default", .inr h, rfl⟩
    | @multiGpu gpus number hname hl h hfits =>
      have hread := (hgpus _).mpr ⟨_, hl, gpus, rfl, number, h, hfits, rfl⟩
      exact ⟨_, .inr hname, except_bind_eq_ok_iff.mpr ⟨_, Section.read?_eq_ok_some_iff.mpr hread, rfl⟩⟩
    | custom hname hl hne =>
      exact ⟨_, .inr hname, except_bind_eq_ok_iff.mpr ⟨_, (hdevices _).mpr ⟨hl, hne⟩, rfl⟩⟩

/-- A number of GPUs that can be met and is too long for a list panics, before anything that comes after
the strategy is read. -/
theorem read_eq_overflow {gpus : Entries} {number : Nat}
    (hname : s.entries.lookup "device_strategy" = some (.text "multi_gpu_sync"))
    (hgpus : s.entries.lookup "gpu_spec" = some (.object gpus))
    (h : GpuRequest.Describes available policy gpus number) (hlong : Slot.maxNumber < number) :
    read available policy s =
      .error ⟨(s.path.key "gpu_spec").key "max_usable_gpus", .overflow⟩ := by
  have hstrategy : s.readD "device_strategy" Decoder.text "single" = .ok "multi_gpu_sync" :=
    Decoder.reads_text.readD_eq_ok_iff.mpr (.inr ⟨hname, trivial⟩)
  have hread : s.read? "gpu_spec" (GpuRequest.decode available policy) =
      .error ⟨(s.path.key "gpu_spec").key "max_usable_gpus", .overflow⟩ := by
    have hvalue : s.value? "gpu_spec" = some (.object gpus) := by
      rw [Section.value?, hgpus]
      rfl
    rw [Section.read?, hvalue]
    exact congrArg (Except.map some) (h.decode_eq_overflow hlong)
  rw [read, hstrategy]
  show named available policy s "multi_gpu_sync" = _
  rw [named, hread]
  rfl

/-- What the fields of its own have to be for a strategy, on a machine with so many GPUs. -/
inductive Grammar (available : Nat) (policy : UnknownFields) (entries : Entries) : Prop where
  /-- The strategy is not named, or it is that on one device. What stands where GPUs are described does
  not matter then. -/
  | single : entries.Omits "device_strategy" ∨ entries.lookup "device_strategy" = some (.text "single") ∨
      entries.lookup "device_strategy" = some (.text "default") → Grammar available policy entries
  /-- It is that on several GPUs, and these are described, no more of them than a list has room for. -/
  | multiGpu {gpus : Entries} {number : Nat} :
      entries.lookup "device_strategy" = some (.text "multi_gpu_sync") →
      entries.lookup "gpu_spec" = some (.object gpus) →
      GpuRequest.Describes available policy gpus number → number ≤ Slot.maxNumber →
      Grammar available policy entries
  /-- It is that by hand, and there is a map with at least one entry, all of whose entries are texts. -/
  | custom {devices : Entries} : entries.lookup "device_strategy" = some (.text "custom") →
      entries.lookup "device_map" = some (.object devices) → devices ≠ [] →
      (∀ e ∈ devices, ∃ name, e.2 = .text name) → Grammar available policy entries

/-- Entries that are texts are devices, as they are written. -/
theorem exists_writtenDevices_iff {entries : Entries} :
    (∃ devices, entries = writtenDevices devices) ↔ ∀ e ∈ entries, ∃ name, e.2 = .text name := by
  constructor
  · rintro ⟨devices, rfl⟩ e he
    obtain ⟨d, -, rfl⟩ := List.mem_map.mp he
    exact ⟨d.2, rfl⟩
  · intro h
    induction entries with
    | nil => exact ⟨[], rfl⟩
    | cons e entries ih =>
      obtain ⟨⟨name, hname⟩, hrest⟩ := List.forall_mem_cons.mp h
      obtain ⟨devices, rfl⟩ := ih hrest
      obtain ⟨scope, v⟩ := e
      obtain rfl : v = .text name := hname
      exact ⟨(scope, name) :: devices, rfl⟩

/-- The grammar is what some strategy is described by. -/
theorem exists_describedBy_iff {entries : Entries} :
    (∃ strategy : Strategy, strategy.DescribedBy available policy entries) ↔
      Grammar available policy entries := by
  constructor
  · rintro ⟨strategy, h⟩
    cases h with
    | single h => exact .single h
    | multiGpu hname hl h hfits => exact .multiGpu hname hl h hfits
    | @custom devices hname hl hne =>
      have htexts := exists_writtenDevices_iff.mp ⟨devices, rfl⟩
      exact .custom hname hl (fun hnil => hne (List.map_eq_nil_iff.mp hnil)) htexts
  · intro h
    cases h with
    | single h => exact ⟨_, .single h⟩
    | multiGpu hname hl h hfits => exact ⟨_, .multiGpu hname hl h hfits⟩
    | custom hname hl hne h =>
      obtain ⟨devices, rfl⟩ := exists_writtenDevices_iff.mpr h
      exact ⟨_, .custom hname hl fun hnil => hne (List.map_eq_nil_iff.mpr hnil)⟩

/-- After a strategy was read, everything was asked for that is read of a section for it, but for the
seed, which comes before, and for what comes after. -/
theorem after_reading {strategy : Strategy} (h : (reading available policy).outcome s = .ok strategy) :
    ∃ asked, (reading available policy).after s = ⟨s.path, s.entries, asked ++ s.asked⟩ ∧
      (Execution.keys s.entries).Perm (asked ++
        ["seed", "default_device", "session_config", "disable_monitoring", "enable_profiler"]) := by
  rw [reading, Attempt.outcome_bind] at h
  obtain ⟨name, hname, h⟩ := except_bind_eq_ok_iff.mp h
  rw [reading, Attempt.after_bind_of_ok hname]
  rw [Reading.outcome_fieldD] at hname
  rw [Reading.after_fieldD] at h ⊢
  have hstrategy := Execution.strategyName?_of_readD hname
  have hraw : (Reading.field? "gpu_spec" Decoder.raw).outcome (s.ask "device_strategy") =
      .ok ((s.ask "device_strategy").value? "gpu_spec") := by
    rw [Reading.outcome_field?, read?_raw]
  rw [Execution.keys, hstrategy]
  split at h
  · refine ⟨["gpu_spec", "device_strategy"], ?_, by decide⟩
    exact (Attempt.after_bind_of_ok hraw).trans (by rw [Reading.after_field?]; rfl)
  · refine ⟨["gpu_spec", "device_strategy"], ?_, by decide⟩
    exact (Attempt.after_bind_of_ok hraw).trans (by rw [Reading.after_field?]; rfl)
  · rw [Attempt.outcome_bind] at h
    obtain ⟨o, ho, h⟩ := except_bind_eq_ok_iff.mp h
    refine ⟨["gpu_spec", "device_strategy"], ?_, by decide⟩
    refine (Attempt.after_bind_of_ok ho).trans ?_
    rw [Reading.after_field?]
    cases o with
    | none => cases h
    | some slots => rfl
  · rw [Attempt.outcome_bind, hraw] at h
    obtain ⟨devices, hdevices, -⟩ := except_bind_eq_ok_iff.mp ((Attempt.outcome_bind ..).symm.trans h)
    refine ⟨["device_map", "gpu_spec", "device_strategy"], ?_, by decide⟩
    refine (Attempt.after_bind_of_ok hraw).trans ((Attempt.after_bind_of_ok hdevices).trans ?_)
    rw [Reading.after_field?, Reading.after_field]
    rfl
  · cases h

end Strategy

namespace Execution

/-- The execution that an object describes, in terms of what the parts mean by themselves. -/
theorem decode_object (available : Nat) (policy : UnknownFields) (path : Path) (entries : Entries) :
    (reading available policy).decode path (.object entries) = (do
      let s : Section := ⟨path, entries, []⟩
      let seed ← s.readD "seed" seedDecode .unseeded
      let strategy ← Strategy.read available policy s
      let defaultDevice ← s.read? "default_device" Decoder.text
      let session ← s.readD "session_config" Reading.rest.decode []
      let unmonitored ← s.readD "disable_monitoring" Decoder.boolean false
      let profiled ← s.readD "enable_profiler" Decoder.boolean false
      Section.closed ⟨path, entries, keys entries⟩ policy
      return { seed, strategy, defaultDevice, session, unmonitored, profiled }) := by
  have hdecode : (reading available policy).decode path (.object entries) =
      (reading available policy).outcome ⟨path, entries, []⟩ := rfl
  rw [hdecode, reading, Attempt.outcome_bind, Reading.outcome_fieldD, Reading.after_fieldD]
  refine except_bind_congr fun seed _ => ?_
  rw [Attempt.outcome_bind, Strategy.outcome_reading]
  refine except_bind_congr fun strategy hstrategy => ?_
  rw [← Strategy.outcome_reading] at hstrategy
  obtain ⟨asked, hafter, hperm⟩ := Strategy.after_reading hstrategy
  have hperm : (keys entries).Perm _ := hperm
  rw [hafter]
  simp only [Attempt.outcome_bind, Reading.outcome_field?, Reading.after_field?,
      Reading.outcome_fieldD, Reading.after_fieldD, Reading.outcome_close, Reading.after_close,
      Attempt.outcome_pure, Section.readD_ask]
  refine except_bind_congr fun defaultDevice _ => except_bind_congr fun session _ => ?_
  refine except_bind_congr fun unmonitored _ => except_bind_congr fun profiled _ => ?_
  refine congrArg (· >>= _) (Section.closed_congr policy rfl rfl fun key => ?_)
  simp only [Section.ask, hperm.mem_iff, List.mem_cons, List.mem_append, List.not_mem_nil, or_false]
  tauto

/-- The fields that are read of every section about execution. -/
def fields : List String :=
  ["seed", "device_strategy", "gpu_spec", "default_device", "session_config", "disable_monitoring",
    "enable_profiler"]

/-- The key may stand there: that of a map of devices only where training is spread by hand. -/
def Allows (entries : Entries) (key : String) : Prop :=
  key ∈ fields ∨ key = "device_map" ∧ entries.lookup "device_strategy" = some (.text "custom")

/-- **An execution is described by an object**, for a machine with so many GPUs: each of its parts is
what stands there, or the default where nothing does, and nothing else stands there that may not. -/
structure DescribedBy (e : Execution) (available : Nat) (policy : UnknownFields) (entries : Entries) :
    Prop where
  /-- The seed: there is none unless given. -/
  seed : entries.Omits "seed" ∧ e.seed = .unseeded ∨
    ∃ n, e.seed = .fixed n ∧ entries.lookup "seed" = some (.ofCount n) ∧ n ≤ maxCount
  /-- The strategy, with the devices of the map as they are written. -/
  strategy : e.strategy.DescribedBy available policy entries
  /-- The device of whatever is not spread, which may be omitted. -/
  defaultDevice : entries.Holds "default_device" (e.defaultDevice.map .text)
  /-- The settings that are passed on, as they are written: none unless given. -/
  session : entries.Omits "session_config" ∧ e.session = [] ∨
    entries.lookup "session_config" = some (.object e.session)
  /-- Whether nothing is monitored: it is unless given. -/
  unmonitored : entries.Omits "disable_monitoring" ∧ e.unmonitored = false ∨
    entries.lookup "disable_monitoring" = some (.boolean e.unmonitored)
  /-- Whether time is accounted for: it is not unless given. -/
  profiled : entries.Omits "enable_profiler" ∧ e.profiled = false ∨
    entries.lookup "enable_profiler" = some (.boolean e.profiled)
  /-- No field is there that is not read, unless unknown fields are ignored. -/
  known : policy = .reject → ∀ key ∈ entries.keys, Allows entries key

/-- **The grammar of execution**: what an object has to be like to describe one, for a machine with so
many GPUs. -/
structure Grammar (available : Nat) (policy : UnknownFields) (entries : Entries) : Prop where
  /-- The seed is an integer from zero, if it is given. -/
  seed : entries.Omits "seed" ∨ ∃ n, entries.lookup "seed" = some (.ofCount n) ∧ n ≤ maxCount
  /-- The strategy has one of its names, if it is given, and what it takes is there. -/
  strategy : Strategy.Grammar available policy entries
  /-- The device of whatever is not spread is a text, if it is given. -/
  defaultDevice : entries.Omits "default_device" ∨
    ∃ name, entries.lookup "default_device" = some (.text name)
  /-- The settings that are passed on are an object, if they are given. -/
  session : entries.Omits "session_config" ∨
    ∃ settings, entries.lookup "session_config" = some (.object settings)
  /-- Whether anything is monitored is a truth value, if it is given. -/
  unmonitored : entries.Omits "disable_monitoring" ∨
    ∃ b, entries.lookup "disable_monitoring" = some (.boolean b)
  /-- Whether time is accounted for is a truth value, if it is given. -/
  profiled : entries.Omits "enable_profiler" ∨ ∃ b, entries.lookup "enable_profiler" = some (.boolean b)
  /-- No other field is there, unless unknown fields are ignored. -/
  known : policy = .reject → ∀ key ∈ entries.keys, Allows entries key

section

variable {available : Nat} {policy : UnknownFields} {path : Path} {entries : Entries} {e : Execution}

/-- The name of the strategy is the one that is given, or that on one device. -/
theorem strategyName?_eq_some_iff {name : String} : strategyName? entries = some name ↔
    entries.Omits "device_strategy" ∧ name = "single" ∨
      entries.lookup "device_strategy" = some (.text name) := by
  unfold strategyName? Entries.Omits
  cases hl : entries.lookup "device_strategy" with
  | none => simp [@eq_comm _ name]
  | some v =>
    cases v with
    | null => simp [@eq_comm _ name]
    | _ => simp [Value.text?]

/-- Which keys are read is what may stand there, if the strategy is known. -/
theorem mem_keys_iff (h : Strategy.Grammar available policy entries) {key : String} :
    key ∈ keys entries ↔ Allows entries key := by
  unfold Allows
  cases h with
  | single h =>
    have hcustom : entries.lookup "device_strategy" ≠ some (.text "custom") := by
      rcases h with (h | h) | h | h <;> simp [h]
    have hname : strategyName? entries = some "single" ∨ strategyName? entries = some "default" := by
      simp only [strategyName?_eq_some_iff]
      tauto
    rcases hname with hname | hname <;> simp [keys, fields, hname, hcustom]
  | multiGpu h =>
    simp [keys, fields, strategyName?_eq_some_iff.mpr (.inr h), h]
  | custom h =>
    simp [keys, fields, strategyName?_eq_some_iff.mpr (.inr h), h]
    tauto

theorem decode_eq_ok_iff : (reading available policy).decode path (.object entries) = .ok e ↔
    e.DescribedBy available policy entries := by
  have hclosed (h : Strategy.Grammar available policy entries) :
      Section.closed ⟨path, entries, keys entries⟩ policy = .ok () ↔
        (policy = .reject → ∀ key ∈ entries.keys, Allows entries key) := by
    simp only [Section.closed_eq_ok_iff, mem_keys_iff h]
  rw [decode_object]
  simp only [except_bind_eq_ok_iff, accepts_seedDecode.readD_eq_ok_iff, Strategy.read_eq_ok_iff,
    Decoder.reads_text.read?_eq_ok_iff, Decoder.reads_rest.readD_eq_ok_iff,
    Decoder.reads_boolean.readD_eq_ok_iff, and_true, implies_true]
  constructor
  · rintro ⟨seed, hseed, strategy, hstrategy, defaultDevice, hdefault, session, hsession, unmonitored,
      hunmonitored, profiled, hprofiled, _, hknown, he⟩
    cases he
    have hgrammar := Strategy.exists_describedBy_iff.mp ⟨strategy, hstrategy⟩
    refine ⟨?_, hstrategy, hdefault, hsession, hunmonitored, hprofiled, (hclosed hgrammar).mp hknown⟩
    refine hseed.imp_right ?_
    rintro ⟨_, hl, n, rfl, rfl, hn⟩
    exact ⟨n, rfl, hl, hn⟩
  · intro h
    have hgrammar := Strategy.exists_describedBy_iff.mp ⟨e.strategy, h.strategy⟩
    refine ⟨e.seed, ?_, e.strategy, h.strategy, e.defaultDevice, h.defaultDevice, e.session, h.session,
      e.unmonitored, h.unmonitored, e.profiled, h.profiled, (), (hclosed hgrammar).mpr h.known, rfl⟩
    refine h.seed.imp_right ?_
    rintro ⟨n, hn, hl, hle⟩
    exact ⟨_, hl, n, hn, rfl, hle⟩

/-- The grammar is what some execution is described by. -/
theorem exists_describedBy_iff : (∃ e : Execution, e.DescribedBy available policy entries) ↔
    Grammar available policy entries := by
  constructor
  · rintro ⟨e, h⟩
    refine ⟨?_, Strategy.exists_describedBy_iff.mp ⟨e.strategy, h.strategy⟩, ?_, ?_, ?_, ?_, h.known⟩
    · exact h.seed.imp And.left fun ⟨n, _, hn⟩ => ⟨n, hn⟩
    · exact exists_holds_iff.mp ⟨e.defaultDevice, h.defaultDevice⟩
    · exact h.session.imp And.left fun hl => ⟨e.session, hl⟩
    · exact (exists_given_iff _).mp ⟨e.unmonitored, h.unmonitored⟩
    · exact (exists_given_iff _).mp ⟨e.profiled, h.profiled⟩
  · intro h
    obtain ⟨seed, hseed⟩ : ∃ seed : Seed, entries.Omits "seed" ∧ seed = .unseeded ∨
        ∃ n, seed = .fixed n ∧ entries.lookup "seed" = some (.ofCount n) ∧ n ≤ maxCount :=
      (exists_given_iff _).mpr (h.seed.imp_right fun ⟨n, hn⟩ => ⟨.fixed n, n, rfl, hn⟩)
    obtain ⟨strategy, hstrategy⟩ := Strategy.exists_describedBy_iff.mpr h.strategy
    obtain ⟨defaultDevice, hdefault⟩ := exists_holds_iff.mpr h.defaultDevice
    obtain ⟨session, hsession⟩ := (exists_given_iff []).mpr h.session
    obtain ⟨unmonitored, hunmonitored⟩ := (exists_given_iff false).mpr h.unmonitored
    obtain ⟨profiled, hprofiled⟩ := (exists_given_iff false).mpr h.profiled
    exact ⟨⟨seed, strategy, defaultDevice, session, unmonitored, profiled⟩, hseed, hstrategy, hdefault,
      hsession, hunmonitored, hprofiled, h.known⟩

end

/-- **The grammar decides, and what is passed on is what is written.** An object is accepted exactly where
it keeps to the grammar, on a machine with so many GPUs; and the execution is the one that it describes,
where devices and settings stand as they are written, in the order of the document. A number of GPUs that
can be met is accepted up to `Slot.maxNumber`, and panics beyond. -/
theorem decided_by_grammar (available : Nat) (policy : UnknownFields) (path : Path)
    (entries : Entries) :
    ((∃ e, (reading available policy).decode path (.object entries) = .ok e) ↔
      Grammar available policy entries) ∧
    (∀ e, (reading available policy).decode path (.object entries) = .ok e ↔
      e.DescribedBy available policy entries) ∧
    ∀ gpus number, entries.lookup "device_strategy" = some (.text "multi_gpu_sync") →
      entries.lookup "gpu_spec" = some (.object gpus) →
      GpuRequest.Describes available policy gpus number → Slot.maxNumber < number →
      (entries.Omits "seed" ∨ ∃ n, entries.lookup "seed" = some (.ofCount n) ∧ n ≤ maxCount) →
      (reading available policy).decode path (.object entries) =
        .error ⟨(path.key "gpu_spec").key "max_usable_gpus", .overflow⟩ := by
  refine ⟨?_, fun e => decode_eq_ok_iff, fun gpus number hname hgpus h hlong hseed => ?_⟩
  · simp only [decode_eq_ok_iff, exists_describedBy_iff]
  · -- Only the seed is read before the strategy.
    obtain ⟨seed, hread⟩ : ∃ seed, Section.readD ⟨path, entries, []⟩ "seed" seedDecode .unseeded =
        .ok seed := by
      simp only [accepts_seedDecode.readD_eq_ok_iff]
      exact (exists_given_iff _).mpr (hseed.imp_right fun ⟨n, hl, hn⟩ => ⟨.fixed n, _, hl, n, rfl, rfl, hn⟩)
    rw [decode_object]
    dsimp only
    rw [hread, Strategy.read_eq_overflow hname hgpus h hlong]
    rfl

/-- As many GPUs are requested as can be counted, and all of them may be stood in for. -/
def crowdedGpus : Entries := [("gpus_enabled", .boolean true), ("max_usable_gpus", .ofCount maxCount),
  ("fake_gpus_if_necessary", .boolean true)]

/-- Nothing but those GPUs is described. -/
def crowded : Entries :=
  [("device_strategy", .text "multi_gpu_sync"), ("gpu_spec", .object crowdedGpus)]

theorem describes_crowdedGpus : GpuRequest.Describes 0 .reject crowdedGpus maxCount where
  enabled := rfl
  requested := ⟨rfl, by decide, Nat.le_refl _⟩
  standIns := .inr ⟨true, rfl⟩
  met := .inr rfl
  known _ := by decide

theorem decided_by_grammar_crowded : (reading 0 .reject).decode .root (.object crowded) =
    .error ⟨(Path.root.key "gpu_spec").key "max_usable_gpus", .overflow⟩ :=
  (decided_by_grammar 0 .reject .root crowded).2.2 crowdedGpus maxCount rfl rfl describes_crowdedGpus
    (by decide) (.inl (.inl rfl))

/-- The request can be met and nothing else is wrong with the section, but it is not accepted. -/
theorem not_accepted_crowded :
    (crowded.lookup "device_strategy" = some (.text "multi_gpu_sync") ∧
      crowded.lookup "gpu_spec" = some (.object crowdedGpus) ∧
      GpuRequest.Describes 0 .reject crowdedGpus maxCount ∧
      (∀ key ∈ ["seed", "default_device", "session_config", "disable_monitoring", "enable_profiler"],
        Entries.Omits crowded key) ∧
      ∀ key ∈ Entries.keys crowded, Allows crowded key) ∧
    ¬∃ e, (reading 0 .reject).decode .root (.object crowded) = .ok e := by
  refine ⟨⟨rfl, rfl, describes_crowdedGpus, ?_, ?_⟩, ?_⟩
  · simp [Entries.Omits, crowded]
  · simp [Allows, fields, crowded, Entries.keys]
  · have hoverflow : (reading 0 .reject).decode .root (.object crowded) =
        .error ⟨(Path.root.key "gpu_spec").key "max_usable_gpus", .overflow⟩ := rfl
    rw [hoverflow]
    rintro ⟨e, he⟩
    cases he

end Execution

end Regimen
