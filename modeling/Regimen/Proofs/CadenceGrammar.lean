import Regimen.Proofs.Fields
import Regimen.Proofs.Stages

/-!
# The grammar of cadences

Which objects describe a cadence can be said without reading them field by field. `Cadence.Grammar` is a
condition on the entries alone: which keys have to be there, which may be there and with what, and which
may not, not even with null. Whether a key belongs to the second or to the third sort depends on the
family. `Cadence.DescribedBy` says which cadence it is, and `Cadence.Fits` which cadences there are.
**The three agree with what is read** (`Cadence.decode_iff_grammar`).

An object is read in one order and faults come in that order, but what is accepted does not depend on
it: `Cadence.decode_object` takes the parts out of the order in which they are asked for, and each part
is characterised by itself.
-/

namespace Regimen

/-- A count other than zero is written under the key. -/
def Entries.HasPositive (entries : Entries) (key : String) : Prop :=
  ∃ n, entries.lookup key = some (.ofCount n) ∧ 0 < n ∧ n ≤ maxCount

namespace Cadence

/-- The name of what the update interval counts. -/
def Measure.name : Measure → String
  | timeSteps => "time_steps"
  | episodes => "episodes"

theorem reads_measureDecode : measureDecode.Reads (fun m => .text m.name) fun _ => True where
  eq_ok_iff path v m := by
    unfold measureDecode
    rw [except_bind_eq_ok_iff]
    simp only [Decoder.reads_text.eq_ok_iff, and_true]
    constructor
    · rintro ⟨name, rfl, h⟩
      split at h
      · cases h
        rfl
      · cases h
        rfl
      · cases h
    · rintro rfl
      refine ⟨m.name, rfl, ?_⟩
      cases m <;> rfl
  ne_null := nofun

/-- The unit is named where one of the two names is. -/
theorem exists_measure_iff {o : Option Value} : (∃ m : Measure, o = some (.text m.name)) ↔
    o = some (.text "time_steps") ∨ o = some (.text "episodes") := by
  constructor
  · rintro ⟨m, hm⟩
    cases m with
    | timeSteps => exact .inl hm
    | episodes => exact .inr hm
  · rintro (h | h)
    · exact ⟨.timeSteps, h⟩
    · exact ⟨.episodes, h⟩

/-! ### The parts of a section -/

/-- The keys that are read for a family, in the order of reading. -/
def Family.keys : Family → List String
  | targetSync _ => ["update_mode", "do_updates", "update_interval", "batch_size",
      "steps_before_update", "sync_interval"]
  | iterative => ["update_mode", "do_updates", "update_interval", "batch_size",
      "steps_before_update", "num_iterations", "sample_size"]

/-- What belongs to other families is not read. -/
theorem Family.not_mem_keys_of_foreign (family : Family) :
    ∀ key ∈ family.foreign, key ∉ family.keys := by
  rcases family with (_ | _) | _ <;> decide

/-- The cadence that an object describes, in terms of what the parts mean by themselves. -/
theorem decode_object (family : Family) (agent : String) (buffer : Option Nat)
    (policy : UnknownFields) (path : Path) (entries : Entries) :
    (reading family agent buffer policy).decode path (.object entries) = (do
      let s : Section := ⟨path, entries, []⟩
      s.without family.foreign agent
      let measure ← s.readD "update_mode" measureDecode .timeSteps
      let enabled ← s.readD "do_updates" Decoder.boolean true
      let interval ← s.read "update_interval" Decoder.interval
      let batch ← s.read "batch_size"
        (Decoder.orDefect Value.positive? (.unexpectedIn "batch_size" .positiveCount))
      let before ← s.readD "steps_before_update" Decoder.count 0
      let targetSync ← (targetSyncReading family).outcome s
      let rounds ← (roundsReading batch family).outcome s
      Section.closed ⟨path, entries, family.keys.reverse⟩ policy
      let threshold := max (max batch before) (buffer.getD 0)
      return { measure, enabled, interval, batch, threshold, targetSync, rounds }) := by
  have hdecode : (reading family agent buffer policy).decode path (.object entries) =
      (reading family agent buffer policy).outcome ⟨path, entries, []⟩ := rfl
  rw [hdecode]
  cases family with
  | targetSync basis =>
    simp only [reading, targetSyncReading, roundsReading, Attempt.outcome_bind,
      Reading.outcome_field, Reading.after_field, Reading.outcome_fieldD, Reading.after_fieldD,
      Reading.outcome_forbid, Reading.after_forbid, Reading.outcome_close, Reading.after_close,
      Attempt.outcome_pure, bind_assoc, pure_bind, Section.readD_ask, Section.read_ask]
    rfl
  | iterative =>
    simp only [reading, targetSyncReading, roundsReading, Attempt.outcome_bind,
      Reading.outcome_field, Reading.after_field, Reading.outcome_fieldD, Reading.after_fieldD,
      Reading.outcome_forbid, Reading.after_forbid, Reading.outcome_close, Reading.after_close,
      Reading.outcome_placeOf, Reading.after_placeOf, Reading.outcome_ensure, Reading.after_ensure,
      Attempt.outcome_pure, bind_assoc, pure_bind, Section.readD_ask, Section.read_ask]
    rfl

section

variable {family : Family} {agent : String} {buffer : Option Nat} {policy : UnknownFields} {path : Path}
  {entries : Entries} {c : Cadence}

/-- The interval of the target network, as an object gives it to a family. -/
def Family.SyncFrom (entries : Entries) (o : Option TargetSync) : Family → Prop
  | targetSync basis => ∃ n, o = some ⟨n, basis⟩ ∧
      entries.lookup "sync_interval" = some (.ofCount n) ∧ 0 < n ∧ n ≤ maxCount
  | iterative => o = none

/-- The rounds over a batch, as an object gives them to a family: one unless given, and over the whole
batch unless given. -/
def Family.RoundsFrom (entries : Entries) (batch : Nat) (o : Option Rounds) : Family → Prop
  | targetSync _ => o = none
  | iterative => ∃ r, o = some r ∧
      (entries.Omits "num_iterations" ∧ r.number = 1 ∨
        entries.lookup "num_iterations" = some (.ofCount r.number) ∧
          0 < r.number ∧ r.number ≤ maxCount) ∧
      (entries.Omits "sample_size" ∧ r.sample = batch ∨
        entries.lookup "sample_size" = some (.ofCount r.sample) ∧
          0 < r.sample ∧ r.sample ≤ maxCount) ∧
      r.sample ≤ batch

theorem targetSyncReading_eq_ok_iff {s : Section} {o : Option TargetSync} :
    (targetSyncReading family).outcome s = .ok o ↔ family.SyncFrom s.entries o := by
  cases family with
  | targetSync basis =>
    simp only [targetSyncReading, Attempt.outcome_bind, Reading.outcome_field, Reading.after_field,
      Attempt.outcome_pure, except_bind_eq_ok_iff, Decoder.reads_interval.read_eq_ok_iff,
      Except.ok.injEq]
    exact ⟨fun ⟨n, hn, ho⟩ => ⟨n, ho.symm, hn⟩, fun ⟨n, ho, hn⟩ => ⟨n, hn, ho.symm⟩⟩
  | iterative =>
    simp only [targetSyncReading, Attempt.outcome_pure, Except.ok.injEq]
    exact eq_comm

theorem roundsReading_eq_ok_iff {s : Section} {batch : Nat} {o : Option Rounds} :
    (roundsReading batch family).outcome s = .ok o ↔ family.RoundsFrom s.entries batch o := by
  cases family with
  | targetSync basis =>
    simp only [roundsReading, Attempt.outcome_pure, Except.ok.injEq]
    exact eq_comm
  | iterative =>
    simp only [roundsReading, Attempt.outcome_bind, Reading.outcome_fieldD, Reading.after_fieldD,
      Reading.outcome_placeOf, Reading.after_placeOf, Reading.outcome_ensure, Reading.after_ensure,
      Attempt.outcome_pure, except_bind_eq_ok_iff, Section.readD_ask,
      Decoder.reads_interval.readD_eq_ok_iff, Except.ok.injEq]
    constructor
    · rintro ⟨number, hnumber, sample, hsample, _, _, _, hle, rfl⟩
      exact ⟨⟨number, sample⟩, rfl, hnumber, hsample, ite_eq_ok_iff.mp hle⟩
    · rintro ⟨r, rfl, hnumber, hsample, hle⟩
      exact ⟨r.number, hnumber, r.sample, hsample, _, rfl, (), ite_eq_ok_iff.mpr hle, rfl⟩

/-- **A cadence is described by an object**: each of its parts is what stands there, or the default
where nothing does, and nothing else stands there that may not. -/
structure DescribedBy (c : Cadence) (family : Family) (buffer : Option Nat) (policy : UnknownFields)
    (entries : Entries) : Prop where
  /-- The fields of other families are not there, not even with null. -/
  foreign : ∀ key ∈ family.foreign, key ∉ entries.keys
  /-- No field is there that is not read, unless unknown fields are ignored. -/
  known : policy = .reject → ∀ key ∈ entries.keys, key ∈ family.keys
  /-- What the interval counts: time steps unless given. -/
  measure : entries.Omits "update_mode" ∧ c.measure = .timeSteps ∨
    entries.lookup "update_mode" = some (.text c.measure.name)
  /-- Whether there are updates: there are unless given. -/
  enabled : entries.Omits "do_updates" ∧ c.enabled = true ∨
    entries.lookup "do_updates" = some (.boolean c.enabled)
  /-- The update interval. -/
  interval : entries.lookup "update_interval" = some (.ofCount c.interval) ∧
    0 < c.interval ∧ c.interval ≤ maxCount
  /-- The batch. -/
  batch : entries.lookup "batch_size" = some (.ofCount c.batch) ∧ 0 < c.batch ∧ c.batch ≤ maxCount
  /-- Updates wait for the batch, for the steps before them, of which there are none unless given, and
  for the buffer. -/
  threshold : ∃ before,
    (entries.Omits "steps_before_update" ∧ before = 0 ∨
      entries.lookup "steps_before_update" = some (.ofCount before) ∧ before ≤ maxCount) ∧
    c.threshold = max (max c.batch before) (buffer.getD 0)
  /-- The interval of the target network, where the family has one. -/
  targetSync : family.SyncFrom entries c.targetSync
  /-- The rounds, where the family has them. -/
  rounds : family.RoundsFrom entries c.batch c.rounds

theorem decode_eq_ok_iff :
    (reading family agent buffer policy).decode path (.object entries) = .ok c ↔
      c.DescribedBy family buffer policy entries := by
  have hknown : Section.closed ⟨path, entries, family.keys.reverse⟩ policy = .ok () ↔
      (policy = .reject → ∀ key ∈ entries.keys, key ∈ family.keys) := by
    simp only [Section.closed_eq_ok_iff, List.mem_reverse]
  rw [decode_object]
  simp only [except_bind_eq_ok_iff, reads_measureDecode.readD_eq_ok_iff,
    Decoder.reads_boolean.readD_eq_ok_iff, Decoder.reads_interval.read_eq_ok_iff,
    (Decoder.reads_positive _).read_eq_ok_iff, Decoder.reads_count.readD_eq_ok_iff,
    targetSyncReading_eq_ok_iff, roundsReading_eq_ok_iff, and_true]
  constructor
  · rintro ⟨_, hforeign, measure, hmeasure, enabled, henabled, interval, hinterval, batch, hbatch,
      before, hbefore, targetSync, hsync, rounds, hrounds, _, hclosed, hc⟩
    cases hc
    exact ⟨Section.without_eq_ok_iff.mp hforeign, hknown.mp hclosed, hmeasure, henabled, hinterval,
      hbatch, ⟨before, hbefore, rfl⟩, hsync, hrounds⟩
  · intro h
    obtain ⟨before, hbefore, hthreshold⟩ := h.threshold
    refine ⟨(), Section.without_eq_ok_iff.mpr h.foreign, c.measure, h.measure, c.enabled, h.enabled,
      c.interval, h.interval, c.batch, h.batch, before, hbefore, c.targetSync, h.targetSync, c.rounds,
      h.rounds, (), hknown.mpr h.known, ?_⟩
    rw [← hthreshold]
    rfl

/-! ### The grammar -/

/-- What the fields of its own have to be for a family. -/
def Family.Grammar (entries : Entries) : Family → Prop
  | targetSync _ => "num_iterations" ∉ entries.keys ∧ "sample_size" ∉ entries.keys ∧
      entries.HasPositive "sync_interval"
  | iterative => "sync_interval" ∉ entries.keys ∧
      (entries.Omits "num_iterations" ∨ entries.HasPositive "num_iterations") ∧
      (entries.Omits "sample_size" ∨ ∃ sample batch,
        entries.lookup "sample_size" = some (.ofCount sample) ∧
        entries.lookup "batch_size" = some (.ofCount batch) ∧ 0 < sample ∧ sample ≤ batch)

/-- **The grammar of cadences**: what an object has to be like to describe one. -/
structure Grammar (family : Family) (policy : UnknownFields) (entries : Entries) : Prop where
  /-- The unit of the interval has one of two names, if it is given. -/
  measure : entries.Omits "update_mode" ∨ entries.lookup "update_mode" = some (.text "time_steps") ∨
    entries.lookup "update_mode" = some (.text "episodes")
  /-- Whether there are updates is a truth value, if it is given. -/
  enabled : entries.Omits "do_updates" ∨ ∃ b, entries.lookup "do_updates" = some (.boolean b)
  /-- The interval is an integer from one. -/
  interval : entries.HasPositive "update_interval"
  /-- So is the batch. -/
  batch : entries.HasPositive "batch_size"
  /-- The number of steps before updates is an integer from zero, if it is given. -/
  before : entries.Omits "steps_before_update" ∨
    ∃ n, entries.lookup "steps_before_update" = some (.ofCount n) ∧ n ≤ maxCount
  /-- The fields that the family has to itself are right, and those of other families are not there. -/
  own : family.Grammar entries
  /-- No other field is there, unless unknown fields are ignored. -/
  known : policy = .reject → ∀ key ∈ entries.keys, key ∈ family.keys

/-- What describes a cadence keeps to the grammar. -/
theorem DescribedBy.grammar (h : c.DescribedBy family buffer policy entries) :
    Grammar family policy entries where
  measure := by
    rw [← exists_measure_iff]
    exact (exists_given_iff _).mp ⟨c.measure, h.measure⟩
  enabled := (exists_given_iff _).mp ⟨c.enabled, h.enabled⟩
  interval := ⟨c.interval, h.interval⟩
  batch := ⟨c.batch, h.batch⟩
  before := by
    obtain ⟨before, hbefore, -⟩ := h.threshold
    exact (exists_given_iff _).mp ⟨before, hbefore⟩
  own := by
    have hforeign := h.foreign
    cases family with
    | targetSync basis =>
      simp only [Family.foreign, List.mem_cons, List.not_mem_nil, or_false, forall_eq_or_imp,
        forall_eq] at hforeign
      obtain ⟨n, -, hn⟩ := h.targetSync
      exact ⟨hforeign.1, hforeign.2, n, hn⟩
    | iterative =>
      obtain ⟨r, -, hnumber, hsample, hle⟩ := h.rounds
      refine ⟨hforeign _ List.mem_cons_self, (exists_given_iff _).mp ⟨r.number, hnumber⟩, ?_⟩
      rcases hsample with ⟨homits, -⟩ | ⟨hl, hpos, -⟩
      · exact .inl homits
      · exact .inr ⟨r.sample, c.batch, hl, h.batch.1, hpos, hle⟩
  known := h.known

/-- The fields that a family has to itself say when the target network is brought up to date, and how
often a batch is gone over. -/
theorem Family.Grammar.exists_from (h : family.Grammar entries) {batch : Nat}
    (hbatch : entries.lookup "batch_size" = some (.ofCount batch)) (hle : batch ≤ maxCount) :
    (∀ key ∈ family.foreign, key ∉ entries.keys) ∧ ∃ targetSync rounds,
      family.SyncFrom entries targetSync ∧ family.RoundsFrom entries batch rounds := by
  cases family with
  | targetSync basis =>
    obtain ⟨hnumber, hsample, n, hn⟩ := h
    refine ⟨?_, some ⟨n, basis⟩, none, ⟨n, rfl, hn⟩, rfl⟩
    simp [Family.foreign, hnumber, hsample]
  | iterative =>
    obtain ⟨hforeign, hnumber, hsample⟩ := h
    obtain ⟨number, hnumber⟩ := (exists_given_iff 1).mpr hnumber
    obtain ⟨sample, hsample, hsample'⟩ : ∃ sample, (entries.Omits "sample_size" ∧ sample = batch ∨
        entries.lookup "sample_size" = some (.ofCount sample) ∧ 0 < sample ∧ sample ≤ maxCount) ∧
        sample ≤ batch := by
      rcases hsample with homits | ⟨n, batch', hl, hbatch', hn, hn'⟩
      · exact ⟨batch, .inl ⟨homits, rfl⟩, Nat.le_refl _⟩
      · rw [hbatch] at hbatch'
        obtain rfl : batch = batch' := Value.ofCount_injective (Option.some.inj hbatch')
        exact ⟨n, .inr ⟨hl, hn, Nat.le_trans hn' hle⟩, hn'⟩
    refine ⟨?_, none, some ⟨number, sample⟩, rfl, ⟨number, sample⟩, rfl, hnumber, hsample, hsample'⟩
    simpa [Family.foreign] using hforeign

/-- **What keeps to the grammar describes a cadence.** -/
theorem Grammar.exists_describedBy (h : Grammar family policy entries) (buffer : Option Nat) :
    ∃ c : Cadence, c.DescribedBy family buffer policy entries := by
  have hmeasure := h.measure
  rw [← exists_measure_iff] at hmeasure
  obtain ⟨measure, hmeasure⟩ := (exists_given_iff .timeSteps).mpr hmeasure
  obtain ⟨enabled, henabled⟩ := (exists_given_iff true).mpr h.enabled
  obtain ⟨interval, hinterval⟩ := h.interval
  obtain ⟨batch, hbatch⟩ := h.batch
  obtain ⟨before, hbefore⟩ := (exists_given_iff 0).mpr h.before
  obtain ⟨hforeign, targetSync, rounds, hsync, hrounds⟩ := h.own.exists_from hbatch.1 hbatch.2.2
  let threshold := max (max batch before) (buffer.getD 0)
  exact ⟨⟨measure, enabled, interval, batch, threshold, targetSync, rounds⟩, hforeign, h.known,
    hmeasure, henabled, hinterval, hbatch, ⟨before, hbefore, rfl⟩, hsync, hrounds⟩

/-! ### The cadences that can be described -/

/-- **A cadence fits a family and a buffer** if it is well-formed, updates wait for the buffer, and its
numbers can be counted. -/
structure Fits (c : Cadence) (family : Family) (buffer : Option Nat) : Prop where
  /-- It is well-formed. -/
  wellFormed : c.WellFormed family
  /-- Updates wait for a whole buffer. -/
  buffer_le : buffer.getD 0 ≤ c.threshold
  /-- The threshold can be counted. -/
  threshold_le : c.threshold ≤ maxCount
  /-- So can the interval. -/
  interval_le : c.interval ≤ maxCount
  /-- So can the interval of the target network. -/
  sync_le : ∀ t ∈ c.targetSync, t.interval ≤ maxCount
  /-- So can the rounds. -/
  rounds_le : ∀ r ∈ c.rounds, r.number ≤ maxCount

/-- The fields of a cadence, all of them given. The steps before an update are its threshold. -/
def written (c : Cadence) : Entries :=
  [("update_mode", .text c.measure.name), ("do_updates", .boolean c.enabled),
    ("update_interval", .ofCount c.interval), ("batch_size", .ofCount c.batch),
    ("steps_before_update", .ofCount c.threshold)] ++
  ((match c.targetSync with
    | some t => [("sync_interval", .ofCount t.interval)]
    | none => []) ++
  match c.rounds with
    | some r => [("num_iterations", .ofCount r.number), ("sample_size", .ofCount r.sample)]
    | none => [])

/-- What is described has the parts of its family, and they can be counted. -/
theorem DescribedBy.suits (h : c.DescribedBy family buffer policy entries) :
    c.Suits family ∧ (∀ t ∈ c.targetSync, t.interval ≤ maxCount) ∧
      ∀ r ∈ c.rounds, r.number ≤ maxCount := by
  cases family with
  | targetSync basis =>
    obtain ⟨n, htarget, -, hpos, hle⟩ := h.targetSync
    have hnone : c.rounds = none := h.rounds
    rw [htarget, hnone]
    refine ⟨⟨⟨n, hpos, htarget⟩, hnone⟩, ?_, nofun⟩
    rintro t ⟨⟩
    exact hle
  | iterative =>
    obtain ⟨r, hr, hnumber, hsample, hle⟩ := h.rounds
    have hnone : c.targetSync = none := h.targetSync
    have hnumber' : 0 < r.number ∧ r.number ≤ maxCount := by
      rcases hnumber with ⟨-, hone⟩ | ⟨-, hbounds⟩
      · rw [hone]
        decide
      · exact hbounds
    have hsample' : 0 < r.sample := by
      rcases hsample with ⟨-, hwhole⟩ | ⟨-, hpos, -⟩
      · rw [hwhole]
        exact h.batch.2.1
      · exact hpos
    rw [hnone, hr]
    refine ⟨⟨hnone, r, hr, hnumber'.1, hsample', hle⟩, nofun, ?_⟩
    rintro _ ⟨⟩
    exact hnumber'.2

/-- **What is described fits**, if the size of the buffer can be counted. -/
theorem DescribedBy.fits (h : c.DescribedBy family buffer policy entries)
    (hbuffer : buffer.getD 0 ≤ maxCount) : c.Fits family buffer := by
  obtain ⟨before, hbefore, hthreshold⟩ := h.threshold
  have hbefore' : before ≤ maxCount := by
    rcases hbefore with ⟨-, rfl⟩ | ⟨-, hle⟩
    · exact Nat.zero_le _
    · exact hle
  have hbatch := h.batch.2.2
  obtain ⟨hsuits, hsync, hrounds⟩ := h.suits
  refine ⟨⟨h.interval.2.1, h.batch.2.1, ?_, hsuits⟩, ?_, ?_, h.interval.2.2, hsync, hrounds⟩
  · omega
  · omega
  · omega

/-- **What fits is described** by its fields. -/
theorem Fits.describedBy (h : c.Fits family buffer) (policy : UnknownFields) :
    c.DescribedBy family buffer policy c.written := by
  obtain ⟨⟨hinterval, hbatch, hthreshold, hsuits⟩, hbuffer, hthreshold', hinterval', hsync, hrounds⟩ := h
  have hbatch' : c.batch ≤ maxCount := Nat.le_trans hthreshold hthreshold'
  have hmax : c.threshold = max (max c.batch c.threshold) (buffer.getD 0) := by omega
  obtain ⟨measure, enabled, interval, batch, threshold, targetSync, rounds⟩ := c
  cases family with
  | targetSync basis =>
    obtain ⟨⟨n, hn, rfl⟩, rfl⟩ := hsuits
    exact ⟨Family.not_mem_keys_of_foreign _, fun _ _ hkey => hkey, .inr rfl, .inr rfl,
      ⟨rfl, hinterval, hinterval'⟩, ⟨rfl, hbatch, hbatch'⟩, ⟨threshold, .inr ⟨rfl, hthreshold'⟩, hmax⟩,
      ⟨n, rfl, rfl, hn, hsync _ rfl⟩, rfl⟩
  | iterative =>
    obtain ⟨rfl, r, rfl, hnumber, hsample, hle⟩ := hsuits
    exact ⟨Family.not_mem_keys_of_foreign _, fun _ _ hkey => hkey, .inr rfl, .inr rfl,
      ⟨rfl, hinterval, hinterval'⟩, ⟨rfl, hbatch, hbatch'⟩, ⟨threshold, .inr ⟨rfl, hthreshold'⟩, hmax⟩,
      rfl, r, rfl, .inr ⟨rfl, hnumber, hrounds _ rfl⟩,
      .inr ⟨rfl, hsample, Nat.le_trans hle hbatch'⟩, hle⟩

end

/-- **The grammar decides, and what is read is what is written.** For every family, buffer and policy:
an object is accepted exactly where it keeps to the grammar, and the cadence is the one that it
describes. Every cadence that fits can be read, from its own fields; and, as long as the size of the
buffer can be counted, only those that fit are. -/
theorem decode_iff_grammar (family : Family) (agent : String) (buffer : Option Nat)
    (policy : UnknownFields) (path : Path) :
    (∀ entries, (∃ c, (reading family agent buffer policy).decode path (.object entries) = .ok c) ↔
      Grammar family policy entries) ∧
    (∀ entries c, (reading family agent buffer policy).decode path (.object entries) = .ok c ↔
      c.DescribedBy family buffer policy entries) ∧
    (∀ c, c.Fits family buffer →
      (reading family agent buffer policy).decode path (.object c.written) = .ok c) ∧
    (buffer.getD 0 ≤ maxCount → ∀ entries c,
      (reading family agent buffer policy).decode path (.object entries) = .ok c →
        c.Fits family buffer) := by
  refine ⟨fun entries => ⟨?_, ?_⟩, fun _ _ => decode_eq_ok_iff, ?_, ?_⟩
  · rintro ⟨c, hc⟩
    exact (decode_eq_ok_iff.mp hc).grammar
  · intro h
    obtain ⟨c, hc⟩ := h.exists_describedBy buffer
    exact ⟨c, decode_eq_ok_iff.mpr hc⟩
  · intro c hc
    exact decode_eq_ok_iff.mpr (hc.describedBy policy)
  · intro hbuffer entries c hc
    exact (decode_eq_ok_iff.mp hc).fits hbuffer

/-- Updates in rounds over a part of the batch. Null stands for the default where a field may be given,
and is one field too many where it may not. -/
theorem decode_iff_grammar_rounds :
    let entries : Entries := [("update_interval", .ofCount 16), ("batch_size", .ofCount 200),
      ("steps_before_update", .ofCount 250), ("sample_size", .ofCount 64), ("num_iterations", .null)]
    let c : Cadence := ⟨.timeSteps, true, 16, 200, 250, none, some ⟨1, 64⟩⟩
    Grammar .iterative .reject entries ∧ c.DescribedBy .iterative (some 16) .reject entries ∧
      c.Fits .iterative (some 16) ∧
      (reading .iterative "ppo" (some 16) .reject).decode .root (.object c.written) = .ok c ∧
      ¬ Grammar .iterative .reject (entries ++ [("sync_interval", .null)]) := by
  intro entries c
  obtain ⟨hgrammar, hdescribed, hwritten, hfits⟩ :=
    decode_iff_grammar .iterative "ppo" (some 16) .reject .root
  have hc : (reading .iterative "ppo" (some 16) .reject).decode .root (.object entries) = .ok c := rfl
  have hfit : c.Fits .iterative (some 16) := hfits (by decide) entries c hc
  refine ⟨(hgrammar entries).mp ⟨c, hc⟩, (hdescribed entries c).mp hc, hfit, hwritten c hfit, ?_⟩
  intro h
  obtain ⟨c', hc'⟩ := (hgrammar _).mpr h
  cases hc'

end Cadence

end Regimen
