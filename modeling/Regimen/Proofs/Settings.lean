import Regimen.Agent.Decoding
import Regimen.Proofs.Reading

/-!
# Well-formed settings

What holds of the parts of an agent that a document describes: a memory holds something, a window
is not empty, the scopes of a list are pairwise different. Each part has a structure of such facts
and a theorem that its reading yields nothing else.

A cadence is known more closely (`Cadence.run_reading`): how it learns follows from the family of
its agent, and its threshold from the fields of the document.
-/

namespace Regimen

open Reading (Yields)

/-! ### Memories -/

/-- The memory holds something, no more than a document can ask for, and its priorities are weighed
by exponents in range. -/
structure Memory.WellFormed (m : Memory) : Prop where
  /-- It holds something. -/
  capacity_pos : 0 < m.capacity
  /-- The capacity is a count. -/
  capacity_le : m.capacity ≤ maxCount
  /-- The exponents lie in their ranges. -/
  exponents : ∀ alpha beta, m.kind = .prioritizedReplay alpha beta →
    0.0 ≤ alpha ∧ 0.0 ≤ beta ∧ beta ≤ 1.0

namespace Memory

theorem yields_kindReading : kindReading.Yields fun kind =>
    ∀ alpha beta, kind = .prioritizedReplay alpha beta → 0.0 ≤ alpha ∧ 0.0 ≤ beta ∧ beta ≤ 1.0 := by
  refine .bind (.any _) fun name _ => ?_
  split
  · exact .pure nofun
  · exact .pure nofun
  · refine .bind (.fieldD (Decoder.yields_numberIn _ _) (by decide)) fun alpha halpha => ?_
    refine .bind (.fieldD (Decoder.yields_numberIn _ _) (by decide)) fun beta hbeta => .pure ?_
    rintro _ _ ⟨⟩
    exact ⟨halpha, hbeta⟩
  · exact .bind (.any _) fun _ _ => .fail _

theorem yields_capacity? : capacity?.Yields fun n => 0 < n ∧ n ≤ maxCount := by
  intro path v n h
  unfold capacity? at h
  split at h
  · cases h
  · cases h
  · rename_i m hm hv
    cases h
    exact ⟨Nat.pos_of_ne_zero hm, Decoder.count?_le hv⟩

theorem yields_reading (policy : UnknownFields) : (reading policy).Yields WellFormed := by
  refine .bind yields_kindReading fun kind hkind => ?_
  refine .bind (.field yields_capacity?) fun capacity hcapacity => ?_
  exact .bind (.any _) fun _ _ => .pure ⟨hcapacity.1, hcapacity.2, hkind⟩

end Memory

/-! ### Schedules, optimizers, exploration -/

namespace Schedule

/-- The window that a schedule has of its own. -/
def window? : Schedule → Option Window
  | constant _ => none
  | curved _ _ _ window => window

/-- The window of a schedule, if it has one, is not empty. -/
def WellFormed (s : Schedule) : Prop := ∀ w ∈ s.window?, 0 < w.length

/-- The ends of a schedule are numbers, and a curve that needs a factor between them has one. -/
structure Sound (s : Schedule) : Prop where
  /-- The initial value is a number. -/
  initial : s.initial.isFinite
  /-- The final value is a number. -/
  final : s.final.isFinite
  /-- A window has a length that is a count other than zero. -/
  window : ∀ w ∈ s.window?, 0 < w.length ∧ w.length ≤ maxCount
  /-- Some factor leads from one end to the other. -/
  proportional : ∀ x y w, s = .curved .exponential x y w → Proportional x y

theorem Sound.wellFormed {s : Schedule} (h : s.Sound) : s.WellFormed := fun w hw => (h.window w hw).1

theorem wellFormed_constant (x : Float) : (constant x).WellFormed := nofun

theorem yields_endpoint : endpoint.Yields fun x => x.isFinite := by
  intro path v x h
  unfold endpoint at h
  split at h
  · split at h <;> cases h
    assumption
  · cases h

theorem sound_constant {x : Float} (hx : x.isFinite) : (constant x).Sound :=
  ⟨hx, hx, nofun, nofun⟩

theorem sound_between {path : Path} {kind : String} {x y : Float} {window : Option Window}
    (hx : x.isFinite) (hy : y.isFinite) (hw : ∀ w ∈ window, 0 < w.length ∧ w.length ≤ maxCount)
    {s : Schedule} (h : between path kind x y window = .ok s) : s.Sound := by
  unfold between at h
  split at h
  · split at h <;> cases h
    exact sound_constant hx
  · split at h
    · cases h
    · rename_i curve _
      split at h <;> cases h
      rename_i hends
      refine ⟨hx, hy, hw, ?_⟩
      rintro _ _ _ ⟨⟩
      exact Decidable.not_not.mp fun hnot => hends ⟨rfl, hnot⟩

theorem length_of_windowOf {path : Path} {entries : Entries} {window : Option Window}
    (h : windowOf path entries = .ok window) : ∀ w ∈ window, 0 < w.length ∧ w.length ≤ maxCount := by
  unfold windowOf at h
  split at h
  · cases h
    exact nofun
  · cases h
  · obtain ⟨n, hn, h⟩ := except_bind_eq_ok_iff.mp h
    cases h
    rintro w ⟨⟩
    exact Decoder.yields_interval_le hn
  · obtain ⟨n, hn, h⟩ := except_bind_eq_ok_iff.mp h
    obtain ⟨start, -, h⟩ := except_bind_eq_ok_iff.mp h
    cases h
    rintro w ⟨⟩
    exact Decoder.yields_interval_le hn

theorem finite_of_present {path : Path} {entries : Entries} {key : String} {x : Float}
    (h : present path entries key endpoint = .ok x) : x.isFinite := by
  unfold present at h
  split at h
  · exact yields_endpoint h
  · cases h

/-- Every way to write a schedule gives a sound one. -/
theorem yields_decode_sound : decode.Yields Sound := by
  intro path v s h
  unfold decode at h
  split at h
  · obtain ⟨x, hx, h⟩ := except_bind_eq_ok_iff.mp h
    cases h
    exact sound_constant (yields_endpoint hx)
  · unfold ofTriple at h
    split at h
    · obtain ⟨kind, -, h⟩ := except_bind_eq_ok_iff.mp h
      obtain ⟨x, hx, h⟩ := except_bind_eq_ok_iff.mp h
      obtain ⟨y, hy, h⟩ := except_bind_eq_ok_iff.mp h
      exact sound_between (yields_endpoint hx) (yields_endpoint hy) (by simp) h
    · cases h
  · unfold ofObject at h
    split at h
    · cases h
    · obtain ⟨kind, -, h⟩ := except_bind_eq_ok_iff.mp h
      split at h
      · obtain ⟨x, hx, h⟩ := except_bind_eq_ok_iff.mp h
        cases h
        exact sound_constant (finite_of_present hx)
      · obtain ⟨x, hx, h⟩ := except_bind_eq_ok_iff.mp h
        obtain ⟨y, hy, h⟩ := except_bind_eq_ok_iff.mp h
        obtain ⟨window, hw, h⟩ := except_bind_eq_ok_iff.mp h
        exact sound_between (finite_of_present hx) (finite_of_present hy) (length_of_windowOf hw) h
  · cases h

theorem yields_decodeIn_sound (range : Range) :
    (decodeIn range).Yields fun s => s.Sound ∧ s.Within range := by
  intro path v s h
  obtain ⟨r, hr, h⟩ := except_bind_eq_ok_iff.mp h
  unfold held at h
  split at h <;> cases h
  exact ⟨yields_decode_sound hr, ‹_›⟩

theorem yields_decode : decode.Yields WellFormed := fun _ _ _ h => (yields_decode_sound h).wellFormed

theorem yields_decodeIn (range : Range) : (decodeIn range).Yields WellFormed :=
  fun _ _ _ h => (yields_decodeIn_sound range h).1.wellFormed

end Schedule

/-- The learning rate is well-formed, and gradients are not cut down to nothing. -/
structure Optimizer.WellFormed (o : Optimizer) : Prop where
  /-- The learning rate is well-formed. -/
  learningRate : o.learningRate.WellFormed
  /-- Gradients are not cut down to nothing. -/
  clipNorm_pos : ∀ x ∈ o.clipNorm, 0.0 < x

theorem Optimizer.yields_reading (policy : UnknownFields) : (reading policy).Yields WellFormed := by
  refine .bind (.any _) fun method _ => ?_
  refine .bind (.field (Schedule.yields_decodeIn _)) fun rate hrate => ?_
  refine .bind (.field? (Decoder.yields_numberIn _ _)) fun clip hclip => ?_
  exact .bind (.any _) fun _ _ => .pure ⟨hrate, hclip⟩

theorem Exploration.yields_epsilonDecode (policy : UnknownFields) :
    (epsilonDecode policy).Yields Schedule.WellFormed := by
  have hwrapped : (wrapped policy).Yields Schedule.WellFormed :=
    .bind (.field Schedule.yields_decode) fun _ hs => .bind (.any _) fun _ _ => .pure hs
  intro path v s h
  unfold epsilonDecode at h
  split at h
  · split at h
    · exact hwrapped.decode h
    · exact Schedule.yields_decode h
  · exact Schedule.yields_decode h

theorem Exploration.yields_reading (policy : UnknownFields) :
    (reading policy).Yields fun e => e.epsilon.WellFormed := by
  refine .bind (.any _) fun place _ => ?_
  refine .bind (.field (yields_epsilonDecode policy)) fun epsilon hepsilon => ?_
  refine .bind (.any _) fun _ _ => ?_
  refine .bind (.any _) fun _ _ => ?_
  exact .bind (.any _) fun _ _ => .pure hepsilon

/-! ### Lists of descriptors -/

theorem yields_scopeReading (taken : List String) :
    (scopeReading taken).Yields fun scope => ∀ x ∈ scope, x ∉ taken := by
  refine .bind (.any _) fun scope _ => ?_
  cases scope with
  | none => exact .pure (by simp)
  | some x =>
    refine .bind (.any _) fun place _ => ?_
    refine .bind (.ensure _) fun _ hx => .pure ?_
    rintro _ ⟨⟩
    exact hx

section Descriptors

variable {α : Type} {reading : List String → Reading α} {scope : α → Option String} {P : α → Prop}

/-- The scopes of a list are pairwise different, and those that were taken before are not among
them: the scopes that are taken grow by those of the descriptors already read. -/
theorem descriptorsFrom_eq_ok (h : ∀ taken, (reading taken).Yields fun a =>
      P a ∧ ∀ x ∈ scope a, x ∉ taken) {path : Path} {items : List Value} {position : Nat}
    {taken : List String} {as : List α}
    (hok : descriptorsFrom reading scope path position taken items = .ok as) :
    (∀ a ∈ as, P a) ∧ (as.filterMap scope).Nodup ∧ (∀ x ∈ as.filterMap scope, x ∉ taken) ∧
      as.length = items.length := by
  induction items generalizing position taken as with
  | nil =>
    cases hok
    simp
  | cons v rest ih =>
    obtain ⟨a, ha, hok⟩ := except_bind_eq_ok_iff.mp hok
    obtain ⟨others, hothers, hok⟩ := except_bind_eq_ok_iff.mp hok
    cases hok
    obtain ⟨hP, hfree⟩ := (h taken).decode ha
    obtain ⟨hPs, hnodup, hfrees, hlength⟩ := ih hothers
    refine ⟨List.forall_mem_cons.mpr ⟨hP, hPs⟩, ?_, ?_, by simp [hlength]⟩
    · cases hs : scope a with
      | none => simpa [List.filterMap_cons, hs] using hnodup
      | some x =>
        simp only [List.filterMap_cons, hs, List.nodup_cons]
        exact ⟨fun hx => hfrees x hx (by simp [hs]), hnodup⟩
    · intro x hx
      cases hs : scope a with
      | none => exact fun ht => hfrees x (by simpa [List.filterMap_cons, hs] using hx) (by simp [ht])
      | some y =>
        simp only [List.filterMap_cons, hs, List.mem_cons] at hx
        rcases hx with rfl | hx
        · exact hfree x hs
        · exact fun ht => hfrees x hx (by simp [ht])

theorem descriptors_eq_ok (h : ∀ taken, (reading taken).Yields fun a =>
      P a ∧ ∀ x ∈ scope a, x ∉ taken) {path : Path} {v : Value} {as : List α}
    (hok : descriptors reading scope path v = .ok as) :
    ∃ items, v = .list items ∧ as.length = items.length ∧ (∀ a ∈ as, P a) ∧
      (as.filterMap scope).Nodup := by
  unfold descriptors at hok
  split at hok
  · obtain ⟨hP, hnodup, -, hlength⟩ := descriptorsFrom_eq_ok h hok
    exact ⟨_, rfl, hlength, hP, hnodup⟩
  · cases hok

end Descriptors

/-- There are layers, none of them is empty, and their scopes are pairwise different. -/
structure Network.WellFormed (n : Network) : Prop where
  /-- There are layers. -/
  layers_ne_nil : n.layers ≠ []
  /-- None of them is empty. -/
  units_pos : ∀ l ∈ n.layers, ∀ units ∈ l.units, 0 < units
  /-- Their scopes are pairwise different. -/
  scopes_nodup : n.scopes.Nodup

theorem Layer.yields_reading (taken : List String) : (Layer.reading taken).Yields fun l =>
    (∀ units ∈ l.units, 0 < units) ∧ ∀ x ∈ l.scope, x ∉ taken := by
  refine .bind (.any _) fun kind _ => ?_
  refine .bind (.field? (Decoder.yields_positive _)) fun units hunits => ?_
  refine .bind (.any _) fun activation _ => ?_
  refine .bind (yields_scopeReading taken) fun scope hscope => ?_
  refine .bind (.any _) fun params _ => ?_
  exact .bind (.any _) fun _ _ => .pure ⟨hunits, hscope⟩

theorem Network.yields_decode : Network.decode.Yields Network.WellFormed := by
  intro path v n h
  unfold Network.decode at h
  split at h
  · cases h
  · rename_i hv
    obtain ⟨layers, hlayers, h⟩ := except_bind_eq_ok_iff.mp h
    cases h
    obtain ⟨items, rfl, hlength, hunits, hnodup⟩ := descriptors_eq_ok Layer.yields_reading hlayers
    refine ⟨?_, hunits, hnodup⟩
    rintro rfl
    exact hv (congrArg _ (List.length_eq_zero_iff.mp hlength.symm))

theorem Preprocessor.yields_decodeAll :
    Preprocessor.decodeAll.Yields fun ps => (ps.filterMap Preprocessor.scope).Nodup := by
  have hreading (taken : List String) : (Preprocessor.reading taken).Yields fun p =>
      True ∧ ∀ x ∈ p.scope, x ∉ taken := by
    refine .bind (.any _) fun kind _ => ?_
    refine .bind (yields_scopeReading taken) fun scope hscope => ?_
    refine .bind (.any _) fun params _ => ?_
    exact .bind (.any _) fun _ _ => .pure ⟨trivial, hscope⟩
  intro path v ps h
  obtain ⟨-, -, -, -, hnodup⟩ := descriptors_eq_ok hreading h
  exact hnodup

/-! ### Requests for GPUs -/

namespace GpuRequest

variable {available : Nat} {policy : UnknownFields} {path : Path}

/-- What keeps a request from being met: there is a shortage, or the number is too great. -/
theorem of_slots_eq_error {r : GpuRequest} {f : Fault} (h : r.slots path available = .error f) :
    (∃ key shortage, f = ⟨path.key key, .devices shortage⟩) ∨
      r.number ≠ 0 ∧ (f = .invalid (path.key "max_usable_gpus") .tooManyDevices ∨
        f = ⟨path.key "max_usable_gpus", .overflow⟩) := by
  unfold slots at h
  split at h
  · cases h
    exact .inl ⟨_, _, rfl⟩
  split at h
  · cases h
    exact .inl ⟨_, _, rfl⟩
  rename_i hnumber
  split at h
  · cases h
    exact .inr ⟨hnumber, .inl rfl⟩
  split at h
  · cases h
    exact .inl ⟨_, _, rfl⟩
  split at h
  · cases h
    exact .inr ⟨hnumber, .inr rfl⟩
  · cases h

/-- A number that is requested is written. -/
theorem lookup_of_decode {v : Value} {r : GpuRequest} (h : (reading policy).decode path v = .ok r)
    (hnumber : r.number ≠ 0) :
    ∃ entries w, v = .object entries ∧ entries.lookup "max_usable_gpus" = some w := by
  obtain ⟨entries, t, rfl, hrun⟩ := Reading.decode_eq_ok_iff.mp h
  unfold reading at hrun
  obtain ⟨enabled, -, hrun⟩ := Reading.of_run_fieldD_bind hrun
  obtain ⟨number, hread, hrun⟩ := Reading.of_run_fieldD_bind hrun
  obtain ⟨standIns, -, hrun⟩ := Reading.of_run_fieldD_bind hrun
  obtain ⟨_, _, -, hrun⟩ := Attempt.run_bind_eq_ok_iff.mp hrun
  obtain ⟨rfl, -⟩ := Attempt.run_pure_eq_ok_iff.mp hrun
  obtain ⟨w, hw⟩ := Section.lookup_of_readD hread hnumber
  exact ⟨entries, w, rfl, hw⟩

end GpuRequest

/-! ### Cadences -/

namespace Cadence

theorem syncDue_iff_of_steps {c : Cadence} {interval : Nat} (h : c.targetSync = some ⟨interval, .steps⟩)
    {count : Nat} : c.SyncDue count ↔ 0 < count ∧ count % interval = 0 := by
  simp only [SyncDue, h]

theorem syncDue_iff_of_updates {c : Cadence} {interval : Nat}
    (h : c.targetSync = some ⟨interval, .updates⟩) {count : Nat} :
    c.SyncDue count ↔ count % interval = 1 % interval := by
  simp only [SyncDue, h]

theorem not_syncDue {c : Cadence} (h : c.targetSync = none) (count : Nat) : ¬ c.SyncDue count := by
  simp only [SyncDue, h, not_false_eq_true]

/-- The cadence has what the agents of a family learn by, and nothing of other families. -/
def Suits (c : Cadence) : Family → Prop
  | .targetSync basis => (∃ n, 0 < n ∧ c.targetSync = some ⟨n, basis⟩) ∧ c.rounds = none
  | .iterative => c.targetSync = none ∧
      ∃ r, c.rounds = some r ∧ 0 < r.number ∧ 0 < r.sample ∧ r.sample ≤ c.batch

/-- Nothing that recurs has an empty interval, and updates wait for a whole batch at least. -/
structure WellFormed (c : Cadence) (family : Family) : Prop where
  /-- The update interval is not empty. -/
  interval_pos : 0 < c.interval
  /-- The batch is not empty. -/
  batch_pos : 0 < c.batch
  /-- Updates wait for a whole batch. -/
  batch_le_threshold : c.batch ≤ c.threshold
  /-- The rest is as the family has it. -/
  suits : c.Suits family

theorem yields_targetSyncReading (family : Family) : (targetSyncReading family).Yields fun o =>
    match family with
    | .targetSync basis => ∃ n, 0 < n ∧ o = some ⟨n, basis⟩
    | .iterative => o = none := by
  cases family with
  | targetSync basis =>
    exact .bind (.field Decoder.yields_interval) fun n hn => .pure ⟨n, hn, rfl⟩
  | iterative => exact .pure rfl

theorem yields_roundsReading {batch : Nat} (hbatch : 0 < batch) (family : Family) :
    (roundsReading batch family).Yields fun o =>
      match family with
      | .targetSync _ => o = none
      | .iterative => ∃ r, o = some r ∧ 0 < r.number ∧ 0 < r.sample ∧ r.sample ≤ batch := by
  cases family with
  | targetSync basis => exact .pure rfl
  | iterative =>
    refine .bind (.fieldD Decoder.yields_interval Nat.one_pos) fun number hnumber => ?_
    refine .bind (.fieldD Decoder.yields_interval hbatch) fun sample hsample => ?_
    refine .bind (.any _) fun place _ => ?_
    exact .bind (.ensure _) fun _ hle => .pure ⟨_, rfl, hnumber, hsample, hle⟩

/-- A cadence that is read suits the family, and its threshold is the greatest of the batch, the
steps that the section wants before an update, and the buffer. -/
theorem run_reading {family : Family} {agent : String} {buffer : Option Nat} {policy : UnknownFields}
    {s t : Section} {c : Cadence} (h : (reading family agent buffer policy).run s = .ok c t) :
    c.WellFormed family ∧ ∃ before, s.readD "steps_before_update" Decoder.count 0 = .ok before ∧
      c.threshold = max (max c.batch before) (buffer.getD 0) := by
  obtain ⟨-, h⟩ := Reading.of_run_forbid_bind h
  obtain ⟨measure, -, h⟩ := Reading.of_run_fieldD_bind h
  obtain ⟨enabled, -, h⟩ := Reading.of_run_fieldD_bind h
  obtain ⟨interval, hinterval, h⟩ := Reading.of_run_field_bind h
  obtain ⟨batch, hbatch, h⟩ := Reading.of_run_field_bind h
  obtain ⟨before, hbefore, h⟩ := Reading.of_run_fieldD_bind h
  obtain ⟨targetSync, u, htarget, h⟩ := Attempt.run_bind_eq_ok_iff.mp h
  obtain ⟨rounds, v, hrounds, h⟩ := Attempt.run_bind_eq_ok_iff.mp h
  obtain ⟨_, w, -, h⟩ := Attempt.run_bind_eq_ok_iff.mp h
  obtain ⟨rfl, -⟩ := Attempt.run_pure_eq_ok_iff.mp h
  have hpos : 0 < batch := (Decoder.yields_positive _).read hbatch
  have htarget := yields_targetSyncReading family htarget
  have hrounds := yields_roundsReading hpos family hrounds
  refine ⟨⟨Decoder.yields_interval.read hinterval, hpos, ?_, ?_⟩, before, hbefore, rfl⟩
  · exact Nat.le_trans (Nat.le_max_left batch before) (Nat.le_max_left _ _)
  · cases family with
    | targetSync basis => exact ⟨htarget, hrounds⟩
    | iterative => exact ⟨htarget, hrounds⟩

end Cadence

end Regimen
