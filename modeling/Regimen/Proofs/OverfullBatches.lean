import Regimen.Proofs.Stages

/-!
# Batches that are greater than memory

A batch that memory can never hold is warned of, or the document is refused for it; the options say which.
**The two describe the same documents** (`Agent.refused_iff_warned`): what is refused for its batch is what
carries the warning otherwise, and the fault is at the same place and says the same. To every other document
the option makes no difference. That is so because the batch comes last: any other fault has been found by
then, and the other concerns do not go by the option.
-/

namespace Regimen.Agent

variable {unknownFields : UnknownFields} {gpus : Nat} {memory : Memory} {cadence : Cadence}
  {buffer : Option Nat} {w : Warning} {a : Agent}

/-- The place of the size of a batch. -/
def batchPlace : Path := (Path.root.key "update_spec").key "batch_size"

/-- The path is written as that place is. -/
def IsBatchPlace (path : Path) : Prop := path.text = "update_spec.batch_size"

instance (path : Path) : Decidable (IsBatchPlace path) := inferInstanceAs (Decidable (_ = _))

theorem isBatchPlace_batchPlace : IsBatchPlace batchPlace := by decide

/-- There is one concern about the size of a batch. It is raised where memory cannot hold one. -/
theorem mem_concerns_batch_iff : w ∈ concerns memory cadence buffer ∧ IsBatchPlace w.path ↔
    memory.capacity < cadence.batch ∧
      w = ⟨batchPlace, .batchExceedsCapacity cadence.batch memory.capacity⟩ := by
  have hsection : ¬IsBatchPlace (Path.root.key "update_spec") := by decide
  have hinterval : ¬IsBatchPlace ((Path.root.key "update_spec").key "update_interval") := by decide
  have hbuffer : ¬IsBatchPlace ((Path.root.key "observe_spec").key "buffer_size") := by decide
  unfold concerns
  simp only [List.mem_append, List.mem_ite_nil_right, List.mem_singleton]
  constructor
  · rintro ⟨((⟨hlt, rfl⟩ | ⟨-, rfl⟩) | ⟨-, rfl⟩) | ⟨-, rfl⟩, hplace⟩
    · exact ⟨hlt, rfl⟩
    · exact absurd hplace hsection
    · exact absurd hplace hinterval
    · exact absurd hplace hbuffer
  · rintro ⟨hlt, rfl⟩
    exact ⟨.inl (.inl (.inl ⟨hlt, rfl⟩)), isBatchPlace_batchPlace⟩

/-- A fault of an inconsistency says what a warning of it says. -/
theorem phrase_inconsistent (i : Inconsistency) : (Cause.inconsistent i).phrase = i.phrase := rfl

/-- **What becomes of an outcome** where a batch that is greater than memory is refused instead of being
warned of. -/
inductive Hardens : Except Fault Agent → Except Fault Agent → Prop where
  /-- What is refused stays refused, for the same fault. -/
  | refused (f : Fault) : Hardens (.error f) (.error f)
  /-- An agent whose batch fits into memory has no warning of it, and it stays accepted. -/
  | fitting {a : Agent} : a.cadence.batch ≤ a.memory.capacity →
      (∀ w ∈ a.warnings, ¬IsBatchPlace w.path) → Hardens (.ok a) (.ok a)
  /-- Any other agent has one warning of it, and it is refused for what the warning says. -/
  | overfull {a : Agent} {w : Warning} : a.memory.capacity < a.cadence.batch →
      (∀ w', w' ∈ a.warnings ∧ IsBatchPlace w'.path ↔ w' = w) →
      Hardens (.ok a) (.error ⟨w.path, .inconsistent w.inconsistency⟩)

/-- What comes before the batch is the same on both sides. -/
theorem Hardens.bind {α : Type} {x : Except Fault α} {f g : α → Except Fault Agent}
    (h : ∀ a, x = .ok a → Hardens (f a) (g a)) : Hardens (x >>= f) (x >>= g) := by
  cases x with
  | error e => exact .refused e
  | ok a => exact h a rfl

/-- The batch is the last that is checked. -/
theorem hardens_checked {make : List Warning → Agent}
    (hmake : ∀ ws, (make ws).memory = memory ∧ (make ws).cadence = cadence ∧ (make ws).warnings = ws) :
    Hardens (checked ⟨unknownFields, .warn, gpus⟩ memory cadence buffer >>= fun ws => .ok (make ws))
      (checked ⟨unknownFields, .reject, gpus⟩ memory cadence buffer >>= fun ws => .ok (make ws)) := by
  obtain ⟨hmemory, hcadence, hwarnings⟩ := hmake (concerns memory cadence buffer)
  have hwarned : checked ⟨unknownFields, .warn, gpus⟩ memory cadence buffer =
      .ok (concerns memory cadence buffer) := if_neg fun h => nomatch h.1
  rw [hwarned]
  by_cases hlt : memory.capacity < cadence.batch
  · have hrefused : checked ⟨unknownFields, .reject, gpus⟩ memory cadence buffer =
        .error ⟨batchPlace, .inconsistent (.batchExceedsCapacity cadence.batch memory.capacity)⟩ :=
      if_pos ⟨rfl, hlt⟩
    rw [hrefused]
    refine .overfull (w := ⟨batchPlace, _⟩) (by rwa [hmemory, hcadence]) fun w' => ?_
    rw [hwarnings, mem_concerns_batch_iff]
    exact and_iff_right hlt
  · have haccepted : checked ⟨unknownFields, .reject, gpus⟩ memory cadence buffer =
        .ok (concerns memory cadence buffer) := if_neg fun h => hlt h.2
    rw [haccepted]
    refine .fitting (by rw [hmemory, hcadence]; exact Nat.le_of_not_lt hlt) fun w hw hplace => ?_
    rw [hwarnings] at hw
    exact hlt (mem_concerns_batch_iff.mp ⟨hw, hplace⟩).1

theorem hardens_decode (unknownFields : UnknownFields) (gpus : Nat) (document : Value) :
    Hardens (decode ⟨unknownFields, .warn, gpus⟩ document)
      (decode ⟨unknownFields, .reject, gpus⟩ document) := by
  cases document with
  | object entries =>
    rw [decode_object, decode_object]
    refine .bind fun kind _ => .bind fun _ _ => .bind fun memory _ => .bind fun preprocessing _ => ?_
    refine .bind fun network _ => .bind fun optimizer _ => .bind fun execution _ => ?_
    refine .bind fun buffer _ => .bind fun cadence _ => .bind fun discount _ => .bind fun _ _ => ?_
    refine .bind fun variant _ => .bind fun _ _ => ?_
    exact hardens_checked fun ws => ⟨rfl, rfl, rfl⟩
  | _ => exact .refused _

/-- **A document is refused for its batch where it is warned of it otherwise.** Whatever else the options say:
a document that is refused where batches are warned of is refused for the same fault where they are not; an
agent without the warning is the same agent; and instead of an agent with the warning there is a fault, at the
place of the warning and with its words. The warning is given where the batch is greater than memory, and so
no agent has such a batch where it is refused. -/
theorem refused_iff_warned (unknownFields : UnknownFields) (gpus : Nat) (document : Value) :
    (∀ f, decode ⟨unknownFields, .warn, gpus⟩ document = .error f →
      decode ⟨unknownFields, .reject, gpus⟩ document = .error f) ∧
    (∀ a, decode ⟨unknownFields, .warn, gpus⟩ document = .ok a →
      ((∃ w ∈ a.warnings, IsBatchPlace w.path) ↔ a.memory.capacity < a.cadence.batch) ∧
      ((∀ w ∈ a.warnings, ¬IsBatchPlace w.path) →
        decode ⟨unknownFields, .reject, gpus⟩ document = .ok a) ∧
      ∀ w ∈ a.warnings, IsBatchPlace w.path → ∃ f,
        decode ⟨unknownFields, .reject, gpus⟩ document = .error f ∧ IsBatchPlace f.path ∧
        f.cause = .inconsistent w.inconsistency ∧ f.cause.phrase = w.inconsistency.phrase) ∧
    ∀ a, decode ⟨unknownFields, .reject, gpus⟩ document = .ok a →
      a.cadence.batch ≤ a.memory.capacity := by
  have hhardens := hardens_decode unknownFields gpus document
  generalize decode ⟨unknownFields, .warn, gpus⟩ document = lenient,
    decode ⟨unknownFields, .reject, gpus⟩ document = strict at hhardens
  cases hhardens with
  | refused f => exact ⟨fun _ h => h, (fun _ h => nomatch h), (fun _ h => nomatch h)⟩
  | @fitting a hle hno =>
    refine ⟨(fun _ h => nomatch h), ?_, ?_⟩
    · rintro _ ⟨⟩
      refine ⟨⟨fun ⟨w, hw, hplace⟩ => absurd hplace (hno w hw), fun hlt => ?_⟩, fun _ => rfl, ?_⟩
      · exact absurd hle (Nat.not_le_of_lt hlt)
      · intro w hw hplace
        exact absurd hplace (hno w hw)
    · rintro _ ⟨⟩
      exact hle
  | @overfull a w hlt hone =>
    obtain ⟨hw, hplace⟩ := (hone w).mpr rfl
    refine ⟨(fun _ h => nomatch h), ?_, (fun _ h => nomatch h)⟩
    rintro _ ⟨⟩
    refine ⟨⟨fun _ => hlt, fun _ => ⟨w, hw, hplace⟩⟩, fun hno => absurd hplace (hno w hw), ?_⟩
    intro w' hw' hplace'
    obtain rfl : w' = w := (hone w').mp ⟨hw', hplace'⟩
    exact ⟨_, rfl, hplace', rfl, phrase_inconsistent w'.inconsistency⟩

/-- Memory holds 4 records, or 16, and a batch has 6. -/
theorem refused_iff_warned_cartpole :
    (∃ a, decode .standard (cartpole 4) = .ok a ∧ a.memory.capacity < a.cadence.batch ∧
      ∃ w ∈ a.warnings, IsBatchPlace w.path ∧
        ∃ f, decode ⟨.reject, .reject, 0⟩ (cartpole 4) = .error f ∧ IsBatchPlace f.path ∧
          f.cause.phrase = w.inconsistency.phrase) ∧
    ∃ a, decode .standard (cartpole 16) = .ok a ∧
      decode ⟨.reject, .reject, 0⟩ (cartpole 16) = .ok a ∧ a.cadence.batch ≤ a.memory.capacity := by
  constructor
  · obtain ⟨a, ha, hlt⟩ : ∃ a, decode .standard (cartpole 4) = .ok a ∧
      a.memory.capacity < a.cadence.batch := ⟨_, rfl, by decide⟩
    obtain ⟨hiff, -, hrefused⟩ := (refused_iff_warned .reject 0 (cartpole 4)).2.1 a ha
    obtain ⟨w, hw, hplace⟩ := hiff.mpr hlt
    obtain ⟨f, hf, hplace', -, hphrase⟩ := hrefused w hw hplace
    exact ⟨a, ha, hlt, w, hw, hplace, f, hf, hplace', hphrase⟩
  · obtain ⟨a, ha, hnone⟩ : ∃ a, decode .standard (cartpole 16) = .ok a ∧
      ∀ w ∈ a.warnings, ¬IsBatchPlace w.path := ⟨_, rfl, by decide⟩
    obtain ⟨-, hstay, -⟩ := (refused_iff_warned .reject 0 (cartpole 16)).2.1 a ha
    exact ⟨a, ha, hstay hnone, (refused_iff_warned .reject 0 (cartpole 16)).2.2 a (hstay hnone)⟩

end Regimen.Agent
