import Regimen.Proofs.Fields
import Regimen.Settings.Exploration

/-!
# Schedules that are wrapped

The schedule of epsilon may be wrapped in an object of its own, and that changes nothing
(`Exploration.wrapped_alike`): both ways to write a section have the same outcome, but where the schedule
itself is at fault, its place is one step further down.

The reason is that schedules are read the same everywhere. **A computation is movable** (`Movable`) if its
answer does not go by the place, and its fault is as far below the place, wherever that is.
-/

namespace Regimen

/-- The place to which steps lead. -/
def Path.down (path : Path) (steps : List Step) : Path := ⟨path.base, path.steps ++ steps⟩

@[simp] theorem Path.down_nil (path : Path) : path.down [] = path := by
  rw [down, List.append_nil]

theorem Path.down_step (path : Path) (s : Step) (steps : List Step) :
    (path.step s).down steps = path.down (s :: steps) := by
  rw [down, down, step, List.append_assoc, List.singleton_append]

/-! ### Computations that can be moved -/

/-- **A computation at a place can be moved**: it has the same answer everywhere, or the same fault as far
below. -/
inductive Movable {α : Type} (x : Path → Except Fault α) : Prop where
  /-- There is an answer. -/
  | ok (a : α) : (∀ path, x path = .ok a) → Movable x
  /-- There is a fault. -/
  | error (steps : List Step) (cause : Cause) : (∀ path, x path = .error ⟨path.down steps, cause⟩) →
      Movable x

namespace Movable

variable {α β : Type} {x : Path → Except Fault α}

theorem answer (a : α) : Movable fun _ => (.ok a : Except Fault α) := .ok a fun _ => rfl

/-- A fault at the place itself. -/
theorem here (cause : Cause) : Movable fun path => (.error ⟨path, cause⟩ : Except Fault α) :=
  .error [] cause fun path => by rw [Path.down_nil]

theorem bind {f : α → Path → Except Fault β} (hx : Movable x) (hf : ∀ a, Movable (f a)) :
    Movable fun path => x path >>= fun a => f a path := by
  cases hx with
  | error steps cause h => exact .error steps cause fun path => by rw [h]; rfl
  | ok a h =>
    cases hf a with
    | ok b hb => exact .ok b fun path => by rw [h]; exact hb path
    | error steps cause hb => exact .error steps cause fun path => by rw [h]; exact hb path

/-- One step below a place that can be moved. -/
theorem below (hx : Movable x) (s : Step) : Movable fun path => x (path.step s) := by
  cases hx with
  | ok a h => exact .ok a fun path => h _
  | error steps cause h =>
    exact .error (s :: steps) cause fun path => by rw [h, Path.down_step]

end Movable

theorem Decoder.movable_orDefect {α : Type} (read : Value → Option α) (defect : Defect) (v : Value) :
    Movable fun path => orDefect read defect path v := by
  unfold orDefect
  cases read v with
  | some a => exact .answer a
  | none => exact .here _

theorem Decoder.movable_interval (v : Value) : Movable fun path => interval path v := by
  unfold interval
  cases v.positive? with
  | some n => exact .answer n
  | none => exact .here _

/-! ### Schedules -/

namespace Schedule

theorem movable_endpoint (v : Value) : Movable fun path => endpoint path v := by
  unfold endpoint
  cases v.float? with
  | none => exact .here _
  | some x =>
    by_cases h : x.isFinite
    · simpa only [if_pos h] using .answer x
    · simpa only [if_neg h] using .here _

theorem movable_between (kind : String) (initial final : Float) (window : Option Window) :
    Movable fun path => between path kind initial final window := by
  unfold between
  split
  · split
    · exact .answer _
    · exact .here _
  · split
    · exact .here _
    · split
      · exact .here _
      · exact .answer _

theorem movable_ofTriple (items : List Value) : Movable fun path => ofTriple path items := by
  unfold ofTriple
  split
  · refine .bind (.below (Decoder.movable_orDefect _ _ _) _) fun kind => ?_
    refine .bind (.below (movable_endpoint _) _) fun initial => ?_
    refine .bind (.below (movable_endpoint _) _) fun final => ?_
    exact movable_between kind initial final none
  · exact .here _

theorem movable_present {α : Type} {decode : Decoder α} (h : ∀ v, Movable fun path => decode path v)
    (entries : Entries) (key : String) : Movable fun path => present path entries key decode := by
  unfold present
  cases entries.lookup key with
  | some v => exact .below (h v) (.key key)
  | none => exact .below (.here .missing) (.key key)

theorem movable_windowOf (entries : Entries) : Movable fun path => windowOf path entries := by
  unfold windowOf
  split
  · exact .answer none
  · exact .below (.here _) (.key "start_timestep")
  · exact .bind (.below (Decoder.movable_interval _) _) fun length => .answer _
  · refine .bind (.below (Decoder.movable_interval _) _) fun length => ?_
    exact .bind (.below (Decoder.movable_orDefect _ _ _) _) fun start => .answer _

theorem movable_ofObject (entries : Entries) : Movable fun path => ofObject path entries := by
  unfold ofObject
  cases entries.keys.find? (· ∉ fields) with
  | some key => exact .below (.here .unknownField) (.key key)
  | none =>
    refine .bind (movable_present (Decoder.movable_orDefect _ _) entries "type") fun kind => ?_
    split
    · exact .bind (movable_present movable_endpoint entries "value") fun x => .answer _
    · refine .bind (movable_present movable_endpoint entries "from") fun initial => ?_
      refine .bind (movable_present movable_endpoint entries "to") fun final => ?_
      exact .bind (movable_windowOf entries) fun window => movable_between kind initial final window

theorem movable_decode (v : Value) : Movable fun path => decode path v := by
  cases v with
  | number n => exact .bind (movable_endpoint _) fun x => .answer _
  | list items => exact movable_ofTriple items
  | object entries => exact movable_ofObject entries
  | _ => exact .here _

end Schedule

/-! ### Exploration -/

/-- What is put under a key that was asked for does not stand among the entries that nobody asked for. -/
theorem Section.unasked_put {path : Path} {asked : List String} {key : String} (h : key ∈ asked)
    (entries : Entries) (v : Value) :
    Section.unasked ⟨path, entries.put key v, asked⟩ = Section.unasked ⟨path, entries, asked⟩ :=
  Entries.filter_put (fun k => decide (k ∉ asked)) (by simpa using h) entries v

namespace Exploration

variable {policy : UnknownFields} {path : Path} {entries : Entries} {epsilon : Schedule} {v : Value}

/-- What becomes of a section once the schedule of epsilon was read. -/
def judged (policy : UnknownFields) (path : Path) (entries : Entries) (epsilon : Schedule) :
    Except Fault Exploration := do
  Section.closed ⟨path, entries, ["epsilon_spec"]⟩ policy
  if ¬epsilon.Within .unit then
    .error (.invalid (path.key "epsilon_spec") (.scheduleOutside epsilon.least epsilon.greatest .unit))
  else if ¬epsilon.Falls then
    .error (.invalid (path.key "epsilon_spec") (.risingEpsilon epsilon.initial epsilon.final))
  else .ok ⟨epsilon⟩

/-- The schedule comes first. -/
theorem decode_object (policy : UnknownFields) (path : Path) (entries : Entries) :
    (reading policy).decode path (.object entries) =
      Section.read ⟨path, entries, []⟩ "epsilon_spec" (epsilonDecode policy) >>=
        judged policy path entries := by
  show (reading policy).outcome ⟨path, entries, []⟩ = _
  unfold reading
  rw [Attempt.outcome_bind_of_ok (Reading.outcome_placeOf _ _)]
  simp only [Attempt.outcome_bind, Reading.after_placeOf, Reading.outcome_field, Reading.after_field,
    Reading.outcome_close, Reading.after_close, Reading.outcome_ensure, Reading.after_ensure,
    Attempt.outcome_pure]
  refine bind_congr fun epsilon => bind_congr fun _ => ?_
  by_cases hwithin : epsilon.Within .unit
  · by_cases hfalls : epsilon.Falls
    · simp only [hwithin, hfalls, not_true_eq_false, if_true, if_false]
      rfl
    · simp only [hwithin, hfalls, not_true_eq_false, not_false_eq_true, if_true, if_false]
      rfl
  · simp only [hwithin, not_false_eq_true, if_true, if_false]
    rfl

/-- **A section is at fault itself**, whether the schedule of epsilon is wrapped or not. -/
inductive OwnFault (path : Path) (entries : Entries) (epsilon : Schedule) : Fault → Prop where
  /-- Another field is unknown. -/
  | unknown {key : String} : key ∈ entries.keys → key ≠ "epsilon_spec" →
      OwnFault path entries epsilon ⟨path.key key, .unknownField⟩
  /-- Epsilon is no probability. -/
  | outside : ¬epsilon.Within .unit → OwnFault path entries epsilon
      (.invalid (path.key "epsilon_spec") (.scheduleOutside epsilon.least epsilon.greatest .unit))
  /-- Epsilon rises. -/
  | rising : ¬epsilon.Falls → OwnFault path entries epsilon
      (.invalid (path.key "epsilon_spec") (.risingEpsilon epsilon.initial epsilon.final))

theorem ownFault_of_judged {f : Fault} (h : judged policy path entries epsilon = .error f) :
    OwnFault path entries epsilon f := by
  rcases except_bind_eq_error_iff.mp h with h | ⟨-, -, h⟩
  · unfold Section.closed at h
    split at h
    · rename_i key w rest hunasked _
      cases h
      have hmem : (key, w) ∈ Section.unasked ⟨path, entries, ["epsilon_spec"]⟩ :=
        hunasked ▸ List.mem_cons_self
      obtain ⟨hentry, hkey⟩ := List.mem_filter.mp hmem
      exact .unknown (List.mem_map_of_mem hentry) (by simpa using hkey)
    · cases h
  · split at h
    · cases h
      exact .outside ‹_›
    split at h
    · cases h
      exact .rising ‹_›
    · cases h

/-- The value is an object that wraps a schedule. -/
def Wraps : Value → Prop
  | .object entries => "decay_spec" ∈ Entries.keys entries
  | _ => False

/-- An object that wraps a value. -/
def wrapping (v : Value) : Value := .object [("decay_spec", v)]

/-- The section in which a value is the schedule of epsilon. -/
def withEpsilon (policy : UnknownFields) (path : Path) (entries : Entries) (v : Value) :
    Except Fault Exploration :=
  (reading policy).decode path (.object (entries.put "epsilon_spec" v))

theorem withEpsilon_eq (hnull : v ≠ .null) : withEpsilon policy path entries v =
    epsilonDecode policy (path.key "epsilon_spec") v >>= judged policy path entries := by
  have hvalue : Section.value? ⟨path, entries.put "epsilon_spec" v, []⟩ "epsilon_spec" = some v :=
    (Section.value?_eq_some_iff hnull).mpr (Entries.lookup_put_self entries "epsilon_spec" v)
  have hread : Section.read ⟨path, entries.put "epsilon_spec" v, []⟩ "epsilon_spec" (epsilonDecode policy) =
      epsilonDecode policy (path.key "epsilon_spec") v := by
    rw [Section.read, hvalue]
  have hjudged : judged policy path (entries.put "epsilon_spec" v) = judged policy path entries := by
    funext epsilon
    unfold judged Section.closed
    rw [Section.unasked_put List.mem_cons_self]
  rw [withEpsilon, decode_object, hread, hjudged]

theorem epsilonDecode_plain (policy : UnknownFields) (h : ¬Wraps v) (path : Path) :
    epsilonDecode policy path v = Schedule.decode path v := by
  cases v with
  | object entries => exact if_neg h
  | _ => rfl

theorem epsilonDecode_wrapping (policy : UnknownFields) (hnull : v ≠ .null) (path : Path) :
    epsilonDecode policy path (wrapping v) = Schedule.decode (path.key "decay_spec") v := by
  have hvalue : Section.value? ⟨path, [("decay_spec", v)], []⟩ "decay_spec" = some v :=
    (Section.value?_eq_some_iff hnull).mpr List.lookup_cons_self
  show (wrapped policy).outcome ⟨path, [("decay_spec", v)], []⟩ = _
  have hclosed : Section.closed ⟨path, [("decay_spec", v)], ["decay_spec"]⟩ policy = .ok () := by
    cases policy <;> rfl
  unfold wrapped
  simp only [Attempt.outcome_bind, Reading.outcome_field, Reading.after_field, Reading.outcome_close,
    Attempt.outcome_pure, Section.read, hvalue, Section.ask, hclosed]
  cases Schedule.decode (path.key "decay_spec") v <;> rfl

/-- **Wrapping the schedule of epsilon changes nothing.** Where the schedule has a meaning, a section that
gives it has the same outcome either way. Where it has none, the section is refused for the same cause, and
the place of the fault is one step further down if the schedule is wrapped. -/
theorem wrapped_alike (policy : UnknownFields) (path : Path) (entries : Entries) (v : Value)
    (hnull : v ≠ .null) (hplain : ¬Wraps v) :
    (∃ epsilon, (∀ place, Schedule.decode place v = .ok epsilon) ∧
      withEpsilon policy path entries (wrapping v) = withEpsilon policy path entries v ∧
      ∀ f, withEpsilon policy path entries v = .error f → OwnFault path entries epsilon f) ∨
    ∃ steps cause, (∀ place, Schedule.decode place v = .error ⟨place.down steps, cause⟩) ∧
      withEpsilon policy path entries v =
        .error ⟨path.down (.key "epsilon_spec" :: steps), cause⟩ ∧
      withEpsilon policy path entries (wrapping v) =
        .error ⟨path.down (.key "epsilon_spec" :: .key "decay_spec" :: steps), cause⟩ := by
  have hwrapping : wrapping v ≠ .null := nofun
  rw [withEpsilon_eq hnull, withEpsilon_eq hwrapping, epsilonDecode_plain policy hplain,
    epsilonDecode_wrapping policy hnull]
  cases Schedule.movable_decode v with
  | ok epsilon h =>
    rw [h, h]
    exact .inl ⟨epsilon, h, rfl, fun f hf => ownFault_of_judged hf⟩
  | error steps cause h =>
    refine .inr ⟨steps, cause, h, ?_, ?_⟩
    · rw [h, Path.key, Path.down_step]
      rfl
    · rw [h, Path.key, Path.down_step, Path.key, Path.down_step]
      rfl

/-- A schedule that falls from one to some value. -/
def fallingTo (final : Value) : Value := .list [.text "linear", .number (.integer 1), final]

/-- A remark is refused beside the schedule, which falls to zero; a schedule that falls to a text is refused
itself. -/
theorem wrapped_alike_fallingTo :
    (∃ f, withEpsilon .reject .root [("remark", .null)] (fallingTo (.number (.integer 0))) = .error f ∧
      withEpsilon .reject .root [("remark", .null)] (wrapping (fallingTo (.number (.integer 0)))) =
        .error f ∧ f.path.text = "remark") ∧
    ∃ f g, withEpsilon .reject .root [("remark", .null)] (fallingTo (.text "low")) = .error f ∧
      withEpsilon .reject .root [("remark", .null)] (wrapping (fallingTo (.text "low"))) = .error g ∧
        f.cause = g.cause ∧ f.path.text = "epsilon_spec.2" ∧ g.path.text = "epsilon_spec.decay_spec.2" := by
  constructor
  · rcases wrapped_alike .reject .root [("remark", .null)] (fallingTo (.number (.integer 0))) nofun
      not_false with ⟨-, -, hsame, -⟩ | ⟨_, _, hfault, -⟩
    · exact ⟨⟨Path.root.key "remark", .unknownField⟩, rfl, hsame.trans rfl, by decide⟩
    · exact nomatch (hfault .root).symm.trans rfl
  · rcases wrapped_alike .reject .root [("remark", .null)] (fallingTo (.text "low")) nofun
      not_false with ⟨_, hvalue, -⟩ | ⟨steps, cause, hfault, hplain, hwrapped⟩
    · exact nomatch (hvalue .root).symm.trans rfl
    · have hlow : Schedule.decode .root (fallingTo (.text "low")) =
          .error (.invalid (Path.root.element 2) (.unexpected .number)) := rfl
      cases hlow.symm.trans (hfault .root)
      exact ⟨_, _, hplain, hwrapped, rfl, by decide, by decide⟩

end Exploration

end Regimen
