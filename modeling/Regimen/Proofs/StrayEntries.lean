import Regimen.Proofs.Reordering
import Regimen.Proofs.UnknownFields

/-!
# Stray entries

Two kinds of faults go by the order of keys: of several fields that are unknown, the first is refused, and
of several devices that are no texts. Such a fault is at an entry that could have been refused in any
order (`Outline.Stray`): at a key of an object that nobody reads there, or at an entry of the map of
devices that is no text. **Every fault that goes by the order is at a stray entry**
(`Agent.strays_decode`).

To know that nobody reads the key at which a section is refused, one has to know what was asked of it by
then. `Reading.Blames` keeps account of that along a reading.
-/

namespace Regimen

/-! ### Faults that go by the order -/

/-- Of the values that are named in what is wrong with them, only a device is one of several. -/
theorem not_goesByOrder_unexpectedIn (field : String) (expected : Expected) (h : field ≠ "device") :
    ¬(Cause.invalid (.unexpectedIn field expected)).GoesByOrder := by
  rintro ⟨⟩
  exact h rfl

theorem not_goesByOrder_missing : ¬Cause.missing.GoesByOrder := nofun

theorem not_goesByOrder_foreign (agent : String) : ¬(Cause.foreign agent).GoesByOrder := nofun

/-- Where the outcome is a fault that goes by the order of keys, the fault has a property. -/
def Blames {α : Type} (P : Fault → Prop) (x : Except Fault α) : Prop :=
  ∀ f, x = .error f → f.cause.GoesByOrder → P f

namespace Blames

variable {α β : Type} {P Q : Fault → Prop} {x : Except Fault α}

theorem ok (a : α) : Blames P (.ok a : Except Fault α) := nofun

/-- A rule for faults that do not go by the order. -/
theorem error {f : Fault} (h : ¬f.cause.GoesByOrder) : Blames P (.error f : Except Fault α) := by
  rintro _ ⟨⟩ hcause
  exact absurd hcause h

theorem mono (h : Blames P x) (hPQ : ∀ f, P f → Q f) : Blames Q x :=
  fun f hf hcause => hPQ f (h f hf hcause)

theorem bind {f : α → Except Fault β} (h : Blames P x) (hf : ∀ a, x = .ok a → Blames P (f a)) :
    Blames P (x >>= f) := by
  cases x with
  | ok a => exact hf a rfl
  | error e =>
    rintro _ ⟨⟩ hcause
    exact h e rfl hcause

theorem map {f : α → β} (h : Blames P x) : Blames P (x.map f) := by
  cases x with
  | ok a => exact .ok (f a)
  | error e =>
    rintro _ ⟨⟩ hcause
    exact h e rfl hcause

end Blames

/-- The faults of a decoder do not go by the order. -/
def Decoder.Settled {α : Type} (d : Decoder α) : Prop := ∀ path v, Blames (fun _ => False) (d path v)

/-- The faults of a decoder at the value under a key have a property, where they go by the order. -/
def Decoder.BlamesUnder {α : Type} (P : Fault → Prop) (path : Path) (entries : Entries) (key : String)
    (d : Decoder α) : Prop :=
  ∀ v, entries.lookup key = some v → Blames P (d (path.key key) v)

theorem Decoder.Settled.under {α : Type} {P : Fault → Prop} {path : Path} {entries : Entries}
    {key : String} {d : Decoder α} (h : d.Settled) : d.BlamesUnder P path entries key :=
  fun v _ => (h _ v).mono nofun

/-! ### Readings that keep account -/

/-- Those of the known keys that stand in an object were asked for. -/
def Entries.Accounted (entries : Entries) (known asked : List String) : Prop :=
  ∀ key ∈ known, key ∈ entries.keys → key ∈ asked

/-- **A reading keeps account.** If it begins where the known keys were asked for, the faults that go by
the order have a property, and after an answer the keys that are known next were asked for. -/
structure Reading.Blames {α : Type} (P : Fault → Prop) (path : Path) (entries : Entries)
    (known : List String) (r : Reading α) (next : List String) : Prop where
  /-- The faults have the property. -/
  outcome : ∀ asked, entries.Accounted known asked → Regimen.Blames P (r.outcome ⟨path, entries, asked⟩)
  /-- What was asked for after an answer. -/
  after : ∀ asked a, entries.Accounted known asked → r.outcome ⟨path, entries, asked⟩ = .ok a →
    ∃ asked', r.after ⟨path, entries, asked⟩ = ⟨path, entries, asked'⟩ ∧ entries.Accounted next asked'

namespace Reading.Blames

variable {α β : Type} {P : Fault → Prop} {path : Path} {entries : Entries} {known next : List String}

/-- A rule for what leaves the section alone. -/
theorem ofExcept {x : Except Fault α} (h : Regimen.Blames P x) :
    Reading.Blames P path entries known (Attempt.ofExcept x) known where
  outcome asked _ := by
    rw [Attempt.outcome_ofExcept]
    exact h
  after asked _ hasked _ := ⟨asked, Attempt.after_ofExcept _ _, hasked⟩

/-- At the end of a reading part of what is known may be forgotten. -/
theorem pure (a : α) (h : next ⊆ known) : Reading.Blames P path entries known (Pure.pure a) next where
  outcome _ _ := .ok a
  after asked _ hasked _ := ⟨asked, rfl, fun key hkey => hasked key (h hkey)⟩

theorem fail {f : Fault} (h : ¬f.cause.GoesByOrder) :
    Reading.Blames P path entries known (Reading.fail f : Reading α) next where
  outcome _ _ := .error h
  after _ _ _ := nofun

theorem ensure {condition : Prop} [Decidable condition] {f : Fault} (h : ¬f.cause.GoesByOrder) :
    Reading.Blames P path entries known (Reading.ensure condition f) known := by
  refine ofExcept ?_
  split
  · exact .ok ()
  · exact .error h

theorem placeOf (key : String) : Reading.Blames P path entries known (Reading.placeOf key) known where
  outcome _ _ := .ok _
  after asked _ hasked _ := ⟨asked, rfl, hasked⟩

theorem bind {r : Reading α} {f : α → Reading β} {middle : List String}
    (hr : Reading.Blames P path entries known r middle)
    (hf : ∀ a asked, r.outcome ⟨path, entries, asked⟩ = .ok a →
      Reading.Blames P path entries middle (f a) next) :
    Reading.Blames P path entries known (r >>= f) next where
  outcome asked hasked := by
    rw [Attempt.outcome_bind]
    refine (hr.outcome asked hasked).bind fun a ha => ?_
    obtain ⟨asked', hafter, hasked'⟩ := hr.after asked a hasked ha
    rw [hafter]
    exact (hf a asked ha).outcome asked' hasked'
  after asked b hasked hb := by
    rw [Attempt.outcome_bind] at hb
    obtain ⟨a, ha, hb⟩ := except_bind_eq_ok_iff.mp hb
    obtain ⟨asked', hafter, hasked'⟩ := hr.after asked a hasked ha
    rw [Attempt.after_bind_of_ok ha, hafter]
    rw [hafter] at hb
    exact (hf a asked ha).after asked' b hasked' hb

section Field

variable {key : String} {d : Decoder α}

theorem accounted_ask {asked : List String} (h : entries.Accounted known asked) (key : String) :
    entries.Accounted (key :: known) (key :: asked) := by
  intro k hk hmem
  rcases List.mem_cons.mp hk with rfl | hk
  · exact List.mem_cons_self
  · exact List.mem_cons_of_mem _ (h k hk hmem)

theorem blames_value? {asked : List String} {v : Value} (hd : d.BlamesUnder P path entries key)
    (hv : Section.value? ⟨path, entries, asked⟩ key = some v) : Regimen.Blames P (d (path.key key) v) :=
  hd v (Section.lookup_of_value? hv)

theorem field (hd : d.BlamesUnder P path entries key) :
    Reading.Blames P path entries known (Reading.field key d) (key :: known) where
  outcome asked _ := by
    rw [outcome_field, Section.read]
    split
    · exact .error not_goesByOrder_missing
    · exact blames_value? hd ‹_›
  after asked _ hasked _ := ⟨_, after_field _ _ _, accounted_ask hasked key⟩

theorem field? (hd : d.BlamesUnder P path entries key) :
    Reading.Blames P path entries known (Reading.field? key d) (key :: known) where
  outcome asked _ := by
    rw [outcome_field?, Section.read?]
    split
    · exact .ok none
    · exact .map (blames_value? hd ‹_›)
  after asked _ hasked _ := ⟨_, after_field? _ _ _, accounted_ask hasked key⟩

theorem fieldD (hd : d.BlamesUnder P path entries key) (default : α) :
    Reading.Blames P path entries known (Reading.fieldD key d default) (key :: known) :=
  .bind (.field? hd) fun _ _ _ => .pure _ (List.Subset.refl _)

end Field

/-- Keys that are forbidden do not stand in the object further on. -/
theorem forbid (keys : List String) (agent : String) :
    Reading.Blames P path entries known (Reading.forbid keys agent) (keys ++ known) where
  outcome asked _ := by
    rw [outcome_forbid, Section.without]
    split
    · exact .error (not_goesByOrder_foreign agent)
    · exact .ok ()
  after asked _ hasked hok := by
    rw [outcome_forbid, Section.without_eq_ok_iff] at hok
    refine ⟨asked, after_forbid _ _ _, fun key hkey hmem => ?_⟩
    rcases List.mem_append.mp hkey with hkey | hkey
    · exact absurd hmem (hok key hkey)
    · exact hasked key hkey hmem

/-- After the rest was asked for, everything was that stands in the object. -/
theorem rest (next : List String) : Reading.Blames P path entries known Reading.rest next where
  outcome _ _ := .ok _
  after asked _ _ _ := ⟨entries.keys ++ asked, rfl, fun _ _ hmem => List.mem_append_left _ hmem⟩

/-- What is refused at the end of a section is a key that was not asked for. -/
theorem close {policy : UnknownFields}
    (h : ∀ key ∈ entries.keys, key ∉ known → P ⟨path.key key, .unknownField⟩) :
    Reading.Blames P path entries known (Reading.close policy) known where
  outcome asked hasked := by
    rw [outcome_close]
    unfold Section.closed
    split
    · rename_i key v rest hunasked
      have hmem : (key, v) ∈ Section.unasked ⟨path, entries, asked⟩ := hunasked ▸ List.mem_cons_self
      obtain ⟨hentry, hnot⟩ := List.mem_filter.mp hmem
      have hkey : key ∈ entries.keys := List.mem_map_of_mem hentry
      rintro _ ⟨⟩ -
      exact h key hkey fun hknown => of_decide_eq_true hnot (hasked key hknown hkey)
    · exact .ok ()
  after asked _ hasked _ := ⟨asked, after_close _ _, hasked⟩

end Reading.Blames

/-! ### Stray entries -/

/-- The keys under which schedules stand. -/
def Schedule.places : List String :=
  ["learning_rate", "epsilon_spec", "decay_spec", "clip_ratio", "weight_entropy"]

/-- **A fault is at a stray entry**: at a key that the outline does not look at, or that no schedule has,
or at a device that is no text. -/
inductive Outline.Stray : Outline → Path → Value → Fault → Prop where
  /-- Nobody reads the key. -/
  | unread {keys : List String} {below : String → Value → Outline} {path : Path} {entries : Entries}
      {key : String} : key ∈ entries.keys → key ∉ keys →
      Stray (.object keys below) path (.object entries) ⟨path.key key, .unknownField⟩
  /-- The object under a key is a schedule, and the key is none of a schedule's. -/
  | schedule {keys : List String} {below : String → Value → Outline} {path : Path}
      {entries inner : Entries} {place key : String} : place ∈ keys → place ∈ Schedule.places →
      entries.lookup place = some (.object inner) → below place (.object inner) = .value →
      key ∈ inner.keys → key ∉ Schedule.fields →
      Stray (.object keys below) path (.object entries) ⟨(path.key place).key key, .unknownField⟩
  /-- The entry of the map of devices is no text. -/
  | device {keys : List String} {below : String → Value → Outline} {path : Path}
      {entries devices : Entries} {scope : String} {v : Value} : "device_map" ∈ keys →
      entries.lookup "device_map" = some (.object devices) → (scope, v) ∈ devices → v.text? = none →
      Stray (.object keys below) path (.object entries)
        ⟨(path.key "device_map").key scope, .invalid (.unexpectedIn "device" .text)⟩
  /-- The fault is at a stray entry of the value under a key. -/
  | inside {keys : List String} {below : String → Value → Outline} {path : Path} {entries : Entries}
      {key : String} {v : Value} {f : Fault} : key ∈ keys → entries.lookup key = some v →
      Stray (below key v) (path.key key) v f → Stray (.object keys below) path (.object entries) f

/-- Where the faults of a decoder go by the order, they are at stray entries. -/
def Decoder.Strays {α : Type} (outline : Value → Outline) (d : Decoder α) : Prop :=
  ∀ path v, Blames (Outline.Stray (outline v) path v) (d path v)

section Strays

variable {α : Type} {keys : List String} {below : String → Value → Outline} {path : Path}
  {entries : Entries} {key : String} {d : Decoder α}

/-- A part with an outline of its own. -/
theorem Decoder.Strays.under (h : d.Strays (below key)) (hkey : key ∈ keys) :
    d.BlamesUnder (Outline.Stray (.object keys below) path (.object entries)) path entries key :=
  fun v hv => (h _ v).mono fun _ hf => .inside hkey hv hf

/-- A section is refused for a key that nobody reads, if every key that is read was asked for. -/
theorem Reading.Blames.close_section {policy : UnknownFields} {known : List String} (h : keys ⊆ known) :
    Reading.Blames (Outline.Stray (.object keys below) path (.object entries)) path entries known
      (Reading.close policy) known :=
  .close fun _ hkey hknown => .unread hkey fun hkeys => hknown (h hkeys)

end Strays

theorem Decoder.Strays.section {α : Type} {keys : Entries → List String}
    {below : Entries → String → Value → Outline} {r : Reading α}
    (h : ∀ path entries, Reading.Blames
      (Outline.Stray (.object (keys entries) (below entries)) path (.object entries)) path entries [] r []) :
    Decoder.Strays (Outline.ofSection keys below) r.decode := by
  intro path v
  cases v with
  | object entries => exact (h path entries).outcome [] nofun
  | _ => exact .error nofun

theorem Decoder.Settled.section {α : Type} {r : Reading α}
    (h : ∀ path entries, Reading.Blames (fun _ => False) path entries [] r []) : Settled r.decode := by
  intro path v
  cases v with
  | object entries => exact (h path entries).outcome [] nofun
  | _ => exact .error nofun

/-! ### Plain values -/

namespace Decoder

theorem settled_orDefect {α : Type} {read : Value → Option α} {defect : Defect}
    (h : ¬(Cause.invalid defect).GoesByOrder) : Settled (orDefect read defect) := by
  intro path v
  unfold orDefect
  split
  · exact .ok _
  · exact .error h

theorem settled_text : Settled text := settled_orDefect nofun

theorem settled_boolean : Settled boolean := settled_orDefect nofun

theorem settled_count : Settled count := settled_orDefect nofun

theorem settled_raw : Settled raw := fun _ v => .ok v

theorem settled_numberIn (range : Range) (field : Option String) : Settled (numberIn range field) := by
  have hnumber : Settled number := settled_orDefect nofun
  intro path v
  refine .bind (hnumber path v) fun x _ => ?_
  split
  · exact .ok x
  · exact .error nofun

theorem settled_interval : Settled interval := by
  intro path v
  unfold interval
  split
  · exact .ok _
  · exact .error nofun

theorem settled_rest : Settled Reading.rest.decode := .section fun _ _ => .rest []

end Decoder

open Decoder (settled_orDefect settled_text settled_boolean settled_count settled_raw settled_numberIn
  settled_interval settled_rest)

/-! ### Schedules -/

namespace Schedule

/-- A fault that goes by the order is at a key of an object that no schedule has. -/
def Scans (d : Decoder Schedule) : Prop := ∀ path v, Blames (fun f => ∃ inner key, v = .object inner ∧
  key ∈ Entries.keys inner ∧ key ∉ fields ∧ f = ⟨path.key key, .unknownField⟩) (d path v)

theorem settled_endpoint : Decoder.Settled endpoint := by
  intro path v
  unfold endpoint
  split
  · split
    · exact .ok _
    · exact .error nofun
  · exact .error nofun

theorem blames_between {P : Fault → Prop} (path : Path) (kind : String) (initial final : Float)
    (window : Option Window) : Blames P (between path kind initial final window) := by
  unfold between
  split
  · split
    · exact .ok _
    · exact .error nofun
  · split
    · exact .error nofun
    · split
      · exact .error nofun
      · exact .ok _

theorem blames_ofTriple (path : Path) (items : List Value) :
    Blames (fun _ => False) (ofTriple path items) := by
  unfold ofTriple
  split
  · have hkind := not_goesByOrder_unexpectedIn "schedule kind" .text (by decide)
    refine .bind (settled_orDefect hkind _ _) fun kind _ => ?_
    refine .bind (settled_endpoint _ _) fun initial _ => ?_
    exact .bind (settled_endpoint _ _) fun final _ => blames_between _ _ _ _ _
  · exact .error nofun

theorem blames_present {α : Type} {d : Decoder α} (h : d.Settled) (path : Path) (entries : Entries)
    (key : String) : Blames (fun _ => False) (present path entries key d) := by
  unfold present
  split
  · exact h _ _
  · exact .error nofun

theorem blames_windowOf (path : Path) (entries : Entries) :
    Blames (fun _ => False) (windowOf path entries) := by
  unfold windowOf
  split
  · exact .ok _
  · exact .error nofun
  · exact .bind (settled_interval _ _) fun length _ => .ok _
  · refine .bind (settled_interval _ _) fun length _ => ?_
    exact .bind (settled_count _ _) fun start _ => .ok _

theorem scans_decode : Scans decode := by
  intro path v
  unfold decode
  split
  · exact .bind ((settled_endpoint _ _).mono nofun) fun x _ => .ok _
  · exact (blames_ofTriple path _).mono nofun
  · rename_i entries
    unfold ofObject
    split
    · rename_i key hfind
      rintro _ ⟨⟩ -
      have hnot : key ∉ fields := by simpa using List.find?_some hfind
      exact ⟨entries, key, rfl, List.mem_of_find?_eq_some hfind, hnot, rfl⟩
    · refine Blames.mono (P := fun _ => False) ?_ nofun
      refine .bind (blames_present settled_text _ _ _) fun kind _ => ?_
      split
      · exact .bind (blames_present settled_endpoint _ _ _) fun x _ => .ok _
      · refine .bind (blames_present settled_endpoint _ _ _) fun initial _ => ?_
        refine .bind (blames_present settled_endpoint _ _ _) fun final _ => ?_
        exact .bind (blames_windowOf _ _) fun window _ => blames_between _ _ _ _ _
  · exact .error nofun

theorem scans_decodeIn (range : Range) : Scans (decodeIn range) := by
  intro path v
  refine .bind (scans_decode path v) fun s _ => ?_
  unfold held
  split
  · exact .ok s
  · exact .error nofun

/-- A schedule, of which an outline says no more than that it is read. -/
theorem Scans.blames {d : Decoder Schedule} (h : Scans d) {keys : List String}
    {below : String → Value → Outline} {path : Path} {entries : Entries} {place : String} {v : Value}
    (hkey : place ∈ keys) (hplace : place ∈ places) (hv : entries.lookup place = some v)
    (hbelow : below place v = .value) :
    Blames (Outline.Stray (.object keys below) path (.object entries)) (d (path.key place) v) := by
  refine (h _ v).mono ?_
  rintro _ ⟨inner, key, rfl, hmem, hnot, rfl⟩
  exact .schedule hkey hplace hv hbelow hmem hnot

end Schedule

/-! ### The parts -/

/-- What is read of a section is what is asked for later, and the rest. -/
theorem subset_append_filter (keys later : List String) : keys ⊆ later ++ keys.filter (· ∉ later) := by
  intro key hkey
  by_cases h : key ∈ later
  · exact List.mem_append_left _ h
  · exact List.mem_append_right _ (List.mem_filter.mpr ⟨hkey, by simpa using h⟩)

section Parts

variable (policy : UnknownFields)

theorem Optimizer.strays_decode : Decoder.Strays outline (reading policy).decode := by
  have hmethod : Decoder.Settled Method.decode := by
    intro path v
    refine .bind (settled_text path v) fun name _ => ?_
    split
    · exact .ok _
    · exact .error nofun
  refine .section fun path entries => ?_
  refine .bind (.field hmethod.under) fun method _ _ => ?_
  refine .bind (.field fun v hv => (Schedule.scans_decodeIn _).blames (by simp) (by decide) hv rfl)
    fun rate _ _ => ?_
  refine .bind (.field? (settled_numberIn _ _).under) fun clip _ _ => ?_
  exact .bind (.close_section (by simp)) fun _ _ _ => .pure _ (List.nil_subset _)

theorem GpuRequest.strays_decode (available : Nat) :
    Decoder.Strays outline (decode available policy) := by
  have hreading : Decoder.Strays outline (reading policy).decode := by
    refine .section fun path entries => ?_
    refine .bind (.fieldD settled_boolean.under _) fun enabled _ _ => ?_
    refine .bind (.fieldD settled_count.under _) fun number _ _ => ?_
    refine .bind (.fieldD settled_boolean.under _) fun standIns _ _ => ?_
    exact .bind (.close_section (by simp)) fun _ _ _ => .pure _ (List.nil_subset _)
  intro path v
  refine .bind (hreading path v) fun request _ => fun f hf hcause => ?_
  obtain ⟨_, _, rfl⟩ | ⟨-, rfl | rfl⟩ := of_slots_eq_error hf <;> cases hcause

theorem Exploration.strays_wrapped : Decoder.Strays wrapperOutline (wrapped policy).decode := by
  refine .section fun path entries => ?_
  refine .bind (.field fun v hv => Schedule.scans_decode.blames (by simp) (by decide) hv rfl)
    fun schedule _ _ => ?_
  exact .bind (.close_section (by simp)) fun _ _ _ => .pure _ (List.nil_subset _)

theorem Exploration.blamesUnder_epsilonDecode {path : Path} {entries : Entries} :
    (epsilonDecode policy).BlamesUnder
      (Outline.Stray (.object ["epsilon_spec"] fun _ => epsilonOutline) path (.object entries)) path entries
      "epsilon_spec" := by
  intro v hv
  cases v with
  | object inner =>
    by_cases hwraps : "decay_spec" ∈ Entries.keys inner
    · have hout : epsilonOutline (.object inner) = wrapperOutline (.object inner) := if_pos hwraps
      simp only [epsilonDecode, if_pos hwraps]
      refine (strays_wrapped policy _ _).mono fun f hf => .inside List.mem_cons_self hv ?_
      rw [hout]
      exact hf
    · simp only [epsilonDecode, if_neg hwraps]
      exact Schedule.scans_decode.blames List.mem_cons_self (by decide) hv (if_neg hwraps)
  | _ => exact Schedule.scans_decode.blames List.mem_cons_self (by decide) hv rfl

theorem Exploration.strays_decode : Decoder.Strays outline (reading policy).decode := by
  refine .section fun path entries => ?_
  refine .bind (.placeOf _) fun place _ _ => ?_
  refine .bind (.field (blamesUnder_epsilonDecode policy)) fun epsilon _ _ => ?_
  refine .bind (.close_section (by simp)) fun _ _ _ => ?_
  refine .bind (.ensure nofun) fun _ _ _ => ?_
  exact .bind (.ensure nofun) fun _ _ _ => .pure _ (List.nil_subset _)

/-- When the kind of a memory is known, the keys of its name were asked for, and the capacity is left. -/
theorem Memory.blames_kindReading {P : Fault → Prop} (path : Path) (entries : Entries) :
    Reading.Blames P path entries [] kindReading ((keys entries).filter (· ∉ ["capacity"])) := by
  refine .bind (.field settled_text.under) fun name asked hname => ?_
  rw [Reading.outcome_field] at hname
  have htype : entries.text? "type" = some name := Section.text?_of_read hname
  split
  · exact .pure _ (by simp [keys, htype])
  · exact .pure _ (by simp [keys, htype])
  · refine .bind (.fieldD (settled_numberIn _ _).under _) fun alpha _ _ => ?_
    refine .bind (.fieldD (settled_numberIn _ _).under _) fun beta _ _ => ?_
    exact .pure _ (by simp [keys, htype])
  · exact .bind (.placeOf _) fun _ _ _ => .fail (by rintro ⟨⟩)

theorem Memory.strays_decode : Decoder.Strays outline (reading policy).decode := by
  have hcapacity : Decoder.Settled capacity? := by
    intro path v
    unfold capacity?
    split
    · exact .error nofun
    · exact .error nofun
    · exact .ok _
  refine .section fun path entries => ?_
  refine .bind (blames_kindReading path entries) fun kind _ _ => ?_
  refine .bind (.field hcapacity.under) fun capacity _ _ => ?_
  refine .bind (.close_section (subset_append_filter _ ["capacity"])) fun _ _ _ => ?_
  exact .pure _ (List.nil_subset _)

/-- The keys of a section about execution that are asked for after the strategy, last to first. -/
def Execution.laterKeys : List String :=
  ["enable_profiler", "disable_monitoring", "session_config", "default_device"]

/-- A map of devices is read where all of them are texts, and else refused for one that is not. -/
theorem Strategy.devicesOf_cases (path : Path) (entries : Entries) :
    ((∀ e ∈ entries, e.2.text?.isSome) ∧ Strategy.devicesOf path entries =
      .ok (entries.filterMap fun e => e.2.text?.map (Prod.mk e.1))) ∨
    ∃ e ∈ entries, e.2.text? = none ∧ Strategy.devicesOf path entries =
      .error (.invalid (path.key e.1) (.unexpectedIn "device" .text)) := by
  induction entries with
  | nil => exact .inl ⟨nofun, rfl⟩
  | cons e entries ih =>
    unfold Strategy.devicesOf at ih ⊢
    rw [List.mapM_cons]
    cases htext : e.2.text? with
    | none =>
      refine .inr ⟨e, List.mem_cons_self, htext, ?_⟩
      simp [Strategy.device, Decoder.orDefect, htext, bind, Except.bind]
    | some name =>
      rcases ih with ⟨hall, heq⟩ | ⟨e', hmem, hnone, heq⟩
      · refine .inl ⟨List.forall_mem_cons.mpr ⟨by rw [htext]; rfl, hall⟩, ?_⟩
        rw [heq]
        simp [Strategy.device, Decoder.orDefect, htext, bind, Except.bind, pure, Except.pure]
      · refine .inr ⟨e', List.mem_cons_of_mem e hmem, hnone, ?_⟩
        rw [heq]
        simp [Strategy.device, Decoder.orDefect, htext, bind, Except.bind, pure, Except.pure]

theorem Strategy.blamesUnder_deviceMap {keys : List String} {below : String → Value → Outline}
    {path : Path} {entries : Entries} (hkey : "device_map" ∈ keys) :
    deviceMap.BlamesUnder (Outline.Stray (.object keys below) path (.object entries)) path entries
      "device_map" := by
  intro v hv
  refine .bind ((settled_rest _ v).mono nofun) fun devices hdevices => ?_
  obtain rfl := Reading.decode_rest_eq_ok hdevices
  refine .bind ?_ fun names _ => ?_
  · rcases devicesOf_cases (path.key "device_map") devices with ⟨-, heq⟩ | ⟨e, hmem, hnone, heq⟩
    · rw [heq]
      exact .ok _
    · rw [heq]
      rintro _ ⟨⟩ -
      exact .device hkey hv hmem hnone
  · split
    · exact .error nofun
    · exact .ok _

theorem Execution.blames_strategy (available : Nat) (path : Path) (entries : Entries) :
    Reading.Blames (Outline.Stray (.object (keys entries) (partOutline entries)) path (.object entries))
      path entries ["seed"] (Strategy.reading available policy)
      ((keys entries).filter (· ∉ laterKeys)) := by
  refine .bind (.fieldD settled_text.under _) fun name asked hname => ?_
  rw [Reading.outcome_fieldD] at hname
  have hstrategy : strategyName? entries = some name := strategyName?_of_readD hname
  split
  · exact .bind (.field? settled_raw.under) fun _ _ _ => .pure _ (by simp [keys, hstrategy, laterKeys])
  · exact .bind (.field? settled_raw.under) fun _ _ _ => .pure _ (by simp [keys, hstrategy, laterKeys])
  · have hgpu : Decoder.Strays (partOutline entries "gpu_spec") (GpuRequest.decode available policy) := by
      have hout : partOutline entries "gpu_spec" = GpuRequest.outline := if_pos hstrategy
      rw [hout]
      exact GpuRequest.strays_decode policy available
    refine .bind (.field? (hgpu.under (by simp [keys, hstrategy]))) fun slots _ _ => ?_
    cases slots with
    | none => exact .bind (.placeOf _) fun _ _ _ => .fail (by rintro ⟨⟩)
    | some slots => exact .pure _ (by simp [keys, hstrategy, laterKeys])
  · refine .bind (.field? settled_raw.under) fun _ _ _ => ?_
    refine .bind (.field (Strategy.blamesUnder_deviceMap (by simp [keys, hstrategy]))) fun _ _ _ => ?_
    exact .pure _ (by simp [keys, hstrategy, laterKeys])
  · exact .bind (.placeOf _) fun _ _ _ => .fail (by rintro ⟨⟩)

theorem Execution.strays_decode (available : Nat) :
    Decoder.Strays outline (reading available policy).decode := by
  have hseed : Decoder.Settled seedDecode := fun path v =>
    .bind (settled_orDefect (not_goesByOrder_unexpectedIn _ _ (by decide)) path v) fun n _ => .ok _
  refine .section fun path entries => ?_
  refine .bind (.fieldD hseed.under _) fun seed _ _ => ?_
  refine .bind (blames_strategy policy available path entries) fun strategy _ _ => ?_
  refine .bind (.field? settled_text.under) fun defaultDevice _ _ => ?_
  refine .bind (.fieldD settled_rest.under _) fun session _ _ => ?_
  refine .bind (.fieldD settled_boolean.under _) fun unmonitored _ _ => ?_
  refine .bind (.fieldD settled_boolean.under _) fun profiled _ _ => ?_
  exact .bind (.close_section (subset_append_filter _ laterKeys)) fun _ _ _ => .pure _ (List.nil_subset _)

theorem Cadence.blames_roundsReading {P : Fault → Prop} (path : Path) (entries : Entries)
    (known : List String) (batch : Nat) :
    Reading.Blames P path entries known (roundsReading batch .iterative)
      ("sample_size" :: "num_iterations" :: known) := by
  refine .bind (.fieldD settled_interval.under _) fun number _ _ => ?_
  refine .bind (.fieldD settled_interval.under _) fun sample _ _ => ?_
  refine .bind (.placeOf _) fun place _ _ => .bind (.ensure nofun) fun _ _ _ => ?_
  exact .pure _ (List.Subset.refl _)

theorem Cadence.strays_decode (family : Family) (agent : String) (buffer : Option Nat) :
    Decoder.Strays outline (reading family agent buffer policy).decode := by
  have hmeasure : Decoder.Settled measureDecode := by
    intro path v
    refine .bind (settled_text path v) fun name _ => ?_
    split
    · exact .ok _
    · exact .ok _
    · exact .error nofun
  have hbatch := not_goesByOrder_unexpectedIn "batch_size" .positiveCount (by decide)
  refine .section fun path entries => ?_
  refine .bind (.forbid _ _) fun _ _ _ => ?_
  refine .bind (.fieldD hmeasure.under _) fun measure _ _ => ?_
  refine .bind (.fieldD settled_boolean.under _) fun enabled _ _ => ?_
  refine .bind (.field settled_interval.under) fun interval _ _ => ?_
  refine .bind (.field (settled_orDefect hbatch).under) fun batch _ _ => ?_
  refine .bind (.fieldD settled_count.under _) fun before _ _ => ?_
  -- One family asks for the keys that the other one forbids.
  cases family with
  | targetSync basis =>
    refine .bind (.bind (.field settled_interval.under) fun _ _ _ => .pure _ (List.Subset.refl _))
      fun sync _ _ => ?_
    refine .bind (.pure _ (List.Subset.refl _)) fun rounds _ _ => ?_
    exact .bind (.close_section (by simp [Family.foreign])) fun _ _ _ => .pure _ (List.nil_subset _)
  | iterative =>
    refine .bind (.pure _ (List.Subset.refl _)) fun sync _ _ => ?_
    refine .bind (blames_roundsReading _ _ _ batch) fun rounds _ _ => ?_
    exact .bind (.close_section (by simp [Family.foreign])) fun _ _ _ => .pure _ (List.nil_subset _)

theorem Agent.strays_bufferDecode :
    Decoder.Strays (.flat fun _ => ["buffer_size"]) (bufferReading policy).decode := by
  refine .section fun path entries => ?_
  refine .bind (.field? settled_count.under) fun size _ _ => ?_
  exact .bind (.close_section (by simp)) fun _ _ _ => .pure _ (List.nil_subset _)

/-! ### Lists of descriptors -/

theorem settled_descriptors {α : Type} {reading : List String → Reading α} {scope : α → Option String}
    (h : ∀ taken, Decoder.Settled (reading taken).decode) :
    Decoder.Settled (descriptors reading scope) := by
  have hfrom (path : Path) (items : List Value) (position : Nat) (taken : List String) :
      Blames (fun _ => False) (descriptorsFrom reading scope path position taken items) := by
    induction items generalizing position taken with
    | nil => exact .ok []
    | cons v items ih => exact .bind (h taken _ v) fun a _ => .bind (ih _ _) fun others _ => .ok _
  intro path v
  unfold descriptors
  split
  · exact hfrom path _ 0 []
  · exact .error nofun

theorem blames_scopeReading {P : Fault → Prop} (path : Path) (entries : Entries)
    (known taken : List String) : Reading.Blames P path entries known (scopeReading taken) known := by
  refine .bind (.field? settled_text.under) fun scope _ _ => ?_
  cases scope with
  | none => exact .pure _ (List.subset_cons_self _ _)
  | some name =>
    refine .bind (.placeOf _) fun place _ _ => .bind (.ensure nofun) fun _ _ _ => ?_
    exact .pure _ (List.subset_cons_self _ _)

/-- What nobody reads of a layer is passed on, so that it can be closed. -/
theorem Layer.settled_decode (taken : List String) : Decoder.Settled (reading taken).decode := by
  have hunits := not_goesByOrder_unexpectedIn "units" .positiveCount (by decide)
  refine .section fun path entries => ?_
  refine .bind (.field settled_text.under) fun kind _ _ => ?_
  refine .bind (.field? (settled_orDefect hunits).under) fun units _ _ => ?_
  refine .bind (.field? settled_text.under) fun activation _ _ => ?_
  refine .bind (blames_scopeReading _ _ _ taken) fun scope _ _ => ?_
  refine .bind (.rest entries.keys) fun params _ _ => ?_
  refine .bind (.close fun key hkey hnot => absurd hkey hnot) fun _ _ _ => ?_
  exact .pure _ (List.nil_subset _)

theorem Preprocessor.settled_decode (taken : List String) : Decoder.Settled (reading taken).decode := by
  refine .section fun path entries => ?_
  refine .bind (.field settled_text.under) fun kind _ _ => ?_
  refine .bind (blames_scopeReading _ _ _ taken) fun scope _ _ => ?_
  refine .bind (.rest entries.keys) fun params _ _ => ?_
  refine .bind (.close fun key hkey hnot => absurd hkey hnot) fun _ _ _ => ?_
  exact .pure _ (List.nil_subset _)

theorem Network.settled_decode : Decoder.Settled decode := by
  intro path v
  unfold decode
  split
  · exact .error nofun
  · exact .bind (settled_descriptors Layer.settled_decode path _) fun layers _ => .ok _

/-! ### Agents -/

namespace Agent

/-- Settings keep account of the fields that a type has to itself. -/
theorem blames_valueReading {keys : List String} {path : Path} {entries : Entries} (known : List String)
    (hkeys : Kind.valueFields ⊆ keys) :
    Reading.Blames (Outline.Stray (.object keys fun key => partOutline key) path (.object entries)) path
      entries known (valueReading policy) (Kind.valueFields ++ known) := by
  have hkey {key : String} (hmem : key ∈ Kind.valueFields) : key ∈ keys := hkeys hmem
  refine .bind (.fieldD settled_interval.under _) fun steps _ _ => ?_
  refine .bind (.field? ((Exploration.strays_decode policy).under (hkey (by decide))))
    fun exploration _ _ => ?_
  refine .bind (.fieldD settled_boolean.under _) fun dueling _ _ => ?_
  refine .bind (.fieldD settled_boolean.under _) fun double _ _ => ?_
  refine .bind (.fieldD settled_boolean.under _) fun huber _ _ => .pure _ fun key hmem => ?_
  simp only [Kind.valueFields, List.mem_append, List.mem_cons] at hmem ⊢
  grind

theorem blames_policyReading {keys : List String} {path : Path} {entries : Entries} (known : List String)
    (hkeys : Kind.policyFields ⊆ keys) :
    Reading.Blames (Outline.Stray (.object keys fun key => partOutline key) path (.object entries)) path
      entries known (policyReading policy) (Kind.policyFields ++ known) := by
  have hkey {key : String} (hmem : key ∈ Kind.policyFields) : key ∈ keys := hkeys hmem
  have hschedule (range : Range) {place : String} (hmem : place ∈ Kind.policyFields)
      (hplace : place ∈ Schedule.places) (hbelow : ∀ v, partOutline place v = .value) :
      (Schedule.decodeIn range).BlamesUnder
        (Outline.Stray (.object keys fun key => partOutline key) path (.object entries)) path entries
        place := fun v hv => (Schedule.scans_decodeIn range).blames (hkey hmem) hplace hv (hbelow v)
  refine .bind (.fieldD (hschedule _ (by decide) (by decide) fun _ => rfl) _) fun clipRatio _ _ => ?_
  refine .bind (.fieldD (settled_numberIn _ _).under _) fun gaeLambda _ _ => ?_
  refine .bind (.field? (hschedule _ (by decide) (by decide) fun _ => rfl)) fun entropyWeight _ _ => ?_
  refine .bind (.field? Network.settled_decode.under) fun valueNetwork _ _ => ?_
  refine .bind (.field? ((Optimizer.strays_decode policy).under (hkey (by decide)))) fun optimizer _ _ => ?_
  refine .bind (.placeOf _) fun place _ _ => .bind (.ensure nofun) fun _ _ _ => ?_
  refine .bind (.fieldD settled_boolean.under _) fun standardize _ _ => ?_
  refine .bind (.fieldD settled_boolean.under _) fun wholeEpisodes _ _ => .pure _ fun key hmem => ?_
  simp only [Kind.policyFields, List.mem_append, List.mem_cons] at hmem ⊢
  grind

theorem blames_variantReading {keys : List String} {path : Path} {entries : Entries}
    (known : List String) (memory : Memory) {kind : Kind} (hkeys : kind.ownFields ⊆ keys) :
    Reading.Blames (Outline.Stray (.object keys fun key => partOutline key) path (.object entries)) path
      entries known (variantReading policy memory kind) (kind.ownFields ++ known) := by
  cases kind with
  | dqn =>
    exact .bind (blames_valueReading policy known hkeys) fun _ _ _ => .pure _ (List.Subset.refl _)
  | apex =>
    refine .bind (.placeOf _) fun place _ _ => .bind (.ensure nofun) fun _ _ _ => ?_
    exact .bind (blames_valueReading policy known hkeys) fun _ _ _ => .pure _ (List.Subset.refl _)
  | ppo =>
    exact .bind (blames_policyReading policy known hkeys) fun _ _ _ => .pure _ (List.Subset.refl _)

/-- **Faults that go by the order of keys are at stray entries** of the document. -/
theorem strays_decode (options : Options) (document : Value) :
    Blames (Outline.Stray (outline document) .root document) (decode options document) := by
  have hkind : Decoder.Settled Kind.decode := by
    intro path v
    refine .bind (settled_text path v) fun name _ => ?_
    split
    · exact .ok _
    · exact .error nofun
  have hnetworks : Decoder.Settled Preprocessor.decodeAll := settled_descriptors Preprocessor.settled_decode
  have hreading : Decoder.Strays outline (reading options).decode := by
    refine .section fun path entries => ?_
    refine .bind (.field hkind.under) fun kind asked hkind => ?_
    rw [Reading.outcome_field] at hkind
    have hkeys : keys entries = "type" :: (partKeys ++ kind.ownFields ++ kind.foreignFields) :=
      keys_eq_of_kind hkind
    have hpart {key : String} (hmem : key ∈ partKeys) : key ∈ keys entries := by simp [hkeys, hmem]
    have hown : kind.ownFields ⊆ keys entries := fun key hmem => by simp [hkeys, hmem]
    refine .bind (.forbid _ _) fun _ _ _ => ?_
    refine .bind (.field ((Memory.strays_decode _).under (hpart (by decide)))) fun memory _ _ => ?_
    refine .bind (.fieldD hnetworks.under _) fun preprocessing _ _ => ?_
    refine .bind (.field Network.settled_decode.under) fun network _ _ => ?_
    refine .bind (.field ((Optimizer.strays_decode _).under (hpart (by decide)))) fun optimizer _ _ => ?_
    refine .bind (.fieldD ((Execution.strays_decode _ _).under (hpart (by decide))) _)
      fun execution _ _ => ?_
    refine .bind (.fieldD ((strays_bufferDecode _).under (hpart (by decide))) _) fun buffer _ _ => ?_
    refine .bind (.field ((Cadence.strays_decode _ _ _ _).under (hpart (by decide)))) fun cadence _ _ => ?_
    refine .bind (.fieldD (settled_numberIn _ _).under _) fun discount _ _ => ?_
    refine .bind (blames_variantReading _ _ memory hown) fun variant _ _ => ?_
    refine .bind (.close_section ?_) fun _ _ _ => ?_
    · rw [hkeys]
      intro key hmem
      simp only [partKeys, List.mem_append, List.mem_cons] at hmem ⊢
      grind
    · refine .bind (.ofExcept ?_) fun warnings _ _ => .pure _ (List.nil_subset _)
      unfold checked
      split
      · exact .error nofun
      · exact .ok _
  exact hreading .root document

end Agent

end Parts

end Regimen
