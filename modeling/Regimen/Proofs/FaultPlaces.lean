import Regimen.Proofs.Location
import Regimen.Proofs.WellFormed

/-!
# Faults of documents

**Whatever is wrong with a document that is an object, the fault locates it** (`locates_of_decode`);
what is no object is refused as a whole. Each decoder is followed along its definition. Where a fault
names a field that was read before, that field is there because something was read from it, and the
faults of a field that has a default are out of reach unless the field is there.
-/

namespace Regimen

open Decoder (locates_orDefect locates_numberIn locates_interval locates_raw)

/-! ### Schedules -/

namespace Schedule

theorem locates_endpoint : Decoder.Locates endpoint := by
  intro path v _
  unfold endpoint
  split
  · split
    · exact .ok _
    · exact .error (.here nofun)
  · exact .error (.here nofun)

theorem located_between {path : Path} {v : Value} (kind : String) (initial final : Float)
    (window : Option Window) : Located path v (between path kind initial final window) := by
  unfold between
  split
  · split
    · exact .ok _
    · exact .error (.here nofun)
  · split
    · exact .error (.here nofun)
    · split
      · exact .error (.here nofun)
      · exact .ok _

theorem located_ofTriple {path : Path} (hpath : path.text ≠ "") (items : List Value) :
    Located path (.list items) (ofTriple path items) := by
  unfold ofTriple
  split
  · refine .bind (.below_element rfl (locates_orDefect _ _ (path.text_element_ne_empty hpath 0)))
      fun kind _ => ?_
    refine .bind (.below_element rfl (locates_endpoint (path.text_element_ne_empty hpath 1)))
      fun initial _ => ?_
    refine .bind (.below_element rfl (locates_endpoint (path.text_element_ne_empty hpath 2)))
      fun final _ => ?_
    exact located_between _ _ _ _
  · exact .error (.here nofun)

theorem located_present {α : Type} {path : Path} {entries : Entries} {key : String} (hkey : key ≠ "")
    {decode : Decoder α} (hd : decode.Locates) :
    Located path (.object entries) (present path entries key decode) := by
  unfold present
  split
  · rename_i v hv
    exact .below_key hv (hd (path.text_key_ne_empty hkey))
  · rename_i hnone
    exact .error (.missing (.inl hnone))

theorem located_windowOf {path : Path} (entries : Entries) :
    Located path (.object entries) (windowOf path entries) := by
  have hlength {v : Value} (hv : entries.lookup "num_timesteps" = some v) :
      Located path (.object entries) (Decoder.interval (path.key "num_timesteps") v) :=
    .below_key hv (locates_interval (path.text_key_ne_empty (by decide)))
  unfold windowOf
  split
  · exact .ok none
  · rename_i hstart
    exact .error (.field nofun hstart)
  · rename_i hv _
    exact .bind (hlength hv) fun _ _ => .ok _
  · rename_i hv hstart
    refine .bind (hlength hv) fun length _ => ?_
    refine .bind (.below_key hstart (locates_orDefect _ _ (path.text_key_ne_empty (by decide)))) ?_
    exact fun start _ => .ok _

theorem located_ofObject {path : Path} (entries : Entries) :
    Located path (.object entries) (ofObject path entries) := by
  unfold ofObject
  split
  · rename_i key hkey
    exact .error (.of_mem nofun (List.mem_of_find?_eq_some hkey))
  · refine .bind (located_present (by decide) (locates_orDefect _ _)) fun kind _ => ?_
    split
    · exact .bind (located_present (by decide) locates_endpoint) fun _ _ => .ok _
    · refine .bind (located_present (by decide) locates_endpoint) fun initial _ => ?_
      refine .bind (located_present (by decide) locates_endpoint) fun final _ => ?_
      exact .bind (located_windowOf entries) fun window _ => located_between _ _ _ _

theorem locates_decode : Decoder.Locates decode := by
  intro path v hpath
  unfold decode
  split
  · exact .bind (locates_endpoint hpath) fun _ _ => .ok _
  · exact located_ofTriple hpath _
  · exact located_ofObject _
  · exact .error (.here nofun)

theorem locates_decodeIn (range : Range) : Decoder.Locates (decodeIn range) := by
  intro path v hpath
  refine .bind (locates_decode hpath) fun s _ => ?_
  unfold held
  split
  · exact .ok s
  · exact .error (.here nofun)

end Schedule

/-! ### Settings -/

theorem Memory.locates_kindReading {path : Path} (entries : Entries) :
    kindReading.Locates path entries := by
  refine .bind (.field (by decide) (locates_orDefect _ _)) fun name asked hname => ?_
  rw [Reading.outcome_field] at hname
  split
  · exact .pure _
  · exact .pure _
  · refine .bind (.fieldD (by decide) (locates_numberIn _ _) _) fun alpha _ _ => ?_
    exact .bind (.fieldD (by decide) (locates_numberIn _ _) _) fun beta _ _ => .pure _
  · obtain ⟨v, hv⟩ := Section.lookup_of_read hname
    exact .placeOf_bind (.fail (.field nofun hv))

theorem Memory.locates_capacity? : Decoder.Locates capacity? := by
  intro path v _
  unfold capacity?
  split
  · exact .error (.here nofun)
  · exact .error (.here nofun)
  · exact .ok _

theorem Memory.locates_decode (policy : UnknownFields) : Decoder.Locates (reading policy).decode := by
  refine .section fun path entries _ => ?_
  refine .bind (locates_kindReading entries) fun kind _ _ => ?_
  refine .bind (.field (by decide) locates_capacity?) fun capacity _ _ => ?_
  exact .bind (.close policy) fun _ _ _ => .pure _

theorem Optimizer.Method.locates_decode : Decoder.Locates Method.decode := by
  intro path v hpath
  refine .bind (locates_orDefect _ _ hpath) fun name _ => ?_
  split
  · exact .ok _
  · exact .error (.here nofun)

theorem Optimizer.locates_decode (policy : UnknownFields) : Decoder.Locates (reading policy).decode := by
  refine .section fun path entries _ => ?_
  refine .bind (.field (by decide) Method.locates_decode) fun method _ _ => ?_
  refine .bind (.field (by decide) (Schedule.locates_decodeIn _)) fun rate _ _ => ?_
  refine .bind (.field? (by decide) (locates_numberIn _ _)) fun clip _ _ => ?_
  exact .bind (.close policy) fun _ _ _ => .pure _

theorem Exploration.locates_epsilonDecode (policy : UnknownFields) :
    Decoder.Locates (epsilonDecode policy) := by
  have hwrapped : Decoder.Locates (wrapped policy).decode := by
    refine .section fun path entries _ => ?_
    refine .bind (.field (by decide) Schedule.locates_decode) fun schedule _ _ => ?_
    exact .bind (.close policy) fun _ _ _ => .pure _
  intro path v hpath
  unfold epsilonDecode
  split
  · split
    · exact hwrapped hpath
    · exact Schedule.locates_decode hpath
  · exact Schedule.locates_decode hpath

/-- The checks on epsilon come after it was read, so that it is there. -/
theorem Exploration.locates_decode (policy : UnknownFields) :
    Decoder.Locates (reading policy).decode := by
  refine .section fun path entries _ => .placeOf_bind ?_
  refine .bind (.field (by decide) (locates_epsilonDecode policy)) fun epsilon asked hepsilon => ?_
  rw [Reading.outcome_field] at hepsilon
  obtain ⟨v, hv⟩ := Section.lookup_of_read hepsilon
  refine .bind (.close policy) fun _ _ _ => ?_
  refine .bind (.ensure fun _ => .field nofun hv) fun _ _ _ => ?_
  exact .bind (.ensure fun _ => .field nofun hv) fun _ _ _ => .pure _

/-! ### Lists of descriptors -/

theorem locates_scopeReading {path : Path} (entries : Entries) (taken : List String) :
    (scopeReading taken).Locates path entries := by
  refine .bind (.field? (by decide) (locates_orDefect _ _)) fun scope asked hscope => ?_
  rw [Reading.outcome_field?] at hscope
  cases scope with
  | none => exact .pure _
  | some name =>
    obtain ⟨v, hv⟩ := Section.lookup_of_read? hscope
    exact .placeOf_bind (.bind (.ensure fun _ => .field nofun hv) fun _ _ _ => .pure _)

section Descriptors

variable {α : Type} {reading : List String → Reading α} {scope : α → Option String}

/-- The descriptors that are left are those after the ones before, in the whole list. -/
theorem located_descriptorsFrom (h : ∀ taken path entries, path.text ≠ "" →
      (reading taken).Locates path entries) {path : Path} (hpath : path.text ≠ "")
    (before rest : List Value) (taken : List String) :
    Located path (.list (before ++ rest))
      (descriptorsFrom reading scope path before.length taken rest) := by
  induction rest generalizing before taken with
  | nil => exact .ok []
  | cons v rest ih =>
    have hitem : (before ++ v :: rest)[before.length]? = some v := by simp
    refine .bind (.below_item hpath hitem ?_) fun a _ => ?_
    · exact Decoder.Locates.section (h taken) (path.text_item_ne_empty _)
    · have hrest := ih (before ++ [v]) ((scope a).toList ++ taken)
      rw [List.append_assoc, List.length_append] at hrest
      exact .bind hrest fun others _ => .ok _

theorem locates_descriptors (h : ∀ taken path entries, path.text ≠ "" →
    (reading taken).Locates path entries) : Decoder.Locates (descriptors reading scope) := by
  intro path v hpath
  unfold descriptors
  split
  · exact located_descriptorsFrom h hpath [] _ []
  · exact .error (.here nofun)

end Descriptors

theorem Layer.locates_reading (taken : List String) (path : Path) (entries : Entries) :
    (Layer.reading taken).Locates path entries := by
  refine .bind (.field (by decide) (locates_orDefect _ _)) fun kind _ _ => ?_
  refine .bind (.field? (by decide) (locates_orDefect _ _)) fun units _ _ => ?_
  refine .bind (.field? (by decide) (locates_orDefect _ _)) fun activation _ _ => ?_
  refine .bind (locates_scopeReading entries taken) fun scope _ _ => ?_
  refine .bind .rest fun params _ _ => ?_
  exact .bind (.close _) fun _ _ _ => .pure _

theorem Preprocessor.locates_reading (taken : List String) (path : Path) (entries : Entries) :
    (Preprocessor.reading taken).Locates path entries := by
  refine .bind (.field (by decide) (locates_orDefect _ _)) fun kind _ _ => ?_
  refine .bind (locates_scopeReading entries taken) fun scope _ _ => ?_
  refine .bind .rest fun params _ _ => ?_
  exact .bind (.close _) fun _ _ _ => .pure _

theorem Network.locates_decode : Decoder.Locates Network.decode := by
  intro path v hpath
  unfold Network.decode
  split
  · exact .error (.here nofun)
  · refine .bind (locates_descriptors ?_ hpath) fun layers _ => .ok _
    exact fun taken path entries _ => Layer.locates_reading taken path entries

theorem Preprocessor.locates_decodeAll : Decoder.Locates Preprocessor.decodeAll :=
  locates_descriptors fun taken path entries _ => Preprocessor.locates_reading taken path entries

/-! ### Execution -/

theorem GpuRequest.locates_decode (available : Nat) (policy : UnknownFields) :
    Decoder.Locates (decode available policy) := by
  have hreading : Decoder.Locates (reading policy).decode := by
    refine .section fun path entries _ => ?_
    refine .bind (.fieldD (by decide) (locates_orDefect _ _) _) fun enabled _ _ => ?_
    refine .bind (.fieldD (by decide) (locates_orDefect _ _) _) fun number _ _ => ?_
    refine .bind (.fieldD (by decide) (locates_orDefect _ _) _) fun standIns _ _ => ?_
    exact .bind (.close policy) fun _ _ _ => .pure _
  intro path v hpath
  refine .bind (hreading hpath) fun request hrequest => fun f hf => ?_
  obtain ⟨_, _, rfl⟩ | ⟨hnumber, hf⟩ := of_slots_eq_error hf
  · exact .devices _
  · obtain ⟨entries, w, rfl, hw⟩ := lookup_of_decode hrequest hnumber
    obtain rfl | rfl := hf <;> exact .field nofun hw

/-- Settings that are passed on unread have to be an object. -/
theorem locates_rest : Decoder.Locates Reading.rest.decode := .section fun _ _ _ => .rest

theorem Strategy.located_devicesOf {path : Path} (entries : Entries) :
    Located path (.object entries) (devicesOf path entries) := by
  refine .mapM fun (scope, v) hmem => .bind ?_ fun name _ => .ok _
  unfold device Decoder.orDefect
  split
  · exact .ok _
  · exact .error (.of_mem nofun (List.mem_map_of_mem hmem))

theorem Strategy.locates_deviceMap : Decoder.Locates deviceMap := by
  intro path v hpath
  refine .bind (locates_rest hpath) fun entries hentries => ?_
  obtain rfl := Reading.decode_rest_eq_ok hentries
  refine .bind (located_devicesOf entries) fun devices _ => ?_
  split
  · exact .error (.here nofun)
  · exact .ok _

/-- The name of a strategy that is not supported is none that was taken for granted. -/
theorem Strategy.locates_reading (available : Nat) (policy : UnknownFields) (path : Path)
    (entries : Entries) : (reading available policy).Locates path entries := by
  refine .bind (.fieldD (by decide) (locates_orDefect _ _) _) fun name asked hname => ?_
  rw [Reading.outcome_fieldD] at hname
  split
  · exact .bind (.field? (by decide) locates_raw) fun _ _ _ => .pure _
  · exact .bind (.field? (by decide) locates_raw) fun _ _ _ => .pure _
  · refine .bind (.field? (by decide) (GpuRequest.locates_decode available policy)) fun slots _ _ => ?_
    cases slots with
    | none => exact .placeOf_bind (.fail (.devices _))
    | some slots => exact .pure _
  · refine .bind (.field? (by decide) locates_raw) fun _ _ _ => ?_
    exact .bind (.field (by decide) locates_deviceMap) fun _ _ _ => .pure _
  · rename_i hsingle _ _ _
    obtain ⟨v, hv⟩ := Section.lookup_of_readD hname hsingle
    exact .placeOf_bind (.fail (.field nofun hv))

theorem Execution.locates_decode (available : Nat) (policy : UnknownFields) :
    Decoder.Locates (reading available policy).decode := by
  have hseed : Decoder.Locates seedDecode := fun path v hpath =>
    .bind (locates_orDefect _ _ hpath) fun _ _ => .ok _
  refine .section fun path entries _ => ?_
  refine .bind (.fieldD (by decide) hseed _) fun seed _ _ => ?_
  refine .bind (Strategy.locates_reading available policy path entries) fun strategy _ _ => ?_
  refine .bind (.field? (by decide) (locates_orDefect _ _)) fun defaultDevice _ _ => ?_
  refine .bind (.fieldD (by decide) locates_rest _) fun session _ _ => ?_
  refine .bind (.fieldD (by decide) (locates_orDefect _ _) _) fun unmonitored _ _ => ?_
  refine .bind (.fieldD (by decide) (locates_orDefect _ _) _) fun profiled _ _ => ?_
  exact .bind (.close policy) fun _ _ _ => .pure _

/-! ### Cadences -/

namespace Cadence

theorem locates_measureDecode : Decoder.Locates measureDecode := by
  intro path v hpath
  refine .bind (locates_orDefect _ _ hpath) fun name _ => ?_
  split
  · exact .ok _
  · exact .ok _
  · exact .error (.here nofun)

/-- A sample that is greater than the batch is not the default, which is the batch. -/
theorem locates_roundsReading {path : Path} (entries : Entries) (batch : Nat) (family : Family) :
    (roundsReading batch family).Locates path entries := by
  cases family with
  | targetSync basis => exact .pure _
  | iterative =>
    refine .bind (.fieldD (by decide) locates_interval _) fun number _ _ => ?_
    refine .bind (.fieldD (by decide) locates_interval _) fun sample asked hsample => ?_
    rw [Reading.outcome_fieldD] at hsample
    refine .placeOf_bind (.bind (.ensure fun hexceeds => ?_) fun _ _ _ => .pure _)
    have hne : sample ≠ batch := fun heq => hexceeds (Nat.le_of_eq heq)
    obtain ⟨v, hv⟩ := Section.lookup_of_readD hsample hne
    exact .field nofun hv

theorem locates_decode (family : Family) (agent : String) (buffer : Option Nat)
    (policy : UnknownFields) : Decoder.Locates (reading family agent buffer policy).decode := by
  refine .section fun path entries _ => ?_
  refine .bind (.forbid _ _) fun _ _ _ => ?_
  refine .bind (.fieldD (by decide) locates_measureDecode _) fun measure _ _ => ?_
  refine .bind (.fieldD (by decide) (locates_orDefect _ _) _) fun enabled _ _ => ?_
  refine .bind (.field (by decide) locates_interval) fun interval _ _ => ?_
  refine .bind (.field (by decide) (locates_orDefect _ _)) fun batch _ _ => ?_
  refine .bind (.fieldD (by decide) (locates_orDefect _ _) _) fun before _ _ => ?_
  refine .bind ?_ fun targetSync _ _ => ?_
  · cases family with
    | targetSync basis => exact .bind (.field (by decide) locates_interval) fun _ _ _ => .pure _
    | iterative => exact .pure _
  · refine .bind (locates_roundsReading entries batch family) fun rounds _ _ => ?_
    exact .bind (.close policy) fun _ _ _ => .pure _

end Cadence

/-! ### Agents -/

namespace Agent

theorem Kind.locates_decode : Decoder.Locates Kind.decode := by
  intro path v hpath
  refine .bind (locates_orDefect _ _ hpath) fun name _ => ?_
  split
  · exact .ok _
  · exact .error (.here nofun)

theorem locates_bufferDecode (policy : UnknownFields) :
    Decoder.Locates (bufferReading policy).decode := by
  refine .section fun path entries _ => ?_
  refine .bind (.field? (by decide) (locates_orDefect _ _)) fun size _ _ => ?_
  exact .bind (.close policy) fun _ _ _ => .pure _

theorem locates_valueReading (policy : UnknownFields) (path : Path) (entries : Entries) :
    (valueReading policy).Locates path entries := by
  refine .bind (.fieldD (by decide) locates_interval _) fun steps _ _ => ?_
  refine .bind (.field? (by decide) (Exploration.locates_decode policy)) fun exploration _ _ => ?_
  refine .bind (.fieldD (by decide) (locates_orDefect _ _) _) fun dueling _ _ => ?_
  refine .bind (.fieldD (by decide) (locates_orDefect _ _) _) fun double _ _ => ?_
  exact .bind (.fieldD (by decide) (locates_orDefect _ _) _) fun huber _ _ => .pure _

/-- An optimizer without a network is there, as it was read. -/
theorem locates_policyReading (policy : UnknownFields) (path : Path) (entries : Entries) :
    (policyReading policy).Locates path entries := by
  refine .bind (.fieldD (by decide) (Schedule.locates_decodeIn _) _) fun clipRatio _ _ => ?_
  refine .bind (.fieldD (by decide) (locates_numberIn _ _) _) fun gaeLambda _ _ => ?_
  refine .bind (.field? (by decide) (Schedule.locates_decodeIn _)) fun entropyWeight _ _ => ?_
  refine .bind (.field? (by decide) Network.locates_decode) fun valueNetwork _ _ => ?_
  refine .bind (.field? (by decide) (Optimizer.locates_decode policy)) fun optimizer asked hoptimizer => ?_
  rw [Reading.outcome_field?] at hoptimizer
  refine .placeOf_bind (.bind (.ensure fun hlone => ?_) fun _ _ _ => ?_)
  · cases optimizer with
    | none => exact absurd nofun hlone
    | some optimizer =>
      obtain ⟨v, hv⟩ := Section.lookup_of_read? hoptimizer
      exact .field nofun hv
  · refine .bind (.fieldD (by decide) (locates_orDefect _ _) _) fun standardize _ _ => ?_
    exact .bind (.fieldD (by decide) (locates_orDefect _ _) _) fun wholeEpisodes _ _ => .pure _

/-- The type of a memory that was read stands in the document. -/
theorem lookup_type_of_memory {policy : UnknownFields} {s : Section} {memory : Memory}
    (h : s.read "memory_spec" (Memory.reading policy).decode = .ok memory) :
    ∃ inner v, s.entries.lookup "memory_spec" = some (.object inner) ∧ inner.lookup "type" = some v := by
  obtain ⟨inner, t, hlookup, hrun⟩ := Reading.run_of_read_decode h
  obtain ⟨kind, u, hkind, -⟩ := Attempt.run_bind_eq_ok_iff.mp hrun
  obtain ⟨name, hname, -⟩ := Reading.of_run_field_bind hkind
  obtain ⟨v, hv⟩ := Section.lookup_of_read hname
  exact ⟨inner, v, hlookup, hv⟩

/-- The batch of a cadence that was read stands in the document. -/
theorem lookup_batch_of_cadence {family : Cadence.Family} {agent : String} {buffer : Option Nat}
    {policy : UnknownFields} {s : Section} {cadence : Cadence}
    (h : s.read "update_spec" (Cadence.reading family agent buffer policy).decode = .ok cadence) :
    ∃ inner v, s.entries.lookup "update_spec" = some (.object inner) ∧
      inner.lookup "batch_size" = some v := by
  obtain ⟨inner, t, hlookup, hrun⟩ := Reading.run_of_read_decode h
  obtain ⟨-, hrun⟩ := Reading.of_run_forbid_bind hrun
  obtain ⟨measure, -, hrun⟩ := Reading.of_run_fieldD_bind hrun
  obtain ⟨enabled, -, hrun⟩ := Reading.of_run_fieldD_bind hrun
  obtain ⟨interval, -, hrun⟩ := Reading.of_run_field_bind hrun
  obtain ⟨batch, hbatch, -⟩ := Reading.of_run_field_bind hrun
  obtain ⟨v, hv⟩ := Section.lookup_of_read hbatch
  exact ⟨inner, v, hlookup, hv⟩

theorem locates_variantReading (policy : UnknownFields) (memory : Memory) (kind : Kind) {path : Path}
    {entries inner : Entries} {v : Value} (hmemory : entries.lookup "memory_spec" = some (.object inner))
    (htype : inner.lookup "type" = some v) :
    (variantReading policy memory kind).Locates path entries := by
  cases kind with
  | dqn => exact .bind (locates_valueReading policy path entries) fun _ _ _ => .pure _
  | apex =>
    refine .placeOf_bind (.bind (.ensure fun _ => ?_) fun _ _ _ => ?_)
    · exact .below_key hmemory (.field nofun htype)
    · exact .bind (locates_valueReading policy path entries) fun _ _ _ => .pure _
  | ppo => exact .bind (locates_policyReading policy path entries) fun _ _ _ => .pure _

/-- The checks at the end know where a document begins. -/
theorem locates_reading (options : Options) (entries : Entries) :
    (reading options).Locates .root entries := by
  refine .bind (.field (by decide) Kind.locates_decode) fun kind _ _ => ?_
  refine .bind (.forbid _ _) fun _ _ _ => ?_
  refine .bind (.field (by decide) (Memory.locates_decode _)) fun memory asked hmemory => ?_
  rw [Reading.outcome_field] at hmemory
  obtain ⟨inner, type, hlookup, htype⟩ := lookup_type_of_memory hmemory
  refine .bind (.fieldD (by decide) Preprocessor.locates_decodeAll _) fun preprocessing _ _ => ?_
  refine .bind (.field (by decide) Network.locates_decode) fun network _ _ => ?_
  refine .bind (.field (by decide) (Optimizer.locates_decode _)) fun optimizer _ _ => ?_
  refine .bind (.fieldD (by decide) (Execution.locates_decode _ _) _) fun execution _ _ => ?_
  refine .bind (.fieldD (by decide) (locates_bufferDecode _) _) fun buffer _ _ => ?_
  refine .bind (.field (by decide) (Cadence.locates_decode _ _ _ _)) fun cadence asked hcadence => ?_
  rw [Reading.outcome_field] at hcadence
  obtain ⟨update, batch, hupdate, hbatch⟩ := lookup_batch_of_cadence hcadence
  refine .bind (.fieldD (by decide) (locates_numberIn _ _) _) fun discount _ _ => ?_
  refine .bind (locates_variantReading _ memory kind hlookup htype) fun variant _ _ => ?_
  refine .bind (.close _) fun _ _ _ => ?_
  refine .bind (.ofExcept ?_) fun warnings _ _ => .pure _
  unfold checked
  split
  · exact .error (.below_key hupdate (.field nofun hbatch))
  · exact .ok _

/-- **Every fault locates what is wrong.** If a document that is an object is refused, the fault is at
a place whose text is made of keys and positions, with points between them, and these lead to a value
of the document; where a field is missing, to the object that it is missing from. Any other document
is refused as a whole. -/
theorem locates_of_decode (options : Options) (document : Value) :
    (∀ entries, document = .object entries → ∀ f, decode options document = .error f →
      f.Locates .root document) ∧
    ((∀ entries, document ≠ .object entries) →
      decode options document = .error (.invalid (.named "<document>") (.unexpected .object))) := by
  refine ⟨?_, fun hnot => ?_⟩
  · rintro entries rfl
    exact (locates_reading options entries).located []
  · cases document with
    | object entries => exact absurd rfl (hnot entries)
    | _ => rfl

/-- An agent whose two layers have one scope. -/
def twins : Value := .object [
  ("type", .text "dqn"),
  ("memory_spec", .object [("type", .text "replay"), ("capacity", .number (.integer 16))]),
  ("network_spec", .list [
    .object [("type", .text "dense"), ("scope", .text "hidden")],
    .object [("type", .text "dense"), ("scope", .text "hidden")]])]

theorem locates_of_decode_twins :
    (∃ f, decode .standard twins = .error f ∧ f.path.text = "network_spec.1.scope" ∧
      f.Locates .root twins) ∧
    decode .standard .null = .error (.invalid (.named "<document>") (.unexpected .object)) :=
  ⟨⟨_, rfl, rfl, (locates_of_decode .standard twins).1 _ rfl _ rfl⟩,
    (locates_of_decode .standard .null).2 nofun⟩

end Agent

end Regimen
