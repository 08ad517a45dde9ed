import Regimen.Proofs.Reading

/-!
# Where faults are

A fault names a place, and the text of the place is all that a reader of the message has to go by.
`Fault.Locates` says what it is good for: the text is made of some steps, and **the steps lead to what
the fault is about** (`Cause.Fits`). A field that is missing cannot be reached, but the object that it
is missing from can; and whoever has too few devices may be told of a field that is not there.

Computations that locate their faults are put together as those with other properties are, with one
rule for every way to do so.
-/

namespace Regimen

/-! ### Steps and their written form -/

/-- How a step is written. -/
def Step.name : Step → String
  | key name => name
  | element position | item position => toString position

/-- The text of the place to which some steps lead, below a place with a text. -/
def rendered (text : String) (steps : List Step) : String := (steps.map Step.name).foldl joined text

theorem rendered_key (path : Path) (name : String) (steps : List Step) :
    rendered path.text (.key name :: steps) = rendered (path.key name).text steps := by
  rw [Path.text_key]
  rfl

theorem rendered_element (path : Path) (position : Nat) (steps : List Step) :
    rendered path.text (.element position :: steps) = rendered (path.element position).text steps := by
  rw [Path.text_element]
  rfl

/-- An item is written with a point before it, which is the same unless nothing stands before. -/
theorem rendered_item {path : Path} (hpath : path.text ≠ "") (position : Nat) (steps : List Step) :
    rendered path.text (.item position :: steps) = rendered (path.item position).text steps := by
  have hjoined : joined path.text (toString position) = path.text ++ "." ++ toString position :=
    if_neg hpath
  rw [Path.text_item, ← hjoined]
  rfl

theorem append_ne_empty (s t : String) : s ++ "." ++ t ≠ "" := by
  intro h
  simpa using congrArg String.length h

theorem Path.text_key_ne_empty {name : String} (h : name ≠ "") (path : Path) :
    (path.key name).text ≠ "" := by
  rw [text_key, joined]
  split
  · exact h
  · exact append_ne_empty _ _

theorem Path.text_element_ne_empty {path : Path} (h : path.text ≠ "") (position : Nat) :
    (path.element position).text ≠ "" := by
  rw [text_element, joined, if_neg h]
  exact append_ne_empty _ _

theorem Path.text_item_ne_empty (path : Path) (position : Nat) : (path.item position).text ≠ "" := by
  rw [text_item]
  exact append_ne_empty _ _

/-! ### What steps lead to -/

/-- **Steps fit a cause**: they lead to what it is about. -/
def Cause.Fits (steps : List Step) (v : Value) : Cause → Prop
  | .missing => ∃ above key entries, steps = above ++ [.key key] ∧ v.at? above = some (.object entries) ∧
      (entries.lookup key = none ∨ entries.lookup key = some .null)
  | .devices _ => True
  | _ => ∃ w, v.at? steps = some w

/-- Steps that fit a cause below a value fit it from there, with one step more. -/
theorem Cause.Fits.below {cause : Cause} {steps : List Step} {v w : Value} {step : Step}
    (hstep : ∀ steps, v.at? (step :: steps) = w.at? steps) (h : cause.Fits steps w) :
    cause.Fits (step :: steps) v := by
  cases cause with
  | missing =>
    obtain ⟨above, key, entries, rfl, habove, hlookup⟩ := h
    exact ⟨step :: above, key, entries, rfl, (hstep above).trans habove, hlookup⟩
  | devices => trivial
  | _ =>
    obtain ⟨u, hu⟩ := h
    exact ⟨u, (hstep steps).trans hu⟩

/-- A cause other than a missing field is about a value that is there. -/
theorem Cause.fits_nil {cause : Cause} (hcause : cause ≠ .missing) (v : Value) : cause.Fits [] v := by
  cases cause with
  | missing => exact absurd rfl hcause
  | devices => trivial
  | _ => exact ⟨v, rfl⟩

/-- **A fault locates** something in the value at a place: steps that its text is made of lead from
there to what the fault is about. -/
def Fault.Locates (f : Fault) (path : Path) (v : Value) : Prop :=
  ∃ steps, f.path.text = rendered path.text steps ∧ f.cause.Fits steps v

namespace Fault.Locates

variable {f : Fault} {path : Path} {entries : Entries} {items : List Value} {v : Value}
  {cause : Cause} {key : String}

theorem below_key (hlookup : entries.lookup key = some v) (h : f.Locates (path.key key) v) :
    f.Locates path (.object entries) := by
  obtain ⟨steps, htext, hfits⟩ := h
  refine ⟨.key key :: steps, ?_, hfits.below fun _ => ?_⟩
  · rw [htext, rendered_key]
  · rw [Value.at?, hlookup, Option.bind_some]

theorem below_element {position : Nat} (hitem : items[position]? = some v)
    (h : f.Locates (path.element position) v) : f.Locates path (.list items) := by
  obtain ⟨steps, htext, hfits⟩ := h
  refine ⟨.element position :: steps, ?_, hfits.below fun _ => ?_⟩
  · rw [htext, rendered_element]
  · rw [Value.at?, hitem, Option.bind_some]

theorem below_item (hpath : path.text ≠ "") {position : Nat} (hitem : items[position]? = some v)
    (h : f.Locates (path.item position) v) : f.Locates path (.list items) := by
  obtain ⟨steps, htext, hfits⟩ := h
  refine ⟨.item position :: steps, ?_, hfits.below fun _ => ?_⟩
  · rw [htext, rendered_item hpath]
  · rw [Value.at?, hitem, Option.bind_some]

/-- The value itself is at fault. -/
theorem here (hcause : cause ≠ .missing) : (⟨path, cause⟩ : Fault).Locates path v :=
  ⟨[], rfl, Cause.fits_nil hcause v⟩

/-- A field is at fault. -/
theorem field (hcause : cause ≠ .missing) (hlookup : entries.lookup key = some v) :
    (⟨path.key key, cause⟩ : Fault).Locates path (.object entries) :=
  (here hcause).below_key hlookup

/-- A key that stands in the object has a value there, which may be at fault. -/
theorem of_mem (hcause : cause ≠ .missing) (h : key ∈ entries.keys) :
    (⟨path.key key, cause⟩ : Fault).Locates path (.object entries) := by
  obtain ⟨v, hv⟩ := Option.isSome_iff_exists.mp (Entries.mem_keys_iff.mp h)
  exact field hcause hv

/-- A field is missing. -/
theorem missing (h : entries.lookup key = none ∨ entries.lookup key = some .null) :
    (⟨path.key key, .missing⟩ : Fault).Locates path (.object entries) :=
  ⟨[.key key], (rendered_key path key []).symm, [], key, entries, rfl, rfl, h⟩

/-- There are too few devices, and this has to do with a field, whether it is there or not. -/
theorem devices (shortage : Shortage) :
    (⟨path.key key, .devices shortage⟩ : Fault).Locates path v :=
  ⟨[.key key], (rendered_key path key []).symm, trivial⟩

end Fault.Locates

/-! ### Computations that locate their faults -/

/-- If a computation fails, its fault locates something in the value at a place. -/
def Located {α : Type} (path : Path) (v : Value) (x : Except Fault α) : Prop :=
  ∀ f, x = .error f → f.Locates path v

namespace Located

variable {α β : Type} {path : Path} {v : Value} {x : Except Fault α}

theorem ok (a : α) : Located path v (.ok a : Except Fault α) := nofun

theorem error {f : Fault} (h : f.Locates path v) : Located path v (.error f : Except Fault α) := by
  rintro _ ⟨⟩
  exact h

theorem bind {f : α → Except Fault β} (hx : Located path v x)
    (hf : ∀ a, x = .ok a → Located path v (f a)) : Located path v (x >>= f) := by
  cases x with
  | ok a => exact hf a rfl
  | error e => exact .error (hx e rfl)

theorem map {f : α → β} (hx : Located path v x) : Located path v (x.map f) := by
  cases x with
  | ok a => exact .ok _
  | error e => exact .error (hx e rfl)

theorem mapM {xs : List α} {f : α → Except Fault β} (hf : ∀ a ∈ xs, Located path v (f a)) :
    Located path v (xs.mapM f) := by
  induction xs with
  | nil => exact .ok []
  | cons a xs ih =>
    rw [List.mapM_cons]
    refine .bind (hf a List.mem_cons_self) fun b _ => ?_
    exact .bind (ih fun a' ha' => hf a' (List.mem_cons_of_mem _ ha')) fun bs _ => .ok _

theorem below_key {entries : Entries} {key : String} (hlookup : entries.lookup key = some v)
    (h : Located (path.key key) v x) : Located path (.object entries) x :=
  fun f hf => (h f hf).below_key hlookup

theorem below_element {items : List Value} {position : Nat} (hitem : items[position]? = some v)
    (h : Located (path.element position) v x) : Located path (.list items) x :=
  fun f hf => (h f hf).below_element hitem

theorem below_item {items : List Value} {position : Nat} (hpath : path.text ≠ "")
    (hitem : items[position]? = some v) (h : Located (path.item position) v x) :
    Located path (.list items) x :=
  fun f hf => (h f hf).below_item hpath hitem

end Located

/-- A decoder locates its faults, wherever the value stands but for the whole of a document. -/
def Decoder.Locates {α : Type} (decode : Decoder α) : Prop :=
  ∀ ⦃path v⦄, path.text ≠ "" → Located path v (decode path v)

/-- **A reading locates its faults** in an object at a place, whatever was asked of it before. -/
structure Reading.Locates {α : Type} (path : Path) (entries : Entries) (r : Reading α) : Prop where
  /-- Its faults locate something in the object. -/
  located : ∀ asked, Located path (.object entries) (r.outcome ⟨path, entries, asked⟩)
  /-- It goes on with the object. -/
  stays : r.Stays path entries

namespace Reading.Locates

variable {α β : Type} {path : Path} {entries : Entries} {key : String} {d : Decoder α}

theorem ofExcept {x : Except Fault α} (h : Located path (.object entries) x) :
    Reading.Locates path entries (Attempt.ofExcept x) where
  located asked := by
    rw [Attempt.outcome_ofExcept]
    exact h
  stays asked := ⟨asked, Attempt.after_ofExcept _ _⟩

theorem pure (a : α) : Reading.Locates path entries (Pure.pure a) := .ofExcept (.ok a)

theorem fail {f : Fault} (h : f.Locates path (.object entries)) :
    Reading.Locates path entries (Reading.fail f : Reading α) :=
  .ofExcept (.error h)

/-- What a condition guards against has to be located where it does not hold. -/
theorem ensure {condition : Prop} [Decidable condition] {f : Fault}
    (h : ¬ condition → f.Locates path (.object entries)) :
    Reading.Locates path entries (Reading.ensure condition f) := by
  refine .ofExcept ?_
  split
  · exact .ok ()
  · rename_i hnot
    exact .error (h hnot)

/-- What comes next may rely on what was answered. -/
theorem bind {r : Reading α} {f : α → Reading β} (hr : Reading.Locates path entries r)
    (hf : ∀ a asked, r.outcome ⟨path, entries, asked⟩ = .ok a → Reading.Locates path entries (f a)) :
    Reading.Locates path entries (r >>= f) where
  located asked := by
    obtain ⟨next, hnext⟩ := hr.stays asked
    rw [Attempt.outcome_bind, hnext]
    exact (hr.located asked).bind fun a ha => (hf a asked ha).located next
  stays := hr.stays.bind fun a asked ha => (hf a asked ha).stays

theorem placeOf_bind {f : Path → Reading β} (h : Reading.Locates path entries (f (path.key key))) :
    Reading.Locates path entries (Reading.placeOf key >>= f) :=
  ⟨h.located, h.stays⟩

theorem rest : Reading.Locates path entries Reading.rest := ⟨fun _ => .ok _, fun _ => ⟨_, rfl⟩⟩

theorem close (policy : UnknownFields) : Reading.Locates path entries (Reading.close policy) where
  located asked := by
    rw [outcome_close]
    unfold Section.closed
    split
    · rename_i name v others hunasked
      have hmem : (name, v) ∈ Section.unasked ⟨path, entries, asked⟩ := hunasked ▸ List.mem_cons_self
      have hkey : name ∈ entries.keys := List.mem_map_of_mem (List.mem_filter.mp hmem).1
      exact .error (.of_mem nofun hkey)
    · exact .ok ()
  stays asked := ⟨asked, after_close _ _⟩

theorem forbid (keys : List String) (agent : String) :
    Reading.Locates path entries (Reading.forbid keys agent) where
  located asked := by
    rw [outcome_forbid]
    unfold Section.without
    split
    · rename_i name hname
      have hkey : name ∈ entries.keys := by simpa using List.find?_some hname
      exact .error (.of_mem nofun hkey)
    · exact .ok ()
  stays asked := ⟨asked, after_forbid _ _ _⟩

theorem located_read? (hkey : key ≠ "") (hd : d.Locates) (asked : List String) :
    Located path (.object entries) (Section.read? ⟨path, entries, asked⟩ key d) := by
  unfold Section.read?
  split
  · exact .ok none
  · rename_i v hv
    exact .below_key (Section.lookup_of_value? hv) (hd (path.text_key_ne_empty hkey)).map

theorem located_read (hkey : key ≠ "") (hd : d.Locates) (asked : List String) :
    Located path (.object entries) (Section.read ⟨path, entries, asked⟩ key d) := by
  unfold Section.read
  split
  · rename_i hnone
    exact .error (.missing (Section.lookup_of_value?_eq_none hnone))
  · rename_i v hv
    exact .below_key (Section.lookup_of_value? hv) (hd (path.text_key_ne_empty hkey))

theorem field? (hkey : key ≠ "") (hd : d.Locates) :
    Reading.Locates path entries (Reading.field? key d) where
  located asked := by
    rw [outcome_field?]
    exact located_read? hkey hd asked
  stays _ := ⟨_, after_field? _ _ _⟩

theorem field (hkey : key ≠ "") (hd : d.Locates) :
    Reading.Locates path entries (Reading.field key d) where
  located asked := by
    rw [outcome_field]
    exact located_read hkey hd asked
  stays _ := ⟨_, after_field _ _ _⟩

theorem fieldD (hkey : key ≠ "") (hd : d.Locates) (default : α) :
    Reading.Locates path entries (Reading.fieldD key d default) :=
  .bind (.field? hkey hd) fun _ _ _ => .pure _

end Reading.Locates

theorem Path.orDocument_eq {path : Path} (h : path.text ≠ "") : path.orDocument = path := if_neg h

/-- A section locates its faults in whatever is read as one: an object, or what should be one. -/
theorem Decoder.Locates.section {α : Type} {r : Reading α}
    (h : ∀ path entries, path.text ≠ "" → r.Locates path entries) : Decoder.Locates r.decode := by
  intro path v hpath
  cases v with
  | object entries => exact (h path entries hpath).located []
  | _ =>
    refine .error ?_
    rw [Path.orDocument_eq hpath]
    exact .here nofun

namespace Decoder

variable {α : Type}

/-! ### Plain values -/

theorem locates_raw : Locates raw := fun _ v _ => .ok v

theorem locates_orDefect (read : Value → Option α) (defect : Defect) :
    Locates (orDefect read defect) := by
  intro path v _
  unfold orDefect
  split
  · exact .ok _
  · exact .error (.here nofun)

theorem locates_numberIn (range : Range) (field : Option String) : Locates (numberIn range field) := by
  intro path v hpath
  refine .bind (locates_orDefect _ _ hpath) fun x _ => ?_
  split
  · exact .ok x
  · exact .error (.here nofun)

theorem locates_interval : Locates interval := by
  intro path v _
  unfold interval
  split
  · exact .ok _
  · exact .error (.here nofun)

end Decoder

end Regimen
