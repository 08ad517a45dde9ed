import Regimen.Proofs.Reading

/-!
# Two readings side by side

One document is read under two policies, or two documents under one, and the outcomes are compared.
What may be different between the documents is said by an outline (`Outline`): it lists the keys that
are read of an object, and goes down to the objects below that are read key by key as well. A
document *pads* another one when both hold the same wherever the outline looks (`Outline.Pads`);
whatever is put under a key that nobody reads is padding (`Outline.pads_of_inserted`).

`Reading.Matches` is a relation between two readings. The outcome of the first is that of the second,
**or it refuses a field that is unknown** (`SameOrUnknown`). As with `Reading.Yields`, there is one
rule for every way to put readings together.
-/

namespace Regimen

/-! ### Outcomes that are compared -/

/-- An outcome is the same as another one, unless unknown fields are refused and it refuses one. -/
def SameOrUnknown {α : Type} (policy : UnknownFields) (x y : Except Fault α) : Prop :=
  x = y ∨ policy = .reject ∧ ∃ path, x = .error ⟨path, .unknownField⟩

namespace SameOrUnknown

variable {α β : Type} {policy : UnknownFields} {x y : Except Fault α}

theorem refl (x : Except Fault α) : SameOrUnknown policy x x := .inl rfl

/-- Where unknown fields are ignored there is no difference. -/
theorem eq_of_ignore (h : SameOrUnknown .ignore x y) : x = y := by
  rcases h with h | ⟨h, -⟩
  · exact h
  · cases h

theorem bind {f g : α → Except Fault β} (h : SameOrUnknown policy x y)
    (hfg : ∀ a, y = .ok a → SameOrUnknown policy (f a) (g a)) :
    SameOrUnknown policy (x >>= f) (y >>= g) := by
  rcases h with rfl | ⟨hpolicy, path, rfl⟩
  · cases x with
    | error e => exact .inl rfl
    | ok a => exact hfg a rfl
  · exact .inr ⟨hpolicy, path, rfl⟩

theorem map (h : SameOrUnknown policy x y) (f : α → β) : SameOrUnknown policy (x.map f) (y.map f) := by
  rcases h with rfl | ⟨hpolicy, path, rfl⟩
  · exact .inl rfl
  · exact .inr ⟨hpolicy, path, rfl⟩

end SameOrUnknown

/-! ### Outlines -/

/-- What is read of a value. -/
inductive Outline where
  /-- All of it. -/
  | value
  /-- Some keys of an object. What is read below a key may depend on the value there. -/
  | object (keys : List String) (below : String → Value → Outline)

namespace Outline

/-- The outline of a section. Which keys are read may depend on what the section holds. -/
def ofSection (keys : Entries → List String) (below : Entries → String → Value → Outline) :
    Value → Outline
  | .object entries => .object (keys entries) (below entries)
  | _ => .value

/-- The outline of a section that holds no other sections. -/
def flat (keys : Entries → List String) : Value → Outline := ofSection keys fun _ _ _ => .value

/-- **A value pads another one**: it is the same wherever the outline looks. -/
def Pads : Outline → Value → Value → Prop
  | value => Eq
  | object keys below => fun v w => v = w ∨ ∃ entries others,
      v = .object entries ∧ w = .object others ∧ ∀ key ∈ keys,
        Option.Rel (fun v w => (below key w).Pads v w) (entries.lookup key) (others.lookup key)

/-- The keys that are read of the object to which some steps lead. -/
def keysAt? : List String → Outline → Value → Option (List String)
  | [], object keys _, _ => some keys
  | name :: steps, object _ below, .object entries =>
    (entries.lookup name).bind fun v => keysAt? steps (below name v) v
  | _, _, _ => none

theorem Pads.refl (o : Outline) (v : Value) : o.Pads v v := by
  cases o with
  | value => exact Eq.refl v
  | object keys below => exact .inl rfl

/-- Only an object can be padded. -/
theorem Pads.eq_or_objects {o : Outline} {v w : Value} (h : o.Pads v w) :
    v = w ∨ ∃ entries others, v = .object entries ∧ w = .object others := by
  cases o with
  | value => exact .inl h
  | object keys below =>
    rcases h with h | ⟨entries, others, hv, hw, -⟩
    · exact .inl h
    · exact .inr ⟨entries, others, hv, hw⟩

theorem Pads.isNull_eq {o : Outline} {v w : Value} (h : o.Pads v w) : v.isNull = w.isNull := by
  rcases h.eq_or_objects with rfl | ⟨_, _, rfl, rfl⟩ <;> rfl

end Outline

/-- Two objects hold the same under some keys, as far as the outlines below look. -/
def Entries.Pads (below : String → Value → Outline) (keys : List String) (entries others : Entries) :
    Prop :=
  ∀ key ∈ keys, Option.Rel (fun v w => (below key w).Pads v w) (entries.lookup key) (others.lookup key)

/-- The same is found under a key in both or in neither. -/
theorem Outline.rel_lookup_refl (o : Value → Outline) (found : Option Value) :
    Option.Rel (fun v w => (o w).Pads v w) found found := by
  cases found with
  | none => exact .none
  | some v => exact .some (.refl _ v)

theorem Entries.Pads.mem_keys_iff {below : String → Value → Outline} {keys : List String}
    {entries others : Entries} (h : entries.Pads below keys others) {key : String} (hkey : key ∈ keys) :
    key ∈ entries.keys ↔ key ∈ others.keys := by
  rw [Entries.mem_keys_iff, Entries.mem_keys_iff]
  have hrel := h key hkey
  generalize entries.lookup key = x, others.lookup key = y at hrel
  cases hrel <;> simp

/-! ### Readings that match -/

/-- The meanings that two decoders give to a value and to one that it pads. -/
def Decoder.Matches {α : Type} (policy : UnknownFields) (outline : Value → Outline)
    (decode decode' : Decoder α) : Prop :=
  ∀ path v w, (outline w).Pads v w → SameOrUnknown policy (decode path v) (decode' path w)

/-- **Two readings match** at a place, of one object and of another one: the outcomes are the same, or
an unknown field is refused, whatever was asked of the objects before. -/
structure Reading.Matches {α : Type} (policy : UnknownFields) (path : Path) (entries others : Entries)
    (r r' : Reading α) : Prop where
  /-- The outcomes are the same, or an unknown field is refused. -/
  outcome : ∀ asked asked', SameOrUnknown policy (r.outcome ⟨path, entries, asked⟩)
    (r'.outcome ⟨path, others, asked'⟩)
  /-- The first reading goes on with its object. -/
  stays : r.Stays path entries
  /-- So does the second one. -/
  stays' : r'.Stays path others

theorem Decoder.Matches.same {α : Type} {policy : UnknownFields} (decode : Decoder α) :
    Decoder.Matches policy (fun _ => .value) decode decode := by
  rintro path v _ rfl
  exact .refl _

namespace Reading.Matches

variable {α β : Type} {policy : UnknownFields} {path : Path} {entries others : Entries}

theorem ofExcept (x : Except Fault α) :
    Reading.Matches policy path entries others (Attempt.ofExcept x) (Attempt.ofExcept x) where
  outcome asked asked' := by
    rw [Attempt.outcome_ofExcept, Attempt.outcome_ofExcept]
    exact .refl x
  stays asked := ⟨asked, Attempt.after_ofExcept _ _⟩
  stays' asked := ⟨asked, Attempt.after_ofExcept _ _⟩

theorem pure (a : α) : Reading.Matches policy path entries others (Pure.pure a) (Pure.pure a) :=
  .ofExcept (.ok a)

theorem fail (f : Fault) :
    Reading.Matches policy path entries others (Reading.fail f : Reading α) (Reading.fail f) :=
  .ofExcept (.error f)

theorem ensure (condition : Prop) [Decidable condition] (f : Fault) :
    Reading.Matches policy path entries others (Reading.ensure condition f)
      (Reading.ensure condition f) :=
  .ofExcept _

theorem placeOf (key : String) :
    Reading.Matches policy path entries others (Reading.placeOf key) (Reading.placeOf key) where
  outcome _ _ := .refl _
  stays asked := ⟨asked, rfl⟩
  stays' asked := ⟨asked, rfl⟩

/-- What comes next has to match for the answers of the second reading alone: where the first one has
another outcome, it ends there. -/
theorem bind {r r' : Reading α} {f f' : α → Reading β}
    (hr : Reading.Matches policy path entries others r r')
    (hf : ∀ a asked, r'.outcome ⟨path, others, asked⟩ = .ok a →
      Reading.Matches policy path entries others (f a) (f' a)) :
    Reading.Matches policy path entries others (r >>= f) (r' >>= f') where
  outcome asked asked' := by
    obtain ⟨next, hnext⟩ := hr.stays asked
    obtain ⟨next', hnext'⟩ := hr.stays' asked'
    rw [Attempt.outcome_bind, Attempt.outcome_bind, hnext, hnext']
    exact (hr.outcome asked asked').bind fun a ha => (hf a asked' ha).outcome next next'
  stays := hr.stays.bind fun a asked ha => by
    have hsame := hr.outcome asked asked
    rw [ha] at hsame
    rcases hsame with ha' | ⟨-, _, hfault⟩
    · exact (hf a asked ha'.symm).stays
    · cases hfault
  stays' := hr.stays'.bind fun a asked ha => (hf a asked ha).stays'

/-- A rule for what asks for a key and goes by what is found there. -/
theorem ofAsk {r r' : Reading α} {key : String} (hr : ∀ s, r.after s = s.ask key)
    (hr' : ∀ s, r'.after s = s.ask key)
    (h : ∀ asked asked', SameOrUnknown policy (r.outcome ⟨path, entries, asked⟩)
      (r'.outcome ⟨path, others, asked'⟩)) :
    Reading.Matches policy path entries others r r' where
  outcome := h
  stays _ := ⟨_, hr _⟩
  stays' _ := ⟨_, hr' _⟩

section Field

variable {below : String → Value → Outline} {keys : List String} {key : String} {d d' : Decoder α}

/-- The values under a key, if there are any but null. -/
theorem rel_value? (path : Path) (h : entries.Pads below keys others) (hkey : key ∈ keys)
    (asked asked' : List String) :
    Option.Rel (fun v w => (below key w).Pads v w)
      (Section.value? ⟨path, entries, asked⟩ key) (Section.value? ⟨path, others, asked'⟩ key) := by
  have hrel := h key hkey
  unfold Section.value?
  dsimp only
  generalize entries.lookup key = x, others.lookup key = y at hrel
  cases hrel with
  | none => exact .none
  | @some v w hpads =>
    have hnull := hpads.isNull_eq
    cases hw : w.isNull with
    | true =>
      rw [hw] at hnull
      simp only [Option.filter_some, hnull, hw]
      exact .none
    | false =>
      rw [hw] at hnull
      simp only [Option.filter_some, hnull, hw]
      exact .some hpads

theorem sameOrUnknown_read? (h : entries.Pads below keys others) (hkey : key ∈ keys)
    (hd : Decoder.Matches policy (below key) d d') (asked asked' : List String) :
    SameOrUnknown policy (Section.read? ⟨path, entries, asked⟩ key d)
      (Section.read? ⟨path, others, asked'⟩ key d') := by
  unfold Section.read?
  have hrel := rel_value? path h hkey asked asked'
  generalize Section.value? ⟨path, entries, asked⟩ key = x,
    Section.value? ⟨path, others, asked'⟩ key = y at hrel
  cases hrel with
  | none => exact .refl _
  | some hpads => exact (hd _ _ _ hpads).map some

theorem sameOrUnknown_read (h : entries.Pads below keys others) (hkey : key ∈ keys)
    (hd : Decoder.Matches policy (below key) d d') (asked asked' : List String) :
    SameOrUnknown policy (Section.read ⟨path, entries, asked⟩ key d)
      (Section.read ⟨path, others, asked'⟩ key d') := by
  unfold Section.read
  have hrel := rel_value? path h hkey asked asked'
  generalize Section.value? ⟨path, entries, asked⟩ key = x,
    Section.value? ⟨path, others, asked'⟩ key = y at hrel
  cases hrel with
  | none => exact .refl _
  | some hpads => exact hd _ _ _ hpads

theorem field? (h : entries.Pads below keys others) (hkey : key ∈ keys)
    (hd : Decoder.Matches policy (below key) d d') :
    Reading.Matches policy path entries others (Reading.field? key d) (Reading.field? key d') := by
  refine ofAsk (fun s => Reading.after_field? s key d) (fun s => Reading.after_field? s key d') ?_
  intro asked asked'
  rw [outcome_field?, outcome_field?]
  exact sameOrUnknown_read? h hkey hd asked asked'

theorem field (h : entries.Pads below keys others) (hkey : key ∈ keys)
    (hd : Decoder.Matches policy (below key) d d') :
    Reading.Matches policy path entries others (Reading.field key d) (Reading.field key d') := by
  refine ofAsk (fun s => Reading.after_field s key d) (fun s => Reading.after_field s key d') ?_
  intro asked asked'
  rw [outcome_field, outcome_field]
  exact sameOrUnknown_read h hkey hd asked asked'

theorem fieldD (h : entries.Pads below keys others) (hkey : key ∈ keys)
    (hd : Decoder.Matches policy (below key) d d') (default : α) :
    Reading.Matches policy path entries others (Reading.fieldD key d default)
      (Reading.fieldD key d' default) :=
  .bind (.field? h hkey hd) fun _ _ _ => .pure _

theorem forbid {forbidden : List String} (h : entries.Pads below keys others) (hkeys : forbidden ⊆ keys)
    (agent : String) :
    Reading.Matches policy path entries others (Reading.forbid forbidden agent)
      (Reading.forbid forbidden agent) where
  outcome asked asked' := by
    have hfind : forbidden.find? (· ∈ entries.keys) = forbidden.find? (· ∈ others.keys) := by
      rw [← List.head?_filter, ← List.head?_filter, List.filter_congr fun key hkey => ?_]
      simp only [h.mem_keys_iff (hkeys hkey)]
    rw [outcome_forbid, outcome_forbid, Section.without, Section.without, hfind]
    exact .refl _
  stays asked := ⟨asked, after_forbid _ _ _⟩
  stays' asked := ⟨asked, after_forbid _ _ _⟩

end Field

/-- At the end of a section a policy makes a difference. -/
theorem close (policy : UnknownFields) :
    Reading.Matches policy path entries others (Reading.close policy) (Reading.close .ignore) where
  outcome asked asked' := by
    rw [outcome_close, outcome_close]
    unfold Section.closed
    split
    · exact .inr ⟨rfl, _, rfl⟩
    · exact .refl _
  stays asked := ⟨asked, after_close _ _⟩
  stays' asked := ⟨asked, after_close _ _⟩

end Reading.Matches

/-- A section can be padded wherever its outline does not look. -/
theorem Decoder.Matches.section {α : Type} {policy : UnknownFields} {keys : Entries → List String}
    {below : Entries → String → Value → Outline} {r r' : Reading α}
    (h : ∀ path entries others, entries.Pads (below others) (keys others) others →
      Reading.Matches policy path entries others r r') :
    Decoder.Matches policy (Outline.ofSection keys below) r.decode r'.decode := by
  intro path v w hpads
  cases w with
  | object others =>
    rcases hpads with rfl | ⟨entries, _, rfl, ⟨⟩, hpads⟩
    · exact (h path others others fun _ _ => Outline.rel_lookup_refl _ _).outcome [] []
    · exact (h path entries others hpads).outcome [] []
  | _ =>
    obtain rfl : v = _ := hpads
    exact .refl _

/-! ### Padding -/

/-- **A key is inserted** into the object to which some steps lead, at any position. -/
inductive Value.Inserted (key : String) (v : Value) : List String → Value → Value → Prop where
  /-- Into the object itself. -/
  | here (entries : Entries) (position : Nat) :
      Inserted key v [] (.object entries) (.object (entries.insertIdx position (key, v)))
  /-- Into a value below. -/
  | within {entries : Entries} {name : String} {steps : List String} {w w' : Value} :
      entries.lookup name = some w → Inserted key v steps w w' →
      Inserted key v (name :: steps) (.object entries) (.object (entries.put name w'))

theorem Entries.lookup_insertIdx_of_ne {key other : String} (h : other ≠ key) (entries : Entries)
    (position : Nat) (v : Value) :
    (entries.insertIdx position (key, v)).lookup other = entries.lookup other := by
  induction entries generalizing position with
  | nil =>
    cases position with
    | zero => simp [List.lookup_cons, beq_false_of_ne h]
    | succ n => rfl
  | cons e rest ih =>
    obtain ⟨k, w⟩ := e
    cases position with
    | zero => simp [List.lookup_cons, beq_false_of_ne h]
    | succ n => simp only [List.insertIdx_succ_cons, List.lookup_cons, ih]

/-- **What nobody reads is padding.** -/
theorem Outline.pads_of_inserted {key : String} {v : Value} {steps : List String} {w w' : Value}
    (h : Value.Inserted key v steps w w') {o : Outline} {keys : List String}
    (hkeys : o.keysAt? steps w = some keys) (hkey : key ∉ keys) : o.Pads w' w := by
  induction h generalizing o with
  | here entries position =>
    cases o with
    | value => cases hkeys
    | object keys' below =>
      cases hkeys
      refine .inr ⟨_, _, rfl, rfl, fun other hother => ?_⟩
      have hne : other ≠ key := fun heq => hkey (heq ▸ hother)
      rw [Entries.lookup_insertIdx_of_ne hne]
      exact rel_lookup_refl (below other) _
  | @within entries name steps u u' hlookup hinserted ih =>
    cases o with
    | value => cases hkeys
    | object keys' below =>
      refine .inr ⟨_, _, rfl, rfl, fun other hother => ?_⟩
      by_cases hname : other = name
      · subst hname
        rw [Entries.lookup_put_self, hlookup]
        rw [keysAt?, hlookup, Option.bind_some] at hkeys
        exact .some (ih hkeys)
      · rw [Entries.lookup_put_of_ne hname]
        exact rel_lookup_refl (below other) _

end Regimen
