import Regimen.Proofs.Stages

/-!
# Fields that are omitted

A field that is null is a field that is absent. To say so of a whole document, one has to say which entries
are fields: `Fields` lists the keys under which fields are read of an object, and goes down to the objects
below, also to those in a list. Two values **give the same** (`Fields.SameGiven`) when the same fields are
given in both, wherever they are given at all, and everything else is the same. A field that is null may be
dropped for that (`Fields.sameGiven_of_dropped`).

A reading *overlooks* what is omitted (`Reading.Overlooks`): its outcome is the same for objects that give the
same. Null may not be mistaken for an unknown field or be passed on at the end, so the fields have to be asked
for by then. The rules keep account of that.
-/

namespace Regimen

/-! ### What is given -/

namespace Entries

/-- The value under a key, unless it is null. -/
def given? (entries : Entries) (key : String) : Option Value :=
  (entries.lookup key).filter fun v => !v.isNull

/-- **Two objects agree** in what is given under some keys, as far as a relation goes, and in all other
entries. -/
structure Agree (R : String → Value → Value → Prop) (keys : List String) (entries others : Entries) :
    Prop where
  /-- What is given under the keys is related. -/
  given : ∀ key ∈ keys, Option.Rel (R key) (entries.given? key) (others.given? key)
  /-- The other entries are the same. -/
  rest : (entries.filter fun e => e.1 ∉ keys) = others.filter fun e => e.1 ∉ keys

theorem Agree.mem_keys_iff {R : String → Value → Value → Prop} {keys : List String}
    {entries others : Entries} (h : entries.Agree R keys others) {key : String} (hkey : key ∉ keys) :
    key ∈ entries.keys ↔ key ∈ others.keys := by
  have hlookup := congrArg (List.lookup key) h.rest
  rw [lookup_filter_keys (fun k => decide (k ∉ keys)) (by simpa using hkey),
    lookup_filter_keys (fun k => decide (k ∉ keys)) (by simpa using hkey)] at hlookup
  rw [Entries.mem_keys_iff, Entries.mem_keys_iff, hlookup]

end Entries

/-- The fields of a value, which may be given or omitted. -/
inductive Fields where
  /-- None: the value is read as a whole. -/
  | whole
  /-- Those of the items of a list. What fields an item has may depend on it. -/
  | items (item : Value → Fields)
  /-- Those under some keys of an object. What fields there are below may depend on the value there. -/
  | under (keys : List String) (below : String → Value → Fields)

namespace Fields

/-- The fields of a section. Which keys are read may depend on what the section holds. -/
def ofSection (keys : Entries → List String) (below : Entries → String → Value → Fields) : Value → Fields
  | .object entries => .under (keys entries) (below entries)
  | _ => .whole

/-- The fields of a section that holds no other sections. -/
def flat (keys : Entries → List String) : Value → Fields := ofSection keys fun _ _ _ => .whole

/-- **Two values give the same**: the same fields are given in both, and everything else is the same. -/
def SameGiven : Fields → Value → Value → Prop
  | whole => Eq
  | items item => fun v w => v = w ∨ ∃ xs ys, v = .list xs ∧ w = .list ys ∧
      List.Forall₂ (fun v w => (item w).SameGiven v w) xs ys
  | under keys below => fun v w => v = w ∨ ∃ entries others, v = .object entries ∧ w = .object others ∧
      Entries.Agree (fun key v w => (below key w).SameGiven v w) keys entries others

/-- The keys of the fields of the object to which some steps lead, if it is reached through fields. -/
def keysAt? : List Step → Fields → Value → Option (List String)
  | [], under keys _, _ => some keys
  | .key name :: steps, under keys below, .object entries =>
    if name ∈ keys then (entries.lookup name).bind fun v => keysAt? steps (below name v) v else none
  | .item position :: steps, items item, .list xs =>
    xs[position]?.bind fun v => keysAt? steps (item v) v
  | _, _, _ => none

variable {fields : Fields} {v w : Value}

theorem SameGiven.refl (fields : Fields) (v : Value) : fields.SameGiven v v := by
  cases fields with
  | whole => exact Eq.refl v
  | items item => exact .inl rfl
  | under keys below => exact .inl rfl

theorem SameGiven.isNull_eq (h : fields.SameGiven v w) : v.isNull = w.isNull := by
  cases fields with
  | whole => exact congrArg _ h
  | items item => rcases h with rfl | ⟨_, _, rfl, rfl, -⟩ <;> rfl
  | under keys below => rcases h with rfl | ⟨_, _, rfl, rfl, -⟩ <;> rfl

end Fields

/-- Two objects give the same under some keys, and all their other entries are the same. -/
abbrev Entries.SameGiven (below : String → Value → Fields) (keys : List String) (entries others : Entries) :
    Prop :=
  entries.Agree (fun key v w => (below key w).SameGiven v w) keys others

/-! ### Fields that are dropped -/

/-- **A null field is dropped** from the object to which some steps lead. -/
inductive Value.Dropped (key : String) : List Step → Value → Value → Prop where
  /-- From the object itself. -/
  | here {entries : Entries} : entries.lookup key = some .null →
      Dropped key [] (.object entries) (.object (entries.filter fun e => e.1 ≠ key))
  /-- From a value below. -/
  | within {entries : Entries} {name : String} {steps : List Step} {v w : Value} :
      entries.lookup name = some v → Dropped key steps v w →
      Dropped key (.key name :: steps) (.object entries) (.object (entries.put name w))
  /-- From an item of a list. -/
  | among {items : List Value} {position : Nat} {steps : List Step} {v w : Value} :
      items[position]? = some v → Dropped key steps v w →
      Dropped key (.item position :: steps) (.list items) (.list (items.set position w))

/-- The same is given under a key in an object and in itself. -/
theorem Fields.rel_given?_refl (below : Value → Fields) (given : Option Value) :
    Option.Rel (fun v w => (below w).SameGiven v w) given given := by
  cases given with
  | none => exact .none
  | some v => exact .some (.refl _ v)

theorem Fields.forall₂_set {item : Value → Fields} {items : List Value} {position : Nat} {v w : Value}
    (hitem : items[position]? = some v) (h : (item v).SameGiven w v) :
    List.Forall₂ (fun v w => (item w).SameGiven v w) (items.set position w) items := by
  induction items generalizing position with
  | nil => exact .nil
  | cons u items ih =>
    cases position with
    | zero =>
      cases hitem
      exact .cons h (List.forall₂_same.mpr fun u _ => .refl (item u) u)
    | succ position => exact .cons (.refl (item u) u) (ih hitem)

/-- What was dropped is not given, and it was not given before. -/
theorem Entries.sameGiven_filter {entries : Entries} {key : String} (hnull : entries.lookup key = some .null)
    {keys : List String} (hkey : key ∈ keys) (below : String → Value → Fields) :
    Entries.SameGiven below keys (entries.filter fun e => e.1 ≠ key) entries where
  given other _ := by
    by_cases hother : other = key
    · subst hother
      have hdropped : (entries.filter fun e => e.1 ≠ other).lookup other = none := by
        refine List.lookup_eq_none_iff.mpr fun e he => bne_iff_ne.mpr ?_
        exact (of_decide_eq_true (List.mem_filter.mp he).2).symm
      rw [given?, given?, hdropped, hnull]
      exact .none
    · rw [given?, given?, lookup_filter_keys (fun k => decide (k ≠ key)) (by simpa using hother)]
      exact Fields.rel_given?_refl (below other) _
  rest := by
    rw [List.filter_filter]
    refine List.filter_congr fun e _ => ?_
    by_cases he : e.1 = key
    · simp [he, hkey]
    · simp [he]

/-- A field may be given by another value, which gives the same. -/
theorem Entries.sameGiven_put {entries : Entries} {name : String} {v w : Value}
    (hlookup : entries.lookup name = some v) {keys : List String} (hname : name ∈ keys)
    {below : String → Value → Fields} (h : (below name v).SameGiven w v) :
    Entries.SameGiven below keys (entries.put name w) entries where
  given other _ := by
    by_cases hother : other = name
    · subst hother
      rw [given?, given?, lookup_put_self, hlookup, Option.filter_some, Option.filter_some, h.isNull_eq]
      split
      · exact .some h
      · exact .none
    · rw [given?, given?, lookup_put_of_ne hother]
      exact Fields.rel_given?_refl (below other) _
  rest := filter_put (fun k => decide (k ∉ keys)) (by simpa using hname) entries w

/-- **Where a null field is dropped, the same is given.** -/
theorem Fields.sameGiven_of_dropped {key : String} {steps : List Step} {v w : Value}
    (h : Value.Dropped key steps v w) {fields : Fields} {keys : List String}
    (hkeys : fields.keysAt? steps v = some keys) (hkey : key ∈ keys) : fields.SameGiven w v := by
  induction h generalizing fields with
  | here hnull =>
    cases fields with
    | under keys' below =>
      cases hkeys
      exact .inr ⟨_, _, rfl, rfl, Entries.sameGiven_filter hnull hkey below⟩
    | _ => cases hkeys
  | within hlookup _ ih =>
    cases fields with
    | under keys' below =>
      rw [keysAt?] at hkeys
      split at hkeys
      · rename_i hname
        rw [hlookup, Option.bind_some] at hkeys
        exact .inr ⟨_, _, rfl, rfl, Entries.sameGiven_put hlookup hname (ih hkeys)⟩
      · cases hkeys
    | _ => cases hkeys
  | among hitem _ ih =>
    cases fields with
    | items item =>
      rw [keysAt?, hitem, Option.bind_some] at hkeys
      exact .inr ⟨_, _, rfl, rfl, forall₂_set hitem (ih hkeys)⟩
    | _ => cases hkeys

/-! ### Readings that overlook what is omitted -/

/-- A decoder gives one meaning to values that give the same. -/
def Decoder.Overlooks {α : Type} (fields : Value → Fields) (decode : Decoder α) : Prop :=
  ∀ path v w, (fields w).SameGiven v w → decode path v = decode path w

/-- Some fields were asked for of both objects, and of other keys the same. -/
structure Evenly (keys known asked asked' : List String) : Prop where
  /-- The fields were asked for of the first object. -/
  left : known ⊆ asked
  /-- They were asked for of the second. -/
  right : known ⊆ asked'
  /-- What is no field was asked for of both or of neither. -/
  others : ∀ key, key ∉ keys → (key ∈ asked ↔ key ∈ asked')

/-- **A reading overlooks what is omitted** in one object and null in another one: if it begins where the
known keys were asked for, its outcome is the same for both, and after an answer the keys that are known next
were asked for. -/
structure Reading.Overlooks {α : Type} (keys : List String) (path : Path) (entries others : Entries)
    (known : List String) (r : Reading α) (next : List String) : Prop where
  /-- The outcome is the same. -/
  outcome : ∀ asked asked', Evenly keys known asked asked' →
    r.outcome ⟨path, entries, asked⟩ = r.outcome ⟨path, others, asked'⟩
  /-- What was asked for after an answer. -/
  after : ∀ asked asked' a, Evenly keys known asked asked' → r.outcome ⟨path, others, asked'⟩ = .ok a →
    ∃ later later', r.after ⟨path, entries, asked⟩ = ⟨path, entries, later⟩ ∧
      r.after ⟨path, others, asked'⟩ = ⟨path, others, later'⟩ ∧ Evenly keys next later later'

theorem Decoder.Overlooks.whole {α : Type} (decode : Decoder α) :
    Decoder.Overlooks (fun _ => .whole) decode := by
  rintro path v _ rfl
  rfl

namespace Evenly

variable {keys known asked asked' : List String}

theorem ask (h : Evenly keys known asked asked') (key : String) :
    Evenly keys (key :: known) (key :: asked) (key :: asked') where
  left := List.cons_subset_cons key h.left
  right := List.cons_subset_cons key h.right
  others k hk := by rw [List.mem_cons, List.mem_cons, h.others k hk]

theorem mono {next : List String} (h : Evenly keys known asked asked') (hnext : next ⊆ known) :
    Evenly keys next asked asked' :=
  ⟨List.Subset.trans hnext h.left, List.Subset.trans hnext h.right, h.others⟩

/-- Where all of the fields were asked for, the entries that nobody asked for are the same. -/
theorem unasked_eq {R : String → Value → Value → Prop} {path : Path} {entries others : Entries}
    (h : Evenly keys known asked asked') (hentries : entries.Agree R keys others) (hkeys : keys ⊆ known) :
    Section.unasked ⟨path, entries, asked⟩ = Section.unasked ⟨path, others, asked'⟩ := by
  have hleft (entries : Entries) (asked : List String) (hasked : known ⊆ asked) :
      (entries.filter fun e => e.1 ∉ asked) =
        (entries.filter fun e => e.1 ∉ keys).filter fun e => e.1 ∉ asked := by
    rw [List.filter_filter]
    refine List.filter_congr fun e _ => ?_
    by_cases he : e.1 ∈ keys
    · simp [hasked (hkeys he)]
    · simp [he]
  show (entries.filter fun e => e.1 ∉ asked) = others.filter fun e => e.1 ∉ asked'
  rw [hleft entries asked h.left, hleft others asked' h.right, hentries.rest]
  refine List.filter_congr fun e he => ?_
  simp only [h.others e.1 (of_decide_eq_true (List.mem_filter.mp he).2)]

end Evenly

namespace Reading.Overlooks

variable {α β : Type} {keys : List String} {path : Path} {entries others : Entries}
  {known next : List String}

/-- A rule for what leaves the section alone. -/
theorem ofExcept (x : Except Fault α) :
    Reading.Overlooks keys path entries others known (Attempt.ofExcept x) known where
  outcome asked asked' _ := by rw [Attempt.outcome_ofExcept, Attempt.outcome_ofExcept]
  after asked asked' _ h _ := ⟨asked, asked', Attempt.after_ofExcept _ _, Attempt.after_ofExcept _ _, h⟩

/-- At the end of a reading part of what is known may be forgotten. -/
theorem pure (a : α) (h : next ⊆ known) :
    Reading.Overlooks keys path entries others known (Pure.pure a) next where
  outcome _ _ _ := rfl
  after asked asked' _ hasked _ := ⟨asked, asked', rfl, rfl, hasked.mono h⟩

theorem fail (f : Fault) :
    Reading.Overlooks keys path entries others known (Reading.fail f : Reading α) next where
  outcome _ _ _ := rfl
  after _ _ _ _ := nofun

theorem ensure (condition : Prop) [Decidable condition] (f : Fault) :
    Reading.Overlooks keys path entries others known (Reading.ensure condition f) known := .ofExcept _

theorem placeOf (key : String) :
    Reading.Overlooks keys path entries others known (Reading.placeOf key) known where
  outcome _ _ _ := rfl
  after asked asked' _ h _ := ⟨asked, asked', rfl, rfl, h⟩

theorem bind {r : Reading α} {f : α → Reading β} {middle : List String}
    (hr : Reading.Overlooks keys path entries others known r middle)
    (hf : ∀ a asked, r.outcome ⟨path, others, asked⟩ = .ok a →
      Reading.Overlooks keys path entries others middle (f a) next) :
    Reading.Overlooks keys path entries others known (r >>= f) next where
  outcome asked asked' h := by
    rw [Attempt.outcome_bind, Attempt.outcome_bind, hr.outcome asked asked' h]
    refine except_bind_congr fun a ha => ?_
    obtain ⟨later, later', hafter, hafter', hlater⟩ := hr.after asked asked' a h ha
    rw [hafter, hafter']
    exact (hf a asked' ha).outcome later later' hlater
  after asked asked' b h hb := by
    rw [Attempt.outcome_bind] at hb
    obtain ⟨a, ha, hb⟩ := except_bind_eq_ok_iff.mp hb
    obtain ⟨later, later', hafter, hafter', hlater⟩ := hr.after asked asked' a h ha
    rw [Attempt.after_bind_of_ok ha, Attempt.after_bind_of_ok ((hr.outcome asked asked' h).trans ha), hafter,
      hafter']
    rw [hafter'] at hb
    exact (hf a asked' ha).after later later' b hlater hb

section Field

variable {below : String → Value → Fields} {key : String} {d : Decoder α}

theorem rel_value? (h : Entries.SameGiven below keys entries others) (hkey : key ∈ keys) (path : Path)
    (asked asked' : List String) : Option.Rel (fun v w => (below key w).SameGiven v w)
      (Section.value? ⟨path, entries, asked⟩ key) (Section.value? ⟨path, others, asked'⟩ key) :=
  h.given key hkey

theorem read?_eq (h : Entries.SameGiven below keys entries others) (hkey : key ∈ keys)
    (hd : d.Overlooks (below key)) (asked asked' : List String) :
    Section.read? ⟨path, entries, asked⟩ key d = Section.read? ⟨path, others, asked'⟩ key d := by
  have hgiven := rel_value? h hkey path asked asked'
  unfold Section.read?
  generalize Section.value? ⟨path, entries, asked⟩ key = x,
    Section.value? ⟨path, others, asked'⟩ key = y at hgiven
  cases hgiven with
  | none => rfl
  | some hvw => exact congrArg (Except.map some) (hd _ _ _ hvw)

theorem field? (h : Entries.SameGiven below keys entries others) (hkey : key ∈ keys)
    (hd : d.Overlooks (below key)) :
    Reading.Overlooks keys path entries others known (Reading.field? key d) (key :: known) where
  outcome asked asked' _ := by
    rw [outcome_field?, outcome_field?]
    exact read?_eq h hkey hd asked asked'
  after _ _ _ hasked _ := ⟨_, _, after_field? _ _ _, after_field? _ _ _, hasked.ask key⟩

theorem read_eq (h : Entries.SameGiven below keys entries others) (hkey : key ∈ keys)
    (hd : d.Overlooks (below key)) (asked asked' : List String) :
    Section.read ⟨path, entries, asked⟩ key d = Section.read ⟨path, others, asked'⟩ key d := by
  have hgiven := rel_value? h hkey path asked asked'
  unfold Section.read
  generalize Section.value? ⟨path, entries, asked⟩ key = x,
    Section.value? ⟨path, others, asked'⟩ key = y at hgiven
  cases hgiven with
  | none => rfl
  | some hvw => exact hd _ _ _ hvw

theorem field (h : Entries.SameGiven below keys entries others) (hkey : key ∈ keys)
    (hd : d.Overlooks (below key)) :
    Reading.Overlooks keys path entries others known (Reading.field key d) (key :: known) where
  outcome asked asked' _ := by
    rw [outcome_field, outcome_field]
    exact read_eq h hkey hd asked asked'
  after _ _ _ hasked _ := ⟨_, _, after_field _ _ _, after_field _ _ _, hasked.ask key⟩

theorem fieldD {default : α} (h : Entries.SameGiven below keys entries others) (hkey : key ∈ keys)
    (hd : d.Overlooks (below key)) :
    Reading.Overlooks keys path entries others known (Reading.fieldD key d default) (key :: known) :=
  .bind (.field? h hkey hd) fun _ _ _ => .pure _ (List.Subset.refl _)

end Field

section Entries

variable {R : String → Value → Value → Prop}

/-- Keys that are forbidden are no fields, and null is not overlooked there. -/
theorem forbid {forbidden : List String} (h : entries.Agree R keys others)
    (hkeys : ∀ key ∈ forbidden, key ∉ keys) (agent : String) :
    Reading.Overlooks keys path entries others known (Reading.forbid forbidden agent) known where
  outcome asked asked' _ := by
    have hfind : forbidden.find? (· ∈ entries.keys) = forbidden.find? (· ∈ others.keys) := by
      rw [← List.head?_filter, ← List.head?_filter, List.filter_congr fun key hkey => ?_]
      simp only [h.mem_keys_iff (hkeys key hkey)]
    rw [outcome_forbid, outcome_forbid, Section.without, Section.without, hfind]
  after asked asked' _ hasked _ := ⟨asked, asked', after_forbid _ _ _, after_forbid _ _ _, hasked⟩

/-- What is passed on is no field. -/
theorem rest (h : entries.Agree R keys others) (hkeys : keys ⊆ known) :
    Reading.Overlooks keys path entries others known Reading.rest known where
  outcome _ _ hasked := congrArg Except.ok (hasked.unasked_eq h hkeys)
  after asked asked' _ hasked _ := by
    refine ⟨entries.keys ++ asked, others.keys ++ asked', rfl, rfl, ?_, ?_, fun key hkey => ?_⟩
    · exact List.subset_append_of_subset_right _ hasked.left
    · exact List.subset_append_of_subset_right _ hasked.right
    · rw [List.mem_append, List.mem_append, h.mem_keys_iff hkey, hasked.others key hkey]

/-- What is refused at the end of a section is no field. -/
theorem close (h : entries.Agree R keys others) (hkeys : keys ⊆ known) (policy : UnknownFields) :
    Reading.Overlooks keys path entries others known (Reading.close policy) known where
  outcome asked asked' hasked := by
    rw [outcome_close, outcome_close]
    unfold Section.closed
    rw [hasked.unasked_eq h hkeys]
  after asked asked' _ hasked _ := ⟨asked, asked', after_close _ _, after_close _ _, hasked⟩

/-- Most sections are closed at their end, and then there is an answer. -/
theorem closing (h : entries.Agree R keys others) (hkeys : keys ⊆ known) (policy : UnknownFields) (a : α) :
    Reading.Overlooks keys path entries others known (Reading.close policy >>= fun _ => Pure.pure a) [] :=
  .bind (.close h hkeys policy) fun _ _ _ => .pure a (List.nil_subset _)

end Entries

end Reading.Overlooks

/-- A section overlooks what is omitted of its fields. -/
theorem Decoder.Overlooks.section {α : Type} {keys : Entries → List String}
    {below : Entries → String → Value → Fields} {r : Reading α}
    (h : ∀ path entries others, Entries.SameGiven (below others) (keys others) entries others →
      Reading.Overlooks (keys others) path entries others [] r []) :
    Decoder.Overlooks (Fields.ofSection keys below) r.decode := by
  intro path v w hsame
  cases w with
  | object others =>
    rcases hsame with rfl | ⟨entries, _, rfl, ⟨⟩, hentries⟩
    · rfl
    · refine (h path entries others hentries).outcome [] [] ?_
      exact ⟨List.nil_subset _, List.nil_subset _, fun _ _ => .rfl⟩
  | _ =>
    obtain rfl : v = _ := hsame
    rfl

/-- A list of descriptors overlooks what is omitted of its items. -/
theorem Decoder.overlooks_descriptors {α : Type} {reading : List String → Reading α}
    {scope : α → Option String} {item : Value → Fields}
    (h : ∀ taken, Decoder.Overlooks item (reading taken).decode) :
    Decoder.Overlooks (fun _ => .items item) (descriptors reading scope) := by
  have hfrom (path : Path) {items others : List Value}
      (hitems : List.Forall₂ (fun v w => (item w).SameGiven v w) items others) (position : Nat)
      (taken : List String) : descriptorsFrom reading scope path position taken items =
        descriptorsFrom reading scope path position taken others := by
    induction hitems generalizing position taken with
    | nil => rfl
    | @cons v w items others hvw _ ih =>
      rw [descriptorsFrom, descriptorsFrom, h taken _ v w hvw]
      exact except_bind_congr fun a _ => by rw [ih]
  rintro path v w (rfl | ⟨items, others, rfl, rfl, hitems⟩)
  · rfl
  · exact hfrom path hitems 0 []

end Regimen
